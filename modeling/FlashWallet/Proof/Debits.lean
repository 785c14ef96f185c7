import FlashWallet.Proof.Audit
import FlashWallet.Proof.References

/-!
# Debits for purchases

While the wallet is debited for a purchase by `purchase` alone, a `PURCHASE` entry in the ledger
says who made it: its reference can be read back, its wallet has one owner, and its amount is the
price of the event.
-/

set_option autoImplicit false

namespace FlashWallet

open Lib

/-- Requests that are not a bare debit. -/
def Request.viaApi : Request → Prop
  | .purchaseDeduct .. => False
  | _ => True

theorem request_viaApi {ok : State → Event → Prop} {tr : Trace} {c : State}
    (hok : ∀ c l, ok c l → FlashWallet.viaApi c l) (hrun : RunFrom State.initial ok tr c) {i : Nat}
    {call : ServiceCall} (hi : c.calls[i]? = some call) : call.request.viaApi := by
  refine system.requests_of_run Request.viaApi (fun c r h => ?_) hrun (by simp [State.initial])
    call (List.mem_of_getElem? hi)
  have hr := hok _ _ h
  cases r <;> trivial

/-- Among what a client's request may post, a purchase entry is a purchase's. -/
theorem Request.Posts.purchase {req : Request} {owns : Uuid → Uuid → Prop}
    {price : Uuid → Money → Prop} {es : List LedgerEntry} (h : req.Posts owns price es)
    (hapi : req.viaApi) {e : LedgerEntry} (he : e ∈ es) (htype : e.type = .PURCHASE) :
    ∃ userId dto p, req = .purchase userId dto ∧ es = [e] ∧ owns e.walletId userId ∧
      price dto.eventId p ∧ e.amount.cents = -p.cents ∧
      e.referenceId = FlashSaleService.walletReferenceId dto.eventId dto.idempotencyKey := by
  rcases h with rfl | h
  · cases he
  · cases req with
    | purchase userId dto =>
      obtain ⟨e', p, rfl, -, hprice, hamount, href, howns⟩ := h
      obtain rfl := List.mem_singleton.mp he
      exact ⟨userId, dto, p, rfl, rfl, howns, hprice, hamount, href⟩
    | purchaseDeduct => exact hapi.elim
    | deposit userId dto =>
      obtain ⟨e', rfl, ht, -⟩ := h
      obtain rfl := List.mem_singleton.mp he
      rw [ht] at htype
      cases htype
    | transfer userId dto =>
      obtain ⟨out, inn, rfl, hot, -, -, -, hit, -⟩ := h
      rcases List.mem_cons.mp he with rfl | he
      · rw [hot] at htype
        cases htype
      · obtain rfl := List.mem_singleton.mp he
        rw [hit] at htype
        cases htype
    | provisionWallet | createEvent => exact h.elim

/-- Every purchase entry is the debit of a purchase call: its reference names the event, and its
amount is that event's price. -/
theorem purchase_entry {ok : State → Event → Prop} {tr : Trace} {c : State}
    (hok : ∀ c l, ok c l → viaApi c l) (hrun : RunFrom State.initial ok tr c) {e : LedgerEntry}
    (he : e ∈ c.world.ledger) (htype : e.type = .PURCHASE) :
    ∃ userId, ∃ dto : PurchaseFlashSaleDto, ∃ p,
      (∃ call ∈ c.calls, call.request = .purchase userId dto) ∧ c.world.Owns e.walletId userId ∧
      c.world.Priced dto.eventId p ∧ e.amount.cents = -p.cents ∧
      e.referenceId = FlashSaleService.walletReferenceId dto.eventId dto.idempotencyKey := by
  have hbooked : e ∈ booked (fun _ => true) tr := by
    have hledger := ledger_eq_booked initial_reachable hrun
    rw [show State.initial.world.ledger = [] from rfl, List.nil_append] at hledger
    exact hledger ▸ he
  obtain ⟨s, hs, -, i, x, call, label, found, hes, posts⟩ := mem_booked initial_reachable hrun hbooked
  have hevolves := ((evolves_of_run hrun).2 s hs).1
  obtain ⟨⟨tr', hbefore⟩, -, -⟩ := hrun.of_mem hs
  obtain ⟨userId, dto, p, hreq, -, howns, hprice, hamount, href⟩ :=
    posts.purchase (request_viaApi hok hbefore found) hes htype
  obtain ⟨call', hi', hreq'⟩ := ((system.keeps_of_run hrun).2 s hs).1 i call found
  exact ⟨userId, dto, p, ⟨call', List.mem_of_getElem? hi', hreq'.trans hreq⟩,
    hevolves.owns _ _ howns, hevolves.priced _ _ hprice, hamount, href⟩

/-! ## In whose wallets -/

/-- The users in whose wallets a request may move money. -/
def Request.users : Request → List Uuid
  | .deposit userId _ => [userId]
  | .purchaseDeduct userId _ _ => [userId]
  | .transfer userId dto => [userId, dto.toUserId]
  | .purchase userId _ => [userId]
  | _ => []

theorem Request.Posts.users {req : Request} {owns : Uuid → Uuid → Prop}
    {price : Uuid → Money → Prop} {es : List LedgerEntry} (h : req.Posts owns price es)
    {e : LedgerEntry} (he : e ∈ es) : ∃ u ∈ req.users, owns e.walletId u := by
  rcases h with rfl | h
  · cases he
  · cases req with
    | deposit userId dto =>
      obtain ⟨e', rfl, -, -, howns⟩ := h
      exact ⟨userId, List.mem_singleton.mpr rfl, List.mem_singleton.mp he ▸ howns⟩
    | purchaseDeduct userId amount referenceId =>
      obtain ⟨e', rfl, -, -, -, howns⟩ := h
      exact ⟨userId, List.mem_singleton.mpr rfl, List.mem_singleton.mp he ▸ howns⟩
    | purchase userId dto =>
      obtain ⟨e', p, rfl, -, -, -, -, howns⟩ := h
      exact ⟨userId, List.mem_singleton.mpr rfl, List.mem_singleton.mp he ▸ howns⟩
    | transfer userId dto =>
      obtain ⟨out, inn, rfl, -, -, -, houtOwns, -, -, -, hinOwns⟩ := h
      rcases List.mem_cons.mp he with rfl | he
      · exact ⟨userId, List.mem_cons_self, houtOwns⟩
      · exact ⟨dto.toUserId, List.mem_cons_of_mem _ (List.mem_singleton.mpr rfl),
          List.mem_singleton.mp he ▸ hinOwns⟩
    | provisionWallet | createEvent => exact h.elim

/-! ## The step that debits -/

/-- The reply lets a transaction's writes into the ledger. -/
def Commits : (o : Stmt) → Except Err o.Reply → Prop
  | .commit, .ok _ => True
  | _, _ => False

theorem World.ledger_served {i : Nat} {w w' : World} {o : Stmt} {r : Except Err o.Reply}
    (hs : Served i w o r w') : w'.ledger = w.ledger ∨ Commits o r := by
  cases hs with
  | committed => exact Or.inr trivial
  | _ => exact Or.inl rfl

/-- What comes into the ledger was written under the lock of its wallet. -/
theorem World.posted_held {i : Nat} {w w' : World} {o : Stmt} {r : Except Err o.Reply} (hw : w.Ok)
    (hs : Served i w o r w') {e : LedgerEntry} (he : e ∈ w'.ledger) :
    e ∈ w.ledger ∨ Commits o r ∧ w.holder e.walletId = some i := by
  cases hs with
  | committed => exact (List.mem_append.mp he).imp_right fun he => ⟨trivial, hw.entriesLocked i e he⟩
  | _ => exact Or.inl he

/-- Statements that change what a transaction has written into the ledger so far. -/
def Stmt.buffers : Stmt → Bool
  | .ledgerEntryCreate _ | .commit | .rollback => true
  | _ => false

theorem World.entries_served {i : Nat} {w w' : World} {o : Stmt} {r : Except Err o.Reply}
    (hs : Served i w o r w') (ho : o.buffers = false) : (w'.tx i).entries = (w.tx i).entries := by
  cases hs with
  | updated => rw [World.setTx_self]
  | entered | committed | commitFailed | rolledBack => cases ho
  | _ => rfl

end FlashWallet
