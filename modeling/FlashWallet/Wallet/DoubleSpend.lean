import FlashWallet.Proof.Audit
import FlashWallet.Proof.Runs

/-!
# A transfer is spent once

All duplicates of a transfer may pass both lookups, and each then fights for the row locks. What
decides is the unique index: the entries of one sender under one key and of type `TRANSFER_OUT`
have one and the same index key, and a commit that posts none of them posts nothing.
-/

set_option autoImplicit false

namespace FlashWallet

open Lib

/-- A transfer by `userId` under `key`, to anybody, of anything. -/
def Request.isTransfer (userId : Uuid) (key : String) : Request → Bool
  | .transfer u dto => u = userId && dto.idempotencyKey = key
  | _ => false

/-- A step of a call of such a transfer. -/
def byTransfer (userId : Uuid) (key : String) (s : Step State Event) : Bool :=
  (requestOf? s.before s.label).any (Request.isTransfer userId key)

/-- Some balance or the ledger changed. -/
def movesMoney (s : Step State Event) : Bool := s.after.world.bank ≠ s.before.world.bank

theorem Request.isTransfer_iff {userId : Uuid} {key : String} {r : Request} :
    r.isTransfer userId key = true ↔ ∃ dto, r = .transfer userId dto ∧ dto.idempotencyKey = key := by
  cases r <;> simp [isTransfer]

theorem byTransfer_iff {userId : Uuid} {key : String} {s : Step State Event} {i : Nat} {x : Choice}
    {call : ServiceCall} (hlabel : s.label = .exec i x) (hcall : s.before.calls[i]? = some call) :
    byTransfer userId key s = true ↔ call.request.isTransfer userId key = true := by
  simp [byTransfer, requestOf?, hlabel, Lib.Label.actor, hcall]

/-- Either the step leaves the money alone, or it posts the two sides of the transfer. -/
theorem entries_byTransfer {userId : Uuid} {key : String} {s : Step State Event} (h : Moves s)
    (hsel : byTransfer userId key s = true) :
    movesMoney s = false ∧ entriesOf s = [] ∨
      ∃ out inn, entriesOf s = [out, inn] ∧ out.type = .TRANSFER_OUT ∧ out.referenceId = key ∧
        s.before.world.Owns out.walletId userId ∧ inn.type = .TRANSFER_IN ∧
        inn.walletId ≠ out.walletId := by
  have hidle : s.after.world.bank = s.before.world.bank → movesMoney s = false ∧ entriesOf s = [] :=
    fun bank => ⟨by simp [movesMoney, bank], entriesOf_of_idle (congrArg Bank.ledger bank)⟩
  cases h with
  | idle bank => exact Or.inl (hidle bank)
  | moved i x call label found move =>
    obtain ⟨dto, hreq, hkey⟩ := Request.isTransfer_iff.mp ((byTransfer_iff label found).mp hsel)
    rw [hreq] at move
    cases move with
    | idle bank => exact Or.inl (hidle bank)
    | opened row asked => cases asked
    | posted es balanced posts bank =>
      have hes := entriesOf_of_post bank
      rcases posts with rfl | ⟨out, inn, rfl, hot, hoa, hor, hoo, hit, hia, hir, hio⟩
      · exact Or.inl (hidle (bank.trans (Bank.post_nil _)))
      · have hdistinct := balanced.distinct
        simp only [List.map_cons, List.map_nil, List.nodup_cons, List.mem_singleton] at hdistinct
        exact Or.inr ⟨out, inn, hes, hot, hor.trans hkey, hoo, hit, Ne.symm hdistinct.1⟩

/-- A step of anybody else posts no side of it. -/
theorem entries_not_byTransfer {userId id : Uuid} {key : String} {s : Step State Event}
    (h : Moves s) (hsel : byTransfer userId key s = false)
    (howner : ∀ user, s.before.world.Owns id user → user = userId) :
    ∀ e ∈ entriesOf s, e.key ≠ (id, key, .TRANSFER_OUT) := by
  intro e he hkey
  obtain ⟨hwallet, href, htype⟩ : e.walletId = id ∧ e.referenceId = key ∧ e.type = .TRANSFER_OUT := by
    simpa [LedgerEntry.key] using hkey
  cases h.entries with
  | none entries ledger => rw [entries] at he; cases he
  | some i x call label found balanced posts bank =>
    have hno : ∀ dto, call.request = .transfer userId dto → dto.idempotencyKey ≠ key := by
      intro dto hreq heq
      have htransfer := (byTransfer_iff label found).mpr (Request.isTransfer_iff.mpr ⟨dto, hreq, heq⟩)
      rw [hsel] at htransfer
      cases htransfer
    rcases posts with hnil | posts
    · rw [hnil] at he; cases he
    · cases hreq : call.request <;> rw [hreq] at posts
      case transfer u dto =>
        obtain ⟨out, inn, hes, hot, hoa, hor, hoo, hit, hia, hir, hio⟩ := posts
        rw [hes] at he
        rcases List.mem_cons.mp he with rfl | he
        · obtain rfl := howner u (hwallet ▸ hoo)
          exact hno dto hreq (hor.symm.trans href)
        · obtain rfl := List.mem_singleton.mp he
          rw [hit] at htype
          cases htype
      case deposit u dto =>
        obtain ⟨e', hes, ht, -⟩ := posts
        obtain rfl := List.mem_singleton.mp (hes ▸ he)
        rw [ht] at htype
        cases htype
      case purchaseDeduct u amount ref =>
        obtain ⟨e', hes, ht, -⟩ := posts
        obtain rfl := List.mem_singleton.mp (hes ▸ he)
        rw [ht] at htype
        cases htype
      case purchase u dto =>
        obtain ⟨e', p, hes, ht, -⟩ := posts
        obtain rfl := List.mem_singleton.mp (hes ▸ he)
        rw [ht] at htype
        cases htype
      all_goals exact posts.elim

/-- A list whose elements all have one key has at most one element, if keys do not repeat. -/
theorem length_le_one_of_key {es : List LedgerEntry} (hnodup : (es.map LedgerEntry.key).Nodup)
    {k : Uuid × String × LedgerType} (hkey : ∀ e ∈ es, e.key = k) : es.length ≤ 1 := by
  match es with
  | [] => simp
  | [e] => simp
  | e :: e' :: es =>
    have hhead := (List.nodup_cons.mp hnodup).1
    rw [hkey e (by simp), ← hkey e' (by simp)] at hhead
    exact absurd (List.mem_cons_self) hhead

/-- The debits of the transfer that its own calls booked. -/
def debits (userId : Uuid) (key : String) (tr : Trace) : List LedgerEntry :=
  (booked (byTransfer userId key) tr).filter (·.type = .TRANSFER_OUT)

/-- Each step of theirs that moves money books a debit. -/
theorem length_moving_le_debits {ok : State → Event → Prop} {c : State} {tr : Trace}
    (hrun : RunFrom State.initial ok tr c) (userId : Uuid) (key : String) :
    (tr.filter fun s => byTransfer userId key s && movesMoney s).length ≤
      (debits userId key tr).length := by
  induction hrun with
  | nil => simp [debits]
  | @snoc tr c c' l run allowed next ih =>
    have hmoves := moves_of_step (run.mono fun _ _ _ => trivial : RunFrom State.initial anyStep tr c) next
    rw [List.filter_append, List.length_append, debits, booked_snoc, List.filter_append,
      List.length_append]
    refine Nat.add_le_add ih ?_
    by_cases hsel : byTransfer userId key ⟨c, l, c'⟩
    · rcases entries_byTransfer hmoves hsel with ⟨hidle, -⟩ | ⟨out, inn, hes, hot, -, -, hit, -⟩
      · simp [hidle]
      · rw [if_pos hsel, hes]
        have hout : [out, inn].filter (·.type = .TRANSFER_OUT) = [out] := by simp [hot, hit]
        rw [hout]
        exact List.length_filter_le _ _
    · simp [hsel]

theorem mem_debits {ok : State → Event → Prop} {c : State} {tr : Trace}
    (hrun : RunFrom State.initial ok tr c) {userId : Uuid} {key : String} {e : LedgerEntry}
    (he : e ∈ debits userId key tr) :
    c.world.Owns e.walletId userId ∧ e.key = (e.walletId, key, .TRANSFER_OUT) := by
  obtain ⟨he, htype⟩ := List.mem_filter.mp he
  rw [decide_eq_true_iff] at htype
  obtain ⟨s, hs, hsel, i, x, call, label, found, hes, -⟩ := mem_booked initial_reachable hrun he
  have hmoves := moves_of_mem initial_reachable hrun hs
  rcases entries_byTransfer hmoves hsel with ⟨-, hnil⟩ | ⟨out, inn, hpair, hot, hor, hoo, hit, -⟩
  · rw [hnil] at hes; cases hes
  · rw [hpair] at hes
    rcases List.mem_cons.mp hes with rfl | hes
    · refine ⟨((evolves_of_run hrun).2 s hs).1.owns _ _ hoo, ?_⟩
      rw [LedgerEntry.key, hor, hot]
    · obtain rfl := List.mem_singleton.mp hes
      rw [hit] at htype
      cases htype

/-- What its calls booked in the sender's wallet is what the ledger holds of it there. -/
theorem listing_booked {ok : State → Event → Prop} {c : State} {tr : Trace}
    (hrun : RunFrom State.initial ok tr c) {userId id : Uuid} (key : String)
    (hid : ∀ id', c.world.Owns id' userId → id' = id)
    (howner : ∀ user, c.world.Owns id user → user = userId) :
    listing (booked (byTransfer userId key) tr) id =
      c.world.ledger.filter (·.key = (id, key, .TRANSFER_OUT)) := by
  induction hrun with
  | nil => simp [State.initial, World.initial, listing]
  | @snoc tr c c' l run allowed next ih =>
    have hmoves := moves_of_step run next
    have hevolves := evolves_of_step next
    have hid₀ : ∀ id', c.world.Owns id' userId → id' = id := fun id' h => hid id' (hevolves.owns _ _ h)
    have howner₀ : ∀ user, c.world.Owns id user → user = userId :=
      fun user h => howner user (hevolves.owns _ _ h)
    have hledger : c'.world.ledger = c.world.ledger ++ entriesOf ⟨c, l, c'⟩ := hmoves.entries.ledger
    rw [booked_snoc, listing_append, ih hid₀ howner₀, hledger, List.filter_append]
    congr 1
    by_cases hsel : byTransfer userId key ⟨c, l, c'⟩
    · rw [if_pos hsel]
      rcases entries_byTransfer hmoves hsel with ⟨-, hnil⟩ | ⟨out, inn, hes, hot, hor, hoo, hit, hne⟩
      · simp [hnil, listing]
      · have hwallet := hid₀ _ hoo
        rw [hes]
        simp [listing, LedgerEntry.key, hot, hor, hit, hwallet, hwallet ▸ hne]
    · rw [if_neg hsel]
      exact (List.filter_eq_nil_iff.mpr fun e he hkey =>
        entries_not_byTransfer hmoves (by simpa using hsel) howner₀ e he (by simpa using hkey)).symm

/-- **No double spending.** Whatever Redis does and whatever fails, of all transfers by one sender
under one key at most one step ever changes the wallets or the ledger; the ledger holds at most
one debit of it; and what all its calls together did to the sender's balance is that debit's
amount, or nothing. -/
theorem no_double_spend {c : State} {tr : Trace} (hrun : RunFrom State.initial anyStep tr c)
    (userId : Uuid) (key : String) :
    (tr.filter fun s => byTransfer userId key s && movesMoney s).length ≤ 1 ∧
      ∀ row ∈ c.world.wallets, row.userId = userId →
        (c.world.ledger.filter (·.key = (row.id, key, .TRANSFER_OUT))).length ≤ 1 ∧
        effect (fun c => c.world.bank.balanceOf row.id) (byTransfer userId key) tr =
          sumAmounts (c.world.ledger.filter (·.key = (row.id, key, .TRANSFER_OUT))) := by
  have hworld := Reachable.worldOk ⟨tr, hrun⟩
  refine ⟨(length_moving_le_debits hrun userId key).trans ?_, fun row hrow huser => ⟨?_, ?_⟩⟩
  · have hnodup : ((debits userId key tr).map LedgerEntry.key).Nodup :=
      (booked_nodup initial_reachable hrun).sublist (List.filter_sublist.map _)
    cases hd : debits userId key tr with
    | nil => simp
    | cons e es =>
      rw [← hd]
      refine length_le_one_of_key hnodup (k := e.key) fun e' he' => ?_
      obtain ⟨howns, hkey⟩ := mem_debits hrun (hd ▸ List.mem_cons_self : e ∈ debits userId key tr)
      obtain ⟨howns', hkey'⟩ := mem_debits hrun he'
      rw [hkey, hkey', hworld.owned_unique howns howns']
  · exact length_le_one_of_key (hworld.ledger_nodup.sublist (List.filter_sublist.map _))
      fun e he => by simpa using (List.mem_filter.mp he).2
  · subst huser
    have howns := World.owns_of_mem hrow
    rw [effect_balanceOf initial_reachable hrun, listing_booked hrun key
      (fun id' h => hworld.owned_unique h howns) fun user h => hworld.owner_unique h howns]

section

open Sample

/-- Alice sends Bob half of what she has, twice under one key: both calls pass both lookups before
either takes a lock. -/
def sentTwice : List Event :=
  register 0 alice aliceWallet ++ register 1 bob bobWallet ++ fund 2 alice id₁ ++
    [.arrive (.transfer alice toBob),
     .arrive (.transfer alice toBob)] ++
    runs 3 4 ++ runs 4 4 ++ runs 3 8 ++ runs 4 6

set_option maxRecDepth 4000 in
theorem no_double_spend_sentTwice :
    aliceHalf ∈ (stateAfter State.initial sentTwice).world.wallets ∧
      ((traceAfter State.initial sentTwice).filter fun s =>
        byTransfer alice "rent" s && movesMoney s).length ≤ 1 ∧
      effect (fun c => c.world.bank.balanceOf aliceWallet) (byTransfer alice "rent")
          (traceAfter State.initial sentTwice) =
        sumAmounts ((stateAfter State.initial sentTwice).world.ledger.filter
          (·.key = (aliceWallet, "rent", .TRANSFER_OUT))) :=
  have hrow : aliceHalf ∈ (stateAfter State.initial sentTwice).world.wallets := by decide
  have h := no_double_spend (anyRun_stateAfter sentTwice (by decide)) alice "rent"
  ⟨hrow, h.1, (h.2 aliceHalf hrow rfl).2⟩

end

end FlashWallet
