import FlashWallet.Proof.Debits
import FlashWallet.Proof.OrderIds
import FlashWallet.Proof.Runs
import FlashWallet.Proof.Staged

/-!
# What is charged is delivered

A purchase debits the wallet first and writes its order afterwards. In between the debit is a debt:
`Owing` says that each debit either has its confirmed order or is owed by a call that is about to
write it. The debt is lost when the order is refused over a row that is no such order: one that
records a failure, or somebody else's. The debit is not reversed then.
-/

set_option autoImplicit false

namespace FlashWallet

open Lib

/-- User `userId` has a confirmed order under the key. -/
def World.Delivered (w : World) (userId : Uuid) (key : Uuid × String) : Prop :=
  ∃ o ∈ w.orders, o.key = key ∧ o.status = .CONFIRMED ∧ o.userId = userId

/-- Entry `e` charges `userId` for a purchase under the key. -/
structure World.Charges (w : World) (e : LedgerEntry) (userId eventId : Uuid) (key : String) :
    Prop where
  booked : e ∈ w.ledger
  type : e.type = .PURCHASE
  reference : e.referenceId = FlashSaleService.walletReferenceId eventId key
  wallet : w.Owns e.walletId userId

/-- Whoever has been charged has an order. -/
def World.NoChargeWithoutGoods (w : World) : Prop :=
  ∀ e userId eventId key, w.Charges e userId eventId key → w.Delivered userId (eventId, key)

/-- No purchase is in flight. -/
def SalesAtRest (c : State) : Prop :=
  ∀ call ∈ c.calls, call.request.purchase?.isSome = true → call.inFlight = false

instance (c : State) : Decidable (SalesAtRest c) :=
  inferInstanceAs (Decidable (∀ call ∈ c.calls, call.request.purchase?.isSome = true →
    call.inFlight = false))

/-- The step writes a confirmed order, and the key is taken by a failure or by another user. -/
def confirmsOverOther (c : State) : Event → Bool
  | .exec i .ok =>
    match nextStmt? c (.exec i .ok) with
    | some (.orderCreate d) =>
      d.status = .CONFIRMED && (c.world.order? (d.flashSaleEventId, d.idempotencyKey)).any fun o =>
        o.status ≠ .CONFIRMED || o.userId ≠ d.userId
    | _ => false
  | _ => false

/-- Each charge has its order, or a call that is about to write it. -/
def Owing (w : World) (ps : List Progress) : Prop :=
  ∀ e userId eventId key, w.Charges e userId eventId key → w.Delivered userId (eventId, key) ∨
    ∃ (i : Nat) (dto : PurchaseFlashSaleDto) (orderId : Uuid),
      ps[i]? = some (.buying userId dto (.paid orderId)) ∧ dto.eventId = eventId ∧
        dto.idempotencyKey = key

theorem World.Delivered.mono {w w' : World} {userId : Uuid} {key : Uuid × String}
    (h : w.Delivered userId key) (hw : w.Evolves w') : w'.Delivered userId key :=
  let ⟨o, ho, hkey, hstatus, huser⟩ := h
  ⟨o, hw.mem_orders ho, hkey, hstatus, huser⟩

/-- Where a charge comes from: it was there, or the call that takes the step commits it. -/
theorem charge_origin {ok : State → Event → Prop} (hok : ∀ c l, ok c l → viaApi c l) {tr : Trace}
    {c : State} (hrun : RunFrom State.initial ok tr c) {i : Nat} {req : Request} {o : Stmt}
    {k : Except Err o.Reply → Service Response} {reply : Except Err o.Reply} {w : World}
    (hi : c.calls[i]? = some ⟨req, .call (S := sql) o k, false⟩)
    (hs : World.Served i c.world o reply w) {e : LedgerEntry} {userId eventId : Uuid} {key : String}
    (h : w.Charges e userId eventId key) :
    c.world.Charges e userId eventId key ∨ Commits o reply ∧
      ∃ dto, req = .purchase userId dto ∧ dto.eventId = eventId ∧ dto.idempotencyKey = key := by
  have hw := (Reachable.worldOk ⟨tr, hrun⟩).served hs
  have hevolves := World.Evolves.served hs
  have hold : e ∈ c.world.ledger → c.world.Charges e userId eventId key := fun he => by
    obtain ⟨u, -, -, -, howns, -⟩ := purchase_entry hok hrun he h.type
    obtain rfl := hw.owner_unique (hevolves.owns _ _ howns) h.wallet
    exact ⟨he, h.type, h.reference, howns⟩
  have hidle : w.ledger = c.world.ledger → c.world.Charges e userId eventId key :=
    fun hledger => hold (hledger ▸ h.booked)
  cases bankMove_of_exec hrun hi hs with
  | idle bank => exact Or.inl (hidle (congrArg Bank.ledger bank))
  | opened row asked balance version fresh blank bank =>
    exact Or.inl (hidle (congrArg Bank.ledger bank))
  | posted es balanced posts bank =>
    have hledger : w.ledger = c.world.ledger ++ es := congrArg Bank.ledger bank
    rcases List.mem_append.mp (hledger ▸ h.booked) with he | he
    · exact Or.inl (hold he)
    · refine Or.inr ⟨(World.ledger_served hs).resolve_left fun hsame => ?_, ?_⟩
      · rw [hsame, List.self_eq_append_right] at hledger
        rw [hledger] at he
        cases he
      · obtain ⟨u, dto, p, hreq, -, howns, -, -, href⟩ :=
          posts.purchase (request_viaApi hok hrun hi) he h.type
        obtain ⟨rfl, rfl⟩ := FlashSaleService.walletReferenceId_inj (h.reference.symm.trans href)
        obtain rfl := hw.owner_unique (hevolves.owns _ _ howns) h.wallet
        exact ⟨dto, hreq, rfl, rfl⟩

/-- The call that owes the order delivers it, unless it meets another's. -/
theorem delivered_of_paid {ok : State → Event → Prop} {tr : Trace} {c : State} {ps : List Progress}
    (hrun : RunFrom State.initial ok tr c) {i : Nat} {req : Request} {o : Stmt}
    {k : Except Err o.Reply → Service Response} {userId orderId : Uuid} {dto : PurchaseFlashSaleDto}
    {x : Choice} {reply : Except Err o.Reply} {w : World}
    (h : Issues c ps i req o k (.buying userId dto (.paid orderId)) x reply w) (hx : x ≠ .fault)
    (hother : confirmsOverOther c (.exec i x) = false) :
    w.Delivered userId (dto.eventId, dto.idempotencyKey) := by
  obtain ⟨hi, -, hpre, -, -, hexec⟩ := h
  cases hpre
  rcases order_written_or_taken hrun hi hexec hx with
    ⟨rfl, ⟨-, order, -, rfl, rfl⟩ | ⟨htaken, -, rfl⟩⟩
  · exact ⟨_, List.mem_append_right _ List.mem_cons_self, rfl, rfl, rfl⟩
  · obtain ⟨order, horder⟩ := Option.isSome_iff_exists.mp htaken
    obtain ⟨hmem, hkey⟩ := World.order?_eq_some horder
    have hnext : nextStmt? c (.exec i .ok) = some
        (.orderCreate ⟨orderId, userId, dto.eventId, dto.idempotencyKey, .CONFIRMED⟩) := by
      simp [nextStmt?, hi]
    simp only [confirmsOverOther, hnext, horder] at hother
    refine ⟨order, hmem, hkey, ?_⟩
    simpa using hother

/-- Runs of clients in which nothing fails and no confirmed order meets another. -/
def delivering : State → Event → Prop := fun c l => calm c l ∧ confirmsOverOther c l = false

theorem owing_staged : Staged delivering State.initial fun _ c ps => Owing c.world ps where
  arrive _ c ps r _ _ h _ e userId eventId key hcharge :=
    (h e userId eventId key hcharge).imp_right fun ⟨i, dto, orderId, hp, hkey⟩ =>
      ⟨i, dto, orderId, (List.getElem?_append_left (List.getElem?_eq_some_iff.mp hp).1).trans hp, hkey⟩
  exec tr c ps i req o k p x reply w hrun h hok hissues e userId eventId key hcharge := by
    have hevolves := World.Evolves.served hissues.served
    have hlt := (List.getElem?_eq_some_iff.mp hissues.progress).1
    rcases charge_origin (fun _ _ h => h.1.2) hrun hissues.call hissues.served hcharge with
      hold | ⟨hcommits, dto, rfl, rfl, rfl⟩
    · rcases h e userId eventId key hold with hd | ⟨j, dto, orderId, hj, rfl, rfl⟩
      · exact Or.inl (hd.mono hevolves)
      · by_cases hij : j = i
        · subst hij
          obtain rfl := Option.some.inj (hissues.progress.symm.trans hj)
          refine Or.inl (delivered_of_paid hrun hissues ?_ hok.2)
          rintro rfl
          cases hok.1.1
        · exact Or.inr ⟨j, dto, orderId, (List.getElem?_set_ne (Ne.symm hij)).trans hj, rfl, rfl⟩
    · have hpre := hissues.pre
      cases p with
      | other => cases hissues.request
      | buying u d s =>
        cases hissues.request
        cases hpre with
        | commit orderId =>
          cases reply with
          | ok _ => exact Or.inr ⟨i, dto, orderId, List.getElem?_set_self hlt, rfl, rfl⟩
          | error _ => exact hcommits.elim
        | _ => exact hcommits.elim
  crash _ _ _ _ _ _ _ _ _ _ hok _ := absurd hok.1.1 (by simp [noFaults, Lib.Label.isFault])
  env _ c ps _ w _ _ h _ he e userId eventId key hcharge := by
    have hsame := World.env_same he
    have hcharge' : c.world.Charges e userId eventId key :=
      { booked := hsame.ledger ▸ hcharge.booked
        type := hcharge.type
        reference := hcharge.reference
        wallet := by
          have howns := hcharge.wallet
          rwa [World.Owns, hsame.wallets] at howns }
    exact (h e userId eventId key hcharge').imp_left fun hd => hd.mono (.env he)

/-- **No charge without goods**, whenever no purchase is in flight, in runs in which no confirmed
order meets a failure or another user's order under its key. -/
theorem no_charge_without_goods {c : State} (h : Reachable delivering c) (hrest : SalesAtRest c) :
    c.world.NoChargeWithoutGoods := by
  obtain ⟨tr, hrun⟩ := h
  obtain ⟨ps, howing, hrequested, ha⟩ := owing_staged.sound_initial
    (fun e userId eventId key hcharge => absurd hcharge.booked List.not_mem_nil) hrun
  intro e userId eventId key hcharge
  refine (howing e userId eventId key hcharge).resolve_right ?_
  rintro ⟨i, dto, orderId, hp, -⟩
  obtain ⟨call, hi, hreq⟩ := hrequested.call hp
  have hcall := List.mem_of_getElem? hi
  have hlive := uncrashed_of_run (fun _ _ h => absurd h.1.1 (by simp [noFaults, Lib.Label.isFault]))
    (by simp [State.initial]) hrun call hcall
  have hflight := inFlight_of_stage ha hi hp hlive fun r h => by cases h
  have hbuys : call.request.purchase?.isSome = true := by rw [hreq]; rfl
  rw [hrest call hcall hbuys] at hflight
  cases hflight

section

open Sample

/-- Alice asks twice under one key and deposits in between: the first attempt finds her wallet empty
and gives the unit back; the second takes it and is paid for; then the first records its failure, and
the second finds the key taken. -/
def paidTooLate : List Event :=
  openSale 0 ++ register 1 alice aliceWallet ++
    [.arrive (.purchase alice lamp), .arrive (.purchase alice lamp)] ++ runs 3 1 ++ runs 2 4 ++
    [.exec 2 (.fresh id₃)] ++ runs 2 5 ++ fund 4 alice id₁ ++ runs 3 3 ++ [.exec 3 (.fresh id₄)] ++
    runs 3 6 ++ runs 2 1 ++ runs 3 3

def lampPaid : LedgerEntry :=
  ⟨aliceWallet, .PURCHASE, ⟨-1000, by decide⟩, Money.zero,
    FlashSaleService.walletReferenceId sale "lamp", 0⟩

set_option maxRecDepth 8000 in
/-- Alice is charged, and her only order is a failed one. -/
theorem charged_paidTooLate :
    Reachable calm (stateAfter State.initial paidTooLate) ∧
      SalesAtRest (stateAfter State.initial paidTooLate) ∧
      ¬(stateAfter State.initial paidTooLate).world.NoChargeWithoutGoods := by
  refine ⟨calm_stateAfter paidTooLate (by decide), by decide, fun h => ?_⟩
  have hcharge : (stateAfter State.initial paidTooLate).world.Charges lampPaid alice sale "lamp" :=
    ⟨by decide, rfl, rfl, show (aliceWallet, alice) ∈ _ by decide⟩
  obtain ⟨o, ho, -, hstatus, -⟩ := h lampPaid alice sale "lamp" hcharge
  have hfailed : ∀ o ∈ (stateAfter State.initial paidTooLate).world.orders, o.status = .FAILED := by
    decide
  rw [hfailed o ho] at hstatus
  cases hstatus

set_option maxRecDepth 4000 in
theorem no_charge_without_goods_bought :
    SalesAtRest (stateAfter State.initial bought) ∧
      lampPaid ∈ (stateAfter State.initial bought).world.ledger ∧
      (stateAfter State.initial bought).world.NoChargeWithoutGoods :=
  have hrun := run_stateAfter (fun c l => !l.isFault && !l.isBareDebit && !confirmsOverOther c l)
    State.initial bought (by decide)
  have hrest : SalesAtRest (stateAfter State.initial bought) := by decide
  ⟨hrest, by decide, no_charge_without_goods ⟨_, hrun.mono fun _ _ h => by
    simpa [delivering, calm, noFaults, viaApi] using h⟩ hrest⟩

end

end FlashWallet
