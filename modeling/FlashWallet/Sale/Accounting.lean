import Mathlib.Algebra.BigOperators.Ring.Finset
import FlashWallet.Proof.Newcomers
import FlashWallet.Proof.Runs

/-!
# Exact accounting of distinct requests

While nothing fails and no two purchases share event and key, the stock of an event is always
accounted for exactly, and a purchase ends in one of three ways: it has bought, it was declined for
want of money, or it was turned away before it touched anything. What a call has done is read off
the trace: the change that its own steps made to the stock, the orders and the wallets.
-/

set_option autoImplicit false

namespace FlashWallet

open Lib

/-- A purchase arrives whose event and key have been asked for before. -/
def repeatsKey (c : State) : Event → Bool
  | .arrive r => r.orderKey?.any fun key => (requests c).any (·.orderKey? = some key)
  | _ => false

/-- Clients only, nothing fails, and no two purchases share event and key. -/
def distinctKeys : State → Event → Prop := fun c l => calm c l ∧ repeatsKey c l = false

theorem newcoming_of_distinctKeys {c : State} {l : Event} (h : distinctKeys c l) (e : Uuid) :
    newcoming e c l := by
  refine ⟨h.1, ?_⟩
  have hno := h.2
  cases l with
  | arrive r =>
    cases hkey : r.orderKey? with
    | none => simp [asksAgain, hkey]
    | some key =>
      simp only [repeatsKey, hkey, Option.any_some] at hno
      simp [asksAgain, hkey, hno]
  | _ => rfl

/-- The units of event `e` that call `i` has taken out of the stock and not confirmed. -/
def heldBy (e : Uuid) (i : Nat) (tr : Trace) : Int :=
  -effect (fun c => c.world.remaining e) (byCall i) tr -
    effect (fun c => (c.world.confirmed e : Int)) (byCall i) tr

/-- The units that the purchases in flight hold. -/
def unitsInFlight (e : Uuid) (tr : Trace) (c : State) : Int :=
  ((c.calls.zipIdx.filter fun p => p.1.request.purchase?.isSome && p.1.inFlight).map fun p =>
    heldBy e p.2 tr).sum

/-- Call `i` has bought: its order is confirmed, its user has been debited the price once, and a unit
is gone. -/
structure Bought (tr : Trace) (c : State) (i : Nat) (userId : Uuid) (dto : PurchaseFlashSaleDto)
    (r : Except Err Response) : Prop where
  order : ∃ o ∈ c.world.orders, o.key = dto.key ∧ o.status = .CONFIRMED ∧ o.userId = userId ∧
    r = .ok (.purchased (FlashSaleService.toOrderResult o false))
  once : c.world.Debit userId dto (booked (byCall i) tr)
  debited : ∃ wallet price, c.world.Owns wallet userId ∧ c.world.Priced dto.eventId price ∧
    ∀ id, effect (fun c => c.world.bank.balanceOf id) (byCall i) tr =
      if id = wallet then -price.cents else 0
  consumed : ∀ e, effect (fun c => c.world.remaining e) (byCall i) tr =
    if e = dto.eventId then -1 else 0

/-- Call `i` was declined: its order is a failed one, no wallet has changed, and the unit is back. -/
structure Declined (tr : Trace) (c : State) (i : Nat) (userId : Uuid) (dto : PurchaseFlashSaleDto)
    (r : Except Err Response) : Prop where
  order : ∃ o ∈ c.world.orders, o.key = dto.key ∧ o.status = .FAILED ∧ o.userId = userId
  rejected : ∃ err, r = .error err
  unbooked : booked (byCall i) tr = []
  untouched : ∀ id, effect (fun c => c.world.bank.balanceOf id) (byCall i) tr = 0
  returned : ∀ e, effect (fun c => c.world.remaining e) (byCall i) tr = 0

/-- Call `i` was turned away: there is no order, and none of its steps changed anything. -/
structure Rejected (tr : Trace) (c : State) (i : Nat) (dto : PurchaseFlashSaleDto)
    (r : Except Err Response) : Prop where
  rejected : ∃ err, r = .error err
  absent : ∀ o ∈ c.world.orders, o.key ≠ dto.key
  idle : ∀ s ∈ tr, byCall i s = true → s.after.world = s.before.world

/-- One of the three, and no two. -/
def ExactlyOne (a b c : Prop) : Prop := (a ∨ b ∨ c) ∧ ¬(a ∧ b) ∧ ¬(a ∧ c) ∧ ¬(b ∧ c)

/-! ## The stock -/

theorem accounting_staged (e : Uuid) :
    Staged distinctKeys State.initial fun tr c ps =>
      (∀ e' i userId dto s, 0 ≤ i ∧ dto.eventId = e' → ps[i]? = some (.buying userId dto s) →
        Newcomer tr c i userId dto s) ∧ Stocked e c.world ps :=
  have hnew : Staged distinctKeys State.initial fun tr c ps => ∀ e' i userId dto s,
      0 ≤ i ∧ dto.eventId = e' → ps[i]? = some (.buying userId dto s) →
        Newcomer tr c i userId dto s :=
    .forall fun e' => newcomer_staged .nil fun _ _ h => newcoming_of_distinctKeys h e'
  { arrive := fun tr c ps r hrun hreq h hok => ⟨hnew.arrive tr c ps r hrun hreq h.1 hok, h.2.arrive r⟩
    exec := fun tr c ps i req o k p x reply w hrun h hok hissues => by
      have hafter := hnew.exec tr c ps i req o k p x reply w hrun h.1 hok hissues
      refine ⟨hafter, h.2.served (Reachable.worldOk ⟨tr, hrun⟩) hissues.progress hissues.pre
        hissues.served ?_⟩
      cases p with
      | other => trivial
      | buying userId dto s =>
        have hlt := (List.getElem?_eq_some_iff.mp hissues.progress).1
        have halone := (hafter dto.eventId i userId dto _ ⟨Nat.zero_le i, rfl⟩
          (List.getElem?_set_self hlt)).alone
        show (Progress.buying userId dto (s.next o reply)).Regular
        cases hs : s.next o reply with
        | twice =>
          rw [hs] at halone
          exact halone.elim
        | _ => trivial
    crash := fun _ c _ i _ _ _ _ _ _ hok _ => absurd hok.1.1 (by simp [noFaults, Lib.Label.isFault])
    env := fun tr c ps en w hrun hreq h hok he => ⟨hnew.env tr c ps en w hrun hreq h.1 hok he, h.2.env he⟩ }

/-- The units a newcomer holds are the units its steps have taken. -/
theorem heldBy_newcomer {tr : Trace} {c : State} {i : Nat} {userId : Uuid} {dto : PurchaseFlashSaleDto}
    {s : Stage} (h : Newcomer tr c i userId dto s) (e : Uuid) :
    heldBy e i tr = ((Progress.buying userId dto s).units e : Nat) := by
  rw [heldBy, h.stock e, h.sold e]
  by_cases he : dto.eventId = e <;> simp [Progress.units, he]

theorem units_le_one (s : Stage) : s.units ≤ 1 := by cases s <;> simp [Stage.units]

/-- A purchase that has ended holds nothing. -/
theorem units_of_outcome {s : Stage} {r : Except Err OrderResult} (h : Outcome s r) : s.units = 0 := by
  cases h <;> rfl

section

variable {tr : Trace} {c : State} (hrun : RunFrom State.initial distinctKeys tr c)
include hrun

theorem uncrashed_of_distinctKeys : ∀ call ∈ c.calls, call.crashed = false :=
  uncrashed_of_run (fun _ _ h => absurd h.1.1 (by simp [noFaults, Lib.Label.isFault]))
    (by simp [State.initial]) hrun

/-- **Every unit is accounted for.** -/
theorem stock_accounted {ev : FlashSaleEvent} (hev : ev ∈ c.world.events) :
    ev.remaining + c.world.confirmed ev.id + unitsInFlight ev.id tr c = ev.totalStock := by
  obtain ⟨ps, ⟨hnew, hstocked⟩, hrequested, ha⟩ := (accounting_staged ev.id).sound_initial
    ⟨fun _ _ _ _ _ _ h => by simp at h, .initial _⟩ hrun
  have hnewcomer : ∀ (i : Nat) userId dto s, ps[i]? = some (.buying userId dto s) →
      Newcomer tr c i userId dto s := fun i userId dto s hp =>
    hnew dto.eventId i userId dto s ⟨Nat.zero_le i, rfl⟩ hp
  have hsound : ∀ p ∈ ps, p.Sound := fun p hp => by
    obtain ⟨i, hp⟩ := List.mem_iff_getElem?.mp hp
    cases p with
    | other => trivial
    | buying userId dto s =>
      have halone := (hnewcomer i userId dto s hp).alone
      cases s with
      | broken err => exact halone.elim
      | _ => trivial
  have hflight : unitsInFlight ev.id tr c = (heldUnits ev.id ps : Nat) := by
    rw [unitsInFlight, Platform.sum_filter_map, heldUnits, Nat.cast_list_sum, List.map_map]
    refine congrArg List.sum (Platform.map_eq_of_places (by simp [hrequested.length])
      fun i ci p hci hp => ?_)
    obtain ⟨call, hi, rfl⟩ : ∃ call, c.calls[i]? = some call ∧ ci = (call, i) := by
      simpa [List.getElem?_zipIdx, eq_comm] using hci
    have hsame : p.purchase? = call.request.purchase? := hrequested.same i call p hi hp
    cases p with
    | other => simp [← hsame, Progress.purchase?, Progress.units]
    | buying userId dto s =>
      dsimp only
      rw [heldBy_newcomer (hnewcomer i userId dto s hp), ← hsame]
      cases hin : call.inFlight with
      | true => rfl
      | false =>
        have hlive := uncrashed_of_distinctKeys hrun call (List.mem_of_getElem? hi)
        simp only [Call.inFlight, hlive, Bool.not_false, Bool.true_and, Option.isNone_eq_false_iff] at hin
        obtain ⟨r, hr⟩ := Option.isSome_iff_exists.mp hin
        obtain ⟨r', houtcome, -⟩ := ha.outcome hi hp hr
        simp [Progress.units, units_of_outcome houtcome]
  have hexact := hstocked.exact hsound ev hev rfl
  rw [hflight]
  omega

/-- No purchase holds more than one unit, or less than none. -/
theorem heldBy_bounds {i : Nat} {call : ServiceCall} (hi : c.calls[i]? = some call)
    (hbuys : call.request.purchase?.isSome = true) (e : Uuid) :
    0 ≤ heldBy e i tr ∧ heldBy e i tr ≤ 1 := by
  obtain ⟨ps, ⟨hnew, -⟩, hrequested, ha⟩ := (accounting_staged e).sound_initial
    ⟨fun _ _ _ _ _ _ h => by simp at h, .initial _⟩ hrun
  obtain ⟨p, hp⟩ := ha.books hi
  have hsame : p.purchase? = call.request.purchase? := hrequested.same i call p hi hp
  cases p with
  | other => rw [← hsame] at hbuys; cases hbuys
  | buying userId dto s =>
    rw [heldBy_newcomer (hnew dto.eventId i userId dto s ⟨Nat.zero_le i, rfl⟩ hp)]
    have hone := units_le_one s
    simp only [Progress.units]
    split <;> omega

/-! ## The endings -/

/-- How a purchase has ended. -/
theorem ending {i : Nat} {call : ServiceCall} {userId : Uuid} {dto : PurchaseFlashSaleDto}
    {r : Except Err Response} (hi : c.calls[i]? = some call)
    (hreq : call.request = .purchase userId dto) (hr : call.result? = some r) :
    Bought tr c i userId dto r ∨ Declined tr c i userId dto r ∨ Rejected tr c i dto r := by
  obtain ⟨ps, ⟨hnew, -⟩, hrequested, ha⟩ := (accounting_staged dto.eventId).sound_initial
    ⟨fun _ _ _ _ _ _ h => by simp at h, .initial _⟩ hrun
  obtain ⟨p, hp⟩ := ha.books hi
  have hsame : p.purchase? = call.request.purchase? := hrequested.same i call p hi hp
  have hanswer := ha.outcome hi hp hr
  rw [hreq] at hsame
  cases p with
  | other => cases hsame
  | buying u d s =>
    cases hsame
    have h := hnew dto.eventId i userId dto s ⟨Nat.zero_le i, rfl⟩ hp
    have hbalances : ∀ id, effect (fun c => c.world.bank.balanceOf id) (byCall i) tr =
        sumAmounts (listing (booked (byCall i) tr) id) := effect_balanceOf initial_reachable hrun
    have hrejected : s.early = true → (∃ err, r = .error err) → c.world.order? dto.key = none →
        Rejected tr c i dto r := fun hearly herr hnone =>
      ⟨herr, World.order?_eq_none.mp hnone, h.idle hearly⟩
    obtain ⟨r', houtcome, rfl⟩ := hanswer
    cases houtcome with
    | seen o => exact h.alone.elim
    | broken err => exact h.alone.elim
    | noEvent => exact Or.inr (Or.inr (hrejected rfl ⟨_, rfl⟩ h.alone))
    | inactive => exact Or.inr (Or.inr (hrejected rfl ⟨_, rfl⟩ h.alone))
    | exhausted => exact Or.inr (Or.inr (hrejected rfl ⟨_, rfl⟩ h.alone))
    | failed o err =>
      obtain ⟨horder, hstatus, huser⟩ := h.alone
      obtain ⟨hmem, hkey⟩ := World.order?_eq_some horder
      have hbooked := h.unpaid rfl
      refine Or.inr (Or.inl ⟨⟨o, hmem, hkey, hstatus, huser⟩, ⟨err, rfl⟩, hbooked, fun id => ?_,
        fun e => ?_⟩)
      · rw [hbalances, hbooked]
        rfl
      · rw [h.stock e]
        simp [Stage.units, Stage.sales]
    | sold o =>
      obtain ⟨horder, hstatus, huser⟩ := h.alone
      obtain ⟨hmem, hkey⟩ := World.order?_eq_some horder
      have hdebit := h.paid rfl
      obtain ⟨entry, price, hbooked, -, howns, hprice, hamount⟩ := h.paid rfl
      refine Or.inl ⟨⟨o, hmem, hkey, hstatus, huser, rfl⟩, hdebit,
        ⟨entry.walletId, price, howns, hprice, fun id => ?_⟩, fun e => ?_⟩
      · rw [hbalances, hbooked]
        by_cases hid : id = entry.walletId
        · subst hid
          simp [listing, sumAmounts, total, hamount]
        · simp [listing, sumAmounts, total, hid, Ne.symm hid]
      · rw [h.stock e]
        by_cases he : e = dto.eventId
        · simp [Stage.units, Stage.sales, he]
        · simp [he, Ne.symm he]

end

/-- **Exact stock accounting for distinct requests.** In every state of every run of clients in
which nothing fails and no two purchases share event and key: what remains, what is confirmed and
what the purchases in flight hold is the whole stock; no purchase holds more than one unit; and every
purchase that has ended has bought, or was declined, or was turned away. -/
theorem exact_accounting {tr : Trace} {c : State} (hrun : RunFrom State.initial distinctKeys tr c) :
    (∀ ev ∈ c.world.events,
      ev.remaining + c.world.confirmed ev.id + unitsInFlight ev.id tr c = ev.totalStock) ∧
    (∀ (i : Nat) call e, c.calls[i]? = some call → call.request.purchase?.isSome = true →
      0 ≤ heldBy e i tr ∧ heldBy e i tr ≤ 1) ∧
    ∀ (i : Nat) call userId dto r, c.calls[i]? = some call → call.request = .purchase userId dto →
      call.result? = some r → ExactlyOne (Bought tr c i userId dto r)
        (Declined tr c i userId dto r) (Rejected tr c i dto r) := by
  refine ⟨fun ev hev => stock_accounted hrun hev, fun i call e hi hbuys => heldBy_bounds hrun hi hbuys e,
    fun i call userId dto r hi hreq hr => ⟨ending hrun hi hreq hr, ?_, ?_, ?_⟩⟩
  · rintro ⟨hbought, hdeclined⟩
    obtain ⟨o, ho, hkey, hstatus, -⟩ := hbought.order
    obtain ⟨o', ho', hkey', hstatus', -⟩ := hdeclined.order
    rw [(Reachable.worldOk ⟨tr, hrun⟩).order_ext ho ho' (hkey.trans hkey'.symm), hstatus'] at hstatus
    cases hstatus
  · rintro ⟨hbought, hrejected⟩
    obtain ⟨o, ho, hkey, -⟩ := hbought.order
    exact hrejected.absent o ho hkey
  · rintro ⟨hdeclined, hrejected⟩
    obtain ⟨o, ho, hkey, -⟩ := hdeclined.order
    exact hrejected.absent o ho hkey

section

open Sample

def bowl : PurchaseFlashSaleDto := ⟨sale, "bowl", by decide⟩

/-- Two units are on sale. Alice and Bob each reserve one at the same time; she has the money, and he has not, so that
his comes back, and Carol holds it. -/
def crowded : List Event :=
  [.env (.seedProduct product), .arrive (.createEvent event₂), .exec 0 .ok, .exec 0 (.fresh sale)] ++
    register 1 alice aliceWallet ++ register 2 bob bobWallet ++ fund 3 alice id₁ ++
    [.arrive (.purchase alice lamp), .arrive (.purchase bob vase)] ++ runs 4 4 ++ runs 5 4 ++
    [.exec 4 (.fresh id₂), .exec 5 (.fresh id₃)] ++ runs 4 2 ++ runs 5 6 ++ runs 4 6 ++
    [.arrive (.purchase carol bowl)] ++ runs 6 4

set_option maxRecDepth 16000 in
theorem exact_accounting_bought :
    ((stateAfter State.initial crowded).world.remaining sale = 0 ∧
      (stateAfter State.initial crowded).world.confirmed sale = 1 ∧
      ∀ ev ∈ (stateAfter State.initial crowded).world.events, ev.remaining +
        (stateAfter State.initial crowded).world.confirmed ev.id +
        unitsInFlight ev.id (traceAfter State.initial crowded) (stateAfter State.initial crowded) =
          ev.totalStock) ∧
      (0 ≤ heldBy sale 6 (traceAfter State.initial crowded) ∧ heldBy sale 6 (traceAfter State.initial crowded) ≤ 1) ∧
      Bought (traceAfter State.initial crowded) (stateAfter State.initial crowded) 4 alice lamp
        (.ok (.purchased (FlashSaleService.toOrderResult aliceOrder false))) ∧
      Declined (traceAfter State.initial crowded) (stateAfter State.initial crowded) 5 bob vase
        (.error (.badRequest "Insufficient balance")) := by
  have hrun : RunFrom State.initial distinctKeys (traceAfter State.initial crowded)
      (stateAfter State.initial crowded) :=
    (run_stateAfter (fun c l => !l.isFault && !l.isBareDebit && !repeatsKey c l) State.initial crowded
      (by decide)).mono fun _ _ h => by simpa [distinctKeys, calm, noFaults, viaApi] using h
  have hcall : ∀ (i : Nat) req r, ((stateAfter State.initial crowded).calls[i]?).map (fun call =>
      (call.request, call.result?)) = some (req, some r) → ∃ call, (stateAfter State.initial crowded).calls[i]? =
        some call ∧ call.request = req ∧ call.result? = some r := by
    intro i req r h
    obtain ⟨call, hi, hpair⟩ := Option.map_eq_some_iff.mp h
    exact ⟨call, hi, Prod.mk.inj hpair⟩
  obtain ⟨hstock, hheld, hended⟩ := exact_accounting hrun
  obtain ⟨call, hi, hreq, hr⟩ := hcall 4 (.purchase alice lamp)
    (.ok (.purchased (FlashSaleService.toOrderResult aliceOrder false))) (by decide)
  obtain ⟨call', hi', hreq', hr'⟩ := hcall 5 (.purchase bob vase) (.error (.badRequest "Insufficient balance"))
    (by decide)
  obtain ⟨carols, hcarols, hbuys⟩ : ∃ call, (stateAfter State.initial crowded).calls[6]? = some call ∧
      call.request.purchase?.isSome = true := ⟨_, rfl, rfl⟩
  refine ⟨⟨by decide, by decide, hstock⟩, hheld 6 carols sale hcarols hbuys, ?_, ?_⟩
  · rcases (hended 4 call alice lamp _ hi hreq hr).1 with hbought | hdeclined | hrejected
    · exact hbought
    · obtain ⟨err, herr⟩ := hdeclined.rejected
      cases herr
    · obtain ⟨err, herr⟩ := hrejected.rejected
      cases herr
  · rcases (hended 5 call' bob vase _ hi' hreq' hr').1 with hbought | hdeclined | hrejected
    · obtain ⟨o, -, -, -, -, herr⟩ := hbought.order
      cases herr
    · exact hdeclined
    · -- his failed order is there
      exact absurd rfl (hrejected.absent ⟨id₃, bob, sale, .FAILED, "vase", 0⟩ (by decide))

end

end FlashWallet
