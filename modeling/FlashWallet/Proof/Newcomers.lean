import FlashWallet.Proof.Debits
import FlashWallet.Proof.Stock

/-!
# A purchase under a key of its own

Most of what can go wrong in a sale takes two purchases under one key. Here is one that shares its
key with no other: from a state any clients may have led to, a purchase of event `e` arrives under a
key nobody has asked for before, and nobody asks for it again. While nothing fails, such a purchase
finds no order until it writes its own (`Stage.Alone`), never looks up anybody else's debit, and what
its own steps have done to the stock, the sales and the ledger can be read off its stage. `Newcomer`
is that invariant.
-/

set_option autoImplicit false

namespace FlashWallet

open Lib

/-! ## Who has asked for what -/

def PurchaseFlashSaleDto.key (dto : PurchaseFlashSaleDto) : Uuid × String :=
  (dto.eventId, dto.idempotencyKey)

/-- Event and key of the order a request asks for. -/
def Request.orderKey? (r : Request) : Option (Uuid × String) := r.purchase?.map fun p => p.2.key

def requests (c : State) : List Request := c.calls.map (·.request)

theorem getElem?_requests {c : State} {i : Nat} {call : ServiceCall} (hi : c.calls[i]? = some call) :
    (requests c)[i]? = some call.request := by
  rw [requests, List.getElem?_map, hi]
  rfl

/-- A purchase of event `e` arrives under a key that has been asked for before. -/
def asksAgain (e : Uuid) (c : State) : Event → Bool
  | .arrive r => r.orderKey?.any fun key => key.1 = e && (requests c).any (·.orderKey? = some key)
  | _ => false

theorem requests_set {calls : List ServiceCall} {i : Nat} {call call' : ServiceCall}
    (hi : calls[i]? = some call) (hreq : call'.request = call.request) :
    (calls.set i call').map (·.request) = calls.map (·.request) := by
  rw [List.map_set, hreq]
  exact Platform.set_same (by rw [List.getElem?_map, hi]; rfl)

theorem requests_of_step {c c' : State} {l : Event} (hstep : system.step c l = some c') :
    requests c' = requests c ∨ ∃ r, l = .arrive r ∧ requests c' = requests c ++ [r] := by
  cases l with
  | arrive r =>
    cases hstep
    exact Or.inr ⟨r, rfl, by simp [requests, Platform.arrive]⟩
  | exec i x =>
    obtain ⟨r, o, k, reply, w, hi, _, rfl⟩ := system.step_exec hstep
    exact Or.inl (requests_set hi rfl)
  | crash i =>
    obtain ⟨r, o, k, hi, rfl⟩ := system.step_crash hstep
    exact Or.inl (requests_set hi rfl)
  | env e =>
    obtain ⟨w, _, rfl⟩ := system.step_env hstep
    exact Or.inl rfl

/-- **A mark that no arrival repeats marks one call.** Requests bear marks `mark`; an arrival is
compared with the calls from place `m` on. -/
theorem marked_once {ok : State → Event → Prop} {κ : Type} (mark : Request → Option κ) {m : Nat}
    (hok : ∀ c r k, ok c (.arrive r) → mark r = some k → ∀ (j : Nat) r', m ≤ j →
      (requests c)[j]? = some r' → mark r' ≠ some k)
    {c₀ c : State} {tr : Trace} (hrun : RunFrom c₀ ok tr c) (hm : m ≤ c₀.calls.length) {i j : Nat}
    {r r' : Request} {k : κ} (hnew : c₀.calls.length ≤ i) (hj' : m ≤ j)
    (hi : (requests c)[i]? = some r) (hj : (requests c)[j]? = some r')
    (hr : mark r = some k) (hr' : mark r' = some k) : i = j := by
  induction hrun generalizing i j r r' with
  | nil =>
    have hlt := (List.getElem?_eq_some_iff.mp hi).1
    rw [requests, List.length_map] at hlt
    omega
  | @snoc tr c c' l run allowed next ih =>
    rcases requests_of_step next with hsame | ⟨q, rfl, hsnoc⟩
    · rw [hsame] at hi hj
      exact ih hnew hj' hi hj hr hr'
    · rw [hsnoc] at hi hj
      rcases Platform.getElem?_concat_cases hi with ⟨hil, rfl⟩ | hi₀ <;>
        rcases Platform.getElem?_concat_cases hj with ⟨hjl, rfl⟩ | hj₀
      · exact hil.trans hjl.symm
      · exact absurd hr' (hok _ _ _ allowed hr j _ hj' hj₀)
      · exact absurd hr (hok _ _ _ allowed hr' i _ (hm.trans hnew) hi₀)
      · exact ih hnew hj' hi₀ hj₀ hr hr'

/-- The key of a purchase of event `e`. -/
def Request.keyOf? (e : Uuid) (r : Request) : Option (Uuid × String) :=
  r.orderKey?.filter fun key => key.1 = e

theorem asksAgain_arrive {e : Uuid} {c : State} {r : Request} (h : asksAgain e c (.arrive r) = false)
    {key : Uuid × String} (hr : r.keyOf? e = some key) : ∀ r' ∈ requests c, r'.keyOf? e ≠ some key := by
  intro r' hr' heq
  obtain ⟨hkey, he⟩ := Option.filter_eq_some_iff.mp hr
  simp only [asksAgain, hkey, Option.any_some, he, Bool.true_and, List.any_eq_false] at h
  exact h r' hr' (decide_eq_true (Option.filter_eq_some_iff.mp heq).1)

/-- Orders are written by calls that ask for them. -/
theorem orders_of_step {ok : State → Event → Prop} {tr : Trace} {c c' : State} {l : Event}
    (hrun : RunFrom State.initial ok tr c) (hstep : system.step c l = some c') :
    c'.world.orders = c.world.orders ∨ ∃ i x r order, l = .exec i x ∧
      (requests c)[i]? = some r ∧ r.orderKey? = some order.key ∧
      c'.world.orders = c.world.orders ++ [order] := by
  cases l with
  | arrive r => cases hstep; exact Or.inl rfl
  | crash i =>
    obtain ⟨r, o, k, _, rfl⟩ := system.step_crash hstep
    exact Or.inl rfl
  | env e =>
    obtain ⟨w, hw, rfl⟩ := system.step_env hstep
    exact Or.inl (World.env_same hw).orders
  | exec i x =>
    obtain ⟨r, o, k, reply, w, hi, hexec, rfl⟩ := system.step_exec hstep
    refine (World.orders_served (.of_exec hexec)).imp_right ?_
    rintro ⟨d, order, rfl, horders, rfl⟩
    obtain ⟨ps, hrequested, ha⟩ := stages_of_run hrun
    obtain ⟨p, hp⟩ := ha.books hi
    have hpre := (ha.keeps i _ p hi hp rfl).1
    have hsame : p.purchase? = r.purchase? := hrequested.same i _ p hi hp
    refine ⟨i, x, r, _, rfl, getElem?_requests hi, ?_, horders⟩
    cases p with
    | other => exact hpre.elim
    | buying userId dto s =>
      rw [Request.orderKey?, ← hsame]
      cases hpre <;> rfl

/-- **Every order has been asked for.** -/
theorem order_asked {ok : State → Event → Prop} {tr : Trace} {c : State}
    (hrun : RunFrom State.initial ok tr c) :
    ∀ o ∈ c.world.orders, ∃ r ∈ requests c, r.orderKey? = some o.key := by
  induction hrun with
  | nil => exact fun o ho => absurd ho List.not_mem_nil
  | @snoc tr c c' l run allowed next ih =>
    have hkept : ∀ r ∈ requests c, r ∈ requests c' := fun r hr => by
      rcases requests_of_step next with hsame | ⟨q, -, hsnoc⟩
      · exact hsame ▸ hr
      · exact hsnoc ▸ List.mem_append_left _ hr
    intro o ho
    rcases orders_of_step run next with hsame | ⟨i, x, r, order, -, hi, hkey, horders⟩
    · obtain ⟨r, hr, hkey⟩ := ih o (hsame ▸ ho)
      exact ⟨r, hkept r hr, hkey⟩
    · rcases List.mem_append.mp (horders ▸ ho) with ho | ho
      · obtain ⟨r, hr, hkey⟩ := ih o ho
        exact ⟨r, hkept r hr, hkey⟩
      · obtain rfl := List.mem_singleton.mp ho
        exact ⟨r, hkept r (List.mem_of_getElem? hi), hkey⟩

/-! ## What a newcomer's stage says -/

/-- The only order under the purchase's key is the one it has written. -/
def Stage.Alone (userId : Uuid) (found : Option Order) : Stage → Prop
  | .sold o => found = some o ∧ o.status = .CONFIRMED ∧ o.userId = userId
  | .failed o _ => found = some o ∧ o.status = .FAILED ∧ o.userId = userId
  | .seen _ | .twice | .late | .rereading | .broken _ => False
  | _ => found = none

/-- The debit is in the ledger. -/
def Stage.debited : Stage → Bool
  | .paid _ | .sold _ => true
  | _ => false

/-- The purchase has not asked for a unit, or was refused one. -/
def Stage.early : Stage → Bool
  | .looking | .absent | .noEvent | .found .. | .timed .. | .refused => true
  | _ => false

section Own

variable {ok : State → Event → Prop} {tr : Trace} {c : State} {ps : List Progress} {i : Nat}
  {userId : Uuid} {dto : PurchaseFlashSaleDto} {s : Stage} {o : Stmt}
  {k : Except Err o.Reply → Service Response} {x : Choice} {reply : Except Err o.Reply} {w : World}

/-- Where there is no order under the key, an insert writes one. -/
theorem written_of_absent (hrun : RunFrom State.initial ok tr c) (hx : x ≠ .fault) {req : Request}
    {d : NewOrder} {k : Except Err Order → Service Response} {reply : Except Err Order}
    (hi : c.calls[i]? = some ⟨req, .call (S := sql) (.orderCreate d) k, false⟩)
    (hexec : World.exec i (.orderCreate d) x c.world = some (reply, w))
    (hnone : c.world.order? (d.flashSaleEventId, d.idempotencyKey) = none) :
    ∃ order, reply = .ok order ∧ w.order? (d.flashSaleEventId, d.idempotencyKey) = some order ∧
      order.status = d.status ∧ order.userId = d.userId := by
  rcases order_written_or_taken hrun hi hexec hx with
    ⟨-, ⟨-, order, hreply, rfl, rfl⟩ | ⟨htaken, -⟩⟩
  · refine ⟨_, hreply, ?_, rfl, rfl⟩
    rw [World.order?, List.find?_append, show c.world.orders.find? _ = none from hnone]
    simp [Order.key]
  · rw [hnone] at htaken
    cases htaken

/-- The only order a newcomer ever meets is its own. -/
theorem alone_next (hrun : RunFrom State.initial ok tr c) (hx : x ≠ .fault)
    (h : Issues c ps i (.purchase userId dto) o k (.buying userId dto s) x reply w)
    (halone : s.Alone userId (c.world.order? dto.key)) :
    (s.next o reply).Alone userId (w.order? dto.key) := by
  have hs := h.served
  have hsame : (∀ d, o ≠ .orderCreate d) → w.order? dto.key = c.world.order? dto.key := fun hno => by
    rcases World.orders_served hs with horders | ⟨d, order, rfl, -⟩
    · rw [World.order?, horders]; rfl
    · exact absurd rfl (hno d)
  have hpre := h.pre
  obtain ⟨hi, -, -, -, -, hexec⟩ := h
  cases hpre with
  | find | poll =>
    obtain ⟨found, rfl⟩ := World.answered hx hexec rfl
    -- no order under the key yet: the read finds none
    rw [(hs.of_read rfl (by simp)).2, show c.world.order? (dto.eventId, dto.idempotencyKey) = none from halone,
      hsame (by simp)]
    exact halone
  | reread => exact halone.elim
  | releaseTwice | releaseLate => exact halone.elim
  | fail orderId err =>
    obtain ⟨order, rfl, horder, hstatus, huser⟩ := written_of_absent hrun hx hi hexec halone
    exact ⟨horder, hstatus, huser⟩
  | confirm orderId =>
    obtain ⟨order, rfl, horder, hstatus, huser⟩ := written_of_absent hrun hx hi hexec halone
    exact ⟨horder, hstatus, huser⟩
  | debit | book =>
    rw [hsame (by simp)]
    cases reply <;> exact halone
  | announce =>
    rw [hsame (by simp)]
    cases reply <;> exact halone
  | readEvent | findWallet | lock | findDebit | reserve =>
    obtain ⟨found, rfl⟩ := World.answered hx hexec rfl
    rw [hsame (by simp)]
    rcases found with _ | _ <;> exact halone
  | _ =>
    obtain ⟨v, rfl⟩ := World.answered hx hexec rfl
    rw [hsame (by simp)]
    exact halone

/-- What a newcomer's statement adds to a stock and to the sales. -/
theorem stock_next (hw : c.world.Ok)
    (h : Issues c ps i (.purchase userId dto) o k (.buying userId dto s) x reply w)
    (halone : s.Alone userId (c.world.order? dto.key)) (hinformed : s.Informed c.world dto.eventId)
    (halone' : (s.next o reply).Alone userId (w.order? dto.key)) (e : Uuid) :
    w.remaining e = c.world.remaining e + (if dto.eventId = e then (s.units + s.sales : Int) else 0) -
        (if dto.eventId = e then ((s.next o reply).units + (s.next o reply).sales : Int) else 0) ∧
      (w.confirmed e : Int) = c.world.confirmed e +
        (if dto.eventId = e then ((s.next o reply).sales : Int) else 0) -
        (if dto.eventId = e then (s.sales : Int) else 0) := by
  have hs := h.served
  have may : May userId dto s o := h.pre
  have hconfirmed := World.confirmed_served e hs
  have hremaining : w.remaining e = c.world.remaining e + delta e o reply := by
    by_cases hpresent : ∃ ev ∈ c.world.events, ev.id = e
    · exact World.remaining_served hw hs hpresent
    · have hno : ∀ ev ∈ c.world.events, ev.id ≠ e := fun ev hev hid => hpresent ⟨ev, hev, hid⟩
      have hsame := World.remaining_served_of_absent hw hs
        (fun _ _ _ _ _ hcreate => by subst hcreate; cases may) hno
      have hnonneg := World.delta_nonneg_of_absent hs hno
      have hnone : delta e o reply ≤ 0 := by
        cases may with
        | release orderId err =>
          -- Only what has been reserved is released, so the event is there.
          obtain ⟨price, ev, hev, hid, -⟩ := hinformed
          exact le_of_eq (delta_release_of_ne fun he => hno ev hev (hid.trans he))
        | releaseTwice | releaseLate => exact halone.elim
        | _ => exact delta_nonpos rfl
      omega
  rw [hremaining, hconfirmed]
  by_cases he : dto.eventId = e
  · subst he
    have hsales := sales_next may reply
    have hstage : s ≠ .twice := by rintro rfl; exact halone
    have hunits := (accounting_stage may hstage reply).resolve_right fun ⟨⟨err, hbroken⟩, _⟩ => by
      rw [hbroken] at halone'
      exact halone'
    simp only [if_true]
    omega
  · obtain ⟨hd, hz⟩ := stock_of_other may he reply
    simp [he, hd, hz]

/-- A purchase that has not asked for a unit, or was refused one, has changed nothing. -/
theorem idle_next (h : Issues c ps i (.purchase userId dto) o k (.buying userId dto s) x reply w)
    (hearly : (s.next o reply).early = true) : s.early = true ∧ w = c.world := by
  have hs := h.served
  cases (h.pre : May userId dto s o) with
  | find | readEvent | poll | readClock | wait =>
    refine ⟨rfl, ?_⟩
    cases hs <;> rfl
  | reserve ev price now active =>
    refine ⟨rfl, ?_⟩
    generalize hr : reply = r at hs
    cases hs with
    | reserved =>
      subst hr
      cases hreserved : (c.world.reserveUnit dto.eventId).1 with
      | true => rw [hreserved] at hearly; cases hearly
      | false =>
        simp only [World.reserveUnit, List.any_eq_false, Bool.and_eq_true, decide_eq_true_eq] at hreserved
        have hrows : (c.world.events.map fun ev =>
            if ev.id = dto.eventId ∧ 0 < ev.remaining then { ev with remaining := ev.remaining - 1 }
            else ev) = c.world.events :=
          (List.map_congr_left fun ev hev => if_neg (hreserved ev hev)).trans (List.map_id _)
        rw [World.reserveUnit, hrows]
    | read _ _ answer => cases answer
    | failed | refused => rfl
  | reread => rcases reply with _ | _ | _ <;> cases hearly
  | findWallet | lock | findDebit => rcases reply with _ | _ | _ <;> cases hearly
  | fail | confirm =>
    rcases reply with e | v
    · cases e <;> cases hearly
    · cases hearly
  | _ => cases reply <;> cases hearly

/-- Where the debit is: only a commit moves a purchase past it. -/
theorem debited_next (h : Issues c ps i (.purchase userId dto) o k (.buying userId dto s) x reply w)
    (halone' : (s.next o reply).Alone userId (w.order? dto.key)) :
    (¬Commits o reply → (s.next o reply).debited = s.debited) ∧
      (Commits o reply → (∃ orderId, s = .charged orderId) ∧ (s.next o reply).debited = true) := by
  cases (h.pre : May userId dto s o) with
  | commit orderId =>
    cases reply with
    | ok _ => exact ⟨fun hno => absurd trivial hno, fun _ => ⟨⟨orderId, rfl⟩, rfl⟩⟩
    | error _ => exact ⟨fun _ => rfl, fun hyes => hyes.elim⟩
  | confirm orderId =>
    refine ⟨fun _ => ?_, fun hyes => hyes.elim⟩
    rcases reply with e | v
    · cases e <;> exact halone'.elim
    · rfl
  | fail orderId err =>
    refine ⟨fun _ => ?_, fun hyes => hyes.elim⟩
    rcases reply with e | v
    · cases e <;> rfl
    · rfl
  | find | readEvent | poll | reread | findWallet | lock | findDebit | reserve =>
    exact ⟨fun _ => by rcases reply with _ | _ | _ <;> rfl, fun hyes => hyes.elim⟩
  | _ => exact ⟨fun _ => by cases reply <;> rfl, fun hyes => hyes.elim⟩

/-- A purchase is charged by an entry it has just written, unless it finds its debit in the ledger. -/
theorem charged_next (h : Issues c ps i (.purchase userId dto) o k (.buying userId dto s) x reply w)
    (hundebited : ∀ e ∈ c.world.ledger, e.type = .PURCHASE →
      e.referenceId ≠ FlashSaleService.walletReferenceId dto.eventId dto.idempotencyKey) {orderId : Uuid}
    (hcharged : s.next o reply = .charged orderId) : (w.tx i).entries ≠ [] := by
  have hs := h.served
  cases (h.pre : May userId dto s o) with
  | findDebit price id row =>
    rcases reply with e | _ | found
    · cases hcharged
    · cases hcharged
    · generalize hr : (Except.ok (some found) : Except Err (Option LedgerEntry)) = r at hs
      cases hs with
      | read _ v answer =>
        cases hr
        obtain ⟨hmem, hkey⟩ := World.entryOf?_eq_some (Option.some.inj answer)
        simp only [LedgerEntry.key, Prod.mk.injEq] at hkey
        exact absurd hkey.2.1 (hundebited found hmem hkey.2.2)
  | book price id row =>
    cases reply with
    | error e => cases hcharged
    | ok entry =>
      generalize hr : (Except.ok entry : Except Err LedgerEntry) = r at hs
      cases hs with
      | entered =>
        rw [World.setTx_self]
        simp
      | read _ _ answer => cases answer
  | commit => cases reply <;> cases hcharged
  | find | readEvent | poll | reread | findWallet | lock | reserve =>
    rcases reply with _ | _ | _ <;> cases hcharged
  | fail | confirm =>
    rcases reply with e | v
    · cases e <;> cases hcharged
    · cases hcharged
  | _ => cases reply <;> cases hcharged

end Own

/-! ## The invariant -/

/-- `es` is the debit of a purchase: one entry, of the price, in the wallet of its user. -/
def World.Debit (w : World) (userId : Uuid) (dto : PurchaseFlashSaleDto) (es : List LedgerEntry) :
    Prop :=
  ∃ e p, es = [e] ∧ e.type = .PURCHASE ∧ w.Owns e.walletId userId ∧ w.Priced dto.eventId p ∧
    e.amount.cents = -p.cents

theorem World.Debit.mono {w w' : World} {userId : Uuid} {dto : PurchaseFlashSaleDto}
    {es : List LedgerEntry} (h : w.Debit userId dto es) (hw : w.Evolves w') : w'.Debit userId dto es :=
  let ⟨e, p, hes, htype, howns, hprice, hamount⟩ := h
  ⟨e, p, hes, htype, hw.owns _ _ howns, hw.priced _ _ hprice, hamount⟩

/-- What the stage of call `i` says about the world and about what the call has done so far. -/
structure Newcomer (tr : Trace) (c : State) (i : Nat) (userId : Uuid) (dto : PurchaseFlashSaleDto)
    (s : Stage) : Prop where
  alone : s.Alone userId (c.world.order? dto.key)
  informed : s.Informed c.world dto.eventId
  stock : ∀ e, effect (fun c => c.world.remaining e) (byCall i) tr =
    -(if dto.eventId = e then (s.units + s.sales : Int) else 0)
  sold : ∀ e, effect (fun c => (c.world.confirmed e : Int)) (byCall i) tr =
    if dto.eventId = e then (s.sales : Int) else 0
  paid : s.debited = true → c.world.Debit userId dto (booked (byCall i) tr)
  unpaid : s.debited = false → booked (byCall i) tr = []
  charged : ∀ orderId, s = .charged orderId → (c.world.tx i).entries ≠ []
  idle : s.early = true → ∀ st ∈ tr, byCall i st = true → st.after.world = st.before.world

/-- Clients only, nothing fails, and nobody asks again under a key of event `e`. -/
def newcoming (e : Uuid) : State → Event → Prop := fun c l => calm c l ∧ asksAgain e c l = false

section Run

variable {ok : State → Event → Prop} {e : Uuid} {c₀ c : State} {tr₀ tr : Trace}

theorem full_run (h₀ : RunFrom State.initial viaApi tr₀ c₀) (hok : ∀ c l, ok c l → newcoming e c l)
    (hrun : RunFrom c₀ ok tr c) : RunFrom State.initial viaApi (tr₀ ++ tr) c :=
  h₀.append (hrun.mono fun c l h => (hok c l h).1.2)

/-- Only calls that are there take steps. -/
theorem actor_lt {s : Step State Event} (hrun : RunFrom c₀ ok tr c) (hs : s ∈ tr) {i : Nat}
    (hi : s.label.actor = some i) : i < c.calls.length := by
  obtain ⟨-, -, hstep⟩ := hrun.of_mem hs
  have hlt : ∃ call, s.before.calls[i]? = some call := by
    cases hl : s.label with
    | arrive r => rw [hl] at hi; cases hi
    | env en => rw [hl] at hi; cases hi
    | exec j x =>
      rw [hl] at hi hstep
      cases hi
      obtain ⟨r, o, k, -, -, hcall, -⟩ := system.step_exec hstep
      exact ⟨_, hcall⟩
    | crash j =>
      rw [hl] at hi hstep
      cases hi
      obtain ⟨r, o, k, hcall, -⟩ := system.step_crash hstep
      exact ⟨_, hcall⟩
  obtain ⟨call, hcall⟩ := hlt
  obtain ⟨call', hcall', -⟩ := ((system.keeps_of_run hrun).2 s hs).1 i call hcall
  exact (List.getElem?_eq_some_iff.mp hcall').1

/-- A call under the key of a newcomer is the newcomer. -/
theorem newcomer_unique (hok : ∀ c l, ok c l → newcoming e c l) (hrun : RunFrom c₀ ok tr c)
    {i j : Nat} {call call' : ServiceCall} {userId userId' : Uuid} {dto dto' : PurchaseFlashSaleDto}
    (hnew : c₀.calls.length ≤ i) (hi : c.calls[i]? = some call)
    (hreq : call.request = .purchase userId dto) (hevent : dto.eventId = e)
    (hj : c.calls[j]? = some call') (hreq' : call'.request = .purchase userId' dto')
    (hkey : dto'.key = dto.key) : i = j := by
  have hkeyed : ∀ u (d : PurchaseFlashSaleDto), d.key = dto.key →
      (Request.purchase u d).keyOf? e = some dto.key := fun u d hd =>
    Option.filter_eq_some_iff.mpr ⟨congrArg some hd, decide_eq_true hevent⟩
  exact marked_once (Request.keyOf? e) (m := 0)
    (fun c r k h hk j r' _ hj => asksAgain_arrive (hok _ _ h).2 hk r' (List.mem_of_getElem? hj))
    hrun (Nat.zero_le _) hnew (Nat.zero_le _) (getElem?_requests hi) (getElem?_requests hj)
    (by rw [hreq]; exact hkeyed _ _ rfl) (by rw [hreq']; exact hkeyed _ _ hkey)

/-- The debit of a newcomer is in the ledger only if the newcomer has booked it. -/
theorem undebited (h₀ : RunFrom State.initial viaApi tr₀ c₀)
    (hok : ∀ c l, ok c l → newcoming e c l) (hrun : RunFrom c₀ ok tr c) {i : Nat}
    {call : ServiceCall} {userId : Uuid} {dto : PurchaseFlashSaleDto}
    (hnew : c₀.calls.length ≤ i) (hi : c.calls[i]? = some call)
    (hreq : call.request = .purchase userId dto) (hevent : dto.eventId = e)
    (hbooked : booked (byCall i) tr = []) :
    ∀ entry ∈ c.world.ledger, entry.type = .PURCHASE →
      entry.referenceId ≠ FlashSaleService.walletReferenceId dto.eventId dto.idempotencyKey := by
  intro entry hentry htype href
  have hreach : Reachable viaApi c₀ := ⟨tr₀, h₀⟩
  rw [ledger_eq_booked hreach hrun] at hentry
  rcases List.mem_append.mp hentry with hold | hnewly
  · obtain ⟨u, d, p, ⟨call', hcall', hreq'⟩, -, -, -, href'⟩ := purchase_entry (fun _ _ h => h) h₀ hold htype
    obtain ⟨j, hj⟩ := List.mem_iff_getElem?.mp hcall'
    obtain ⟨call'', hj', hsame⟩ := (system.keeps_of_run hrun).1 j call' hj
    obtain ⟨he, hk⟩ := FlashSaleService.walletReferenceId_inj (href'.symm.trans href)
    have hij := newcomer_unique hok hrun hnew hi hreq hevent hj' (hsame.trans hreq') (Prod.ext he hk)
    exact absurd (List.getElem?_eq_some_iff.mp hj).1 (by omega)
  · obtain ⟨s, hs, -, j, y, call', hlabel, hfound, hes, posts⟩ := mem_booked hreach hrun hnewly
    obtain ⟨⟨tr', hbefore⟩, -, -⟩ := hrun.of_mem hs
    have hapi := request_viaApi (fun _ _ h => h) (full_run h₀ hok hbefore) hfound
    obtain ⟨u, d, p, hreq', -, -, -, -, href'⟩ := posts.purchase hapi hes htype
    obtain ⟨call'', hj', hsame⟩ := ((system.keeps_of_run hrun).2 s hs).1 j call' hfound
    obtain ⟨he, hk⟩ := FlashSaleService.walletReferenceId_inj (href'.symm.trans href)
    obtain rfl := newcomer_unique hok hrun hnew hi hreq hevent hj' (hsame.trans hreq') (Prod.ext he hk)
    have hmem : entry ∈ booked (byCall i) tr := List.mem_flatMap.mpr
      ⟨s, List.mem_filter.mpr ⟨hs, by simp [byCall, hlabel, Lib.Label.actor]⟩, hes⟩
    rw [hbooked] at hmem
    cases hmem

/-- A commit with entries in its buffer books the debit. -/
theorem debit_of_commit {ps : List Progress} {i : Nat} {userId : Uuid} {dto : PurchaseFlashSaleDto}
    {p : Progress} {o : Stmt} {k : Except Err o.Reply → Service Response} {x : Choice}
    {reply : Except Err o.Reply} {w : World} (hfull : RunFrom State.initial ok tr c)
    (h : Issues c ps i (.purchase userId dto) o k p x reply w) (hcommits : Commits o reply)
    (hentries : (c.world.tx i).entries ≠ []) : w.Debit userId dto (entriesOf
      ⟨c, .exec i x, ⟨w, c.calls.set i ⟨.purchase userId dto, k reply, false⟩⟩⟩) := by
  have hs := h.served
  have hevolves := World.Evolves.served hs
  have hledger : w.ledger = c.world.ledger ++ (c.world.tx i).entries := by
    cases hs with
    | committed => rfl
    | read o v answer => cases o <;> first | exact hcommits.elim | cases answer
    | failed o | refused o => cases o <;> exact hcommits.elim
    | _ => exact hcommits.elim
  cases (moves_of_step hfull h.step).entries with
  | none entries ledger =>
    rw [show w.ledger = c.world.ledger from ledger, List.self_eq_append_right] at hledger
    exact absurd hledger hentries
  | some j y call label found balanced posts bank =>
    cases label
    obtain rfl := Option.some.inj (h.call.symm.trans found)
    rcases posts with hnil | ⟨entry, price, hes, htype, hprice, hamount, -, howns⟩
    · have hsame : w.ledger = c.world.ledger ++ entriesOf _ := congrArg Bank.ledger bank
      rw [hnil, List.append_nil, hledger] at hsame
      exact absurd (List.append_right_eq_self.mp hsame) hentries
    · exact ⟨entry, price, hes, htype, hevolves.owns _ _ howns, hevolves.priced _ _ hprice, hamount⟩

/-- A call that arrives is a newcomer. -/
theorem newcomer_arrives (h₀ : RunFrom State.initial viaApi tr₀ c₀)
    (hok : ∀ c l, ok c l → newcoming e c l) (hrun : RunFrom c₀ ok tr c) {userId : Uuid}
    {dto : PurchaseFlashSaleDto} (hallowed : ok c (.arrive (.purchase userId dto)))
    (hevent : dto.eventId = e) :
    Newcomer (tr ++ [⟨c, .arrive (.purchase userId dto), system.arrive c (.purchase userId dto)⟩])
      (system.arrive c (.purchase userId dto)) c.calls.length userId dto .looking := by
  have hnone : ∀ s ∈ tr ++ [⟨c, Label.arrive (.purchase userId dto),
      system.arrive c (.purchase userId dto)⟩], byCall c.calls.length s = false := by
    intro s hs
    rcases List.mem_append.mp hs with hs | hs
    · exact decide_eq_false fun hactor => absurd (actor_lt hrun hs hactor) (by omega)
    · rw [List.mem_singleton.mp hs]
      rfl
  have hfilter := List.filter_eq_nil_iff.mpr fun s hs => Bool.eq_false_iff.mp (hnone s hs)
  have heffect : ∀ f, effect f (byCall c.calls.length) (tr ++ [⟨c, Label.arrive (.purchase userId dto),
      system.arrive c (.purchase userId dto)⟩]) = 0 := fun f => by rw [effect, hfilter]; rfl
  refine { alone := ?_, informed := trivial, stock := fun e' => ?_, sold := fun e' => ?_,
           paid := fun h => Bool.noConfusion h, unpaid := fun _ => ?_,
           charged := fun _ h => absurd h (by simp), idle := fun _ s hs hby => ?_ }
  · refine World.order?_eq_none.mpr fun order horder hkey => ?_
    obtain ⟨r, hr, hasked⟩ := order_asked (full_run h₀ hok hrun) order horder
    have hnot := (hok _ _ hallowed).2
    have hkey₁ : (Request.purchase userId dto).orderKey? = some dto.key := rfl
    simp only [asksAgain, hkey₁, Option.any_some, List.any_eq_false,
      show dto.key.1 = e from hevent, decide_true, Bool.true_and] at hnot
    exact hnot r hr (decide_eq_true (hasked.trans (congrArg some hkey)))
  · rw [heffect]
    simp [Stage.units, Stage.sales]
  · rw [heffect]
    simp [Stage.sales]
  · rw [booked, hfilter]
    rfl
  · rw [hnone s hs] at hby
    cases hby

/-- Nothing anybody else does makes it another. -/
theorem newcomer_stays (h₀ : RunFrom State.initial viaApi tr₀ c₀)
    (hok : ∀ c l, ok c l → newcoming e c l) (hrun : RunFrom c₀ ok tr c) {l : Event} {c' : State}
    (hstep : system.step c l = some c') {i : Nat} (hactor : l.actor ≠ some i) {userId : Uuid}
    {dto : PurchaseFlashSaleDto} {s : Stage} (hnew : c₀.calls.length ≤ i) (hevent : dto.eventId = e)
    (hcall : ∃ call, c.calls[i]? = some call ∧ call.request = .purchase userId dto)
    (h : Newcomer tr c i userId dto s) : Newcomer (tr ++ [⟨c, l, c'⟩]) c' i userId dto s := by
  have hby : byCall i ⟨c, l, c'⟩ = false := decide_eq_false hactor
  have hfull := full_run h₀ hok hrun
  have hevolves := evolves_of_step hstep
  have hrely := rely_of_step (Reachable.worldOk ⟨_, hfull⟩) hstep hactor
  obtain ⟨call, hi, hreq⟩ := hcall
  have heffect : ∀ f, effect f (byCall i) (tr ++ [⟨c, l, c'⟩]) = effect f (byCall i) tr :=
    fun f => effect_snoc_of_unchanged _ fun hyes => by rw [hby] at hyes; cases hyes
  have hbooked : booked (byCall i) (tr ++ [⟨c, l, c'⟩]) = booked (byCall i) tr := by
    rw [booked_snoc, hby]
    simp
  refine { alone := ?_, informed := h.informed.mono hevolves,
           stock := fun e' => by rw [heffect]; exact h.stock e',
           sold := fun e' => by rw [heffect]; exact h.sold e',
           paid := fun hd => by rw [hbooked]; exact (h.paid hd).mono hevolves,
           unpaid := fun hd => by rw [hbooked]; exact h.unpaid hd,
           charged := fun orderId hs => by rw [hrely.tx]; exact h.charged orderId hs,
           idle := fun hearly st hst hyes => ?_ }
  · have hsame : c'.world.order? dto.key = c.world.order? dto.key := by
      rcases orders_of_step hfull hstep with horders | ⟨j, x, r, order, rfl, hj, hkey, horders⟩
      · rw [World.order?, horders]
        rfl
      -- an order under its key would be that of another newcomer, and the keys are their own
      · have hother : order.key ≠ dto.key := fun heq => by
          rw [requests, List.getElem?_map] at hj
          obtain ⟨call', hj', rfl⟩ := Option.map_eq_some_iff.mp hj
          obtain ⟨⟨u, d⟩, hpurchase, hd⟩ := Option.map_eq_some_iff.mp hkey
          obtain rfl := newcomer_unique hok hrun hnew hi hreq hevent hj'
            (Request.purchase?_eq_some.mp hpurchase) (hd.trans heq)
          exact hactor rfl
        rw [World.order?, horders, List.find?_append]
        simp [World.order?, hother]
    rw [hsame]
    exact h.alone
  · rcases List.mem_append.mp hst with hst | hst
    · exact h.idle hearly st hst hyes
    · rw [List.mem_singleton.mp hst, hby] at hyes
      cases hyes

/-- Its own statements keep it one. -/
theorem newcomer_moves (h₀ : RunFrom State.initial viaApi tr₀ c₀)
    (hok : ∀ c l, ok c l → newcoming e c l) (hrun : RunFrom c₀ ok tr c) {ps : List Progress}
    {i : Nat} {o : Stmt} {k : Except Err o.Reply → Service Response} {userId : Uuid}
    {dto : PurchaseFlashSaleDto} {s : Stage} {x : Choice} {reply : Except Err o.Reply} {w : World}
    (hallowed : ok c (.exec i x)) (hnew : c₀.calls.length ≤ i) (hevent : dto.eventId = e)
    (hissues : Issues c ps i (.purchase userId dto) o k (.buying userId dto s) x reply w)
    (h : Newcomer tr c i userId dto s) :
    Newcomer (tr ++ [⟨c, .exec i x, ⟨w, c.calls.set i ⟨.purchase userId dto, k reply, false⟩⟩⟩])
      ⟨w, c.calls.set i ⟨.purchase userId dto, k reply, false⟩⟩ i userId dto (s.next o reply) := by
  have hx : x ≠ .fault := by
    rintro rfl
    cases (hok _ _ hallowed).1.1
  have hfull := full_run h₀ hok hrun
  have hw := Reachable.worldOk ⟨_, hfull⟩
  have hs := hissues.served
  have halone := alone_next hfull hx hissues h.alone
  have hby : byCall i ⟨c, .exec i x, ⟨w, c.calls.set i ⟨.purchase userId dto, k reply, false⟩⟩⟩ = true :=
    decide_eq_true rfl
  have hstock := stock_next hw hissues h.alone h.informed halone
  obtain ⟨hkept, hmoved⟩ := debited_next hissues halone
  -- entries reach the ledger by a commit alone
  have hsilent : ¬Commits o reply → booked (byCall i) (tr ++ [⟨c, .exec i x,
      ⟨w, c.calls.set i ⟨.purchase userId dto, k reply, false⟩⟩⟩]) = booked (byCall i) tr := fun hno => by
    have hledger := (World.ledger_served hs).resolve_right hno
    rw [booked_snoc, entriesOf_of_idle (s := ⟨c, .exec i x, ⟨w, _⟩⟩) hledger]
    simp
  refine { alone := halone, informed := informed_next hissues.pre h.informed hs,
           stock := fun e' => ?_, sold := fun e' => ?_, paid := fun hd => ?_, unpaid := fun hd => ?_,
           charged := fun orderId hcharged => ?_, idle := fun hearly st hst hyes => ?_ }
  · rw [effect_snoc_of_selected _ hby, h.stock e']
    have := (hstock e').1
    dsimp only
    omega
  · rw [effect_snoc_of_selected _ hby, h.sold e']
    have := (hstock e').2
    dsimp only
    omega
  · by_cases hcommits : Commits o reply
    · obtain ⟨⟨orderId, rfl⟩, -⟩ := hmoved hcommits
      rw [booked_snoc, h.unpaid rfl, hby, if_pos rfl, List.nil_append]
      exact debit_of_commit hfull hissues hcommits (h.charged orderId rfl)
    · rw [hsilent hcommits]
      exact (h.paid ((hkept hcommits).symm.trans hd)).mono (.served hs)
  · have hcommits : ¬Commits o reply := fun hcommits => by
      rw [(hmoved hcommits).2] at hd
      cases hd
    rw [hsilent hcommits]
    exact h.unpaid ((hkept hcommits).symm.trans hd)
  · have hd : s.debited = false := by
      have hcommits : ¬Commits o reply := fun hcommits => by
        have := (hmoved hcommits).2
        rw [hcharged] at this
        cases this
      rw [← hkept hcommits, hcharged]
      rfl
    exact charged_next hissues
      (undebited h₀ hok hrun hnew hissues.call rfl hevent (h.unpaid hd)) hcharged
  · obtain ⟨hearly₀, hworld⟩ := idle_next hissues hearly
    rcases List.mem_append.mp hst with hst | hst
    · exact h.idle hearly₀ st hst hyes
    · rw [List.mem_singleton.mp hst]
      exact hworld

/-- **The purchases of an event that arrive under keys of their own are newcomers**, in every state
of every run without faults. -/
theorem newcomer_staged (h₀ : RunFrom State.initial viaApi tr₀ c₀)
    (hok : ∀ c l, ok c l → newcoming e c l) :
    Staged ok c₀ fun tr c ps => ∀ i userId dto s, c₀.calls.length ≤ i ∧ dto.eventId = e →
      ps[i]? = some (.buying userId dto s) → Newcomer tr c i userId dto s :=
  .each _ (fun c i h => absurd (hok _ _ h).1.1 (by simp [noFaults, Lib.Label.isFault]))
    (fun _ _ _ _ hrun hallowed hsel => newcomer_arrives h₀ hok hrun hallowed hsel.2)
    (fun _ _ _ _ _ _ _ _ hrun _ hstep hactor hsel hcall h =>
      newcomer_stays h₀ hok hrun hstep hactor hsel.1 hsel.2 hcall h)
    fun _ _ _ _ _ _ _ _ _ _ _ _ hrun hallowed hsel hissues h =>
      newcomer_moves h₀ hok hrun hallowed hsel.1 hsel.2 hissues h

end Run

end FlashWallet
