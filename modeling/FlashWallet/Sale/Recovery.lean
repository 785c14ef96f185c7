import FlashWallet.Proof.Newcomers
import FlashWallet.Proof.Runs

/-!
# A purchase cut off and tried again

Reserving, paying and recording are committed one by one, and a call can be cut off between any two of
them. The payment is tied to the key, and a retry finds it made; the reserved unit is tied to nothing, and
a retry reserves another. So a retry converges exactly if the first attempt was cut off holding no unit:
with the stock as it was, or with its order written.
-/

set_option autoImplicit false

namespace FlashWallet

open Lib

/-! ## Attempts -/

/-- Nobody acts but call `a`, which asks for `r`. -/
def alone (a : Nat) (r : Request) : State → Event → Prop := fun c l =>
  match l with
  | .arrive r' => r' = r ∧ c.calls.length = a
  | .exec i _ => i = a
  | .crash i => i = a
  | .env _ => True

/-- The purchase is attempted from `c` on, by itself, and the attempt has got to `c'`. `ok` says what may
befall it. -/
def Attempts (ok : State → Event → Prop) (userId : Uuid) (dto : PurchaseFlashSaleDto) (c c' : State) : Prop :=
  ∃ tr, RunFrom c (fun s l => alone c.calls.length (.purchase userId dto) s l ∧ ok s l) tr c'

/-- The first attempt is cut off: the call has died, or thrown an error. -/
structure CutOff (userId : Uuid) (dto : PurchaseFlashSaleDto) (c c' : State) : Prop where
  attempt : Attempts anyStep userId dto c c'
  ended : ∃ call, c'.calls[c.calls.length]? = some call ∧
    (call.crashed = true ∨ ∃ e, call.result? = some (.error e))

/-- The attempt from `c` has returned a `CONFIRMED` order. -/
def Confirmed (c c' : State) : Prop :=
  ∃ call r, c'.calls[c.calls.length]? = some call ∧ call.result? = some (.ok (.purchased r)) ∧
    r.status = .CONFIRMED

/-- The purchase is tried again, one attempt after the other and none of them failed by the infrastructure,
until an attempt returns a `CONFIRMED` order. -/
inductive Retried (userId : Uuid) (dto : PurchaseFlashSaleDto) : State → State → Prop where
  | confirmed {c c' : State} (attempt : Attempts noFaults userId dto c c') (returned : Confirmed c c') :
      Retried userId dto c c'
  | again {c c' c'' : State} (attempt : Attempts noFaults userId dto c c')
      (ended : ∃ call, c'.calls[c.calls.length]? = some call ∧ call.result?.isSome)
      (rest : Retried userId dto c' c'') : Retried userId dto c c''

/-- What one uninterrupted purchase makes of `c`. -/
structure Converged (userId : Uuid) (dto : PurchaseFlashSaleDto) (c c' : State) : Prop where
  paid : ∃! e, e ∈ c'.world.ledger ∧ e.type = .PURCHASE ∧
    e.referenceId = FlashSaleService.walletReferenceId dto.eventId dto.idempotencyKey ∧
    c'.world.Owns e.walletId userId
  ordered : ∃ o ∈ c'.world.orders, o.key = dto.key ∧ o.status = .CONFIRMED ∧ o.userId = userId ∧
    ∀ o' ∈ c'.world.orders, o'.key = dto.key → o' = o
  taken : c'.world.remaining dto.eventId = c.world.remaining dto.eventId - 1

/-! ## What an attempt leaves -/

/-- Where an attempt by itself stands: what it holds or has sold is what is missing from the stock. If it
may get `stuck`, it may be stuck with a unit, but with no order written. -/
def Solo (stuck : Prop) (stock : Int) (userId : Uuid) (dto : PurchaseFlashSaleDto) (w : World) (s : Stage) :
    Prop :=
  (s.Alone userId (w.order? dto.key) ∧ w.remaining dto.eventId + s.units + s.sales = stock) ∨
    (stuck ∧ (∃ err, s = .broken err) ∧ w.order? dto.key = none)

theorem Solo.congr {stuck : Prop} {stock : Int} {userId : Uuid} {dto : PurchaseFlashSaleDto} {w w' : World}
    {s : Stage} (h : Solo stuck stock userId dto w s) (horders : w'.orders = w.orders)
    (hevents : w'.events = w.events) : Solo stuck stock userId dto w' s := by
  have horder : w'.order? dto.key = w.order? dto.key := by rw [World.order?, horders]; rfl
  have hremaining : w'.remaining dto.eventId = w.remaining dto.eventId := by
    rw [World.remaining, World.event?, hevents]
    rfl
  rw [Solo, horder, hremaining]
  exact h

section

variable {ok : State → Event → Prop} {tr : Trace} {c : State} {ps : List Progress} {i : Nat}
  {userId : Uuid} {dto : PurchaseFlashSaleDto} {s : Stage} {o : Stmt}
  {k : Except Err o.Reply → Service Response} {x : Choice} {reply : Except Err o.Reply} {w : World}
  {stuck : Prop} {stock : Int}

/-- What a statement that fails leaves. -/
theorem failed_fault (hexec : World.exec i o .fault c.world = some (reply, w)) :
    reply = .error .unavailable ∧ w.orders = c.world.orders ∧ w.events = c.world.events := by
  cases o <;> first | (cases hexec; exact ⟨rfl, rfl, rfl⟩) | cases hexec

/-- A failure gets a purchase stuck, or on its way to giving its unit back. -/
theorem stranded_next (may : May userId dto s o) (halone : s.Alone userId (c.world.order? dto.key)) :
    ((s.next o (.error .unavailable)).Alone userId (c.world.order? dto.key) ∧
        (s.next o (.error .unavailable)).units + (s.next o (.error .unavailable)).sales = s.units + s.sales) ∨
      (∃ err, s.next o (.error .unavailable) = .broken err) ∧ c.world.order? dto.key = none := by
  cases may with
  | findWallet | lock | findDebit | refuse | debit | book | commit | rollback | announce =>
    exact Or.inl ⟨halone, rfl⟩
  | releaseTwice | releaseLate | reread => exact halone.elim
  | _ => exact Or.inr ⟨⟨_, rfl⟩, halone⟩

theorem solo_next (hrun : RunFrom State.initial ok tr c) (hx : x = .fault → stuck)
    (h : Issues c ps i (.purchase userId dto) o k (.buying userId dto s) x reply w)
    (hinformed : s.Informed c.world dto.eventId) (hsolo : Solo stuck stock userId dto c.world s) :
    Solo stuck stock userId dto w (s.next o reply) := by
  have may : May userId dto s o := h.pre
  rcases hsolo with ⟨halone, hstock⟩ | ⟨-, ⟨err, rfl⟩, -⟩
  · by_cases hfault : x = .fault
    · subst hfault
      obtain ⟨rfl, horders, hevents⟩ := failed_fault h.exec
      refine Solo.congr ?_ horders hevents
      rcases stranded_next may halone with ⟨halone', hunits⟩ | hstranded
      · exact Or.inl ⟨halone', by omega⟩
      · exact Or.inr ⟨hx rfl, hstranded⟩
    · have halone' := alone_next hrun hfault h halone
      have hmoved := (stock_next (Reachable.worldOk ⟨tr, hrun⟩) h halone hinformed halone' dto.eventId).1
      simp only [if_true] at hmoved
      exact Or.inl ⟨halone', by omega⟩
  · cases may

/-- What is known on the way of an attempt from `c₀`. -/
structure Attempted (c₀ : State) (stuck : Prop) (stock : Int) (userId : Uuid) (dto : PurchaseFlashSaleDto)
    (c : State) (ps : List Progress) : Prop where
  informed : Informed c.world ps
  before : c.calls.length = c₀.calls.length →
    c.world.order? dto.key = none ∧ c.world.remaining dto.eventId = stock
  solo : ∀ s, ps[c₀.calls.length]? = some (.buying userId dto s) → Solo stuck stock userId dto c.world s

theorem Attempted.congr {c₀ : State} (h : Attempted c₀ stuck stock userId dto c ps)
    {calls : List ServiceCall} (hinformed : Informed w ps) (hlen : calls.length = c.calls.length)
    (horders : w.orders = c.world.orders) (hevents : w.events = c.world.events) :
    Attempted c₀ stuck stock userId dto ⟨w, calls⟩ ps where
  informed := hinformed
  before hstart := by
    obtain ⟨horder, hstock⟩ := h.before (hlen.symm.trans hstart)
    rw [World.order?, horders, World.remaining, World.event?, hevents]
    exact ⟨horder, hstock⟩
  solo s hs := (h.solo s hs).congr horders hevents

theorem attempted_staged {tr₀ : Trace} {c₀ : State} (hreach : RunFrom State.initial anyStep tr₀ c₀)
    (hok : ∀ c i, ok c (.exec i .fault) → stuck) :
    Staged (fun s l => alone c₀.calls.length (.purchase userId dto) s l ∧ ok s l) c₀
      fun _ => Attempted c₀ stuck stock userId dto where
  arrive tr c ps r hrun hreq h hallowed := by
    obtain ⟨rfl, hlen⟩ : r = .purchase userId dto ∧ c.calls.length = c₀.calls.length := hallowed.1
    obtain ⟨horder, hstock⟩ := h.before hlen
    refine ⟨(informed_staged anyStep).arrive _ c ps _ (hreach.append (hrun.mono fun _ _ _ => trivial)) hreq
      h.informed trivial,
      fun hlen' => ?_, fun s hs => ?_⟩
    · simp [Platform.arrive, hlen] at hlen'
    · rcases Platform.getElem?_concat_cases hs with ⟨-, heq⟩ | hs
      · cases heq
        exact Or.inl ⟨horder, by simpa [Platform.arrive, Stage.units, Stage.sales] using hstock⟩
      · exact absurd (List.getElem?_eq_some_iff.mp hs).1 (by rw [hreq.length, hlen]; exact lt_irrefl _)
  exec tr c ps i req o k p x reply w hrun h hallowed hissues := by
    obtain rfl : i = c₀.calls.length := hallowed.1
    have hrun' := hreach.append (hrun.mono fun _ _ _ => trivial)
    refine ⟨(informed_staged anyStep).exec _ c ps _ req o k p x reply w hrun' h.informed trivial hissues,
      fun hlen => ?_, fun s hs => ?_⟩
    · have hlt := (List.getElem?_eq_some_iff.mp hissues.call).1
      rw [List.length_set] at hlen
      omega
    · rcases Platform.getElem?_set_cases hs with ⟨-, heq⟩ | ⟨hne, -⟩
      · cases p with
        | other => cases heq
        | buying u d s' =>
          cases heq
          obtain rfl := Request.purchase?_eq_some.mp hissues.request.symm
          refine solo_next hrun' (fun hx => hok c _ (hx ▸ hallowed.2)) hissues ?_ (h.solo s' hissues.progress)
          exact h.informed _ _ _ (List.mem_of_getElem? hissues.progress)
      · exact absurd rfl hne
  crash tr c ps i r o k hrun hreq h hallowed hi := by
    refine h.congr ?_ (List.length_set ..) rfl rfl
    exact fun u d s hs => (h.informed u d s hs).mono (.release _ _)
  env tr c ps e w hrun hreq h hallowed he := by
    have hsame := World.env_same he
    refine h.congr ?_ rfl hsame.orders hsame.events
    exact fun u d s hs => (h.informed u d s hs).mono (.env he)

/-- **An attempt** from a state with no order under its key: where the call stands, once it is there. -/
theorem Attempts.solo {c₀ : State} (stuck : Prop) (h : Attempts ok userId dto c₀ c)
    (hreach : Reachable anyStep c₀) (hok : ∀ c i, ok c (.exec i .fault) → stuck)
    (hfresh : c₀.world.order? dto.key = none) :
    ∃ ps, Attempted c₀ stuck (c₀.world.remaining dto.eventId) userId dto c ps ∧ Requested c.calls ps ∧
      Platform.Aligned purchasing purchasingAnswer c.calls ps := by
  obtain ⟨tr₀, hrun₀⟩ := hreach
  obtain ⟨tr, hrun⟩ := h
  obtain ⟨ps₀, hinformed, hrequested, ha⟩ := (informed_staged anyStep).sound_initial
    (fun _ _ _ h => absurd h List.not_mem_nil) hrun₀
  refine (attempted_staged hrun₀ hok).sound ⟨hinformed, fun _ => ⟨hfresh, rfl⟩, fun s hs => ?_⟩ hrequested ha hrun
  exact absurd (List.getElem?_eq_some_iff.mp hs).1 (by rw [hrequested.length]; exact lt_irrefl _)

/-- Whose call an attempt is. -/
theorem Attempts.request {c₀ : State} (h : Attempts ok userId dto c₀ c) {call : ServiceCall}
    (hcall : c.calls[c₀.calls.length]? = some call) : call.request = .purchase userId dto := by
  obtain ⟨tr, hrun⟩ := h
  refine hrun.invariant (I := fun c => ∀ call : ServiceCall, c.calls[c₀.calls.length]? = some call →
    call.request = .purchase userId dto) (fun call hcall => ?_)
    (fun c l c' h hallowed hstep call hcall => ?_) call hcall
  · exact absurd (List.getElem?_eq_some_iff.mp hcall).1 (lt_irrefl _)
  · have hset : ∀ {j : Nat} {call₀ : ServiceCall} (call₁ : ServiceCall), c.calls[j]? = some call₀ →
        call₁.request = call₀.request → (c.calls.set j call₁)[c₀.calls.length]? = some call →
        call.request = .purchase userId dto := by
      intro j call₀ call₁ hj hreq hcall
      rcases Platform.getElem?_set_cases hcall with ⟨rfl, rfl⟩ | ⟨-, hcall⟩
      · exact hreq.trans (h call₀ hj)
      · exact h call hcall
    cases l with
    | arrive r =>
      obtain rfl := Option.some.inj hstep
      rcases Platform.getElem?_concat_cases hcall with ⟨-, rfl⟩ | hcall
      · exact hallowed.1.1
      · exact h call hcall
    | exec j x =>
      obtain ⟨r, o, k, reply, w, hj, -, rfl⟩ := system.step_exec hstep
      exact hset ⟨r, k reply, false⟩ hj rfl hcall
    | crash j =>
      obtain ⟨r, o, k, hj, rfl⟩ := system.step_crash hstep
      exact hset ⟨r, .call o k, true⟩ hj rfl hcall
    | env e =>
      obtain ⟨w, -, rfl⟩ := system.step_env hstep
      exact h call hcall

/-- The stage of an attempt, once its call is there. -/
theorem Attempts.stage {c₀ : State} (h : Attempts ok userId dto c₀ c) (hrequested : Requested c.calls ps)
    {call : ServiceCall} (hcall : c.calls[c₀.calls.length]? = some call) :
    ∃ s, ps[c₀.calls.length]? = some (.buying userId dto s) := by
  have hlt : c₀.calls.length < ps.length := hrequested.length ▸ (List.getElem?_eq_some_iff.mp hcall).1
  have hp : ps[c₀.calls.length]? = some ps[c₀.calls.length] := List.getElem?_eq_getElem hlt
  have hpurchase : (ps[c₀.calls.length]).purchase? = call.request.purchase? := hrequested.same _ call _ hcall hp
  rw [h.request hcall] at hpurchase
  cases hstage : ps[c₀.calls.length] with
  | other => rw [hstage] at hpurchase; cases hpurchase
  | buying u d s =>
    rw [hstage] at hpurchase hp
    cases hpurchase
    exact ⟨s, hp⟩

/-! ## An attempt that meets an order -/

/-- A purchase whose order is there only finds it. -/
structure Replaying (c₀ : State) (order : Order) (userId : Uuid) (dto : PurchaseFlashSaleDto) (c : State)
    (ps : List Progress) : Prop where
  found : c.world.order? dto.key = some order
  stock : c.world.remaining dto.eventId = c₀.world.remaining dto.eventId
  stages : ∀ s, ps[c₀.calls.length]? = some (.buying userId dto s) →
    s = .looking ∨ s = .seen order ∨ ∃ err, s = .broken err

theorem Replaying.congr {c₀ : State} {order : Order} (h : Replaying c₀ order userId dto c ps)
    {calls : List ServiceCall} (horders : w.orders = c.world.orders) (hevents : w.events = c.world.events) :
    Replaying c₀ order userId dto ⟨w, calls⟩ ps where
  found := by
    rw [World.order?, horders]
    exact h.found
  stock := by
    rw [World.remaining, World.event?, hevents]
    exact h.stock
  stages := h.stages

theorem replaying_staged {c₀ : State} {order : Order} :
    Staged (fun s l => alone c₀.calls.length (.purchase userId dto) s l ∧ ok s l) c₀
      fun _ => Replaying c₀ order userId dto where
  arrive tr c ps r hrun hreq h hallowed := by
    obtain ⟨rfl, hlen⟩ : r = .purchase userId dto ∧ c.calls.length = c₀.calls.length := hallowed.1
    refine ⟨h.found, h.stock, fun s hs => ?_⟩
    rcases Platform.getElem?_concat_cases hs with ⟨-, heq⟩ | hs
    · cases heq
      exact Or.inl rfl
    · exact h.stages s hs
  exec tr c ps i req o k p x reply w hrun h hallowed hissues := by
    obtain rfl : i = c₀.calls.length := hallowed.1
    obtain rfl : req = .purchase userId dto := Attempts.request ⟨tr, hrun⟩ hissues.call
    obtain ⟨s, hp⟩ := Attempts.stage ⟨tr, hrun⟩ hissues.others hissues.call
    obtain rfl := Option.some.inj (hissues.progress.symm.trans hp)
    have hs := hissues.served
    have may : May userId dto s o := hissues.pre
    rcases h.stages s hp with rfl | rfl | ⟨err, rfl⟩
    · cases may with
      | find =>
        -- the look finds the order, or fails
        have hnext : w = c.world ∧ (Stage.looking.next _ reply = .seen order ∨
            ∃ err, Stage.looking.next (.orderFindUnique dto.eventId dto.idempotencyKey) reply = .broken err) := by
          cases reply with
          | error e => exact ⟨by cases hs <;> rfl, Or.inr ⟨e, rfl⟩⟩
          | ok found =>
            obtain ⟨rfl, rfl⟩ := hs.of_read rfl (by simp)
            rw [show c.world.order? (dto.eventId, dto.idempotencyKey) = some order from h.found]
            exact ⟨rfl, Or.inl rfl⟩
        obtain ⟨rfl, hstage⟩ := hnext
        refine ⟨h.found, h.stock, fun s' hs' => ?_⟩
        rcases Platform.getElem?_set_cases hs' with ⟨-, heq⟩ | ⟨hne, -⟩
        · cases heq
          exact Or.inr hstage
        · exact absurd rfl hne
    · cases may
    · cases may
  crash tr c ps i r o k hrun hreq h hallowed hi := h.congr rfl rfl
  env tr c ps e w hrun hreq h hallowed he := h.congr (World.env_same he).orders (World.env_same he).events

/-- **An attempt that meets an order** changes nothing and returns that order. -/
theorem Attempts.replays {c₀ : State} {order : Order} (h : Attempts ok userId dto c₀ c)
    (hreach : Reachable anyStep c₀) (hfound : c₀.world.order? dto.key = some order) :
    c.world.order? dto.key = some order ∧
      c.world.remaining dto.eventId = c₀.world.remaining dto.eventId ∧
      (Confirmed c₀ c → order.status = .CONFIRMED) := by
  obtain ⟨tr₀, hrun₀⟩ := hreach
  obtain ⟨tr, hrun⟩ := h
  obtain ⟨ps₀, hrequested₀, ha₀⟩ := stages_of_run hrun₀
  have hnone : ps₀[c₀.calls.length]? = none := List.getElem?_eq_none (le_of_eq hrequested₀.length)
  obtain ⟨ps, hreplaying, hrequested, ha⟩ := replaying_staged.sound
    ⟨hfound, rfl, fun s hs => by rw [hnone] at hs; cases hs⟩ hrequested₀ ha₀ hrun
  refine ⟨hreplaying.found, hreplaying.stock, ?_⟩
  rintro ⟨call, r, hcall, hresult, hstatus⟩
  obtain ⟨s, hs⟩ := Attempts.stage ⟨tr, hrun⟩ hrequested hcall
  obtain ⟨r', houtcome, hr⟩ := ha.outcome hcall hs hresult
  rcases hreplaying.stages s hs with rfl | rfl | ⟨err, rfl⟩
  · cases houtcome
  · cases houtcome
    cases hr
    exact hstatus
  · cases houtcome
    cases hr

/-! ## Tried again -/

theorem Attempts.reachable {c₀ : State} (h : Attempts ok userId dto c₀ c) (hreach : Reachable anyStep c₀) :
    Reachable anyStep c :=
  let ⟨_, hrun⟩ := h
  hreach.run hrun

theorem Retried.reachable {c' : State} (h : Retried userId dto c c') (hreach : Reachable anyStep c) :
    Reachable anyStep c' := by
  induction h with
  | confirmed attempt _ => exact attempt.reachable hreach
  | again attempt _ _ ih => exact ih (attempt.reachable hreach)

theorem Retried.replays {c' : State} {order : Order} (h : Retried userId dto c c')
    (hreach : Reachable anyStep c) (hfound : c.world.order? dto.key = some order) :
    order.status = .CONFIRMED ∧ c'.world.order? dto.key = some order ∧
      c'.world.remaining dto.eventId = c.world.remaining dto.eventId := by
  induction h with
  | confirmed attempt returned =>
    obtain ⟨hfound', hstock, hstatus⟩ := attempt.replays hreach hfound
    exact ⟨hstatus returned, hfound', hstock⟩
  | again attempt ended rest ih =>
    obtain ⟨hfound', hstock, -⟩ := attempt.replays hreach hfound
    obtain ⟨hstatus, hlast, hstock'⟩ := ih (attempt.reachable hreach) hfound'
    exact ⟨hstatus, hlast, hstock'.trans hstock⟩

/-- An order of the user has been confirmed, for one unit of the `stock` there was. -/
def Sold (userId : Uuid) (dto : PurchaseFlashSaleDto) (stock : Int) (c : State) : Prop :=
  ∃ o, c.world.order? dto.key = some o ∧ o.status = .CONFIRMED ∧ o.userId = userId ∧
    c.world.remaining dto.eventId + 1 = stock

/-- How an attempt without failures ends. -/
theorem Attempts.settles {c₀ : State} (h : Attempts noFaults userId dto c₀ c) (hreach : Reachable anyStep c₀)
    (hfresh : c₀.world.order? dto.key = none) {call : ServiceCall}
    (hcall : c.calls[c₀.calls.length]? = some call) {r : Except Err Response} (hresult : call.result? = some r) :
    Sold userId dto (c₀.world.remaining dto.eventId) c ∨ ¬Confirmed c₀ c ∧
      ((∃ o, c.world.order? dto.key = some o ∧ o.status = .FAILED) ∨
        c.world.order? dto.key = none ∧ c.world.remaining dto.eventId = c₀.world.remaining dto.eventId) := by
  obtain ⟨ps, hattempted, hrequested, ha⟩ := h.solo False hreach (fun _ _ => nofun) hfresh
  obtain ⟨s, hs⟩ := h.stage hrequested hcall
  obtain ⟨r', houtcome, rfl⟩ := ha.outcome hcall hs hresult
  obtain ⟨halone, hstock⟩ := (hattempted.solo s hs).resolve_right fun h => h.1
  have hrefused : ∀ {e : Err}, r' = .error e → ¬Confirmed c₀ c := by
    rintro e rfl ⟨call', r, hcall', hresult', -⟩
    obtain rfl := Option.some.inj (hcall.symm.trans hcall')
    cases hresult.symm.trans hresult'
  cases houtcome with
  | seen => exact halone.elim
  | broken => exact halone.elim
  | sold o =>
    obtain ⟨horder, hstatus, huser⟩ := halone
    exact Or.inl ⟨o, horder, hstatus, huser, by simpa [Stage.units, Stage.sales] using hstock⟩
  | failed o err => exact Or.inr ⟨hrefused rfl, Or.inl ⟨o, halone.1, halone.2.1⟩⟩
  | noEvent | inactive | exhausted =>
    exact Or.inr ⟨hrefused rfl, Or.inr ⟨halone, by simpa [Stage.units, Stage.sales] using hstock⟩⟩

/-- **Trying again** where no order is written sells one unit of the stock there is. -/
theorem Retried.sells {c' : State} (h : Retried userId dto c c') (hreach : Reachable anyStep c)
    (hfresh : c.world.order? dto.key = none) : Sold userId dto (c.world.remaining dto.eventId) c' := by
  induction h with
  | confirmed attempt returned =>
    obtain ⟨call, r, hcall, hresult, -⟩ := id returned
    exact (attempt.settles hreach hfresh hcall hresult).resolve_right fun h => h.1 returned
  | again attempt ended rest ih =>
    have hreach' := attempt.reachable hreach
    obtain ⟨call, hcall, hsome⟩ := ended
    obtain ⟨r, hresult⟩ := Option.isSome_iff_exists.mp hsome
    rcases attempt.settles hreach hfresh hcall hresult with
      ⟨o, horder, hstatus, huser, hstock⟩ | ⟨-, ⟨o, horder, hfailed⟩ | ⟨hnone, hstock⟩⟩
    · obtain ⟨-, hlast, hsame⟩ := rest.replays hreach' horder
      exact ⟨o, hlast, hstatus, huser, by rw [hsame]; exact hstock⟩
    · -- a recorded failure is what every later attempt finds
      rw [(rest.replays hreach' horder).1] at hfailed
      cases hfailed
    · rw [← hstock]
      exact ih hreach' hnone

/-- What the first attempt has written, if anything, it has written for its user and one unit. -/
theorem CutOff.wrote {c₀ : State} (h : CutOff userId dto c₀ c) (hreach : Reachable anyStep c₀)
    (hfresh : c₀.world.order? dto.key = none) {order : Order} (hfound : c.world.order? dto.key = some order)
    (hstatus : order.status = .CONFIRMED) : Sold userId dto (c₀.world.remaining dto.eventId) c := by
  obtain ⟨ps, hattempted, hrequested, ha⟩ := h.attempt.solo True hreach (fun _ _ _ => trivial) hfresh
  obtain ⟨call, hcall, -⟩ := h.ended
  obtain ⟨s, hs⟩ := h.attempt.stage hrequested hcall
  rcases hattempted.solo s hs with ⟨halone, hstock⟩ | ⟨-, -, hnone⟩
  · rw [hfound] at halone
    cases s with
    | sold o =>
      obtain ⟨heq, hstatus, huser⟩ := halone
      exact ⟨o, hfound.trans heq, hstatus, huser, by simpa [Stage.units, Stage.sales] using hstock⟩
    | failed o err =>
      obtain ⟨heq, hfailed, -⟩ := halone
      cases heq
      rw [hstatus] at hfailed
      cases hfailed
    | _ => cases halone
  · rw [hfound] at hnone
    cases hnone

/-- A sale is paid for, once. -/
theorem Sold.converged {c₀ : State} {stock : Int} (h : Sold userId dto stock c) (hreach : Reachable anyStep c)
    (hstock : stock = c₀.world.remaining dto.eventId) : Converged userId dto c₀ c := by
  obtain ⟨o, hfound, hstatus, rfl, htaken⟩ := h
  obtain ⟨horder, hkey⟩ := World.order?_eq_some hfound
  have hok := hreach.worldOk
  refine ⟨?_, ⟨o, horder, hkey, hstatus, rfl, fun o' ho' hkey' => hok.order_ext ho' horder (hkey'.trans hkey.symm)⟩,
    by omega⟩
  obtain ⟨tr, hrun⟩ := hreach
  obtain ⟨bs, hkept, -⟩ := kept_of_run hrun
  obtain ⟨e, he, htype, href, howns⟩ := hkept.orders o horder hstatus
  obtain ⟨hevent, hkey'⟩ := Prod.mk.inj (show (o.flashSaleEventId, o.idempotencyKey) = _ from hkey)
  rw [hevent, hkey'] at href
  refine ⟨e, ⟨he, htype, href, howns⟩, ?_⟩
  rintro e' ⟨he', htype', href', howns'⟩
  refine hok.entry_ext he' he ?_
  rw [LedgerEntry.key, LedgerEntry.key, hok.owned_unique howns' howns, href', href, htype', htype]

/-- **Cut off and tried again**, a purchase converges exactly if the first attempt was cut off with the
stock as it was, or with its order written. -/
theorem retry_converges {c₀ c₁ c₂ : State} (hreach : Reachable anyStep c₀)
    (hfresh : c₀.world.order? dto.key = none) (hcut : CutOff userId dto c₀ c₁)
    (hretried : Retried userId dto c₁ c₂) :
    Converged userId dto c₀ c₂ ↔
      c₁.world.remaining dto.eventId = c₀.world.remaining dto.eventId ∨ (c₁.world.order? dto.key).isSome := by
  have hreach₁ := hcut.attempt.reachable hreach
  have hreach₂ := hretried.reachable hreach₁
  cases hfound : c₁.world.order? dto.key with
  | none =>
    have hsold := hretried.sells hreach₁ hfound
    refine ⟨fun h => Or.inl ?_, fun h => hsold.converged hreach₂ (h.resolve_right (by simp))⟩
    obtain ⟨o, -, -, -, htaken⟩ := hsold
    have := h.taken
    omega
  | some order =>
    obtain ⟨hstatus, hlast, hsame⟩ := hretried.replays hreach₁ hfound
    obtain ⟨o, hfound', hstatus', huser, htaken⟩ := hcut.wrote hreach hfresh hfound hstatus
    obtain rfl := Option.some.inj (hfound.symm.trans hfound')
    have hsold : Sold userId dto (c₀.world.remaining dto.eventId) c₂ :=
      ⟨order, hlast, hstatus', huser, by rw [hsame]; exact htaken⟩
    exact iff_of_true (hsold.converged hreach₂ rfl) (Or.inr rfl)

end

section

open Sample

/-- Alice has ten units of money, and two lamps are on sale at ten each. -/
def twoLamps : State :=
  stateAfter State.initial ([.env (.seedProduct product),
    .arrive (.createEvent event₂), .exec 0 .ok, .exec 0 (.fresh sale)] ++
    register 1 alice aliceWallet ++ fund 2 alice id₁)

/-- Her purchase reserves a unit and pays for it; the insert of its order fails. -/
def insertFails : List Event :=
  [.arrive (.purchase alice lamp)] ++ runs 3 4 ++ [.exec 3 (.fresh id₂)] ++ runs 3 6 ++ [.exec 3 .fault]

/-- Her wallet cannot be read, and her purchase is cut off when it has given its unit back. -/
def diesReturned : List Event :=
  [.arrive (.purchase alice lamp)] ++ runs 3 4 ++ [.exec 3 (.fresh id₂), .exec 3 .fault] ++ runs 3 2 ++ [.crash 3]

/-- Her purchase is cut off when it has written its order. -/
def diesWritten : List Event :=
  [.arrive (.purchase alice lamp)] ++ runs 3 4 ++ [.exec 3 (.fresh id₂)] ++ runs 3 7 ++ [.crash 3]

/-- She tries again, and nothing goes wrong: six statements follow the drawing of the order's identifier
if the payment is found, eight if it is made. -/
def triesAgain (n : Nat) : List Event :=
  [.arrive (.purchase alice lamp)] ++ runs 4 4 ++ [.exec 4 (.fresh id₃)] ++ runs 4 n

/-- The steps an attempt by itself may take. -/
def isAlone (a : Nat) (r : Request) (c : State) : Event → Bool
  | .arrive r' => r' = r && c.calls.length = a
  | .exec i _ => i = a
  | .crash i => i = a
  | .env _ => true

theorem alone_of_isAlone {a : Nat} {r : Request} {c : State} {l : Event} (h : isAlone a r c l = true) :
    alone a r c l := by
  cases l with
  | arrive r' => simpa [isAlone, alone] using h
  | exec i x => simpa [isAlone, alone] using h
  | crash i => simpa [isAlone, alone] using h
  | env e => trivial

theorem attempts_stateAfter {ok : State → Event → Prop} (sel : Event → Bool)
    (hsel : ∀ s l, sel l = true → ok s l) (c : State) (ls : List Event)
    (h : Allowed (fun s l => isAlone c.calls.length (.purchase alice lamp) s l && sel l) c ls = true) :
    Attempts ok alice lamp c (stateAfter c ls) := by
  refine ⟨traceAfter c ls, (run_stateAfter _ c ls h).mono fun s l hl => ?_⟩
  obtain ⟨halone, hok⟩ := Bool.and_eq_true_iff.mp hl
  exact ⟨alone_of_isAlone halone, hsel s l hok⟩

/-- What became of call `i`: whether it died, and what it answered. -/
def fate (c : State) (i : Nat) : Option (Bool × Option (Except Err Response)) :=
  c.calls[i]?.map fun call => (call.crashed, call.result?)

theorem cutOff_stateAfter {c : State} {ls : List Event} {died : Bool} {answer : Option (Except Err Response)}
    (h : Allowed (isAlone c.calls.length (.purchase alice lamp)) c ls = true)
    (hfate : fate (stateAfter c ls) c.calls.length = some (died, answer))
    (hcut : died = true ∨ ∃ e, answer = some (.error e)) : CutOff alice lamp c (stateAfter c ls) := by
  refine ⟨attempts_stateAfter (fun _ => true) (fun _ _ _ => trivial) c ls (by simpa using h), ?_⟩
  obtain ⟨call, hcall, heq⟩ := Option.map_eq_some_iff.mp hfate
  obtain ⟨rfl, rfl⟩ := Prod.mk.inj heq
  exact ⟨call, hcall, hcut⟩

theorem retried_stateAfter {c : State} {ls : List Event} {r : OrderResult}
    (h : Allowed (fun s l => isAlone c.calls.length (.purchase alice lamp) s l && !l.isFault) c ls = true)
    (hfate : fate (stateAfter c ls) c.calls.length = some (false, some (.ok (.purchased r))))
    (hstatus : r.status = .CONFIRMED) : Retried alice lamp c (stateAfter c ls) := by
  refine .confirmed (attempts_stateAfter (fun l => !l.isFault) (fun _ l h => by simpa [noFaults] using h) c ls h) ?_
  obtain ⟨call, hcall, heq⟩ := Option.map_eq_some_iff.mp hfate
  exact ⟨call, r, hcall, (Prod.mk.inj heq).2, hstatus⟩

set_option maxRecDepth 4000 in
theorem twoLamps_reachable : Reachable anyStep twoLamps := reachable_stateAfter _ (by decide)

/-- She tries again and finds her order. -/
def looksAgain : List Event := [.arrive (.purchase alice lamp)] ++ runs 4 1

/-- The answer she is given. -/
def herLamp : OrderResult := ⟨id₃, sale, .CONFIRMED, "lamp", 0, false⟩

set_option maxRecDepth 8000 in
/-- Cut off with its unit given back, or with its order written, the purchase converges. -/
theorem retry_converges_diesLate :
    Converged alice lamp twoLamps (stateAfter (stateAfter twoLamps diesReturned) (triesAgain 8)) ∧
      Converged alice lamp twoLamps (stateAfter (stateAfter twoLamps diesWritten) looksAgain) := by
  constructor
  · have hcut : CutOff alice lamp twoLamps (stateAfter twoLamps diesReturned) :=
      cutOff_stateAfter (by decide) (show fate _ 3 = some (true, none) by decide) (Or.inl rfl)
    have hretried : Retried alice lamp (stateAfter twoLamps diesReturned)
        (stateAfter (stateAfter twoLamps diesReturned) (triesAgain 8)) :=
      retried_stateAfter (by decide) (show fate _ 4 = some (false, some (.ok (.purchased herLamp))) by decide) rfl
    exact (retry_converges twoLamps_reachable (by decide) hcut hretried).mpr (Or.inl (by decide))
  · have hcut : CutOff alice lamp twoLamps (stateAfter twoLamps diesWritten) :=
      cutOff_stateAfter (by decide) (show fate _ 3 = some (true, none) by decide) (Or.inl rfl)
    have hretried : Retried alice lamp (stateAfter twoLamps diesWritten)
        (stateAfter (stateAfter twoLamps diesWritten) looksAgain) :=
      retried_stateAfter (by decide)
        (show fate _ 4 = some (false, some (.ok (.purchased (FlashSaleService.toOrderResult aliceOrder true))))
          by decide) rfl
    exact (retry_converges twoLamps_reachable (by decide) hcut hretried).mpr (Or.inr (by decide))

set_option maxRecDepth 8000 in
/-- Cut off at the insert of its order, the purchase takes a unit with it. -/
theorem unconverged_insertFails :
    CutOff alice lamp twoLamps (stateAfter twoLamps insertFails) ∧
      Retried alice lamp (stateAfter twoLamps insertFails)
        (stateAfter (stateAfter twoLamps insertFails) (triesAgain 6)) ∧
      ¬Converged alice lamp twoLamps (stateAfter (stateAfter twoLamps insertFails) (triesAgain 6)) := by
  refine ⟨cutOff_stateAfter (by decide) (show fate _ 3 = some (false, some (.error .unavailable)) by decide)
    (Or.inr ⟨_, rfl⟩), retried_stateAfter (by decide)
    (show fate _ 4 = some (false, some (.ok (.purchased herLamp))) by decide) rfl, fun h => ?_⟩
  have htaken : (stateAfter (stateAfter twoLamps insertFails) (triesAgain 6)).world.remaining sale =
      twoLamps.world.remaining sale - 1 := h.taken
  revert htaken
  decide

end

end FlashWallet
