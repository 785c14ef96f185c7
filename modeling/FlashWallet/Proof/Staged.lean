import FlashWallet.Proof.Stages

/-!
# Invariants of purchases

An invariant about sales relates the state to the stages its purchases have reached. Where a
purchase goes next is a function of the reply (`Stage.next`), so such an invariant only has to say
what a reply does to it: `Staged` lists what has to be shown, with everything that is known of the
step at hand (`Issues`), and `Staged.sound` gives the invariant in every state of every run.
-/

set_option autoImplicit false

namespace FlashWallet

open Lib

/-- Each call has its stage, and is making the purchase its request asks for, if any. -/
structure Requested (calls : List ServiceCall) (ps : List Progress) : Prop where
  length : ps.length = calls.length
  same : Platform.Matched (fun _ call p => p.purchase? = call.request.purchase?) calls ps

theorem Requested.nil : Requested [] [] := ⟨rfl, .nil⟩

theorem Requested.arrive {calls : List ServiceCall} {ps : List Progress} (h : Requested calls ps)
    {call : ServiceCall} {p : Progress} (hp : p.purchase? = call.request.purchase?) :
    Requested (calls ++ [call]) (ps ++ [p]) :=
  ⟨by simp [h.length], h.same.arrive h.length hp⟩

theorem Requested.set {calls : List ServiceCall} {ps : List Progress} (h : Requested calls ps)
    {i : Nat} {call : ServiceCall} {p : Progress} (hp : p.purchase? = call.request.purchase?) :
    Requested (calls.set i call) (ps.set i p) :=
  ⟨by simp [h.length], h.same.set (fun _ _ _ _ hq => hq) hp⟩

/-- Whoever is at a stage of a purchase has asked for it. -/
theorem Requested.call {calls : List ServiceCall} {ps : List Progress} (h : Requested calls ps)
    {i : Nat} {userId : Uuid} {dto : PurchaseFlashSaleDto} {s : Stage}
    (hp : ps[i]? = some (.buying userId dto s)) :
    ∃ call, calls[i]? = some call ∧ call.request = .purchase userId dto := by
  have hlt : i < calls.length := h.length ▸ (List.getElem?_eq_some_iff.mp hp).1
  have hi : calls[i]? = some calls[i] := List.getElem?_eq_getElem hlt
  exact ⟨_, hi, Request.purchase?_eq_some.mp (h.same i _ _ hi hp).symm⟩

/-- Call `i`, which is at `p`, issues `o` and is answered `reply`, which leaves the world `w`. -/
structure Issues (c : State) (ps : List Progress) (i : Nat) (req : Request) (o : Stmt)
    (k : Except Err o.Reply → Service Response) (p : Progress) (x : Choice)
    (reply : Except Err o.Reply) (w : World) : Prop where
  call : c.calls[i]? = some ⟨req, .call (S := sql) o k, false⟩
  progress : ps[i]? = some p
  pre : purchasing.pre o p
  request : p.purchase? = req.purchase?
  others : Requested c.calls ps
  exec : World.exec i o x c.world = some (reply, w)

theorem Issues.served {c : State} {ps : List Progress} {i : Nat} {req : Request} {o : Stmt}
    {k : Except Err o.Reply → Service Response} {p : Progress} {x : Choice}
    {reply : Except Err o.Reply} {w : World} (h : Issues c ps i req o k p x reply w) :
    World.Served i c.world o reply w := .of_exec h.exec

/-- The call's step. -/
theorem Issues.step {c : State} {ps : List Progress} {i : Nat} {req : Request} {o : Stmt}
    {k : Except Err o.Reply → Service Response} {p : Progress} {x : Choice}
    {reply : Except Err o.Reply} {w : World} (h : Issues c ps i req o k p x reply w) :
    system.step c (.exec i x) = some ⟨w, c.calls.set i ⟨req, k reply, false⟩⟩ :=
  system.step_of_exec h.call h.exec

/-- What has to be shown of an invariant `G` of the runs from `c₀`. -/
structure Staged (ok : State → Event → Prop) (c₀ : State)
    (G : Trace → State → List Progress → Prop) : Prop where
  arrive : ∀ tr c ps r, RunFrom c₀ ok tr c → Requested c.calls ps → G tr c ps →
    ok c (.arrive r) → G (tr ++ [⟨c, .arrive r, system.arrive c r⟩]) (system.arrive c r)
      (ps ++ [Progress.start r])
  exec : ∀ tr c ps i req o k p x reply w, RunFrom c₀ ok tr c → G tr c ps → ok c (.exec i x) →
    Issues c ps i req o k p x reply w →
    G (tr ++ [⟨c, .exec i x, ⟨w, c.calls.set i ⟨req, k reply, false⟩⟩⟩])
      ⟨w, c.calls.set i ⟨req, k reply, false⟩⟩ (ps.set i (p.next o reply))
  crash : ∀ tr c ps i r o k, RunFrom c₀ ok tr c → Requested c.calls ps → G tr c ps → ok c (.crash i) →
    c.calls[i]? = some ⟨r, .call (S := sql) o k, false⟩ →
    G (tr ++ [⟨c, .crash i, ⟨c.world.release i, c.calls.set i ⟨r, .call o k, true⟩⟩⟩])
      ⟨c.world.release i, c.calls.set i ⟨r, .call o k, true⟩⟩ ps
  env : ∀ tr c ps e w, RunFrom c₀ ok tr c → Requested c.calls ps → G tr c ps → ok c (.env e) →
    e.run c.world = some w → G (tr ++ [⟨c, .env e, { c with world := w }⟩]) { c with world := w } ps

variable {ok : State → Event → Prop} {c₀ c : State} {tr : Trace}
  {G : Trace → State → List Progress → Prop}

theorem Staged.bookkeeping (h : Staged ok c₀ G) :
    Platform.Bookkeeping system purchasing purchasingAnswer Progress.start
      (fun tr c ps => G tr c ps ∧ Requested c.calls ps) ok c₀ where
  handlers _ r _ := handler_stages r
  arrive tr c ps r hrun _ hG hok :=
    ⟨h.arrive tr c ps r hrun hG.2 hG.1 hok, hG.2.arrive (purchase?_start r)⟩
  exec tr c ps i r o k p x reply w hrun _ hG hok hi hp hpre hexec := by
    have hissues : Issues c ps i r o k p x reply w :=
      ⟨hi, hp, hpre, hG.2.same i _ p hi hp, hG.2, hexec⟩
    exact ⟨p.next o reply, ⟨rfl, hissues.served.answers⟩,
      h.exec tr c ps i r o k p x reply w hrun hG.1 hok hissues,
      hG.2.set ((purchase?_next p o reply).trans hissues.request)⟩
  crash tr c ps i r o k p hrun _ hG hok hi hp := by
    refine ⟨p, ?_, hG.2.set (show p.purchase? = r.purchase? from hG.2.same i _ p hi hp)⟩
    rw [Platform.set_same hp]
    exact h.crash tr c ps i r o k hrun hG.2 hG.1 hok hi
  env tr c ps e w hrun _ hG hok he := ⟨h.env tr c ps e w hrun hG.2 hG.1 hok he, hG.2⟩

/-- **Soundness**, from a state that has its stages. -/
theorem Staged.sound (h : Staged ok c₀ G) {ps₀ : List Progress} (h₀ : G [] c₀ ps₀)
    (hreq₀ : Requested c₀.calls ps₀)
    (ha₀ : Platform.Aligned purchasing purchasingAnswer c₀.calls ps₀) (hrun : RunFrom c₀ ok tr c) :
    ∃ ps, G tr c ps ∧ Requested c.calls ps ∧
      Platform.Aligned purchasing purchasingAnswer c.calls ps := by
  obtain ⟨ps, ⟨hG, hreq⟩, ha⟩ := h.bookkeeping.sound ⟨h₀, hreq₀⟩ ha₀ hrun
  exact ⟨ps, hG, hreq, ha⟩

/-- Soundness from the start. -/
theorem Staged.sound_initial (h : Staged ok State.initial G) (h₀ : G [] State.initial [])
    (hrun : RunFrom State.initial ok tr c) :
    ∃ ps, G tr c ps ∧ Requested c.calls ps ∧
      Platform.Aligned purchasing purchasingAnswer c.calls ps :=
  h.sound h₀ .nil .nil hrun

/-- Invariants hold together. -/
theorem Staged.forall {ι : Type} {G : ι → Trace → State → List Progress → Prop}
    (h : ∀ a, Staged ok c₀ (G a)) : Staged ok c₀ fun tr c ps => ∀ a, G a tr c ps where
  arrive tr c ps r hrun hreq hG hok a := (h a).arrive tr c ps r hrun hreq (hG a) hok
  exec tr c ps i req o k p x reply w hrun hG hok hissues a :=
    (h a).exec tr c ps i req o k p x reply w hrun (hG a) hok hissues
  crash tr c ps i r o k hrun hreq hG hok hi a :=
    (h a).crash tr c ps i r o k hrun hreq (hG a) hok hi
  env tr c ps e w hrun hreq hG hok he a := (h a).env tr c ps e w hrun hreq (hG a) hok he

/-- **An invariant of each purchase by itself**: what it is when the purchase arrives, that other
calls' steps leave it alone, and what the purchase's own steps make of it. `sel` says which
purchases it is about. -/
theorem Staged.each {R : Trace → State → Nat → Uuid → PurchaseFlashSaleDto → Stage → Prop}
    (sel : Nat → PurchaseFlashSaleDto → Prop) (hcrash : ∀ c i, ¬ok c (.crash i))
    (start : ∀ tr c userId dto, RunFrom c₀ ok tr c → ok c (.arrive (.purchase userId dto)) →
      sel c.calls.length dto →
      R (tr ++ [⟨c, .arrive (.purchase userId dto), system.arrive c (.purchase userId dto)⟩])
        (system.arrive c (.purchase userId dto)) c.calls.length userId dto .looking)
    (other : ∀ tr c l c' i userId dto s, RunFrom c₀ ok tr c → ok c l → system.step c l = some c' →
      l.actor ≠ some i → sel i dto →
      (∃ call, c.calls[i]? = some call ∧ call.request = .purchase userId dto) →
      R tr c i userId dto s → R (tr ++ [⟨c, l, c'⟩]) c' i userId dto s)
    (own : ∀ tr c ps i o k userId dto s x reply w, RunFrom c₀ ok tr c → ok c (.exec i x) →
      sel i dto → Issues c ps i (.purchase userId dto) o k (.buying userId dto s) x reply w →
      R tr c i userId dto s →
      R (tr ++ [⟨c, .exec i x, ⟨w, c.calls.set i ⟨.purchase userId dto, k reply, false⟩⟩⟩])
        ⟨w, c.calls.set i ⟨.purchase userId dto, k reply, false⟩⟩ i userId dto (s.next o reply)) :
    Staged ok c₀ fun tr c ps =>
      ∀ i userId dto s, sel i dto → ps[i]? = some (.buying userId dto s) → R tr c i userId dto s where
  arrive tr c ps r hrun hreq h hok i userId dto s hsel hp := by
    rcases Platform.getElem?_concat_cases hp with ⟨rfl, heq⟩ | hp
    · cases r <;> cases heq
      rw [hreq.length] at hsel ⊢
      exact start tr c userId dto hrun hok hsel
    · exact other tr c _ _ i userId dto s hrun hok rfl (by simp [Lib.Label.actor]) hsel (hreq.call hp)
        (h i userId dto s hsel hp)
  exec tr c ps i req o k p x reply w hrun h hok hissues j userId dto s hsel hp := by
    rcases Platform.getElem?_set_cases hp with ⟨rfl, heq⟩ | ⟨hij, hp⟩
    · cases p with
      | other => cases heq
      | buying u d s' =>
        cases heq
        obtain rfl := Request.purchase?_eq_some.mp hissues.request.symm
        exact own tr c ps j o k userId dto s' x reply w hrun hok hsel hissues
          (h j userId dto s' hsel hissues.progress)
    · exact other tr c _ _ j userId dto s hrun hok hissues.step
        (fun heq => hij (Option.some.inj heq).symm) hsel (hissues.others.call hp) (h j userId dto s hsel hp)
  crash _ c _ i _ _ _ _ _ _ hok _ := absurd hok (hcrash c i)
  env tr c ps e w hrun hreq h hok he i userId dto s hsel hp := by
    refine other tr c _ _ i userId dto s hrun hok ?_ (by simp [Lib.Label.actor]) hsel (hreq.call hp)
      (h i userId dto s hsel hp)
    simp only [Platform.step]
    rw [show system.env e c.world = some w from he]
    rfl

/-- Any state that is reached has its stages. -/
theorem stages_of_run (hrun : RunFrom State.initial ok tr c) :
    ∃ ps, Requested c.calls ps ∧ Platform.Aligned purchasing purchasingAnswer c.calls ps := by
  have htrue : Staged ok State.initial fun _ _ _ => True := by constructor <;> intros <;> trivial
  obtain ⟨ps, -, hrequested, ha⟩ := htrue.sound_initial trivial hrun
  exact ⟨ps, hrequested, ha⟩

/-- Where no call is cut off, no call is dead. -/
theorem uncrashed_of_run (hok : ∀ c i, ¬ok c (.crash i))
    (h₀ : ∀ call ∈ c₀.calls, call.crashed = false) (hrun : RunFrom c₀ ok tr c) :
    ∀ call ∈ c.calls, call.crashed = false := by
  refine hrun.invariant (I := fun c => ∀ call ∈ c.calls, call.crashed = false) h₀
    fun c l c' hc hallowed hstep => ?_
  cases l with
  | arrive r =>
    obtain rfl := Option.some.inj hstep
    intro call hcall
    rcases List.mem_append.mp hcall with hcall | hcall
    · exact hc call hcall
    · rw [List.mem_singleton.mp hcall]
  | exec i x =>
    obtain ⟨r, o, k, reply, w, hi, hexec, rfl⟩ := system.step_exec hstep
    intro call hcall
    rcases List.mem_or_eq_of_mem_set hcall with hcall | rfl
    · exact hc call hcall
    · rfl
  | crash i => exact absurd hallowed (hok c i)
  | env e =>
    obtain ⟨w, hw, rfl⟩ := system.step_env hstep
    exact hc

/-- A purchase whose stage allows no end is in flight. -/
theorem inFlight_of_stage {calls : List ServiceCall} {ps : List Progress}
    (ha : Platform.Aligned purchasing purchasingAnswer calls ps) {i : Nat} {call : ServiceCall}
    {userId : Uuid} {dto : PurchaseFlashSaleDto} {s : Stage} (hi : calls[i]? = some call)
    (hp : ps[i]? = some (.buying userId dto s)) (hlive : call.crashed = false)
    (hopen : ∀ r, ¬Outcome s r) : call.inFlight = true := by
  refine Call.inFlight_iff.mpr ⟨hlive, ?_⟩
  have hkeeps := ha.keeps i call _ hi hp hlive
  cases hprog : call.prog with
  | call o k => exact ⟨o, k, rfl⟩
  | done a =>
    rw [hprog] at hkeeps
    obtain ⟨r, houtcome, -⟩ := hkeeps
    exact absurd houtcome (hopen r)
  | fail e =>
    rw [hprog] at hkeeps
    obtain ⟨r, houtcome, -⟩ := hkeeps
    exact absurd houtcome (hopen r)

end FlashWallet
