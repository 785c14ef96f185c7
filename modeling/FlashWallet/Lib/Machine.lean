import FlashWallet.Lib.Pool

/-!
# Handlers as machines

A `Machine` follows a handler from outside: at each stage it says which statements may come, and a
reply determines the next stage. A handler that keeps to its machine is proved to do so once; an
invariant of all runs is then an invariant of the store and the stages (`Platform.Staged`), and says
only what a reply does to it.
-/

set_option autoImplicit false

namespace FlashWallet.Lib

/-- `tells` is what a reply says by itself, whatever the store. -/
structure Machine (S : Signature) (ε γ : Type) where
  may : γ → S.Op → Prop
  next : γ → (o : S.Op) → Except ε (S.Reply o) → γ
  tells : (o : S.Op) → Except ε (S.Reply o) → Prop

namespace Machine

variable {S : Signature} {ε α β γ : Type} (M : Machine S ε γ)

def discipline : Discipline S ε γ where
  pre o g := M.may g o
  post o g r g' := g' = M.next g o r ∧ M.tells o r

variable {M}

/-- A statement, then the rest. -/
theorem keeps_issue {o : S.Op} {f : S.Reply o → Prog S ε β} {Q : Except ε β → γ → Prop} {g : γ}
    (hmay : M.may g o)
    (hok : ∀ v, M.tells o (.ok v) → (f v).Keeps M.discipline Q (M.next g o (.ok v)))
    (herr : ∀ e, M.tells o (.error e) → Q (.error e) (M.next g o (.error e))) :
    ((Prog.perform o).bind f).Keeps M.discipline Q g := by
  refine Prog.Keeps.issue hmay (fun v g' h => ?_) fun e g' h => ?_
  · obtain ⟨rfl, htells⟩ := h
    exact hok v htells
  · obtain ⟨rfl, htells⟩ := h
    exact herr e htells

/-- A statement under a `try`, then the rest. -/
theorem keeps_try {o : S.Op} {f : Except ε (S.Reply o) → Prog S ε β} {Q : Except ε β → γ → Prop} {g : γ}
    (hmay : M.may g o) (h : ∀ r, M.tells o r → (f r).Keeps M.discipline Q (M.next g o r)) :
    ((Prog.perform o).attempt.bind f).Keeps M.discipline Q g := by
  refine ⟨hmay, fun r g' hpost => ?_⟩
  obtain ⟨rfl, htells⟩ := hpost
  cases r <;> exact h _ htells

end Machine

namespace Platform

variable {S : Signature} {ε α ρ χ η σ γ : Type} (P : Platform S ε α ρ χ η σ)

/-- The stages of the calls of a platform: where each starts, where it is when it is cut off, and at
which stage it ends how. -/
structure Stages (S : Signature) (ε α ρ γ : Type) where
  machine : Machine S ε γ
  start : ρ → γ
  cut : γ
  ends : ρ → Except ε α → γ → Prop

variable (T : Stages S ε α ρ γ)

/-- The handlers keep to their stages, and the store answers as the machine expects. -/
structure Follows : Prop where
  handlers : ∀ r, (P.program r).Keeps T.machine.discipline (T.ends r) (T.start r)
  replies : ∀ i o x w reply w', P.exec i o x w = some (reply, w') → T.machine.tells o reply

/-- Call `i`, which is at stage `g`, issues `o` and is answered `reply`, which leaves the store `w`. -/
structure Issues (c : Config S ε α ρ σ) (gs : List γ) (i : Nat) (r : ρ) (o : S.Op)
    (k : Except ε (S.Reply o) → Prog S ε α) (g : γ) (x : χ) (reply : Except ε (S.Reply o)) (w : σ) :
    Prop where
  call : c.calls[i]? = some ⟨r, .call o k, false⟩
  stage : gs[i]? = some g
  may : T.machine.may g o
  exec : P.exec i o x c.world = some (reply, w)
  aligned : Aligned T.machine.discipline T.ends c.calls gs

/-- What has to be shown of an invariant `G` of the runs from `c₀`. -/
structure Staged (ok : Config S ε α ρ σ → Label ρ χ η → Prop)
    (G : List (Step (Config S ε α ρ σ) (Label ρ χ η)) → Config S ε α ρ σ → List γ → Prop) : Prop where
  arrive : ∀ tr c gs r, gs.length = c.calls.length → G tr c gs → ok c (.arrive r) →
    G (tr ++ [⟨c, .arrive r, P.arrive c r⟩]) (P.arrive c r) (gs ++ [T.start r])
  exec : ∀ tr c gs i r o k g x reply w, G tr c gs → ok c (.exec i x) →
    Issues P T c gs i r o k g x reply w →
    G (tr ++ [⟨c, .exec i x, ⟨w, c.calls.set i ⟨r, k reply, false⟩⟩⟩])
      ⟨w, c.calls.set i ⟨r, k reply, false⟩⟩ (gs.set i (T.machine.next g o reply))
  crash : ∀ tr c gs i r o k g, gs.length = c.calls.length → G tr c gs → ok c (.crash i) →
    c.calls[i]? = some ⟨r, .call o k, false⟩ → gs[i]? = some g →
    G (tr ++ [⟨c, .crash i, ⟨P.cutOff i c.world, c.calls.set i ⟨r, .call o k, true⟩⟩⟩])
      ⟨P.cutOff i c.world, c.calls.set i ⟨r, .call o k, true⟩⟩ (gs.set i T.cut)
  env : ∀ tr c gs e w, gs.length = c.calls.length → G tr c gs → ok c (.env e) →
    P.env e c.world = some w → G (tr ++ [⟨c, .env e, { c with world := w }⟩]) { c with world := w } gs

variable {P T} {ok : Config S ε α ρ σ → Label ρ χ η → Prop} {c₀ c : Config S ε α ρ σ}
  {tr : List (Step (Config S ε α ρ σ) (Label ρ χ η))}
  {G : List (Step (Config S ε α ρ σ) (Label ρ χ η)) → Config S ε α ρ σ → List γ → Prop}

/-- **Soundness**: the invariant holds in every configuration of every run. -/
theorem Staged.sound (h : Staged P T ok G) (hfollows : Follows P T) {gs₀ : List γ} (h₀ : G [] c₀ gs₀)
    (ha₀ : Aligned T.machine.discipline T.ends c₀.calls gs₀) (hrun : Run P.step ok c₀ tr c) :
    ∃ gs, G tr c gs ∧ Aligned T.machine.discipline T.ends c.calls gs := by
  induction hrun with
  | nil => exact ⟨gs₀, h₀, ha₀⟩
  | @snoc tr c c' l run allowed next ih =>
    obtain ⟨gs, hG, ha⟩ := ih
    cases l with
    | arrive r =>
      obtain rfl := Option.some.inj next
      exact ⟨_, h.arrive tr c gs r ha.length hG allowed, ha.arrive fun _ => hfollows.handlers r⟩
    | exec i x =>
      obtain ⟨r, o, k, reply, w, hi, hexec, rfl⟩ := P.step_exec next
      obtain ⟨g, hg⟩ := ha.books hi
      have hk := ha.keeps i _ g hi hg rfl
      exact ⟨_, h.exec tr c gs i r o k g x reply w hG allowed ⟨hi, hg, hk.1, hexec, ha⟩,
        ha.set fun _ => hk.2 reply _ ⟨rfl, hfollows.replies i o x _ _ _ hexec⟩⟩
    | crash i =>
      obtain ⟨r, o, k, hi, rfl⟩ := P.step_crash next
      obtain ⟨g, hg⟩ := ha.books hi
      exact ⟨_, h.crash tr c gs i r o k g ha.length hG allowed hi hg, ha.set fun h => Bool.noConfusion h⟩
    | env e =>
      obtain ⟨w, hw, rfl⟩ := P.step_env next
      exact ⟨gs, h.env tr c gs e w ha.length hG allowed hw, ha⟩

/-- **Stages that are not left.** A call within a set of stages that no reply leads out of issues, from
then on, what one of them lets it. -/
theorem within_of_run (hfollows : Follows P T) {stays : γ → Prop} (hcut : stays T.cut)
    (hnext : ∀ g o r, stays g → T.machine.may g o → stays (T.machine.next g o r)) {gs₀ : List γ}
    (ha₀ : Aligned T.machine.discipline T.ends c₀.calls gs₀) {i : Nat} {g₀ : γ} (hi : gs₀[i]? = some g₀)
    (h₀ : stays g₀) (hrun : Run P.step ok c₀ tr c) :
    ∀ s ∈ tr, ∀ x r o k, s.label = .exec i x → s.before.calls[i]? = some ⟨r, .call o k, false⟩ →
      ∃ g, stays g ∧ T.machine.may g o := by
  have hstaged : Staged P T ok fun tr _ gs => (∃ g, gs[i]? = some g ∧ stays g) ∧
      ∀ s ∈ tr, ∀ x r o k, s.label = .exec i x → s.before.calls[i]? = some ⟨r, .call o k, false⟩ →
        ∃ g, stays g ∧ T.machine.may g o := by
    -- a step of another kind says nothing of the call's statements
    have hskip : ∀ {tr : List (Step (Config S ε α ρ σ) (Label ρ χ η))}
        {s : Step (Config S ε α ρ σ) (Label ρ χ η)}, (∀ j x, s.label ≠ .exec j x) →
        (∀ s ∈ tr, ∀ x r o k, s.label = .exec i x → s.before.calls[i]? = some ⟨r, .call o k, false⟩ →
          ∃ g, stays g ∧ T.machine.may g o) →
        ∀ s' ∈ tr ++ [s], ∀ x r o k, s'.label = .exec i x →
          s'.before.calls[i]? = some ⟨r, .call o k, false⟩ → ∃ g, stays g ∧ T.machine.may g o := by
      intro tr s hlabel h s' hs' x r o k hl hcall
      rcases List.mem_append.mp hs' with hs' | hs'
      · exact h s' hs' x r o k hl hcall
      · obtain rfl := List.mem_singleton.mp hs'
        exact absurd hl (hlabel i x)
    refine ⟨fun tr c gs r hlen h _ => ⟨?_, hskip nofun h.2⟩, fun tr c gs j r o k g x reply w h _ hissues => ?_,
      fun tr c gs j r o k g hlen h _ _ hg => ⟨?_, hskip nofun h.2⟩, fun tr c gs e w _ h _ _ => ⟨h.1, hskip nofun h.2⟩⟩
    · obtain ⟨g, hg, hstays⟩ := h.1
      exact ⟨g, (List.getElem?_append_left (List.getElem?_eq_some_iff.mp hg).1).trans hg, hstays⟩
    · obtain ⟨⟨g', hg', hstays⟩, hissued⟩ := h
      by_cases hij : j = i
      · subst hij
        obtain rfl := Option.some.inj (hissues.stage.symm.trans hg')
        refine ⟨⟨_, List.getElem?_set_self (List.getElem?_eq_some_iff.mp hg').1,
          hnext g o reply hstays hissues.may⟩, fun s hs x' r' o' k' hl hcall => ?_⟩
        rcases List.mem_append.mp hs with hs | hs
        · exact hissued s hs x' r' o' k' hl hcall
        · obtain rfl := List.mem_singleton.mp hs
          cases hissues.call.symm.trans hcall
          exact ⟨g, hstays, hissues.may⟩
      · refine ⟨⟨g', (List.getElem?_set_ne hij).trans hg', hstays⟩, fun s hs x' r' o' k' hl hcall => ?_⟩
        rcases List.mem_append.mp hs with hs | hs
        · exact hissued s hs x' r' o' k' hl hcall
        · obtain rfl := List.mem_singleton.mp hs
          cases hl
          exact absurd rfl hij
    · obtain ⟨g', hg', hstays⟩ := h.1
      by_cases hij : j = i
      · subst hij
        exact ⟨_, List.getElem?_set_self (List.getElem?_eq_some_iff.mp hg').1, hcut⟩
      · exact ⟨g', (List.getElem?_set_ne hij).trans hg', hstays⟩
  obtain ⟨gs, ⟨-, hissued⟩, -⟩ := hstaged.sound hfollows ⟨⟨g₀, hi, h₀⟩, by simp⟩ ha₀ hrun
  exact hissued

/-- A call at a stage from which it cannot have ended is about to issue what the stage lets it. -/
theorem Aligned.next_of_stage {calls : List (Call S ε α ρ)} {gs : List γ}
    (h : Aligned T.machine.discipline T.ends calls gs) {i : Nat} {call : Call S ε α ρ} {g : γ}
    (hi : calls[i]? = some call) (hg : gs[i]? = some g) (hlive : call.crashed = false)
    (hends : ∀ r, ¬T.ends call.request r g) :
    ∃ o k, call.prog = .call o k ∧ T.machine.may g o := by
  have hkeeps := h.keeps i call g hi hg hlive
  cases hprog : call.prog with
  | done a =>
    rw [hprog] at hkeeps
    exact absurd hkeeps (hends _)
  | fail e =>
    rw [hprog] at hkeeps
    exact absurd hkeeps (hends _)
  | call o k =>
    rw [hprog] at hkeeps
    exact ⟨o, k, rfl, hkeeps.1⟩

end Platform

end FlashWallet.Lib
