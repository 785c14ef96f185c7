import FlashWallet.Lib.Pool

/-!
# Replies nobody listens to

A handler is deaf to a statement if it goes on the same way whatever the reply, and whether there was
one. Then it does not matter to the handler how the statement ended, and if it does not matter to the
others' statements either, the run in which it ended differently goes the same way: `Platform.replay`.
-/

set_option autoImplicit false

namespace FlashWallet.Lib

namespace Prog

variable {S : Signature} {ε α β : Type} {muted : S.Op → Bool}

/-- The replies to muted statements make no difference to the tree. -/
def Deaf (muted : S.Op → Bool) : Prog S ε α → Prop
  | .done _ => True
  | .fail _ => True
  | .call o k => (muted o = true → ∀ r r', k r = k r') ∧ ∀ r, (k r).Deaf muted

theorem deaf_of_uses {p : Prog S ε α} (hp : p.Uses fun o => muted o = false) : p.Deaf muted := by
  induction p with
  | done a => trivial
  | fail e => trivial
  | call o k ih =>
    refine ⟨fun hmuted => ?_, fun r => ih r (hp.2 r)⟩
    rw [hp.1] at hmuted
    cases hmuted

theorem Deaf.bind {p : Prog S ε α} {f : α → Prog S ε β} (hp : p.Deaf muted)
    (hf : ∀ a, (f a).Deaf muted) : (p.bind f).Deaf muted := by
  induction p with
  | done a => exact hf a
  | fail e => trivial
  | call o k ih =>
    refine ⟨fun hmuted r r' => ?_, fun r => ih r (hp.2 r)⟩
    show (k r).bind f = (k r').bind f
    rw [hp.1 hmuted r r']

theorem Deaf.attempt {p : Prog S ε α} (hp : p.Deaf muted) : p.attempt.Deaf muted := by
  induction p with
  | done a => trivial
  | fail e => trivial
  | call o k ih =>
    refine ⟨fun hmuted r r' => ?_, fun r => ih r (hp.2 r)⟩
    show (k r).attempt = (k r').attempt
    rw [hp.1 hmuted r r']

/-- A statement under a `try` whose outcome is dropped. -/
theorem deaf_ignore {o : S.Op} {p : Prog S ε β} (hp : p.Deaf muted) :
    ((perform o : Prog S ε (S.Reply o)).attempt.bind fun _ => p).Deaf muted := by
  refine ⟨fun _ r r' => ?_, fun r => ?_⟩
  · cases r <;> cases r' <;> rfl
  · cases r <;> exact hp

end Prog

namespace Platform

variable {S : Signature} {ε α ρ χ η σ : Type} {P : Platform S ε α ρ χ η σ}
variable {ok ok' : Config S ε α ρ σ → Label ρ χ η → Prop} {c₀ c : Config S ε α ρ σ}
  {tr : List (Step (Config S ε α ρ σ) (Label ρ χ η))}

/-- What is left of a deaf handler is deaf. -/
theorem deaf_of_run {muted : S.Op → Bool} (hdeaf : ∀ r, (P.program r).Deaf muted)
    (h₀ : ∀ call ∈ c₀.calls, call.prog.Deaf muted) (hrun : Run P.step ok c₀ tr c) :
    ∀ call ∈ c.calls, call.prog.Deaf muted := by
  refine hrun.invariant (I := fun c => ∀ call ∈ c.calls, call.prog.Deaf muted) h₀
    fun c l c' hc _ hstep => ?_
  cases l with
  | arrive r =>
    obtain rfl := Option.some.inj hstep
    intro call hcall
    rcases List.mem_append.mp hcall with hcall | hcall
    · exact hc call hcall
    · obtain rfl := List.mem_singleton.mp hcall
      exact hdeaf r
  | exec i x =>
    obtain ⟨r, o, k, reply, w, hi, hexec, rfl⟩ := P.step_exec hstep
    intro call hcall
    rcases List.mem_or_eq_of_mem_set hcall with hcall | rfl
    · exact hc call hcall
    · exact (hc _ (List.mem_of_getElem? hi)).2 reply
  | crash i =>
    obtain ⟨r, o, k, hi, rfl⟩ := P.step_crash hstep
    intro call hcall
    rcases List.mem_or_eq_of_mem_set hcall with hcall | rfl
    · exact hc call hcall
    · exact hc ⟨r, .call o k, false⟩ (List.mem_of_getElem? hi)
  | env e =>
    obtain ⟨w, hw, rfl⟩ := P.step_env hstep
    exact hc

/-- The step with another ending for its statement, if that is a muted one. -/
def relabel (muted : S.Op → Bool) (repair : χ → χ) (c : Config S ε α ρ σ) :
    Label ρ χ η → Label ρ χ η
  | .exec i x =>
    match c.calls[i]? with
    | some ⟨_, .call o _, _⟩ => .exec i (if muted o then repair x else x)
    | _ => .exec i x
  | l => l

/-- How another ending of muted statements shows in the store: `same` relates the stores. -/
structure Unheard (P : Platform S ε α ρ χ η σ) (muted : S.Op → Bool) (repair : χ → χ)
    (same : σ → σ → Prop) : Prop where
  exec : ∀ i o x w w' reply w₁, same w w' → P.exec i o x w = some (reply, w₁) →
    ∃ reply' w₁', P.exec i o (if muted o then repair x else x) w' = some (reply', w₁') ∧
      same w₁ w₁' ∧ (muted o = false → reply' = reply)
  cutOff : ∀ i w w', same w w' → same (P.cutOff i w) (P.cutOff i w')
  env : ∀ e w w' w₁, same w w' → P.env e w = some w₁ → ∃ w₁', P.env e w' = some w₁' ∧ same w₁ w₁'

/-- **Replay.** The run with other endings for its muted statements is a run, with the same calls at
the same points, over the same store up to `same`. -/
theorem replay {muted : S.Op → Bool} {repair : χ → χ} {same : σ → σ → Prop}
    (hdeaf : ∀ r, (P.program r).Deaf muted) (hunheard : Unheard P muted repair same)
    (h₀ : ∀ call ∈ c₀.calls, call.prog.Deaf muted) (hsame : same c₀.world c₀.world)
    (hok : ∀ c c' l, ok c l → c'.calls = c.calls → ok' c' (relabel muted repair c l))
    (hrun : Run P.step ok c₀ tr c) :
    ∃ tr' c', Run P.step ok' c₀ tr' c' ∧
      tr'.map Step.label = tr.map (fun s => relabel muted repair s.before s.label) ∧
      c'.calls = c.calls ∧ same c.world c'.world := by
  induction hrun with
  | nil => exact ⟨[], c₀, .nil, rfl, rfl, hsame⟩
  | @snoc tr c c₁ l run allowed next ih =>
    obtain ⟨tr', c', hrun', hlabels, hcalls, hworld⟩ := ih
    -- one step of the replay, with the label that stands in for this one
    have hstep : ∃ c₁', P.step c' (relabel muted repair c l) = some c₁' ∧ c₁'.calls = c₁.calls ∧
        same c₁.world c₁'.world := by
      obtain ⟨w', calls'⟩ := c'
      obtain rfl : calls' = c.calls := hcalls
      cases l with
      | arrive r =>
        obtain rfl := Option.some.inj next
        exact ⟨_, rfl, rfl, hworld⟩
      | exec i x =>
        obtain ⟨r, o, k, reply, w, hi, hexec, rfl⟩ := P.step_exec next
        obtain ⟨reply', w₁', hexec', hsame', hreply⟩ := hunheard.exec i o x _ w' reply w hworld hexec
        refine ⟨⟨w₁', c.calls.set i ⟨r, k reply', false⟩⟩, ?_, ?_, hsame'⟩
        · simp only [relabel, hi]
          exact P.step_of_exec hi hexec'
        · have hk : k reply' = k reply := by
            cases hmuted : muted o with
            | false => rw [hreply hmuted]
            | true =>
              exact (deaf_of_run hdeaf h₀ run _ (List.mem_of_getElem? hi)).1 hmuted reply' reply
          rw [hk]
      | crash i =>
        obtain ⟨r, o, k, hi, rfl⟩ := P.step_crash next
        refine ⟨⟨P.cutOff i w', c.calls.set i ⟨r, .call o k, true⟩⟩, ?_, rfl,
          hunheard.cutOff i _ _ hworld⟩
        simp only [relabel, step, hi]
      | env e =>
        obtain ⟨w, hw, rfl⟩ := P.step_env next
        obtain ⟨w₁', hw', hsame'⟩ := hunheard.env e _ w' w hworld hw
        refine ⟨⟨w₁', c.calls⟩, ?_, rfl, hsame'⟩
        simp only [relabel, step, hw', Option.map_some]
    obtain ⟨c₁', hnext, hcalls₁, hworld₁⟩ := hstep
    refine ⟨_, c₁', hrun'.snoc (hok c c' l allowed hcalls) hnext, ?_, hcalls₁, hworld₁⟩
    rw [List.map_append, List.map_append, hlabels]
    rfl

end Platform

end FlashWallet.Lib
