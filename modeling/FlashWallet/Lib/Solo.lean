import FlashWallet.Lib.Machine

/-!
# A call on its own

A tree that is given the store to itself needs no scheduler: it computes. `Prog.solo` is that
computation, the small rules below run a handler through it symbolically, statement by statement,
and `Platform.execute_solo` says that it is what the steps of a platform do when one call takes all
of them.
-/

set_option autoImplicit false

namespace FlashWallet.Lib

namespace Prog

variable {S : Signature} {ε α β σ : Type}

/-- Run the tree to its end. `none` means that a statement waits, with nobody there to end the
wait. -/
def solo (serve : (o : S.Op) → σ → Option (Except ε (S.Reply o) × σ)) :
    Prog S ε α → σ → Option (Except ε α × σ)
  | .done a, w => some (.ok a, w)
  | .fail e, w => some (.error e, w)
  | .call o k, w => (serve o w).bind fun (r, w') => (k r).solo serve w'

/-- With the store to itself, the tree ends with `r` and takes the store from `w` to `w'`. -/
def Ends (serve : (o : S.Op) → σ → Option (Except ε (S.Reply o) × σ)) (p : Prog S ε α) (w : σ)
    (r : Except ε α) (w' : σ) : Prop :=
  p.solo serve w = some (r, w')

variable {serve : (o : S.Op) → σ → Option (Except ε (S.Reply o) × σ)} {w w₁ w' : σ}

/-- There is one way to end. -/
theorem Ends.unique {p : Prog S ε α} {r r' : Except ε α} {w'' : σ} (h : p.Ends serve w r w')
    (h' : p.Ends serve w r' w'') : r = r' ∧ w' = w'' := by
  have heq := Option.some.inj (h.symm.trans h')
  exact ⟨congrArg Prod.fst heq, congrArg Prod.snd heq⟩

theorem ends_call {o : S.Op} {k : Except ε (S.Reply o) → Prog S ε α} {r : Except ε α} :
    (call o k).Ends serve w r w' ↔
      ∃ reply w₁, serve o w = some (reply, w₁) ∧ (k reply).Ends serve w₁ r w' := by
  simp only [Ends, solo, Option.bind_eq_some_iff, Prod.exists]

/-- Sequencing, when the first part returns. -/
theorem Ends.bind {p : Prog S ε α} {f : α → Prog S ε β} {a : α} {r : Except ε β}
    (hp : p.Ends serve w (.ok a) w₁) (hf : (f a).Ends serve w₁ r w') :
    (p.bind f).Ends serve w r w' := by
  induction p generalizing w with
  | done b => cases hp; exact hf
  | fail e => cases hp
  | call o k ih =>
    obtain ⟨reply, w₂, hserve, hk⟩ := ends_call.mp hp
    exact ends_call.mpr ⟨reply, w₂, hserve, ih reply hk⟩

/-- Sequencing, when the first part throws. -/
theorem Ends.throws {p : Prog S ε α} {f : α → Prog S ε β} {e : ε}
    (hp : p.Ends serve w (.error e) w') : (p.bind f).Ends serve w (.error e) w' := by
  induction p generalizing w with
  | done b => cases hp
  | fail e => cases hp; exact rfl
  | call o k ih =>
    obtain ⟨reply, w₂, hserve, hk⟩ := ends_call.mp hp
    exact ends_call.mpr ⟨reply, w₂, hserve, ih reply hk⟩

/-- Going on under a `try`, whichever way the first part ends. -/
theorem Ends.recover {p : Prog S ε α} {f : Except ε α → Prog S ε β} {r : Except ε α}
    {r' : Except ε β} (hp : p.Ends serve w r w₁) (hf : (f r).Ends serve w₁ r' w') :
    (p.attempt.bind f).Ends serve w r' w' := by
  induction p generalizing w with
  | done b => cases hp; exact hf
  | fail e => cases hp; exact hf
  | call o k ih =>
    obtain ⟨reply, w₂, hserve, hk⟩ := ends_call.mp hp
    exact ends_call.mpr ⟨reply, w₂, hserve, ih reply hk⟩

/-- A statement that is answered, then the rest. -/
theorem Ends.issue {o : S.Op} {f : S.Reply o → Prog S ε β} {v : S.Reply o} {r : Except ε β}
    (hserve : serve o w = some (.ok v, w₁)) (hf : (f v).Ends serve w₁ r w') :
    ((perform o).bind f).Ends serve w r w' :=
  ends_call.mpr ⟨.ok v, w₁, hserve, hf⟩

/-- A statement that is refused ends it all. -/
theorem Ends.refuse {o : S.Op} {f : S.Reply o → Prog S ε β} {e : ε}
    (hserve : serve o w = some (.error e, w')) : ((perform o).bind f).Ends serve w (.error e) w' :=
  ends_call.mpr ⟨.error e, w', hserve, rfl⟩

/-! ### From its stage -/

section

variable {γ : Type} {M : Machine S ε γ} {Q : Except ε α → γ → Prop} {p : Prog S ε α} {g : γ} {r : Except ε α}

/-- At a stage where one statement may come, and no end, that statement comes. -/
theorem Keeps.ends_next (hp : p.Keeps M.discipline Q g) (hopen : ∀ r, ¬Q r g) {o : S.Op}
    (hmay : ∀ o', M.may g o' → o' = o) {reply : Except ε (S.Reply o)} (hserve : serve o w = some (reply, w₁))
    (htells : M.tells o reply)
    (hrest : ∀ p' : Prog S ε α, p'.Keeps M.discipline Q (M.next g o reply) → p'.Ends serve w₁ r w') :
    p.Ends serve w r w' := by
  cases p with
  | done a => exact absurd hp (hopen _)
  | fail e => exact absurd hp (hopen _)
  | call o' k =>
    obtain rfl := hmay o' hp.1
    exact ends_call.mpr ⟨reply, w₁, hserve, hrest _ (hp.2 reply _ ⟨rfl, htells⟩)⟩

/-- At a stage where no statement may come, the tree has ended. -/
theorem Keeps.ends_here (hp : p.Keeps M.discipline Q g) (hmay : ∀ o, ¬M.may g o)
    (hQ : ∀ r', Q r' g → r' = r) : p.Ends serve w r w := by
  cases p with
  | done a =>
    obtain rfl := hQ _ hp
    rfl
  | fail e =>
    obtain rfl := hQ _ hp
    rfl
  | call o k => exact absurd hp.1 (hmay o)

end

end Prog

namespace Platform

variable {S : Signature} {ε α ρ χ η σ : Type} (P : Platform S ε α ρ χ η σ)

/-- **One call takes all the steps.** Such an execution that sees the call to its end is the
computation of its tree, and leaves the other calls where they were. -/
theorem execute_solo {c c' : Config S ε α ρ σ} {i : Nat} {x : χ} {r : ρ} {p : Prog S ε α}
    {out : Except ε α} (hi : c.calls[i]? = some ⟨r, p, false⟩) :
    (∃ n, execute P.step c (List.replicate n (.exec i x)) = some c' ∧
      c'.calls[i]?.bind Call.result? = some out) ↔
    ∃ w, p.Ends (fun o => P.exec i o x) c.world out w ∧
      c' = ⟨w, c.calls.set i ⟨r, .ended out, false⟩⟩ := by
  have hstuck : ∀ (q : Except ε α) (c : Config S ε α ρ σ), c.calls[i]? = some ⟨r, .ended q, false⟩ →
      ((∃ n, execute P.step c (List.replicate n (.exec i x)) = some c' ∧
        c'.calls[i]?.bind Call.result? = some out) ↔
      q = out ∧ c' = ⟨c.world, c.calls.set i ⟨r, .ended out, false⟩⟩) := by
    intro q c hi
    have hresult : c.calls[i]?.bind Call.result? = some q := by
      rw [hi]
      cases q <;> rfl
    have hstop : P.step c (.exec i x) = none := by
      cases q <;> simp [step, hi, Prog.ended]
    constructor
    · rintro ⟨n, hexecute, hout⟩
      cases n with
      | zero =>
        obtain rfl := Option.some.inj hexecute
        obtain rfl := Option.some.inj (hresult.symm.trans hout)
        exact ⟨rfl, by rw [set_same hi]⟩
      | succ n => simp [List.replicate_succ, execute, hstop] at hexecute
    · rintro ⟨rfl, rfl⟩
      rw [set_same hi]
      exact ⟨0, rfl, hresult⟩
  induction p generalizing c with
  | done a =>
    refine (hstuck (.ok a) c hi).trans ⟨?_, ?_⟩
    · rintro ⟨rfl, rfl⟩
      exact ⟨c.world, rfl, rfl⟩
    · rintro ⟨w, hends, rfl⟩
      cases hends
      exact ⟨rfl, rfl⟩
  | fail e =>
    refine (hstuck (.error e) c hi).trans ⟨?_, ?_⟩
    · rintro ⟨rfl, rfl⟩
      exact ⟨c.world, rfl, rfl⟩
    · rintro ⟨w, hends, rfl⟩
      cases hends
      exact ⟨rfl, rfl⟩
  | call o k ih =>
    have hlt := (List.getElem?_eq_some_iff.mp hi).1
    have hnext : ∀ (reply : Except ε (S.Reply o)) (w : σ),
        (⟨w, c.calls.set i ⟨r, k reply, false⟩⟩ : Config S ε α ρ σ).calls[i]? =
          some ⟨r, k reply, false⟩ := fun reply w => List.getElem?_set_self hlt
    constructor
    · rintro ⟨n, hexecute, hout⟩
      cases n with
      | zero =>
        -- no step at all leaves the call unanswered
        obtain rfl := Option.some.inj hexecute
        rw [hi] at hout
        cases hout
      | succ n =>
        obtain ⟨c₁, hstep, hrest⟩ := Option.bind_eq_some_iff.mp hexecute
        obtain ⟨r', o', k', reply, w₁, hi', hexec, rfl⟩ := P.step_exec hstep
        cases hi.symm.trans hi'
        obtain ⟨w, hends, rfl⟩ := (ih reply (hnext reply w₁)).mp ⟨n, hrest, hout⟩
        exact ⟨w, Prog.ends_call.mpr ⟨reply, w₁, hexec, hends⟩, by rw [List.set_set]⟩
    · rintro ⟨w, hends, rfl⟩
      obtain ⟨reply, w₁, hexec, hk⟩ := Prog.ends_call.mp hends
      obtain ⟨n, hrest, hout⟩ := (ih reply (hnext reply w₁)).mpr ⟨w, hk, by rw [List.set_set]⟩
      refine ⟨n + 1, ?_, hout⟩
      rw [List.replicate_succ, execute, P.step_of_exec hi hexec]
      exact hrest

end Platform

end FlashWallet.Lib
