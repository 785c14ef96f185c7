import FlashWallet.Lib.Pool

/-!
# A call by itself, while time passes

`Prog.solo` computes where the outside has nothing to decide. `Prog.Finishes` is its relational
counterpart: every statement is answered, by some `allowed` choice of the outside, and between two
statements the store `drifts`. The rules take a handler apart statement by statement; `finishes_of_run` says
that the relation is what the steps of a platform do when one call takes all of them, and
`serial_invariant` that it is all there is to know where calls come one after another.
-/

set_option autoImplicit false

namespace FlashWallet.Lib

namespace Prog

variable {S : Signature} {ε α β χ σ : Type}

/-- The tree runs to its end with `r`, and takes the store from `w` to `w'`. -/
inductive Finishes (serve : (o : S.Op) → χ → σ → Option (Except ε (S.Reply o) × σ)) (allowed : χ → Prop)
    (drifts : σ → σ → Prop) : Prog S ε α → σ → Except ε α → σ → Prop where
  | done (a : α) {w w' : σ} (drift : drifts w w') : Finishes serve allowed drifts (.done a) w (.ok a) w'
  | fail (e : ε) {w w' : σ} (drift : drifts w w') : Finishes serve allowed drifts (.fail e) w (.error e) w'
  | call {o : S.Op} {k : Except ε (S.Reply o) → Prog S ε α} {w w₀ w₁ w' : σ} {x : χ}
      {reply : Except ε (S.Reply o)} {r : Except ε α} (drift : drifts w w₀) (hx : allowed x)
      (answer : serve o x w₀ = some (reply, w₁)) (rest : Finishes serve allowed drifts (k reply) w₁ r w') :
      Finishes serve allowed drifts (.call o k) w r w'

variable {serve : (o : S.Op) → χ → σ → Option (Except ε (S.Reply o) × σ)} {allowed : χ → Prop}
  {drifts : σ → σ → Prop} {w w' : σ}

/-- The store may have drifted before. -/
theorem Finishes.after (htrans : ∀ w w₁ w₂, drifts w w₁ → drifts w₁ w₂ → drifts w w₂) {p : Prog S ε α}
    {w₁ : σ} {r : Except ε α} (hdrift : drifts w w₁) (h : p.Finishes serve allowed drifts w₁ r w') :
    p.Finishes serve allowed drifts w r w' := by
  cases h with
  | done a drift => exact .done a (htrans _ _ _ hdrift drift)
  | fail e drift => exact .fail e (htrans _ _ _ hdrift drift)
  | call drift hx answer rest => exact .call (htrans _ _ _ hdrift drift) hx answer rest

/-- A sequence, put together. -/
theorem Finishes.bind (htrans : ∀ w w₁ w₂, drifts w w₁ → drifts w₁ w₂ → drifts w w₂) {p : Prog S ε α}
    {f : α → Prog S ε β} {w₁ : σ} {a : α} {r : Except ε β} (hp : p.Finishes serve allowed drifts w (.ok a) w₁)
    (hf : (f a).Finishes serve allowed drifts w₁ r w') : (p.bind f).Finishes serve allowed drifts w r w' := by
  generalize hr : (.ok a : Except ε α) = r₁ at hp
  induction hp with
  | done a' drift =>
    cases hr
    exact hf.after htrans drift
  | fail e drift => cases hr
  | call drift hx answer rest ih => exact .call drift hx answer (ih hf hr)

/-- A statement that is answered, and the rest. -/
theorem Finishes.issue {o : S.Op} {f : S.Reply o → Prog S ε β} {w₀ w₁ : σ} {x : χ} {v : S.Reply o} {r : Except ε β}
    (hdrift : drifts w w₀) (hx : allowed x) (answer : serve o x w₀ = some (.ok v, w₁))
    (hf : (f v).Finishes serve allowed drifts w₁ r w') : ((perform o).bind f).Finishes serve allowed drifts w r w' :=
  .call hdrift hx answer hf

/-- Going on under a `try`, whichever way the first part ends. -/
theorem Finishes.recover (htrans : ∀ w w₁ w₂, drifts w w₁ → drifts w₁ w₂ → drifts w w₂) {p : Prog S ε α}
    {f : Except ε α → Prog S ε β} {w₁ : σ} {r : Except ε α} {r' : Except ε β}
    (hp : p.Finishes serve allowed drifts w r w₁) (hf : (f r).Finishes serve allowed drifts w₁ r' w') :
    (p.attempt.bind f).Finishes serve allowed drifts w r' w' := by
  induction hp with
  | done a drift => exact hf.after htrans drift
  | fail e drift => exact hf.after htrans drift
  | call drift hx answer rest ih => exact .call drift hx answer (ih hf)

/-- A sequence that stops early. -/
theorem Finishes.bind_error {p : Prog S ε α} {f : α → Prog S ε β} {e : ε}
    (hp : p.Finishes serve allowed drifts w (.error e) w') :
    (p.bind f).Finishes serve allowed drifts w (.error e) w' := by
  generalize hr : (.error e : Except ε α) = r₁ at hp
  induction hp with
  | done a drift => cases hr
  | fail e' drift =>
    cases hr
    exact .fail e drift
  | call drift hx answer rest ih => exact .call drift hx answer (ih hr)

/-- A sequence, taken apart. -/
theorem Finishes.of_bind (hrefl : ∀ w, drifts w w) {p : Prog S ε α} {f : α → Prog S ε β} {r : Except ε β}
    (h : (p.bind f).Finishes serve allowed drifts w r w') :
    (∃ a w₁, p.Finishes serve allowed drifts w (.ok a) w₁ ∧ (f a).Finishes serve allowed drifts w₁ r w') ∨
      ∃ e, r = .error e ∧ p.Finishes serve allowed drifts w (.error e) w' := by
  induction p generalizing w with
  | done a => exact Or.inl ⟨a, w, .done a (hrefl w), h⟩
  | fail e =>
    cases h with
    | fail _ drift => exact Or.inr ⟨e, rfl, .fail e drift⟩
  | call o k ih =>
    cases h with
    | @call _ _ _ w₀ w₁ _ x reply _ drift hx answer rest =>
      rcases ih reply rest with ⟨a, w₂, hp, hf⟩ | ⟨e, hr, hp⟩
      · exact Or.inl ⟨a, w₂, .call drift hx answer hp, hf⟩
      · exact Or.inr ⟨e, hr, .call drift hx answer hp⟩

/-- What comes after a `try`, taken apart. -/
theorem Finishes.of_attempt (hrefl : ∀ w, drifts w w) {p : Prog S ε α} {f : Except ε α → Prog S ε β}
    {r : Except ε β} (h : (p.attempt.bind f).Finishes serve allowed drifts w r w') :
    ∃ r₁ w₁, p.Finishes serve allowed drifts w r₁ w₁ ∧ (f r₁).Finishes serve allowed drifts w₁ r w' := by
  induction p generalizing w with
  | done a => exact ⟨_, w, .done a (hrefl w), h⟩
  | fail e => exact ⟨_, w, .fail e (hrefl w), h⟩
  | call o k ih =>
    cases h with
    | @call _ _ _ w₀ w₁ _ x reply _ drift hx answer rest =>
      obtain ⟨r₁, w₂, hp, hf⟩ := ih reply rest
      exact ⟨r₁, w₂, .call drift hx answer hp, hf⟩

/-- A statement and the rest, taken apart. -/
theorem Finishes.of_issue {o : S.Op} {f : S.Reply o → Prog S ε β} {r : Except ε β}
    (h : ((perform o).bind f).Finishes serve allowed drifts w r w') :
    ∃ w₀ x reply w₁, drifts w w₀ ∧ allowed x ∧ serve o x w₀ = some (reply, w₁) ∧
      ((∃ v, reply = .ok v ∧ (f v).Finishes serve allowed drifts w₁ r w') ∨
        ∃ e, reply = .error e ∧ r = .error e ∧ drifts w₁ w') := by
  cases h with
  | @call _ _ _ w₀ w₁ _ x reply _ drift hx answer rest =>
    refine ⟨w₀, x, reply, w₁, drift, hx, answer, ?_⟩
    cases reply with
    | ok v => exact Or.inl ⟨v, rfl, rest⟩
    | error e =>
      cases rest with
      | fail _ drift => exact Or.inr ⟨e, rfl, rfl, drift⟩

/-- A statement under a `try` and the rest, taken apart. -/
theorem Finishes.of_try {o : S.Op} {f : Except ε (S.Reply o) → Prog S ε β} {r : Except ε β}
    (h : ((perform o).attempt.bind f).Finishes serve allowed drifts w r w') :
    ∃ w₀ x reply w₁, drifts w w₀ ∧ allowed x ∧ serve o x w₀ = some (reply, w₁) ∧
      (f reply).Finishes serve allowed drifts w₁ r w' := by
  cases h with
  | @call _ _ _ w₀ w₁ _ x reply _ drift hx answer rest =>
    refine ⟨w₀, x, reply, w₁, drift, hx, answer, ?_⟩
    cases reply <;> exact rest

/-- Run the tree to its end, the outside deciding as the list says. -/
def feed (serve : (o : S.Op) → χ → σ → Option (Except ε (S.Reply o) × σ)) :
    Prog S ε α → List χ → σ → Option (Except ε α × σ)
  | .done a, [], w => some (.ok a, w)
  | .fail e, [], w => some (.error e, w)
  | .call o k, x :: xs, w => (serve o x w).bind fun (r, w') => (k r).feed serve xs w'
  | _, _, _ => none

theorem feed_call {o : S.Op} {k : Except ε (S.Reply o) → Prog S ε α} {xs : List χ} {r : Except ε α}
    (h : (call o k).feed serve xs w = some (r, w')) :
    ∃ x xs' reply w₁, xs = x :: xs' ∧ serve o x w = some (reply, w₁) ∧ (k reply).feed serve xs' w₁ = some (r, w') := by
  cases xs with
  | nil => cases h
  | cons x xs' =>
    obtain ⟨⟨reply, w₁⟩, hserve, h⟩ := Option.bind_eq_some_iff.mp h
    exact ⟨x, xs', reply, w₁, rfl, hserve, h⟩

theorem feed_done {a : α} {xs : List χ} {r : Except ε α} (h : (done a : Prog S ε α).feed serve xs w = some (r, w')) :
    r = .ok a ∧ w' = w ∧ xs = [] := by
  cases xs with
  | nil =>
    cases h
    exact ⟨rfl, rfl, rfl⟩
  | cons x xs => cases h

theorem feed_fail {e : ε} {xs : List χ} {r : Except ε α} (h : (fail e : Prog S ε α).feed serve xs w = some (r, w')) :
    r = .error e ∧ w' = w ∧ xs = [] := by
  cases xs with
  | nil =>
    cases h
    exact ⟨rfl, rfl, rfl⟩
  | cons x xs => cases h

/-- A statement and the rest, fed. -/
theorem feed_issue {o : S.Op} {f : S.Reply o → Prog S ε β} {xs : List χ} {r : Except ε β}
    (h : ((perform o).bind f).feed serve xs w = some (r, w')) :
    ∃ x xs' reply w₁, xs = x :: xs' ∧ serve o x w = some (reply, w₁) ∧
      ((∃ v, reply = .ok v ∧ (f v).feed serve xs' w₁ = some (r, w')) ∨
        ∃ e, reply = .error e ∧ r = .error e ∧ w' = w₁ ∧ xs' = []) := by
  obtain ⟨x, xs', reply, w₁, rfl, hserve, h⟩ := feed_call h
  refine ⟨x, xs', reply, w₁, rfl, hserve, ?_⟩
  cases reply with
  | ok v => exact Or.inl ⟨v, rfl, h⟩
  | error e => exact Or.inr ⟨e, rfl, feed_fail h⟩

/-- A statement that is answered, and the rest, put together. -/
theorem feed_issue_ok {o : S.Op} {f : S.Reply o → Prog S ε β} {x : χ} {xs : List χ} {v : S.Reply o} {w₁ : σ}
    (h : serve o x w = some (.ok v, w₁)) :
    ((perform o).bind f).feed serve (x :: xs) w = (f v).feed serve xs w₁ := by
  show (serve o x w).bind _ = _
  rw [h]
  rfl

/-- A statement that fails is the last. -/
theorem feed_issue_error {o : S.Op} {f : S.Reply o → Prog S ε β} {x : χ} {e : ε} {w₁ : σ}
    (h : serve o x w = some (.error e, w₁)) :
    ((perform o).bind f).feed serve [x] w = some (.error e, w₁) := by
  show (serve o x w).bind _ = _
  rw [h]
  rfl

/-- A sequence, fed. -/
theorem feed_bind {p : Prog S ε α} {f : α → Prog S ε β} {xs : List χ} {r : Except ε β}
    (h : (p.bind f).feed serve xs w = some (r, w')) :
    (∃ xs₁ xs₂ a w₁, xs = xs₁ ++ xs₂ ∧ p.feed serve xs₁ w = some (.ok a, w₁) ∧
      (f a).feed serve xs₂ w₁ = some (r, w')) ∨
      ∃ e, r = .error e ∧ p.feed serve xs w = some (.error e, w') := by
  induction p generalizing xs w with
  | done a => exact Or.inl ⟨[], xs, a, w, rfl, rfl, h⟩
  | fail e =>
    obtain ⟨rfl, rfl, rfl⟩ := feed_fail h
    exact Or.inr ⟨e, rfl, rfl⟩
  | call o k ih =>
    obtain ⟨x, xs', reply, w₁, rfl, hserve, h⟩ := feed_call h
    rcases ih reply h with ⟨xs₁, xs₂, a, w₂, rfl, hp, hf⟩ | ⟨e, rfl, hp⟩
    · exact Or.inl ⟨x :: xs₁, xs₂, a, w₂, rfl, Option.bind_eq_some_iff.mpr ⟨_, hserve, hp⟩, hf⟩
    · exact Or.inr ⟨e, rfl, Option.bind_eq_some_iff.mpr ⟨_, hserve, hp⟩⟩

/-- What comes after a `try`, fed. -/
theorem feed_attempt {p : Prog S ε α} {f : Except ε α → Prog S ε β} {xs : List χ} {r : Except ε β}
    (h : (p.attempt.bind f).feed serve xs w = some (r, w')) :
    ∃ xs₁ xs₂ r₁ w₁, xs = xs₁ ++ xs₂ ∧ p.feed serve xs₁ w = some (r₁, w₁) ∧
      (f r₁).feed serve xs₂ w₁ = some (r, w') := by
  induction p generalizing xs w with
  | done a => exact ⟨[], xs, .ok a, w, rfl, rfl, h⟩
  | fail e => exact ⟨[], xs, .error e, w, rfl, rfl, h⟩
  | call o k ih =>
    obtain ⟨x, xs', reply, w₁, rfl, hserve, h⟩ := feed_call h
    obtain ⟨xs₁, xs₂, r₁, w₂, rfl, hp, hf⟩ := ih reply h
    exact ⟨x :: xs₁, xs₂, r₁, w₂, rfl, Option.bind_eq_some_iff.mpr ⟨_, hserve, hp⟩, hf⟩

/-- What the list does, somebody can do who decides only what is in it. -/
theorem Finishes.of_feed {p : Prog S ε α} {xs : List χ} {r : Except ε α} (h : p.feed serve xs w = some (r, w'))
    (hallowed : ∀ x ∈ xs, allowed x) : p.Finishes serve allowed Eq w r w' := by
  induction p generalizing xs w with
  | done a =>
    obtain ⟨rfl, rfl, -⟩ := feed_done h
    exact .done a rfl
  | fail e =>
    obtain ⟨rfl, rfl, -⟩ := feed_fail h
    exact .fail e rfl
  | call o k ih =>
    obtain ⟨x, xs', reply, w₁, rfl, hserve, h⟩ := feed_call h
    exact .call rfl (hallowed x List.mem_cons_self) hserve
      (ih reply h fun x hx => hallowed x (List.mem_cons_of_mem _ hx))

end Prog

/-- Every call has been answered. -/
def Config.Idle {S : Signature} {ε α ρ σ : Type} (c : Config S ε α ρ σ) : Prop :=
  ∀ call ∈ c.calls, call.result?.isSome

namespace Platform

variable {S : Signature} {ε α ρ χ η σ : Type} (P : Platform S ε α ρ χ η σ)

/-- A step of call `i`, by an allowed choice, or an allowed move of the environment. -/
def Solo (i : Nat) (allowed : χ → Prop) (moves : η → Prop) : Config S ε α ρ σ → Label ρ χ η → Prop :=
  fun _ l =>
    match l with
    | .exec j x => j = i ∧ allowed x
    | .env e => moves e
    | _ => False

variable {P}

/-- **One call takes all the steps**: what it does to the store is what its tree does. -/
theorem finishes_of_run {i : Nat} {allowed : χ → Prop} {moves : η → Prop} {drifts : σ → σ → Prop}
    (hrefl : ∀ w, drifts w w) (htrans : ∀ w w₁ w₂, drifts w w₁ → drifts w₁ w₂ → drifts w w₂)
    (hmoves : ∀ {e w w'}, moves e → P.env e w = some w' → drifts w w') {c c' : Config S ε α ρ σ}
    {tr : List (Step (Config S ε α ρ σ) (Label ρ χ η))} (hrun : Run P.step (Solo i allowed moves) c tr c')
    {r : ρ} {p : Prog S ε α} (hi : c.calls[i]? = some ⟨r, p, false⟩) {out : Except ε α}
    (hout : c'.calls[i]?.bind Call.result? = some out) :
    p.Finishes (P.exec i) allowed drifts c.world out c'.world ∧
      c'.calls = c.calls.set i ⟨r, .ended out, false⟩ := by
  -- what is left of the tree, and that it is enough to finish that
  have hleft : ∃ q, c'.calls = c.calls.set i ⟨r, q, false⟩ ∧ c'.calls[i]? = some ⟨r, q, false⟩ ∧
      ∀ out w', q.Finishes (P.exec i) allowed drifts c'.world out w' →
        p.Finishes (P.exec i) allowed drifts c.world out w' := by
    clear hout
    induction hrun with
    | nil => exact ⟨p, (set_same hi).symm, hi, fun _ _ h => h⟩
    | @snoc tr c₁ c₂ l run hallowed next ih =>
      obtain ⟨q, hcalls, hq, hfinish⟩ := ih
      cases l with
      | arrive _ => exact hallowed.elim
      | crash _ => exact hallowed.elim
      | exec j x =>
        obtain ⟨rfl, hx⟩ := hallowed
        obtain ⟨r', o, k, reply, w, hj, hexec, rfl⟩ := P.step_exec next
        cases hq.symm.trans hj
        have hlt := (List.getElem?_eq_some_iff.mp hj).1
        refine ⟨k reply, by simp only [hcalls, List.set_set], List.getElem?_set_self hlt, fun out w' h => ?_⟩
        exact hfinish out w' (.call (hrefl _) hx hexec h)
      | env e =>
        obtain ⟨w, hw, rfl⟩ := P.step_env next
        exact ⟨q, hcalls, hq, fun out w' h => hfinish out w' (h.after htrans (hmoves hallowed hw))⟩
  obtain ⟨q, hcalls, hq, hfinish⟩ := hleft
  rw [hq] at hout
  have hq : q = .ended out := (Call.result?_eq_some hout).2
  subst hq
  refine ⟨hfinish out _ ?_, hcalls⟩
  cases out with
  | ok a => exact .done a (hrefl _)
  | error e => exact .fail e (hrefl _)

/-- What a tree does, a call can do that takes all the steps. -/
theorem execute_of_finishes {i : Nat} {allowed : χ → Prop} {p : Prog S ε α} {w w' : σ}
    {out : Except ε α} (h : p.Finishes (P.exec i) allowed Eq w out w') {r : ρ} {calls : List (Call S ε α ρ)}
    (hi : calls[i]? = some ⟨r, p, false⟩) :
    ∃ xs : List χ, (∀ x ∈ xs, allowed x) ∧
      execute P.step ⟨w, calls⟩ (xs.map (.exec i)) = some ⟨w', calls.set i ⟨r, .ended out, false⟩⟩ := by
  induction h generalizing calls with
  | done a drift =>
    cases drift
    exact ⟨[], by simp, by rw [show (Prog.ended (.ok a) : Prog S ε α) = .done a from rfl, set_same hi]; rfl⟩
  | fail e drift =>
    cases drift
    exact ⟨[], by simp, by rw [show (Prog.ended (.error e) : Prog S ε α) = .fail e from rfl, set_same hi]; rfl⟩
  | @call o k w w₀ w₁ w' x reply out drift hx answer rest ih =>
    cases drift
    have hstep := P.step_of_exec (c := ⟨w, calls⟩) hi answer
    have hlt := (List.getElem?_eq_some_iff.mp hi).1
    have hnext : (calls.set i ⟨r, k reply, false⟩)[i]? = some ⟨r, k reply, false⟩ := List.getElem?_set_self hlt
    obtain ⟨xs, hxs, hexecute⟩ := ih hnext
    rw [List.set_set] at hexecute
    exact ⟨x :: xs, List.forall_mem_cons.mpr ⟨hx, hxs⟩, Option.bind_eq_some_iff.mpr ⟨_, hstep, hexecute⟩⟩

/-- A call that takes all the steps, as a run. -/
theorem run_of_execute {i : Nat} {allowed : χ → Prop} {moves : η → Prop} {xs : List χ} {c c' : Config S ε α ρ σ}
    (hxs : ∀ x ∈ xs, allowed x) (hexecute : execute P.step c (xs.map (.exec i)) = some c') :
    ∃ tr, Run P.step (Solo i allowed moves) c tr c' := by
  refine Run.of_execute (fun l hl _ => ?_) hexecute
  obtain ⟨x, hx, rfl⟩ := List.mem_map.mp hl
  exact ⟨rfl, hxs x hx⟩

/-- A call that takes all the steps, with a list of what the outside decides. -/
theorem execute_feed {i : Nat} {r : ρ} {p : Prog S ε α} {xs : List χ} {c c' : Config S ε α ρ σ}
    {out : Except ε α} (hi : c.calls[i]? = some ⟨r, p, false⟩)
    (hexecute : execute P.step c (xs.map (.exec i)) = some c')
    (hout : c'.calls[i]?.bind Call.result? = some out) :
    ∃ w', p.feed (P.exec i) xs c.world = some (out, w') ∧ c' = ⟨w', c.calls.set i ⟨r, .ended out, false⟩⟩ := by
  induction xs generalizing p c with
  | nil =>
    obtain rfl := Option.some.inj hexecute
    rw [hi] at hout
    obtain rfl : p = .ended out := (Call.result?_eq_some hout).2
    refine ⟨c.world, ?_, by rw [set_same hi]⟩
    cases out <;> rfl
  | cons x xs ih =>
    obtain ⟨c₁, hstep, hrest⟩ := Option.bind_eq_some_iff.mp hexecute
    obtain ⟨r', o, k, reply, w, hi', hexec, rfl⟩ := P.step_exec hstep
    cases hi.symm.trans hi'
    have hlt := (List.getElem?_eq_some_iff.mp hi).1
    have hnext : (c.calls.set i ⟨r, k reply, false⟩)[i]? = some ⟨r, k reply, false⟩ := List.getElem?_set_self hlt
    obtain ⟨w', hfeed, rfl⟩ := ih hnext hrest
    refine ⟨w', ?_, by rw [List.set_set]⟩
    exact Option.bind_eq_some_iff.mpr ⟨(reply, w), hexec, hfeed⟩

/-! ## One call after another -/

/-- A call comes in when the others have been answered; none dies. -/
def Serial (allowed : χ → Prop) (moves : η → Prop) : Config S ε α ρ σ → Label ρ χ η → Prop :=
  fun c l =>
    match l with
    | .arrive _ => c.Idle
    | .exec _ x => allowed x
    | .crash _ => False
    | .env e => moves e

/-- **An invariant of whole calls.** What each call preserves that starts where all the others have been
answered, and each move of the environment, holds wherever all calls have been answered. -/
theorem serial_invariant {allowed : χ → Prop} {moves : η → Prop} {drifts : σ → σ → Prop}
    (hrefl : ∀ w, drifts w w) (htrans : ∀ w w₁ w₂, drifts w w₁ → drifts w₁ w₂ → drifts w w₂)
    (hmoves : ∀ {e w w'}, moves e → P.env e w = some w' → drifts w w') {I : Config S ε α ρ σ → Prop}
    (henv : ∀ (c : Config S ε α ρ σ) w, I c → drifts c.world w → I { c with world := w })
    (hcall : ∀ (c : Config S ε α ρ σ) r out w', c.Idle → I c →
      (P.program r).Finishes (P.exec c.calls.length) allowed drifts c.world out w' →
      I ⟨w', c.calls ++ [⟨r, .ended out, false⟩]⟩)
    {c₀ c : Config S ε α ρ σ} {tr : List (Step (Config S ε α ρ σ) (Label ρ χ η))}
    (hrun : Run P.step (Serial allowed moves) c₀ tr c) (hidle₀ : c₀.Idle) (init : I c₀) (hidle : c.Idle) :
    I c := by
  -- either no call is open, or the last one is, and what is left of it tells what it has done
  have hopen : (c.Idle → I c) ∧ (c.Idle ∨ ∃ (c₁ : Config S ε α ρ σ) (r : ρ) (q : Prog S ε α), c₁.Idle ∧ I c₁ ∧
      c.calls = c₁.calls ++ [⟨r, q, false⟩] ∧ ∀ out w',
        q.Finishes (P.exec c₁.calls.length) allowed drifts c.world out w' →
          (P.program r).Finishes (P.exec c₁.calls.length) allowed drifts c₁.world out w') := by
    clear hidle
    have hopened : ∀ {c c₁ : Config S ε α ρ σ} {r : ρ} {q : Prog S ε α}, c₁.Idle → I c₁ →
        c.calls = c₁.calls ++ [⟨r, q, false⟩] → (∀ out w',
          q.Finishes (P.exec c₁.calls.length) allowed drifts c.world out w' →
            (P.program r).Finishes (P.exec c₁.calls.length) allowed drifts c₁.world out w') → c.Idle → I c := by
      intro c c₁ r q hidle₁ h₁ hcalls hfinish hidle
      obtain ⟨out, hout⟩ := Option.isSome_iff_exists.mp (hidle ⟨r, q, false⟩ (by simp [hcalls]))
      obtain rfl : q = .ended out := (Call.result?_eq_some hout).2
      have hended : (Prog.ended out : Prog S ε α).Finishes (P.exec c₁.calls.length) allowed drifts c.world out
          c.world := by
        cases out with
        | ok a => exact .done a (hrefl _)
        | error e => exact .fail e (hrefl _)
      have h := hcall c₁ r out c.world hidle₁ h₁ (hfinish out c.world hended)
      rwa [← hcalls] at h
    induction hrun with
    | nil => exact ⟨fun _ => init, Or.inl hidle₀⟩
    | @snoc tr c c' l run hallowed next ih =>
      obtain ⟨hkept, hstate⟩ := ih
      cases l with
      | arrive r =>
        obtain rfl := Option.some.inj next
        have h : ∀ out w', (P.program r).Finishes (P.exec c.calls.length) allowed drifts c.world out w' → _ :=
          fun out w' h => h
        exact ⟨hopened hallowed (hkept hallowed) rfl h, Or.inr ⟨c, r, _, hallowed, hkept hallowed, rfl, h⟩⟩
      | crash i => exact hallowed.elim
      | exec i x =>
        obtain ⟨r, o, k, reply, w, hi, hexec, rfl⟩ := P.step_exec next
        rcases hstate with hidle | ⟨c₁, r₁, q, hidle₁, h₁, hcalls, hfinish⟩
        · exact absurd (hidle _ (List.mem_of_getElem? hi)) (by simp [Call.result?])
        · -- the call that steps is the one that is open
          rcases getElem?_concat_cases (hcalls ▸ hi) with ⟨rfl, heq⟩ | hi₁
          · cases heq
            have hcalls' : c.calls.set c₁.calls.length ⟨r, k reply, false⟩ = c₁.calls ++ [⟨r, k reply, false⟩] := by
              rw [hcalls, List.set_append_right _ _ (le_refl _), Nat.sub_self]
              rfl
            have h := fun out w' (h : (k reply).Finishes (P.exec c₁.calls.length) allowed drifts w out w') =>
              hfinish out w' (.call (hrefl _) hallowed hexec h)
            exact ⟨hopened hidle₁ h₁ hcalls' h, Or.inr ⟨c₁, r, _, hidle₁, h₁, hcalls', h⟩⟩
          · exact absurd (hidle₁ _ (List.mem_of_getElem? hi₁)) (by simp [Call.result?])
      | env e =>
        obtain ⟨w, hw, rfl⟩ := P.step_env next
        have hdrift := hmoves hallowed hw
        refine ⟨fun hidle => henv c w (hkept hidle) hdrift, hstate.imp (fun hidle => hidle) ?_⟩
        rintro ⟨c₁, r, q, hidle₁, h₁, hcalls, hfinish⟩
        exact ⟨c₁, r, q, hidle₁, h₁, hcalls, fun out w' h => hfinish out w' (h.after htrans hdrift)⟩
  exact hopen.1 hidle

end Platform

end FlashWallet.Lib
