import FlashWallet.Lib.Prog
import FlashWallet.Lib.Run

/-!
# Many handlers over one store

A `Platform` is a store, the handler each request is answered with, and what one statement of
one handler does to the store. A configuration is the store and the calls made so far; a step
lets a request arrive, **one** call issue **one** statement, a call be cut off, or the
environment move. No scheduling is assumed: a run is any sequence of such steps.

`Platform.sound` is the theorem the library is for. Give every call its books (ghost data), say
by a `Discipline` what each statement asks and does to the books of the call issuing it, and
by `G` how the store and all the books hang together. If every handler keeps the discipline
(a fact about trees) and every single statement keeps `G` (a fact about the store), then `G`
holds of every configuration of every run.
-/

set_option autoImplicit false

namespace FlashWallet.Lib

/-- `ρ` requests, `χ` what the outside decides about a statement (a fault, a fresh identifier),
`η` moves of the environment, `σ` the store. `exec i o x w = none` means that call `i` cannot
issue `o` now: it waits. `cutOff i` is what the store does about a call that died. -/
structure Platform (S : Signature) (ε α ρ χ η σ : Type) where
  program : ρ → Prog S ε α
  exec : Nat → (o : S.Op) → χ → σ → Option (Except ε (S.Reply o) × σ)
  cutOff : Nat → σ → σ
  env : η → σ → Option σ

/-- A call: the request it answers and what is left of its handler. -/
structure Call (S : Signature) (ε α ρ : Type) where
  request : ρ
  prog : Prog S ε α
  crashed : Bool

namespace Call

variable {S : Signature} {ε α ρ : Type}

/-- What the call answered its client, once it has. A call that was cut off answers nothing. -/
def result? (c : Call S ε α ρ) : Option (Except ε α) :=
  if c.crashed then none else
    match c.prog with
    | .done a => some (.ok a)
    | .fail e => some (.error e)
    | .call _ _ => none

/-- Neither answered nor cut off. -/
def inFlight (c : Call S ε α ρ) : Bool := !c.crashed && c.result?.isNone

theorem inFlight_iff {c : Call S ε α ρ} :
    c.inFlight = true ↔ c.crashed = false ∧ ∃ o k, c.prog = .call o k := by
  rcases c with ⟨request, prog, crashed⟩
  cases crashed <;> cases prog <;> simp [inFlight, result?]

theorem result?_eq_some {c : Call S ε α ρ} {r : Except ε α} (h : c.result? = some r) :
    c.crashed = false ∧ c.prog = .ended r := by
  rcases c with ⟨request, prog, crashed⟩
  cases crashed <;> cases prog <;> simp [result?] at h
  all_goals subst h; exact ⟨rfl, rfl⟩

end Call

/-- The store and every call made so far, in order of arrival. A call is named by its place. -/
structure Config (S : Signature) (ε α ρ σ : Type) where
  world : σ
  calls : List (Call S ε α ρ)

inductive Label (ρ χ η : Type) where
  | arrive (r : ρ)
  | exec (i : Nat) (x : χ)
  | crash (i : Nat)
  | env (e : η)
deriving DecidableEq, Repr

namespace Platform

variable {S : Signature} {ε α ρ χ η σ : Type} (P : Platform S ε α ρ χ η σ)

def arrive (c : Config S ε α ρ σ) (r : ρ) : Config S ε α ρ σ :=
  { c with calls := c.calls ++ [⟨r, P.program r, false⟩] }

def step (c : Config S ε α ρ σ) : Label ρ χ η → Option (Config S ε α ρ σ)
  | .arrive r => some (P.arrive c r)
  | .exec i x =>
    match c.calls[i]? with
    | some ⟨r, .call o k, false⟩ =>
      (P.exec i o x c.world).map fun (reply, w) => ⟨w, c.calls.set i ⟨r, k reply, false⟩⟩
    | _ => none
  | .crash i =>
    match c.calls[i]? with
    | some ⟨r, .call o k, false⟩ => some ⟨P.cutOff i c.world, c.calls.set i ⟨r, .call o k, true⟩⟩
    | _ => none
  | .env e => (P.env e c.world).map fun w => { c with world := w }

/-- What an `exec` step is: the call was alive and at a statement, the store answered, the call
went on with the reply. -/
theorem step_exec {c c' : Config S ε α ρ σ} {i : Nat} {x : χ} (h : P.step c (.exec i x) = some c') :
    ∃ r o k reply w, c.calls[i]? = some ⟨r, .call o k, false⟩ ∧
      P.exec i o x c.world = some (reply, w) ∧ c' = ⟨w, c.calls.set i ⟨r, k reply, false⟩⟩ := by
  simp only [step] at h
  split at h
  · rename_i r o k heq
    obtain ⟨⟨reply, w⟩, hexec, rfl⟩ := Option.map_eq_some_iff.mp h
    exact ⟨r, o, k, reply, w, heq, hexec, rfl⟩
  · simp at h

/-- A call whose statement is answered takes a step. -/
theorem step_of_exec {c : Config S ε α ρ σ} {i : Nat} {x : χ} {r : ρ} {o : S.Op}
    {k : Except ε (S.Reply o) → Prog S ε α} {reply : Except ε (S.Reply o)} {w : σ}
    (hi : c.calls[i]? = some ⟨r, .call o k, false⟩) (hexec : P.exec i o x c.world = some (reply, w)) :
    P.step c (.exec i x) = some ⟨w, c.calls.set i ⟨r, k reply, false⟩⟩ := by
  simp only [step, hi, hexec, Option.map_some]

theorem step_crash {c c' : Config S ε α ρ σ} {i : Nat} (h : P.step c (.crash i) = some c') :
    ∃ r o k, c.calls[i]? = some ⟨r, .call o k, false⟩ ∧
      c' = ⟨P.cutOff i c.world, c.calls.set i ⟨r, .call o k, true⟩⟩ := by
  simp only [step] at h
  split at h
  · rename_i r o k heq
    simp only [Option.some.injEq] at h
    exact ⟨r, o, k, heq, h.symm⟩
  · simp at h

theorem step_env {c c' : Config S ε α ρ σ} {e : η} (h : P.step c (.env e) = some c') :
    ∃ w, P.env e c.world = some w ∧ c' = { c with world := w } := by
  obtain ⟨w, hw, rfl⟩ := Option.map_eq_some_iff.mp h
  exact ⟨w, hw, rfl⟩

/-- Calls are never forgotten, and keep the request they answer. -/
def Config.Keeps (c c' : Config S ε α ρ σ) : Prop :=
  ∀ (i : Nat) (call : Call S ε α ρ), c.calls[i]? = some call →
    ∃ call', c'.calls[i]? = some call' ∧ call'.request = call.request

theorem Config.Keeps.set {c : Config S ε α ρ σ} {w : σ} {i : Nat} {call call' : Call S ε α ρ}
    (hi : c.calls[i]? = some call) (hreq : call'.request = call.request) :
    Config.Keeps c ⟨w, c.calls.set i call'⟩ := by
  intro j callj hj
  by_cases hij : j = i
  · subst hij
    obtain rfl := Option.some.inj (hi.symm.trans hj)
    exact ⟨call', List.getElem?_set_self (List.getElem?_eq_some_iff.mp hj).1, hreq⟩
  · exact ⟨callj, (List.getElem?_set_ne (Ne.symm hij)).trans hj, rfl⟩

theorem keeps_of_step {c c' : Config S ε α ρ σ} {l : Label ρ χ η} (hstep : P.step c l = some c') :
    Config.Keeps c c' := by
  cases l with
  | arrive r =>
    obtain rfl := Option.some.inj hstep
    intro i call hi
    exact ⟨call, (List.getElem?_append_left (List.getElem?_eq_some_iff.mp hi).1).trans hi, rfl⟩
  | exec i x =>
    obtain ⟨r, o, k, reply, w, hi, hexec, rfl⟩ := P.step_exec hstep
    exact .set hi rfl
  | crash i =>
    obtain ⟨r, o, k, hi, rfl⟩ := P.step_crash hstep
    exact .set hi rfl
  | env e =>
    obtain ⟨w, hw, rfl⟩ := P.step_env hstep
    exact fun i call hi => ⟨call, hi, rfl⟩

theorem Config.Keeps.length_le {c c' : Config S ε α ρ σ} (h : Config.Keeps c c') :
    c.calls.length ≤ c'.calls.length := by
  refine Nat.not_lt.mp fun hlt => ?_
  obtain ⟨call, hcall, -⟩ := h _ _ (List.getElem?_eq_getElem hlt)
  exact absurd (List.getElem?_eq_some_iff.mp hcall).1 (lt_irrefl _)

/-- Along a run every call stays, from its arrival on. -/
theorem keeps_of_run {ok : Config S ε α ρ σ → Label ρ χ η → Prop} {c₀ c : Config S ε α ρ σ}
    {tr : List (Step (Config S ε α ρ σ) (Label ρ χ η))} (hrun : Run P.step ok c₀ tr c) :
    Config.Keeps c₀ c ∧ ∀ s ∈ tr, Config.Keeps s.before c ∧ Config.Keeps s.after c :=
  hrun.relates (R := Config.Keeps) (fun _ _ call hi => ⟨call, hi, rfl⟩)
    (fun h h' i call hi =>
      let ⟨call', hi', hreq'⟩ := h i call hi
      let ⟨call'', hi'', hreq''⟩ := h' i call' hi'
      ⟨call'', hi'', hreq''.trans hreq'⟩)
    P.keeps_of_step

/-- What holds of every request that may arrive holds of every call. -/
theorem requests_of_run {ok : Config S ε α ρ σ → Label ρ χ η → Prop} (good : ρ → Prop)
    (harrive : ∀ c r, ok c (.arrive r) → good r) {c₀ c : Config S ε α ρ σ}
    {tr : List (Step (Config S ε α ρ σ) (Label ρ χ η))} (hrun : Run P.step ok c₀ tr c)
    (h₀ : ∀ call ∈ c₀.calls, good call.request) : ∀ call ∈ c.calls, good call.request := by
  refine hrun.invariant (I := fun c => ∀ call ∈ c.calls, good call.request) h₀
    fun c l c' hc hok hstep => ?_
  have hset : ∀ {i : Nat} {call call' : Call S ε α ρ}, c.calls[i]? = some call →
      call'.request = call.request → ∀ call'' ∈ c.calls.set i call', good call''.request := by
    intro i call call' hi hreq call'' hmem
    rcases List.mem_or_eq_of_mem_set hmem with hmem | rfl
    · exact hc call'' hmem
    · exact hreq ▸ hc call (List.mem_of_getElem? hi)
  cases l with
  | arrive r =>
    obtain rfl := Option.some.inj hstep
    intro call hmem
    rcases List.mem_append.mp hmem with hmem | hmem
    · exact hc call hmem
    · obtain rfl := List.mem_singleton.mp hmem
      exact harrive c r hok
  | exec i x =>
    obtain ⟨r, o, k, reply, w, hi, hexec, rfl⟩ := P.step_exec hstep
    exact hset hi rfl
  | crash i =>
    obtain ⟨r, o, k, hi, rfl⟩ := P.step_crash hstep
    exact hset hi rfl
  | env e =>
    obtain ⟨w, hw, rfl⟩ := P.step_env hstep
    exact hc

/-- What holds of every handler, and of what is left of it after any reply, holds of every call. -/
theorem progs_of_run {ok : Config S ε α ρ σ → Label ρ χ η → Prop} (good : ρ → Prog S ε α → Prop)
    (hprograms : ∀ r, good r (P.program r))
    (hreply : ∀ r o k reply, good r (.call o k) → good r (k reply)) {c₀ c : Config S ε α ρ σ}
    {tr : List (Step (Config S ε α ρ σ) (Label ρ χ η))} (hrun : Run P.step ok c₀ tr c)
    (h₀ : ∀ call ∈ c₀.calls, good call.request call.prog) : ∀ call ∈ c.calls, good call.request call.prog := by
  refine hrun.invariant (I := fun c => ∀ call ∈ c.calls, good call.request call.prog) h₀
    fun c l c' hc _ hstep => ?_
  have hset : ∀ {i : Nat} {call call' : Call S ε α ρ}, c.calls[i]? = some call →
      (good call.request call.prog → good call'.request call'.prog) →
      ∀ call'' ∈ c.calls.set i call', good call''.request call''.prog := by
    intro i call call' hi himp call'' hmem
    rcases List.mem_or_eq_of_mem_set hmem with hmem | rfl
    · exact hc call'' hmem
    · exact himp (hc call (List.mem_of_getElem? hi))
  cases l with
  | arrive r =>
    obtain rfl := Option.some.inj hstep
    intro call hmem
    rcases List.mem_append.mp hmem with hmem | hmem
    · exact hc call hmem
    · obtain rfl := List.mem_singleton.mp hmem
      exact hprograms r
  | exec i x =>
    obtain ⟨r, o, k, reply, w, hi, -, rfl⟩ := P.step_exec hstep
    exact hset hi fun h => hreply r o k reply h
  | crash i =>
    obtain ⟨r, o, k, hi, rfl⟩ := P.step_crash hstep
    exact hset hi id
  | env e =>
    obtain ⟨w, -, rfl⟩ := P.step_env hstep
    exact hc

/-- An answer is final. -/
theorem answered_of_run {ok : Config S ε α ρ σ → Label ρ χ η → Prop} {c₀ c : Config S ε α ρ σ}
    {tr : List (Step (Config S ε α ρ σ) (Label ρ χ η))} (hrun : Run P.step ok c₀ tr c) {i : Nat}
    {call : Call S ε α ρ} (hi : c₀.calls[i]? = some call) (hanswered : call.result?.isSome) :
    c.calls[i]? = some call := by
  refine hrun.invariant (I := fun c => c.calls[i]? = some call) hi fun c l c' hc _ hstep => ?_
  have hother : ∀ {j : Nat} {r : ρ} {o : S.Op} {k : Except ε (S.Reply o) → Prog S ε α}
      {call' : Call S ε α ρ}, c.calls[j]? = some ⟨r, .call o k, false⟩ →
      (c.calls.set j call')[i]? = some call := by
    intro j r o k call' hj
    have hij : j ≠ i := by
      rintro rfl
      cases hc.symm.trans hj
      cases hanswered
    exact (List.getElem?_set_ne hij).trans hc
  cases l with
  | arrive r =>
    obtain rfl := Option.some.inj hstep
    exact (List.getElem?_append_left (List.getElem?_eq_some_iff.mp hc).1).trans hc
  | exec j x =>
    obtain ⟨r, o, k, reply, w, hj, -, rfl⟩ := P.step_exec hstep
    exact hother hj
  | crash j =>
    obtain ⟨r, o, k, hj, rfl⟩ := P.step_crash hstep
    exact hother hj
  | env e =>
    obtain ⟨w, -, rfl⟩ := P.step_env hstep
    exact hc

/-! ## Places in a list -/

theorem getElem?_set_cases {β : Type} {gs : List β} {i j : Nat} {g g' : β}
    (h : (gs.set i g')[j]? = some g) : j = i ∧ g = g' ∨ j ≠ i ∧ gs[j]? = some g := by
  by_cases hij : j = i
  · subst hij
    have hlt : j < gs.length := by simpa using (List.getElem?_eq_some_iff.mp h).1
    rw [List.getElem?_set_self hlt] at h
    exact Or.inl ⟨rfl, (Option.some.inj h).symm⟩
  · rw [List.getElem?_set_ne (Ne.symm hij)] at h
    exact Or.inr ⟨hij, h⟩

theorem getElem?_concat_cases {β : Type} {gs : List β} {j : Nat} {g g' : β}
    (h : (gs ++ [g'])[j]? = some g) : j = gs.length ∧ g = g' ∨ gs[j]? = some g := by
  rcases Nat.lt_trichotomy j gs.length with hj | rfl | hj
  · rw [List.getElem?_append_left hj] at h
    exact Or.inr h
  · rw [List.getElem?_concat_length] at h
    exact Or.inl ⟨rfl, (Option.some.inj h).symm⟩
  · rw [List.getElem?_eq_none (by simp; omega)] at h
    cases h

theorem set_same {β : Type} {gs : List β} {i : Nat} {g : β} (h : gs[i]? = some g) :
    gs.set i g = gs := by
  obtain ⟨hlt, rfl⟩ := List.getElem?_eq_some_iff.mp h
  exact List.set_getElem_self hlt

/-- What holds of every element after one has changed, and of the one before, held of all. -/
theorem forall_mem_of_set {β : Type} {good : β → Prop} {gs : List β} {i : Nat} {g g' : β}
    (hi : gs[i]? = some g) (hg : good g) (h : ∀ a ∈ gs.set i g', good a) : ∀ a ∈ gs, good a := by
  intro a ha
  obtain ⟨j, hj⟩ := List.mem_iff_getElem?.mp ha
  by_cases hij : i = j
  · subst hij
    exact Option.some.inj (hi.symm.trans hj) ▸ hg
  · exact h a (List.mem_of_getElem? ((List.getElem?_set_ne hij).trans hj))

/-- A total over a list after one element has changed. -/
theorem sum_map_set {β : Type} (f : β → Nat) {gs : List β} {i : Nat} {g : β} (g' : β)
    (h : gs[i]? = some g) : ((gs.set i g').map f).sum + f g = (gs.map f).sum + f g' := by
  induction gs generalizing i with
  | nil => cases h
  | cons a gs ih =>
    cases i with
    | zero =>
      obtain rfl := Option.some.inj h
      simp only [List.set_cons_zero, List.map_cons, List.sum_cons]
      omega
    | succ i =>
      have := ih h
      simp only [List.set_cons_succ, List.map_cons, List.sum_cons]
      omega

/-- A count over a list after one element has changed. -/
theorem countP_set {β : Type} (f : β → Bool) {gs : List β} {i : Nat} {g : β} (g' : β) (h : gs[i]? = some g) :
    (gs.set i g').countP f + (f g).toNat = gs.countP f + (f g').toNat := by
  have hsum : ∀ l : List β, l.countP f = (l.map fun a => (f a).toNat).sum := fun l => by
    induction l with
    | nil => rfl
    | cons a l ih =>
      rw [List.map_cons, List.sum_cons, List.countP_cons, ih, Nat.add_comm]
      cases f a <;> rfl
  rw [hsum, hsum]
  exact sum_map_set (fun a => (f a).toNat) g' h

/-- What is counted here is counted there, place by place. -/
theorem countP_le_of_places {α β : Type} {f : α → Bool} {g : β → Bool} {as : List α} {bs : List β}
    (hlen : as.length = bs.length)
    (h : ∀ (i : Nat) a b, as[i]? = some a → bs[i]? = some b → f a = true → g b = true) :
    as.countP f ≤ bs.countP g := by
  induction as generalizing bs with
  | nil => exact Nat.zero_le _
  | cons a as ih =>
    cases bs with
    | nil => cases hlen
    | cons b bs =>
      have htail := ih (Nat.succ.inj hlen) fun i => h (i + 1)
      have hhead := h 0 a b rfl rfl
      rw [List.countP_cons, List.countP_cons]
      split
      · rw [if_pos (hhead ‹_›)]
        omega
      · omega

/-- Those that are and those that are not. -/
theorem countP_not_add {α : Type} (f g : α → Bool) (as : List α) :
    (as.countP fun a => f a && !g a) + (as.countP fun a => f a && g a) = as.countP f := by
  induction as with
  | nil => rfl
  | cons a as ih =>
    simp only [List.countP_cons]
    cases f a <;> cases g a <;> simp <;> omega

/-- Two lists agree place by place. -/
theorem map_eq_of_places {α β δ : Type} {f : α → δ} {g : β → δ} {as : List α} {bs : List β}
    (hlen : as.length = bs.length)
    (h : ∀ (i : Nat) a b, as[i]? = some a → bs[i]? = some b → f a = g b) : as.map f = bs.map g := by
  refine List.ext_getElem (by simpa using hlen) fun i ha hb => ?_
  rw [List.getElem_map, List.getElem_map]
  exact h i _ _ (List.getElem?_eq_getElem (by simpa using ha)) (List.getElem?_eq_getElem (by simpa using hb))

/-- A total over the elements that satisfy a condition. -/
theorem sum_filter_map {α : Type} (sel : α → Bool) (f : α → Int) (as : List α) :
    ((as.filter sel).map f).sum = (as.map fun a => if sel a then f a else 0).sum := by
  induction as with
  | nil => rfl
  | cons a as ih => by_cases hsel : sel a <;> simp [hsel, ih]

/-- Counting is a total. -/
theorem length_filter_eq_sum {α : Type} (sel : α → Bool) (as : List α) :
    (as.filter sel).length = (as.map fun a => if sel a then 1 else 0).sum := by
  induction as with
  | nil => rfl
  | cons a as ih => by_cases hsel : sel a <;> simp [hsel, ih, Nat.add_comm]

/-! ## Books for every call -/

variable {γ : Type}

/-- Every call and its books stand in the relation `R`, which may depend on the call's place. -/
def Matched (R : Nat → Call S ε α ρ → γ → Prop) (calls : List (Call S ε α ρ)) (gs : List γ) : Prop :=
  ∀ (i : Nat) (call : Call S ε α ρ) (g : γ), calls[i]? = some call → gs[i]? = some g → R i call g

section Matched

variable {R R' : Nat → Call S ε α ρ → γ → Prop} {calls : List (Call S ε α ρ)} {gs : List γ}

theorem Matched.nil : Matched R ([] : List (Call S ε α ρ)) [] := fun i call g h => by simp at h

theorem Matched.mono (h : Matched R calls gs) (himp : ∀ i call g, R i call g → R' i call g) :
    Matched R' calls gs := fun i call g hc hg => himp i call g (h i call g hc hg)

theorem Matched.arrive (h : Matched R calls gs) (hlen : gs.length = calls.length)
    {call : Call S ε α ρ} {g : γ} (hnew : R calls.length call g) :
    Matched R (calls ++ [call]) (gs ++ [g]) := by
  intro i call' g' hc hg
  rcases getElem?_concat_cases hc with ⟨hi, rfl⟩ | hc'
  · rcases getElem?_concat_cases hg with ⟨-, rfl⟩ | hg
    · exact hi ▸ hnew
    · exact absurd (List.getElem?_eq_some_iff.mp hg).1 (by omega)
  · rcases getElem?_concat_cases hg with ⟨hi, -⟩ | hg
    · exact absurd (List.getElem?_eq_some_iff.mp hc').1 (by omega)
    · exact h i call' g' hc' hg

/-- One call moves on; the relation may change on the way, if the others' books bear it. -/
theorem Matched.set (h : Matched R calls gs) {i : Nat} {call : Call S ε α ρ} {g : γ}
    (hothers : ∀ j call' g', j ≠ i → R j call' g' → R' j call' g') (hnew : R' i call g) :
    Matched R' (calls.set i call) (gs.set i g) := by
  intro j call' g' hc hg
  rcases getElem?_set_cases hc with ⟨rfl, rfl⟩ | ⟨hij, hc⟩
  · rcases getElem?_set_cases hg with ⟨-, rfl⟩ | ⟨hne, -⟩
    · exact hnew
    · exact absurd rfl hne
  · rcases getElem?_set_cases hg with ⟨rfl, -⟩ | ⟨-, hg⟩
    · exact absurd rfl hij
    · exact hothers j call' g' hij (h j call' g' hc hg)

end Matched

variable (D : Discipline S ε γ) (Q : ρ → Except ε α → γ → Prop)

/-- Each call has its books, and what is left of its handler keeps the discipline from there.
Nothing is asked of a call that was cut off. -/
structure Aligned (calls : List (Call S ε α ρ)) (gs : List γ) : Prop where
  length : gs.length = calls.length
  keeps : Matched (fun _ call g => call.crashed = false → call.prog.Keeps D (Q call.request) g)
    calls gs

variable {D Q}

theorem Aligned.nil : Aligned D Q ([] : List (Call S ε α ρ)) [] where
  length := rfl
  keeps := .nil

/-- A call that is there has books. -/
theorem Aligned.books {calls : List (Call S ε α ρ)} {gs : List γ} (h : Aligned D Q calls gs)
    {i : Nat} {call : Call S ε α ρ} (hi : calls[i]? = some call) : ∃ g, gs[i]? = some g := by
  have hlt : i < calls.length := (List.getElem?_eq_some_iff.mp hi).1
  have hlt' : i < gs.length := h.length ▸ hlt
  exact ⟨gs[i], List.getElem?_eq_getElem hlt'⟩

theorem Aligned.arrive {calls : List (Call S ε α ρ)} {gs : List γ} (h : Aligned D Q calls gs)
    {call : Call S ε α ρ} {g : γ} (hg : call.crashed = false → call.prog.Keeps D (Q call.request) g) :
    Aligned D Q (calls ++ [call]) (gs ++ [g]) where
  length := by simp [h.length]
  keeps := h.keeps.arrive h.length hg

theorem Aligned.set {calls : List (Call S ε α ρ)} {gs : List γ} (h : Aligned D Q calls gs)
    {i : Nat} {call : Call S ε α ρ} {g : γ}
    (hg : call.crashed = false → call.prog.Keeps D (Q call.request) g) :
    Aligned D Q (calls.set i call) (gs.set i g) where
  length := by simp [h.length]
  keeps := h.keeps.set (fun _ _ _ _ h => h) hg

/-- What an answered call's books say: its outcome agrees with them. -/
theorem Aligned.outcome {calls : List (Call S ε α ρ)} {gs : List γ} (h : Aligned D Q calls gs)
    {i : Nat} {call : Call S ε α ρ} {g : γ} {r : Except ε α} (hc : calls[i]? = some call)
    (hg : gs[i]? = some g) (hr : call.result? = some r) : Q call.request r g := by
  obtain ⟨hlive, hprog⟩ := Call.result?_eq_some hr
  have hk := h.keeps i call g hc hg hlive
  rwa [hprog, Prog.keeps_ended] at hk

/-! ## Soundness -/

variable {ok : Config S ε α ρ σ → Label ρ χ η → Prop} {c₀ : Config S ε α ρ σ}
variable (D Q) (start : ρ → γ)
  (G : List (Step (Config S ε α ρ σ) (Label ρ χ η)) → Config S ε α ρ σ → List γ → Prop)

/-- The obligations of a proof by books. `tr` is the trace so far, so that `G` may also speak of
what has happened; each obligation may use that the configuration is reached by an allowed run. -/
structure Bookkeeping (ok : Config S ε α ρ σ → Label ρ χ η → Prop) (c₀ : Config S ε α ρ σ) :
    Prop where
  handlers : ∀ c r, ok c (.arrive r) → (P.program r).Keeps D (Q r) (start r)
  arrive : ∀ tr c gs r, Run P.step ok c₀ tr c → gs.length = c.calls.length → G tr c gs →
    ok c (.arrive r) → G (tr ++ [⟨c, .arrive r, P.arrive c r⟩]) (P.arrive c r) (gs ++ [start r])
  exec : ∀ tr c gs i r o k g x reply w, Run P.step ok c₀ tr c → gs.length = c.calls.length →
    G tr c gs → ok c (.exec i x) → c.calls[i]? = some ⟨r, .call o k, false⟩ → gs[i]? = some g →
    D.pre o g → P.exec i o x c.world = some (reply, w) →
    ∃ g', D.post o g reply g' ∧
      G (tr ++ [⟨c, .exec i x, ⟨w, c.calls.set i ⟨r, k reply, false⟩⟩⟩])
        ⟨w, c.calls.set i ⟨r, k reply, false⟩⟩ (gs.set i g')
  crash : ∀ tr c gs i r o k g, Run P.step ok c₀ tr c → gs.length = c.calls.length →
    G tr c gs → ok c (.crash i) → c.calls[i]? = some ⟨r, .call o k, false⟩ → gs[i]? = some g →
    ∃ g', G (tr ++ [⟨c, .crash i, ⟨P.cutOff i c.world, c.calls.set i ⟨r, .call o k, true⟩⟩⟩])
      ⟨P.cutOff i c.world, c.calls.set i ⟨r, .call o k, true⟩⟩ (gs.set i g')
  env : ∀ tr c gs e w, Run P.step ok c₀ tr c → gs.length = c.calls.length → G tr c gs →
    ok c (.env e) → P.env e c.world = some w →
    G (tr ++ [⟨c, .env e, { c with world := w }⟩]) { c with world := w } gs

variable {P D Q start G}

/-- **Soundness of bookkeeping.** The books of every run: there are some, they hang together
with the store, and what is left of every handler keeps the discipline from its own. -/
theorem Bookkeeping.sound (hB : Bookkeeping P D Q start G ok c₀) {gs₀ : List γ}
    (h₀ : G [] c₀ gs₀) (ha₀ : Aligned D Q c₀.calls gs₀)
    {tr : List (Step (Config S ε α ρ σ) (Label ρ χ η))} {c : Config S ε α ρ σ}
    (hrun : Run P.step ok c₀ tr c) : ∃ gs, G tr c gs ∧ Aligned D Q c.calls gs := by
  induction hrun with
  | nil => exact ⟨gs₀, h₀, ha₀⟩
  | @snoc tr c c' l run allowed next ih =>
    obtain ⟨gs, hG, ha⟩ := ih
    cases l with
    | arrive r =>
      obtain rfl := Option.some.inj next
      exact ⟨_, hB.arrive tr c gs r run ha.length hG allowed,
        ha.arrive fun _ => hB.handlers c r allowed⟩
    | exec i x =>
      obtain ⟨r, o, k, reply, w, hi, hexec, rfl⟩ := P.step_exec next
      obtain ⟨g, hg⟩ := ha.books hi
      have hk := ha.keeps i _ g hi hg rfl
      obtain ⟨g', hpost, hG'⟩ :=
        hB.exec tr c gs i r o k g x reply w run ha.length hG allowed hi hg hk.1 hexec
      exact ⟨_, hG', ha.set fun _ => hk.2 reply g' hpost⟩
    | crash i =>
      obtain ⟨r, o, k, hi, rfl⟩ := P.step_crash next
      obtain ⟨g, hg⟩ := ha.books hi
      obtain ⟨g', hG'⟩ := hB.crash tr c gs i r o k g run ha.length hG allowed hi hg
      exact ⟨_, hG', ha.set fun h => Bool.noConfusion h⟩
    | env e =>
      obtain ⟨w, hw, rfl⟩ := P.step_env next
      exact ⟨gs, hB.env tr c gs e w run ha.length hG allowed hw, ha⟩

end Platform

end FlashWallet.Lib
