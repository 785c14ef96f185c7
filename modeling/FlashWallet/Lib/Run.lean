import Mathlib.Algebra.BigOperators.Group.List.Basic
import Mathlib.Algebra.Group.Int.Defs
import Mathlib.Tactic.Abel

/-!
# Runs of a labelled system

A system is a partial step function `C → L → Option C`. A run is recorded as its **trace**, the
list of steps taken, each with the configurations on both sides: an invariant is proved by
induction on the run, and an audit ("how much of this change was that caller's doing") is a sum
over the trace.

`ok` restricts a run: which steps are allowed to occur in it, judged from the configuration
before the step. Every claim about "runs in which nothing of that kind happens" is a statement
about `Run step ok`.
-/

set_option autoImplicit false

namespace FlashWallet.Lib

/-- One step of a trace. -/
structure Step (C L : Type) where
  before : C
  label : L
  after : C

variable {C L : Type}

/-- `Run step ok c₀ tr c`: the steps `tr`, each allowed by `ok`, lead from `c₀` to `c`. -/
inductive Run (step : C → L → Option C) (ok : C → L → Prop) (c₀ : C) :
    List (Step C L) → C → Prop where
  | nil : Run step ok c₀ [] c₀
  | snoc {tr : List (Step C L)} {c c' : C} {l : L} (run : Run step ok c₀ tr c)
      (allowed : ok c l) (next : step c l = some c') : Run step ok c₀ (tr ++ [⟨c, l, c'⟩]) c'

namespace Run

variable {step : C → L → Option C} {ok ok' : C → L → Prop} {c₀ c c' : C}
  {tr tr' : List (Step C L)}

/-- A run that meets a stronger restriction meets a weaker one. -/
theorem mono (h : Run step ok c₀ tr c) (himp : ∀ c l, ok c l → ok' c l) :
    Run step ok' c₀ tr c := by
  induction h with
  | nil => exact .nil
  | snoc _ allowed next ih => exact .snoc ih (himp _ _ allowed) next

theorem single {l : L} (allowed : ok c l) (next : step c l = some c') :
    Run step ok c [⟨c, l, c'⟩] c' := by
  simpa using Run.snoc .nil allowed next

theorem append (h : Run step ok c₀ tr c) (h' : Run step ok c tr' c') :
    Run step ok c₀ (tr ++ tr') c' := by
  induction h' with
  | nil => simpa using h
  | snoc _ allowed next ih => simpa [List.append_assoc] using Run.snoc ih allowed next

/-- **The invariant rule.** What holds at the start and survives each allowed step holds in
every configuration the run reaches. -/
theorem invariant {I : C → Prop} (h : Run step ok c₀ tr c) (init : I c₀)
    (preserved : ∀ c l c', I c → ok c l → step c l = some c' → I c') : I c := by
  induction h with
  | nil => exact init
  | snoc _ allowed next ih => exact preserved _ _ _ ih allowed next

/-- Every step of a run is an allowed step of the system, taken from a configuration the run
itself reaches. -/
theorem of_mem (h : Run step ok c₀ tr c) {s : Step C L} (hs : s ∈ tr) :
    (∃ tr', Run step ok c₀ tr' s.before) ∧ ok s.before s.label ∧
      step s.before s.label = some s.after := by
  induction h with
  | nil => simp at hs
  | snoc run allowed next ih =>
    rcases List.mem_append.mp hs with hs | hs
    · exact ih hs
    · obtain rfl := List.mem_singleton.mp hs
      exact ⟨⟨_, run⟩, allowed, next⟩

/-- A step of a run cuts it in two. -/
theorem split (h : Run step ok c₀ tr c) {s : Step C L} (hs : s ∈ tr) :
    ∃ tr₁ tr₂, tr = tr₁ ++ s :: tr₂ ∧ Run step ok c₀ tr₁ s.before ∧ ok s.before s.label ∧
      step s.before s.label = some s.after ∧ Run step ok s.after tr₂ c := by
  induction h with
  | nil => simp at hs
  | @snoc tr c c' l run allowed next ih =>
    rcases List.mem_append.mp hs with hs | hs
    · obtain ⟨tr₁, tr₂, rfl, hbefore, hok, hstep, hafter⟩ := ih hs
      exact ⟨tr₁, tr₂ ++ [⟨c, l, c'⟩], by simp, hbefore, hok, hstep, hafter.snoc allowed next⟩
    · obtain rfl := List.mem_singleton.mp hs
      exact ⟨tr, [], rfl, run, allowed, next, .nil⟩

/-- **A preorder kept by every step** relates the start of a run, and the start of each of its
steps, to where the run leads. -/
theorem relates {R : C → C → Prop} (h : Run step ok c₀ tr c) (refl : ∀ c, R c c)
    (trans : ∀ {c c' c''}, R c c' → R c' c'' → R c c'')
    (hstep : ∀ {c l c'}, step c l = some c' → R c c') :
    R c₀ c ∧ ∀ s ∈ tr, R s.before c ∧ R s.after c := by
  induction h with
  | nil => exact ⟨refl _, by simp⟩
  | snoc _ _ next ih =>
    refine ⟨trans ih.1 (hstep next), fun s hs => ?_⟩
    rcases List.mem_append.mp hs with hs | hs
    · exact ⟨trans (ih.2 s hs).1 (hstep next), trans (ih.2 s hs).2 (hstep next)⟩
    · obtain rfl := List.mem_singleton.mp hs
      exact ⟨hstep next, refl _⟩

/-- A run can be interrupted anywhere. -/
theorem of_append (h : Run step ok c₀ tr c) {tr₁ tr₂ : List (Step C L)} (heq : tr = tr₁ ++ tr₂) :
    ∃ c₁, Run step ok c₀ tr₁ c₁ ∧ Run step ok c₁ tr₂ c := by
  induction h generalizing tr₂ with
  | nil =>
    obtain ⟨rfl, rfl⟩ := List.nil_eq_append_iff.mp heq
    exact ⟨c₀, .nil, .nil⟩
  | @snoc tr c c' l run allowed next ih =>
    rcases List.eq_nil_or_concat tr₂ with rfl | ⟨tr₂, s, rfl⟩
    · rw [List.append_nil] at heq
      exact ⟨c', heq ▸ run.snoc allowed next, .nil⟩
    · rw [List.concat_eq_append, ← List.append_assoc] at heq
      obtain ⟨rfl, hs⟩ := List.append_inj' heq rfl
      obtain rfl := List.singleton_inj.mp hs
      obtain ⟨c₁, hbefore, hafter⟩ := ih rfl
      exact ⟨c₁, hbefore, by simpa using hafter.snoc allowed next⟩

end Run

/-! ## Before and after -/

/-- Step `s` comes before step `s'`. -/
def Precedes (tr : List (Step C L)) (s s' : Step C L) : Prop :=
  ∃ tr₁ tr₂, tr = tr₁ ++ s' :: tr₂ ∧ s ∈ tr₁

/-- One of two steps comes first. -/
theorem precedes_or {tr : List (Step C L)} {s s' : Step C L} (hs : s ∈ tr) (hs' : s' ∈ tr) :
    s = s' ∨ Precedes tr s s' ∨ Precedes tr s' s := by
  obtain ⟨tr₁, tr₂, rfl⟩ := List.append_of_mem hs'
  rcases List.mem_append.mp hs with hs | hs
  · exact Or.inr (Or.inl ⟨tr₁, tr₂, rfl, hs⟩)
  · rcases List.mem_cons.mp hs with rfl | hs
    · exact Or.inl rfl
    · obtain ⟨mid, rest, rfl⟩ := List.append_of_mem hs
      exact Or.inr (Or.inr ⟨tr₁ ++ s' :: mid, rest, by simp, by simp⟩)

/-- A run up to its earlier step, and from there past its later one. -/
theorem Run.of_precedes {step : C → L → Option C} {ok : C → L → Prop} {c₀ c : C} {tr : List (Step C L)}
    (h : Run step ok c₀ tr c) {s s' : Step C L} (hs : Precedes tr s s') :
    ∃ tr₁ tr₂, Run step ok c₀ tr₁ s.before ∧ ok s.before s.label ∧ step s.before s.label = some s.after ∧
      Run step ok s.after tr₂ c ∧ s' ∈ tr₂ := by
  obtain ⟨tr₁, tr₂, rfl, hmem⟩ := hs
  obtain ⟨c₁, hbefore, hafter⟩ := h.of_append rfl
  obtain ⟨tr₃, tr₄, -, hrun, hok, hstep, hrest⟩ := hbefore.split hmem
  exact ⟨tr₃, _, hrun, hok, hstep, hrest.append hafter, by simp⟩

/-- A run between two of its steps, and from the later one on. -/
theorem Run.between {step : C → L → Option C} {ok : C → L → Prop} {c₀ c : C} {tr : List (Step C L)}
    (h : Run step ok c₀ tr c) {s s' : Step C L} (hs : Precedes tr s s') :
    ∃ tr₁ tr₂, Run step ok s.after tr₁ s'.before ∧ Run step ok s'.before tr₂ c := by
  obtain ⟨_, rest, -, -, -, hrest, hmem⟩ := h.of_precedes hs
  obtain ⟨tr₁, tr₂, -, hbefore, hok, hstep, hafter⟩ := hrest.split hmem
  exact ⟨tr₁, _, hbefore, (Run.single hok hstep).append hafter⟩

/-! ## Executing a list of labels -/

/-- Run the labels in order, if every one of them is enabled when its turn comes. -/
def execute (step : C → L → Option C) : C → List L → Option C
  | c, [] => some c
  | c, l :: ls => (step c l).bind fun c' => execute step c' ls

/-- Executing labels one by one, with the restriction checked on the way. -/
def executeChecked (step : C → L → Option C) (ok : C → L → Bool) : C → List L → Option C
  | c, [] => some c
  | c, l :: ls => if ok c l then (step c l).bind fun c' => executeChecked step ok c' ls else none

/-- The trace of an execution. -/
def record (step : C → L → Option C) : C → List L → List (Step C L)
  | _, [] => []
  | c, l :: ls =>
    match step c l with
    | some c' => ⟨c, l, c'⟩ :: record step c' ls
    | none => []

/-- An execution that goes through is a run. -/
theorem Run.of_executeChecked {step : C → L → Option C} {ok : C → L → Bool} :
    ∀ {ls : List L} {c c' : C}, executeChecked step ok c ls = some c' →
      Run step (fun c l => ok c l = true) c (record step c ls) c'
  | [], c, c', h => by
    simp only [executeChecked, Option.some.injEq] at h
    subst h
    exact .nil
  | l :: ls, c, c', h => by
    simp only [executeChecked] at h
    split at h
    · rename_i hok
      obtain ⟨mid, hstep, hrest⟩ := Option.bind_eq_some_iff.mp h
      have first : Run step (fun c l => ok c l = true) c ([] ++ [⟨c, l, mid⟩]) mid :=
        .snoc .nil hok hstep
      simpa [record, hstep] using first.append (Run.of_executeChecked hrest)
    · cases h

theorem execute_of_executeChecked {step : C → L → Option C} {ok : C → L → Bool} :
    ∀ {ls : List L} {c c' : C}, executeChecked step ok c ls = some c' → execute step c ls = some c'
  | [], _, _, h => h
  | l :: ls, c, c', h => by
    simp only [executeChecked] at h
    split at h
    · obtain ⟨mid, hstep, hrest⟩ := Option.bind_eq_some_iff.mp h
      exact Option.bind_eq_some_iff.mpr ⟨mid, hstep, execute_of_executeChecked hrest⟩
    · cases h

theorem Run.of_execute {step : C → L → Option C} {ok : C → L → Prop} :
    ∀ {ls : List L} {c c' : C}, (∀ l ∈ ls, ∀ c, ok c l) → execute step c ls = some c' →
      ∃ tr, Run step ok c tr c'
  | [], c, c', _, h => ⟨[], Option.some.inj h ▸ .nil⟩
  | l :: ls, c, c', hok, h => by
    obtain ⟨mid, hstep, hrest⟩ := Option.bind_eq_some_iff.mp h
    obtain ⟨tr, hrun⟩ := Run.of_execute (fun l' hl' => hok l' (List.mem_cons_of_mem l hl')) hrest
    exact ⟨_, (Run.single (hok l List.mem_cons_self c) hstep).append hrun⟩

/-! ## Auditing a run

`effect f sel tr` is the part of the change of the observable `f` that the selected steps are
answerable for. -/

def effect (f : C → Int) (sel : Step C L → Bool) (tr : List (Step C L)) : Int :=
  ((tr.filter sel).map fun s => f s.after - f s.before).sum

variable {f : C → Int} {sel : Step C L → Bool} {tr : List (Step C L)}

@[simp] theorem effect_nil : effect f sel [] = 0 := rfl

theorem effect_snoc (s : Step C L) :
    effect f sel (tr ++ [s]) = effect f sel tr + if sel s then f s.after - f s.before else 0 := by
  unfold effect
  by_cases hs : sel s <;> simp [List.filter_append, hs]

/-- A step that is not selected, or that leaves the observable alone, changes no audit. -/
theorem effect_snoc_of_unchanged (s : Step C L) (h : sel s = true → f s.after = f s.before) :
    effect f sel (tr ++ [s]) = effect f sel tr := by
  rw [effect_snoc]
  by_cases hs : sel s
  · simp [hs, h hs]
  · simp [hs]

theorem effect_snoc_of_selected (s : Step C L) (h : sel s = true) :
    effect f sel (tr ++ [s]) = effect f sel tr + (f s.after - f s.before) := by
  rw [effect_snoc, if_pos h]

end FlashWallet.Lib
