import Mathlib.Logic.Basic

/-!
# Programs over a store, and a logic of per-program bookkeeping

A request handler is a **tree of statements**: it issues one, waits for the reply (or for the
error the statement ended in), and goes on. Keeping the tree, rather than a function of the
store, is what lets another handler's statement fall between two of its own: `Pool.lean` runs
many trees over one store, one statement at a time.

What is proved about a handler is proved once, about its tree alone. A `Discipline` says, per
statement, what the handler must have on its books to issue it and how the books look after
each reply; `Prog.Keeps` says that a tree obeys it along every path. The books are ghost data:
nothing computes with them.
-/

set_option autoImplicit false

namespace FlashWallet.Lib

/-- The statements a handler may issue, and what each of them answers. -/
structure Signature where
  Op : Type
  Reply : Op → Type

/-- A handler: finished, failed, or about to issue a statement. The continuation receives the
reply **or the error**, so that a `catch` is an ordinary continuation. -/
inductive Prog (S : Signature) (ε α : Type) : Type where
  | done (a : α)
  | fail (e : ε)
  | call (o : S.Op) (k : Except ε (S.Reply o) → Prog S ε α)

namespace Prog

variable {S : Signature} {ε α β : Type}

def bind : Prog S ε α → (α → Prog S ε β) → Prog S ε β
  | .done a, f => f a
  | .fail e, _ => .fail e
  | .call o k, f => .call o (fun r => (k r).bind f)

/-- The handler that has ended with a given outcome. -/
def ended : Except ε α → Prog S ε α
  | .ok a => .done a
  | .error e => .fail e

instance : Monad (Prog S ε) where
  pure := .done
  bind := .bind

/-- Issue one statement; an error of the statement is thrown. -/
def perform (o : S.Op) : Prog S ε (S.Reply o) :=
  .call o fun
    | .ok r => .done r
    | .error e => .fail e

/-- `try … catch` as data: run the handler and hand its error over instead of throwing it. -/
def attempt : Prog S ε α → Prog S ε (Except ε α)
  | .done a => .done (.ok a)
  | .fail e => .done (.error e)
  | .call o k => .call o (fun r => (k r).attempt)

instance : MonadExceptOf ε (Prog S ε) where
  throw := .fail
  tryCatch p handler := p.attempt.bind fun
    | .ok a => .done a
    | .error e => handler e

@[simp] theorem pure_eq (a : α) : (pure a : Prog S ε α) = .done a := rfl

@[simp] theorem throw_eq (e : ε) : (throw e : Prog S ε α) = .fail e := rfl

@[simp] theorem map_eq (f : α → β) (p : Prog S ε α) :
    f <$> p = p.bind fun a => .done (f a) := rfl

@[simp] theorem bind_eq (p : Prog S ε α) (f : α → Prog S ε β) : p >>= f = p.bind f := rfl

/-! ## Which statements a handler can issue at all -/

/-- Every statement the tree can ever issue satisfies `allowed`. -/
def Uses (allowed : S.Op → Prop) : Prog S ε α → Prop
  | .done _ => True
  | .fail _ => True
  | .call o k => allowed o ∧ ∀ r, (k r).Uses allowed

theorem uses_bind {allowed : S.Op → Prop} {p : Prog S ε α} {f : α → Prog S ε β}
    (hp : p.Uses allowed) (hf : ∀ a, (f a).Uses allowed) : (p.bind f).Uses allowed := by
  induction p with
  | done a => exact hf a
  | fail e => trivial
  | call o k ih => exact ⟨hp.1, fun r => ih r (hp.2 r)⟩

theorem uses_attempt {allowed : S.Op → Prop} {p : Prog S ε α} (hp : p.Uses allowed) :
    p.attempt.Uses allowed := by
  induction p with
  | done a => trivial
  | fail e => trivial
  | call o k ih => exact ⟨hp.1, fun r => ih r (hp.2 r)⟩

theorem uses_perform {allowed : S.Op → Prop} {o : S.Op} (ho : allowed o) :
    (perform o : Prog S ε (S.Reply o)).Uses allowed :=
  ⟨ho, fun r => by cases r <;> trivial⟩

theorem Uses.mono {allowed allowed' : S.Op → Prop} {p : Prog S ε α}
    (hp : p.Uses allowed) (h : ∀ o, allowed o → allowed' o) : p.Uses allowed' := by
  induction p with
  | done a => trivial
  | fail e => trivial
  | call o k ih => exact ⟨h o hp.1, fun r => ih r (hp.2 r)⟩

end Prog

/-! ## Disciplines -/

/-- Bookkeeping for one handler: `pre o g` is what the books `g` must show before statement `o`
is issued, `post o g r g'` relates them to the books after the reply `r`. -/
structure Discipline (S : Signature) (ε γ : Type) where
  pre : S.Op → γ → Prop
  post : (o : S.Op) → γ → Except ε (S.Reply o) → γ → Prop

namespace Prog

variable {S : Signature} {ε α β γ : Type}

/-- Along every path from books `g` the tree meets each statement's demand, and ends with
books its outcome agrees with. -/
def Keeps (D : Discipline S ε γ) (Q : Except ε α → γ → Prop) : Prog S ε α → γ → Prop
  | .done a, g => Q (.ok a) g
  | .fail e, g => Q (.error e) g
  | .call o k, g => D.pre o g ∧ ∀ r g', D.post o g r g' → (k r).Keeps D Q g'

variable {D : Discipline S ε γ}

@[simp] theorem keeps_done {Q : Except ε α → γ → Prop} {a : α} {g : γ} :
    (done a : Prog S ε α).Keeps D Q g ↔ Q (.ok a) g := Iff.rfl

@[simp] theorem keeps_fail {Q : Except ε α → γ → Prop} {e : ε} {g : γ} :
    (fail e : Prog S ε α).Keeps D Q g ↔ Q (.error e) g := Iff.rfl

theorem keeps_ended {Q : Except ε α → γ → Prop} {r : Except ε α} {g : γ} :
    (ended r : Prog S ε α).Keeps D Q g ↔ Q r g := by
  cases r <;> exact Iff.rfl

theorem Keeps.mono {Q Q' : Except ε α → γ → Prop} {p : Prog S ε α} {g : γ}
    (hp : p.Keeps D Q g) (h : ∀ r g', Q r g' → Q' r g') : p.Keeps D Q' g := by
  induction p generalizing g with
  | done a => exact h _ _ hp
  | fail e => exact h _ _ hp
  | call o k ih => exact ⟨hp.1, fun r g' hpost => ih r (hp.2 r g' hpost)⟩

/-- **Sequencing.** The first part may end as it likes as long as the second part takes over
from the books it leaves; an error goes straight to the end. -/
theorem Keeps.bind {Q : Except ε β → γ → Prop} {p : Prog S ε α} {f : α → Prog S ε β} {g : γ}
    (hp : p.Keeps D (fun r g' =>
      match r with
      | .ok a => (f a).Keeps D Q g'
      | .error e => Q (.error e) g') g) : (p.bind f).Keeps D Q g := by
  induction p generalizing g with
  | done a => exact hp
  | fail e => exact hp
  | call o k ih => exact ⟨hp.1, fun r g' hpost => ih r (hp.2 r g' hpost)⟩

/-- Sequencing with a named middle condition: what callers of a specified function use. -/
theorem Keeps.seq {R : Except ε α → γ → Prop} {Q : Except ε β → γ → Prop} {p : Prog S ε α}
    {f : α → Prog S ε β} {g : γ} (hp : p.Keeps D R g)
    (hok : ∀ a g', R (.ok a) g' → (f a).Keeps D Q g')
    (herr : ∀ e g', R (.error e) g' → Q (.error e) g') : (p.bind f).Keeps D Q g := by
  refine Keeps.bind (hp.mono fun r g' hr => ?_)
  cases r with
  | ok a => exact hok a g' hr
  | error e => exact herr e g' hr

/-- Going on under a `try`, whichever way the first part ended. -/
theorem Keeps.recover {R : Except ε α → γ → Prop} {Q : Except ε β → γ → Prop} {p : Prog S ε α}
    {f : Except ε α → Prog S ε β} {g : γ} (hp : p.Keeps D R g)
    (h : ∀ r g', R r g' → (f r).Keeps D Q g') : (p.attempt.bind f).Keeps D Q g := by
  induction p generalizing g with
  | done a => exact h _ g hp
  | fail e => exact h _ g hp
  | call o k ih => exact ⟨hp.1, fun r g' hpost => ih r (hp.2 r g' hpost)⟩

theorem Keeps.perform {o : S.Op} {Q : Except ε (S.Reply o) → γ → Prop} {g : γ}
    (hpre : D.pre o g) (h : ∀ r g', D.post o g r g' → Q r g') :
    (Prog.perform o : Prog S ε (S.Reply o)).Keeps D Q g := by
  refine ⟨hpre, fun r g' hpost => ?_⟩
  cases r <;> exact h _ _ hpost

/-- A statement, then the rest: the rule symbolic execution of a handler goes by. -/
theorem Keeps.issue {o : S.Op} {f : S.Reply o → Prog S ε β} {Q : Except ε β → γ → Prop} {g : γ}
    (hpre : D.pre o g) (hok : ∀ v g', D.post o g (.ok v) g' → (f v).Keeps D Q g')
    (herr : ∀ e g', D.post o g (.error e) g' → Q (.error e) g') :
    ((Prog.perform o).bind f).Keeps D Q g := by
  refine ⟨hpre, fun r g' hpost => ?_⟩
  cases r with
  | ok v => exact hok v g' hpost
  | error e => exact herr e g' hpost

/-- **Framing.** If every statement moves the books along a preorder, so does every handler, and
no specification of a handler has to say so. -/
theorem Keeps.frame {Q : Except ε α → γ → Prop} {R : γ → γ → Prop} {p : Prog S ε α} {g : γ}
    (hp : p.Keeps D Q g) (refl : ∀ g, R g g) (trans : ∀ {g g' g''}, R g g' → R g' g'' → R g g'')
    (hpost : ∀ o g r g', D.post o g r g' → R g g') :
    p.Keeps D (fun r g' => Q r g' ∧ R g g') g := by
  induction p generalizing g with
  | done a => exact ⟨hp, refl g⟩
  | fail e => exact ⟨hp, refl g⟩
  | call o k ih =>
    refine ⟨hp.1, fun r g' h => (ih r (hp.2 r g' h)).mono fun r' g'' hq => ?_⟩
    exact ⟨hq.1, trans (hpost o g r g' h) hq.2⟩

/-- A handler that only issues statements the discipline takes no notice of leaves its books
as they were. -/
theorem Keeps.of_uses {allowed : S.Op → Prop} {p : Prog S ε α} {g : γ} (hp : p.Uses allowed)
    (hpre : ∀ o, allowed o → D.pre o g)
    (hpost : ∀ o r g', allowed o → D.post o g r g' → g' = g) :
    p.Keeps D (fun _ g' => g' = g) g := by
  induction p with
  | done a => rfl
  | fail e => rfl
  | call o k ih =>
    refine ⟨hpre o hp.1, fun r g' h => ?_⟩
    obtain rfl := hpost o r g' hp.1 h
    exact ih r (hp.2 r)

/-- **Two disciplines.** If whatever the first lets a handler issue, from books it can have, the second
lets it issue without taking notice, then a handler that keeps the first keeps the second. -/
theorem Keeps.unnoticed {δ : Type} {D' : Discipline S ε δ} {Q : Except ε α → γ → Prop}
    {Q' : Except ε α → δ → Prop} {I : γ → Prop} {p : Prog S ε α} {g : γ} {d : δ}
    (hp : p.Keeps D Q g) (hg : I g) (hpre : ∀ o g, I g → D.pre o g → D'.pre o d)
    (hpost : ∀ o g r d', I g → D.pre o g → D'.post o d r d' → d' = d ∧ ∃ g', I g' ∧ D.post o g r g')
    (hQ : ∀ r, Q' r d) : p.Keeps D' Q' d := by
  induction p generalizing g with
  | done a => exact hQ _
  | fail e => exact hQ _
  | call o k ih =>
    refine ⟨hpre o g hg hp.1, fun r d' h => ?_⟩
    obtain ⟨rfl, g', hg', hmoved⟩ := hpost o g r d' hg hp.1 h
    exact ih r (hp.2 r g' hmoved) hg'

end Prog

end FlashWallet.Lib
