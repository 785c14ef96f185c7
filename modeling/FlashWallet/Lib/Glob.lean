import Mathlib.Data.List.Infix

/-!
# Glob patterns

The patterns of a key-value store: `*` for any text, `?` for any character, `[a-z]` and `[^a-z]` for
the characters of a class, `\` in front of a character that stands for itself. A pattern is parsed once
(`parse`) and then matched item by item (`accepts`).
-/

set_option autoImplicit false

namespace FlashWallet.Lib.Glob

inductive Item where
  | many
  | one
  | exactly (c : Char)
  | oneOf (negated : Bool) (ranges : List (Char × Char))
deriving DecidableEq, Repr

/-- The items of a pattern. The first argument is the class under way, if the pattern has opened one:
whether it is negated, and its ranges so far. -/
def parse : Option (Bool × List (Char × Char)) → List Char → List Item
  | none, [] => []
  | none, '*' :: p => .many :: parse none p
  | none, '?' :: p => .one :: parse none p
  | none, '[' :: '^' :: p => parse (some (true, [])) p
  | none, '[' :: p => parse (some (false, [])) p
  | none, '\\' :: c :: p => .exactly c :: parse none p
  | none, c :: p => .exactly c :: parse none p
  | some (negated, ranges), [] => [.oneOf negated ranges]
  | some (negated, ranges), ']' :: p => .oneOf negated ranges :: parse none p
  | some (negated, ranges), '\\' :: c :: p => parse (some (negated, (c, c) :: ranges)) p
  | some (negated, ranges), c :: '-' :: d :: p =>
    parse (some (negated, (if d < c then (d, c) else (c, d)) :: ranges)) p
  | some (negated, ranges), c :: p => parse (some (negated, (c, c) :: ranges)) p

def accepts : List Item → List Char → Bool
  | [], s => s.isEmpty
  | .many :: p, s => s.tails.any fun t => accepts p t
  | .one :: p, _ :: s => accepts p s
  | .exactly c :: p, d :: s => c == d && accepts p s
  | .oneOf negated ranges :: p, d :: s =>
    (ranges.any (fun r => r.1 ≤ d && d ≤ r.2) != negated) && accepts p s
  | _ :: _, [] => false

/-- The pattern matches the text. -/
def isMatch (pattern text : String) : Bool := accepts (parse none pattern.toList) text.toList

/-- The character stands for itself in a pattern. -/
def Literal (c : Char) : Prop := c ≠ '*' ∧ c ≠ '?' ∧ c ≠ '[' ∧ c ≠ '\\'

instance (c : Char) : Decidable (Literal c) := inferInstanceAs (Decidable (_ ∧ _ ∧ _ ∧ _))

theorem parse_literal {c : Char} (h : Literal c) (p : List Char) :
    parse none (c :: p) = .exactly c :: parse none p := by
  obtain ⟨hmany, hone, hclass, hescape⟩ := h
  rw [parse]
  · exact hmany
  · exact hone
  · exact fun _ heq _ => hclass heq
  · exact hclass
  · exact fun _ _ heq _ => hescape heq

theorem parse_literals {cs : List Char} (h : ∀ c ∈ cs, Literal c) (p : List Char) :
    parse none (cs ++ p) = cs.map .exactly ++ parse none p := by
  induction cs with
  | nil => rfl
  | cons c cs ih =>
    rw [List.cons_append, parse_literal (h c List.mem_cons_self),
      ih fun c' hc' => h c' (List.mem_cons_of_mem _ hc')]
    rfl

theorem accepts_literals (cs : List Char) (p : List Item) (s : List Char) :
    accepts (cs.map .exactly ++ p) s = true ↔ ∃ t, s = cs ++ t ∧ accepts p t = true := by
  induction cs generalizing s with
  | nil => exact ⟨fun h => ⟨s, rfl, h⟩, fun ⟨t, ht, h⟩ => ht ▸ h⟩
  | cons c cs ih =>
    cases s with
    | nil => exact ⟨nofun, nofun⟩
    | cons d s =>
      show (c == d && accepts (cs.map .exactly ++ p) s) = true ↔ _
      rw [Bool.and_eq_true, ih, beq_iff_eq]
      constructor
      · rintro ⟨rfl, t, rfl, h⟩
        exact ⟨t, rfl, h⟩
      · rintro ⟨t, ht, h⟩
        obtain ⟨rfl, rfl⟩ := List.cons.inj ht
        exact ⟨rfl, t, rfl, h⟩

theorem accepts_many (s : List Char) : accepts [.many] s = true :=
  List.any_eq_true.mpr ⟨[], (List.mem_tails _ _).mpr s.nil_suffix, rfl⟩

/-- **Everything with a given beginning.** -/
theorem isMatch_star {beginning text : String} (h : ∀ c ∈ beginning.toList, Literal c) :
    isMatch (beginning ++ "*") text = true ↔ beginning.toList <+: text.toList := by
  unfold isMatch
  rw [String.toList_append, parse_literals h, accepts_literals]
  constructor
  · rintro ⟨t, ht, -⟩
    exact ⟨t, ht.symm⟩
  · rintro ⟨t, ht⟩
    exact ⟨t, ht.symm, accepts_many t⟩

end FlashWallet.Lib.Glob
