import Mathlib.Data.Nat.Log
import Mathlib.Tactic.Ring
import Mathlib.Tactic.Positivity

/-!
# Amounts of money

Two kinds, as in the service. A `Prisma.Decimal` is what the code computes with: of any size,
rounded by `plus` and `minus` to 20 significant digits; here it is an `Int`, with the
operations in the namespace `Decimal`. A `Money` is a `DECIMAL(18,2)` column: what a committed
row can hold. It carries its bound as a field, so a row outside the column's range cannot be
built; writing a decimal to a column is the one place it can fail.

Both count **cents**. An amount the service accepts has at most two decimals, and neither
addition nor rounding to significant digits ever produces a fraction of a cent.
-/

set_option autoImplicit false

namespace FlashWallet

/-- The cents at and beyond which `DECIMAL(18,2)` rejects a value (10^16 units). -/
def columnBound : Nat := 10 ^ 18

/-- A value of a `DECIMAL(18,2)` column. -/
structure Money where
  cents : Int
  inColumn : cents.natAbs < columnBound
deriving DecidableEq, Repr

namespace Money

/-- Writing a decimal to the column: PostgreSQL refuses what does not fit. -/
def ofDecimal? (d : Int) : Option Money :=
  if h : d.natAbs < columnBound then some ⟨d, h⟩ else none

/-- `new Prisma.Decimal(row.balance)`: reading the column back loses nothing. -/
def toDecimal (m : Money) : Int := m.cents

def zero : Money := ⟨0, by decide⟩

@[simp] theorem zero_cents : zero.cents = 0 := rfl

@[ext] theorem ext {a b : Money} (h : a.cents = b.cents) : a = b := by
  cases a; cases b; simp_all

theorem ofDecimal?_eq_some {d : Int} {m : Money} : ofDecimal? d = some m ↔ m.cents = d := by
  unfold ofDecimal?
  constructor
  · intro h
    split at h
    · exact (Option.some.inj h) ▸ rfl
    · simp at h
  · rintro rfl
    rw [dif_pos m.inColumn]

theorem ofDecimal?_eq_none {d : Int} : ofDecimal? d = none ↔ columnBound ≤ d.natAbs := by
  unfold ofDecimal?
  split <;> simp <;> omega

theorem exists_ofDecimal? {d : Int} (h : d.natAbs < columnBound) :
    ∃ m, ofDecimal? d = some m ∧ m.cents = d :=
  ⟨⟨d, h⟩, by simp [ofDecimal?, h], rfl⟩

end Money

namespace Decimal

/-- `Decimal.precision`, the default of decimal.js. -/
def precision : Nat := 20

/-- Round a magnitude half up to `precision` significant digits. -/
def roundNat (n : Nat) : Nat :=
  if n < 10 ^ precision then n
  else
    let unit := 10 ^ (Nat.log 10 n + 1 - precision)
    (n + unit / 2) / unit * unit

/-- decimal.js rounds half away from zero (`ROUND_HALF_UP`). -/
def round (d : Int) : Int :=
  if d < 0 then -(roundNat d.natAbs : Int) else roundNat d.natAbs

def plus (a b : Int) : Int := round (a + b)

def minus (a b : Int) : Int := round (a - b)

/-- `a.lt(b)`: comparison is exact. -/
def lt (a b : Int) : Bool := decide (a < b)

/-- `a.negated()`: exact. -/
def negated (a : Int) : Int := -a

theorem roundNat_of_lt {n : Nat} (h : n < 10 ^ precision) : roundNat n = n := if_pos h

/-- **Where rounding bites, the column rejects.** A magnitude beyond 20 digits stays beyond the
column's bound when rounded. -/
theorem columnBound_le_roundNat {n : Nat} (h : columnBound ≤ n) : columnBound ≤ roundNat n := by
  by_cases hn : n < 10 ^ precision
  · rwa [roundNat_of_lt hn]
  · have hlog : precision ≤ Nat.log 10 n :=
      Nat.le_log_of_pow_le (by decide) (Nat.not_lt.mp hn)
    have hunit : 0 < 10 ^ (Nat.log 10 n + 1 - precision) := by positivity
    have hle : 10 ^ 19 * 10 ^ (Nat.log 10 n + 1 - precision) ≤ n := by
      rw [← pow_add]
      have hexp : 19 + (Nat.log 10 n + 1 - precision) = Nat.log 10 n := by
        unfold precision at *; omega
      rw [hexp]
      exact Nat.pow_log_le_self 10 (by rintro rfl; simp at hn)
    have hquot : 10 ^ 19 ≤ (n + 10 ^ (Nat.log 10 n + 1 - precision) / 2) /
        10 ^ (Nat.log 10 n + 1 - precision) :=
      (Nat.le_div_iff_mul_le hunit).mpr (Nat.le_trans hle (Nat.le_add_right _ _))
    rw [roundNat, if_neg hn]
    calc columnBound ≤ 10 ^ 19 * 1 := by decide
      _ ≤ _ := Nat.mul_le_mul hquot hunit

theorem natAbs_round (d : Int) : (round d).natAbs = roundNat d.natAbs := by
  unfold round; split <;> simp

theorem round_of_natAbs_lt {d : Int} (h : d.natAbs < 10 ^ precision) : round d = d := by
  unfold round
  rw [roundNat_of_lt h]
  split <;> omega

/-- **Storing a rounded result is storing the exact one, or failing.** This is the only fact
about rounding the wallet needs. -/
theorem ofDecimal?_round (d : Int) : Money.ofDecimal? (round d) = Money.ofDecimal? d := by
  by_cases h : d.natAbs < columnBound
  · rw [round_of_natAbs_lt (Nat.lt_trans h (by decide))]
  · rw [Money.ofDecimal?_eq_none.mpr (Nat.not_lt.mp h), Money.ofDecimal?_eq_none, natAbs_round]
    exact columnBound_le_roundNat (Nat.not_lt.mp h)

theorem lt_iff {a b : Int} : lt a b = true ↔ a < b := decide_eq_true_iff

theorem ofDecimal?_plus {a b : Int} {m : Money} :
    Money.ofDecimal? (plus a b) = some m ↔ m.cents = a + b := by
  rw [plus, ofDecimal?_round, Money.ofDecimal?_eq_some]

theorem ofDecimal?_minus {a b : Int} {m : Money} :
    Money.ofDecimal? (minus a b) = some m ↔ m.cents = a - b := by
  rw [minus, ofDecimal?_round, Money.ofDecimal?_eq_some]

/-- What a balance covers can be taken out of it. -/
theorem minus_inColumn {a : Money} {d : Int} (hd : 0 ≤ d) (hda : d ≤ a.cents) :
    (minus a.toDecimal d).natAbs < columnBound := by
  have ha := a.inColumn
  obtain ⟨m, -, hm⟩ := Money.exists_ofDecimal? (d := a.cents - d) (by omega)
  have hminus : m.cents = minus a.toDecimal d :=
    Money.ofDecimal?_eq_some.mp (ofDecimal?_minus.mpr hm)
  exact hminus ▸ m.inColumn

end Decimal

end FlashWallet
