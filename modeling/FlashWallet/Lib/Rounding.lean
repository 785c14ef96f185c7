import Mathlib.Algebra.Order.Floor.Ring
import Mathlib.Algebra.Order.Floor.Semifield
import Mathlib.Data.Int.Log
import Mathlib.Tactic.Linarith
import Mathlib.Tactic.Positivity
import Mathlib.Tactic.Ring

/-!
# Rounding to floats

A format of floats is a number of binary digits, a least exponent and a bound. `nearest` takes a number to the
nearest multiple of its unit in the last place, the even one of two that are equally near; `round` overflows where
that is beyond the bound. Rounding keeps the order (`nearest_mono`), keeps powers of two and small integers, and
takes two numbers that far enough apart to different floats (`nearest_lt_nearest`). An integer and the same integer
with a fraction round alike exactly where they are on the same side of the middle between two floats
(`nearest_natCast_add`).
-/

set_option autoImplicit false

namespace FlashWallet.Lib

variable {K : Type} [Field K] [LinearOrder K] [FloorRing K] {x y : K}

/-! ## Integers -/

/-- Nearer to the integer below than to the one above, or half-way between and the one below is even. -/
def IsLower (x : K) : Prop := Int.fract x < 1 / 2 ∨ Int.fract x = 1 / 2 ∧ Even ⌊x⌋

instance (x : K) : Decidable (IsLower x) := inferInstanceAs (Decidable (_ ∨ _))

/-- The nearest integer, the even one of two that are equally near. -/
def roundEven (x : K) : ℤ := if IsLower x then ⌊x⌋ else ⌊x⌋ + 1

/-- Between the same two integers, and on the same side of the middle between them. -/
def SameSide (x y : K) : Prop := ⌊x⌋ = ⌊y⌋ ∧ (IsLower x ↔ IsLower y)

instance (x y : K) : Decidable (SameSide x y) := inferInstanceAs (Decidable (_ ∧ _))

theorem floor_le_roundEven (x : K) : ⌊x⌋ ≤ roundEven x := by
  unfold roundEven
  split <;> omega

theorem roundEven_le_floor (x : K) : roundEven x ≤ ⌊x⌋ + 1 := by
  unfold roundEven
  split <;> omega

theorem roundEven_eq_iff_of_floor (hfloor : ⌊x⌋ = ⌊y⌋) : roundEven x = roundEven y ↔ (IsLower x ↔ IsLower y) := by
  unfold roundEven
  by_cases hx : IsLower x <;> by_cases hy : IsLower y <;> simp [hx, hy, hfloor]

variable [IsStrictOrderedRing K]

theorem isLower_of_fract_eq_zero (h : Int.fract x = 0) : IsLower x :=
  Or.inl (by rw [h]; norm_num)

@[simp] theorem roundEven_intCast (n : ℤ) : roundEven (n : K) = n := by
  rw [roundEven, if_pos (isLower_of_fract_eq_zero (Int.fract_intCast n)), Int.floor_intCast]

theorem fract_le_fract (hxy : x ≤ y) (hfloor : ⌊x⌋ = ⌊y⌋) : Int.fract x ≤ Int.fract y := by
  rw [Int.fract, Int.fract, hfloor]
  linarith

theorem IsLower.of_le (h : IsLower y) (hxy : x ≤ y) (hfloor : ⌊x⌋ = ⌊y⌋) : IsLower x := by
  have hfract := fract_le_fract hxy hfloor
  rcases h with h | ⟨h, heven⟩
  · exact Or.inl (hfract.trans_lt h)
  · rcases (hfract.trans_eq h).lt_or_eq with hlt | heq
    · exact Or.inl hlt
    · exact Or.inr ⟨heq, hfloor ▸ heven⟩

theorem roundEven_mono (hxy : x ≤ y) : roundEven x ≤ roundEven y := by
  rcases (Int.floor_le_floor hxy).lt_or_eq with hlt | heq
  · -- the integers around them do not overlap
    calc roundEven x ≤ ⌊x⌋ + 1 := roundEven_le_floor x
      _ ≤ ⌊y⌋ := hlt
      _ ≤ roundEven y := floor_le_roundEven y
  · by_cases hlower : IsLower y
    · rw [roundEven, roundEven, if_pos hlower, if_pos (hlower.of_le hxy heq), heq]
    · calc roundEven x ≤ ⌊x⌋ + 1 := roundEven_le_floor x
        _ = roundEven y := by rw [roundEven, if_neg hlower, heq]

/-- Two numbers round alike exactly on the same side, if the lower one is an integer or they share their floor. -/
theorem roundEven_eq_iff (hxy : x ≤ y) (h : Int.fract x = 0 ∨ ⌊x⌋ = ⌊y⌋) :
    roundEven x = roundEven y ↔ SameSide x y := by
  by_cases hfloor : ⌊x⌋ = ⌊y⌋
  · rw [roundEven_eq_iff_of_floor hfloor, SameSide, and_iff_right hfloor]
  · refine iff_of_false (fun heq => ?_) fun hside => hfloor hside.1
    have hx : roundEven x = ⌊x⌋ := if_pos (isLower_of_fract_eq_zero (h.resolve_right hfloor))
    have hlt : ⌊x⌋ < ⌊y⌋ := lt_of_le_of_ne (Int.floor_le_floor hxy) hfloor
    have hy := floor_le_roundEven y
    omega

/-! ## Floats -/

structure FloatFormat where
  /-- Binary digits behind the leading one. -/
  places : ℕ
  /-- The exponent of the least positive float. -/
  least : ℤ
  /-- All floats are below two to this power. -/
  bound : ℤ
deriving DecidableEq, Repr

/-- Double precision. -/
def binary64 : FloatFormat := ⟨52, -1074, 1024⟩

namespace FloatFormat

variable (F : FloatFormat)

/-- The exponent of the last digit of `x`. -/
def exponent (x : K) : ℤ := max (Int.log 2 |x| - F.places) F.least

/-- The unit in the last place. -/
def ulp (x : K) : K := 2 ^ F.exponent x

/-- The nearest float, the even one of two that are equally near, if there were no bound. -/
def nearest (x : K) : K := roundEven (x / F.ulp x) * F.ulp x

/-- The nearest float, if it is within the bound. -/
def round (x : K) : Option K := if |F.nearest x| < 2 ^ F.bound then some (F.nearest x) else none

/-- On the same side of the middle between two floats. -/
def SameSide (x y : K) : Prop := Lib.SameSide (x / F.ulp x) (y / F.ulp x)

instance (x y : K) : Decidable (F.SameSide x y) := inferInstanceAs (Decidable (Lib.SameSide _ _))

variable {F}

theorem ulp_pos (x : K) : 0 < F.ulp x := zpow_pos two_pos _

theorem exponent_mono (hx : 0 < x) (hxy : x ≤ y) : F.exponent x ≤ F.exponent y := by
  unfold exponent
  rw [abs_of_pos hx, abs_of_pos (hx.trans_le hxy)]
  exact max_le_max_right _ (sub_le_sub_right (Int.log_mono_right hx hxy) _)

theorem lt_zpow_exponent (hx : 0 < x) : x < 2 ^ (F.exponent x + F.places + 1) := by
  have hlog : Int.log 2 x + 1 ≤ F.exponent x + F.places + 1 := by
    have hmax := le_max_left (Int.log 2 |x| - F.places) F.least
    rw [abs_of_pos hx] at hmax
    unfold exponent
    rw [abs_of_pos hx]
    omega
  calc x < (2 : K) ^ (Int.log 2 x + 1) := by exact_mod_cast Int.lt_zpow_succ_log_self one_lt_two x
    _ ≤ 2 ^ (F.exponent x + F.places + 1) := zpow_le_zpow_right₀ one_le_two hlog

/-- Above the least exponent the leading digit is not zero. -/
theorem zpow_exponent_le (hx : 0 < x) (h : F.least < F.exponent x) : 2 ^ (F.exponent x + F.places) ≤ x := by
  have hlog : F.exponent x + F.places = Int.log 2 x := by
    unfold exponent at h ⊢
    rw [abs_of_pos hx] at h ⊢
    omega
  rw [hlog]
  exact_mod_cast Int.zpow_log_le_self one_lt_two hx

/-- What is on the grid stays. -/
theorem nearest_of_mul {m j : ℤ} (hx : x = m * 2 ^ j) (hj : F.exponent x ≤ j) : F.nearest x = x := by
  have hdiv : x / F.ulp x = ((m * 2 ^ (j - F.exponent x).toNat : ℤ) : K) := by
    rw [div_eq_iff (ulp_pos x).ne']
    push_cast
    rw [← zpow_natCast, Int.toNat_of_nonneg (by omega), mul_assoc, ulp, ← zpow_add₀ two_ne_zero, sub_add_cancel]
    exact hx
  rw [nearest, hdiv, roundEven_intCast, ← hdiv, div_mul_cancel₀ _ (ulp_pos x).ne']

theorem nearest_zpow {k : ℤ} (hk : F.least ≤ k) : F.nearest (2 ^ k : K) = 2 ^ k := by
  refine nearest_of_mul (m := 1) (j := k) (by simp) ?_
  have hlog : Int.log 2 (2 ^ k : K) = k := by exact_mod_cast Int.log_zpow (R := K) one_lt_two k
  rw [exponent, abs_of_pos (zpow_pos two_pos k), hlog]
  omega

theorem nearest_natCast {n : ℕ} (hn : n < 2 ^ (F.places + 1)) (hleast : F.least ≤ 0) : F.nearest (n : K) = n := by
  refine nearest_of_mul (m := n) (j := 0) (by simp) ?_
  have hlog : Nat.log 2 n < F.places + 1 := Nat.log_lt_of_lt_pow' (by omega) hn
  rw [exponent, abs_of_nonneg (Nat.cast_nonneg n), Int.log_natCast]
  omega

theorem nearest_nonneg (hx : 0 ≤ x) : 0 ≤ F.nearest x := by
  have hround : 0 ≤ roundEven (x / F.ulp x) :=
    (Int.floor_nonneg.mpr (div_nonneg hx (ulp_pos x).le)).trans (floor_le_roundEven _)
  exact mul_nonneg (by exact_mod_cast hround) (ulp_pos x).le

theorem nearest_le_zpow (hx : 0 < x) : F.nearest x ≤ 2 ^ (F.exponent x + F.places + 1) := by
  have hdiv : x / F.ulp x ≤ ((2 ^ (F.places + 1) : ℤ) : K) := by
    rw [div_le_iff₀ (ulp_pos x)]
    push_cast
    rw [← zpow_natCast, ulp, ← zpow_add₀ two_ne_zero]
    refine (lt_zpow_exponent (F := F) hx).le.trans (zpow_le_zpow_right₀ one_le_two ?_)
    push_cast
    omega
  have hround : (roundEven (x / F.ulp x) : K) ≤ 2 ^ (F.places + 1) := by
    have h := roundEven_mono hdiv
    rw [roundEven_intCast] at h
    exact_mod_cast h
  calc F.nearest x ≤ 2 ^ (F.places + 1) * F.ulp x := mul_le_mul_of_nonneg_right hround (ulp_pos x).le
    _ = 2 ^ (F.exponent x + F.places + 1) := by
      rw [← zpow_natCast, ulp, ← zpow_add₀ two_ne_zero]
      congr 1
      push_cast
      ring

theorem zpow_le_nearest (hx : 0 < x) (h : F.least < F.exponent x) : 2 ^ (F.exponent x + F.places) ≤ F.nearest x := by
  have hdiv : ((2 ^ F.places : ℤ) : K) ≤ x / F.ulp x := by
    rw [le_div_iff₀ (ulp_pos x)]
    push_cast
    rw [← zpow_natCast, ulp, ← zpow_add₀ two_ne_zero, add_comm]
    exact zpow_exponent_le hx h
  have hround : (2 ^ F.places : K) ≤ roundEven (x / F.ulp x) := by
    have h := roundEven_mono hdiv
    rw [roundEven_intCast] at h
    exact_mod_cast h
  calc (2 ^ (F.exponent x + F.places) : K) = 2 ^ F.places * F.ulp x := by
        rw [← zpow_natCast, ulp, ← zpow_add₀ two_ne_zero, add_comm]
    _ ≤ F.nearest x := mul_le_mul_of_nonneg_right hround (ulp_pos x).le

/-- **Rounding keeps the order.** -/
theorem nearest_mono (hx : 0 < x) (hxy : x ≤ y) : F.nearest x ≤ F.nearest y := by
  have hy := hx.trans_le hxy
  rcases (exponent_mono (F := F) hx hxy).lt_or_eq with hlt | heq
  · -- a power of two is between them
    have hleast : F.least < F.exponent y := (le_max_right _ _).trans_lt hlt
    calc F.nearest x ≤ 2 ^ (F.exponent x + F.places + 1) := nearest_le_zpow hx
      _ ≤ 2 ^ (F.exponent y + F.places) := zpow_le_zpow_right₀ one_le_two (by omega)
      _ ≤ F.nearest y := zpow_le_nearest hy hleast
  · have hulp : F.ulp x = F.ulp y := by rw [ulp, ulp, heq]
    rw [nearest, nearest, hulp]
    refine mul_le_mul_of_nonneg_right ?_ (ulp_pos y).le
    exact_mod_cast roundEven_mono (div_le_div_of_nonneg_right hxy (ulp_pos y).le)

/-- What is four times as large has another nearest float, the very least numbers apart. -/
theorem nearest_lt_nearest (hx : 0 < x) (hxy : 4 * x ≤ y) (hy : 2 ^ (F.least + 1) ≤ y) :
    F.nearest x < F.nearest y := by
  have hpos : 0 < y := (zpow_pos two_pos _).trans_le hy
  have hbelow : (2 : K) ^ Int.log 2 y ≤ y := by exact_mod_cast Int.zpow_log_le_self one_lt_two hpos
  have habove : y < (2 : K) ^ (Int.log 2 y + 1) := by exact_mod_cast Int.lt_zpow_succ_log_self one_lt_two y
  have hleast : F.least + 1 ≤ Int.log 2 y := by
    refine (Int.zpow_le_iff_le_log one_lt_two hpos).mp ?_
    exact_mod_cast hy
  have hsplit : (2 : K) ^ (Int.log 2 y + 1) = 4 * 2 ^ (Int.log 2 y - 1) := by
    rw [show Int.log 2 y + 1 = 2 + (Int.log 2 y - 1) by ring, zpow_add₀ two_ne_zero]
    norm_num
  have hmiddle : x ≤ 2 ^ (Int.log 2 y - 1) := by linarith
  calc F.nearest x ≤ F.nearest (2 ^ (Int.log 2 y - 1)) := nearest_mono hx hmiddle
    _ = 2 ^ (Int.log 2 y - 1) := nearest_zpow (by omega)
    _ < 2 ^ Int.log 2 y := zpow_lt_zpow_right₀ one_lt_two (by omega)
    _ = F.nearest (2 ^ Int.log 2 y) := (nearest_zpow (by omega)).symm
    _ ≤ F.nearest y := nearest_mono (zpow_pos two_pos _) hbelow

theorem exponent_natCast_add {n : ℕ} (hn : 1 ≤ n) (hx : 0 ≤ x) (hx' : x < 1) :
    F.exponent (n + x) = F.exponent (n : K) := by
  have hone : (1 : K) ≤ n := by exact_mod_cast hn
  have hfloor : ⌊(n : K) + x⌋₊ = n := by
    rw [add_comm, Nat.floor_add_natCast hx, Nat.floor_eq_zero.mpr hx', zero_add]
  have hlog : Int.log 2 ((n : K) + x) = Nat.log 2 n := by
    rw [Int.log_of_one_le_right 2 (hone.trans (le_add_of_nonneg_right hx)), hfloor]
  rw [exponent, exponent, abs_of_nonneg (add_nonneg (Nat.cast_nonneg n) hx), hlog, abs_of_nonneg (Nat.cast_nonneg n),
    Int.log_natCast]

/-- **A fraction is lost in rounding** exactly where it leaves an integer on its side of the middle between two
floats. -/
theorem nearest_natCast_add {n : ℕ} (hn : 1 ≤ n) (hx : 0 ≤ x) (hx' : x < 1) :
    F.nearest (n : K) = F.nearest (n + x) ↔ F.SameSide (n : K) (n + x) := by
  have hulp : F.ulp ((n : K) + x) = F.ulp (n : K) := by rw [ulp, ulp, exponent_natCast_add hn hx hx']
  have hgrid : Int.fract ((n : K) / F.ulp (n : K)) = 0 ∨ ⌊(n : K) / F.ulp (n : K)⌋ = ⌊(n + x) / F.ulp (n : K)⌋ := by
    rcases le_or_gt (F.exponent (n : K)) 0 with he | he
    · -- the unit is a fraction of one: the integer is on the grid
      have hint : (n : K) / F.ulp (n : K) = ((n * 2 ^ (-F.exponent (n : K)).toNat : ℤ) : K) := by
        push_cast
        rw [← zpow_natCast, Int.toNat_of_nonneg (by omega), ulp, zpow_neg, div_eq_mul_inv]
      exact Or.inl (by rw [hint, Int.fract_intCast])
    · -- the unit is an integer: the floor does not see the fraction
      have hnat : F.ulp (n : K) = ((2 ^ (F.exponent (n : K)).toNat : ℕ) : K) := by
        push_cast
        rw [← zpow_natCast, Int.toNat_of_nonneg he.le, ulp]
      have hfloor : ⌊(n : K) + x⌋ = n := by
        rw [Int.floor_natCast_add, Int.floor_eq_zero_iff.mpr ⟨hx, hx'⟩, add_zero]
      exact Or.inr (by rw [hnat, Int.floor_div_natCast, Int.floor_div_natCast, hfloor, Int.floor_natCast])
  have hle : (n : K) / F.ulp (n : K) ≤ (n + x) / F.ulp (n : K) :=
    div_le_div_of_nonneg_right (le_add_of_nonneg_right hx) (ulp_pos _).le
  rw [nearest, nearest, hulp, mul_left_inj' (ulp_pos _).ne', Int.cast_inj, roundEven_eq_iff hle hgrid, SameSide]

end FloatFormat

end FlashWallet.Lib
