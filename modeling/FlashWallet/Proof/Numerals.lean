import FlashWallet.Model.WalletReads
import Mathlib.Tactic.Ring

/-!
# Numerals

What `parseInt` reads in a text: the digits in front, whatever blanks are around them.
-/

set_option autoImplicit false

namespace FlashWallet

open Lib

namespace Auth

/-- What is left of a text behind its blanks is the trimmed text, and blanks. -/
theorem dropWhile_eq_trim (cs : List Char) :
    ∃ blanks, (∀ c ∈ blanks, isTrimmed c = true) ∧ cs.dropWhile isTrimmed = trim cs ++ blanks := by
  refine ⟨((cs.dropWhile isTrimmed).reverse.takeWhile isTrimmed).reverse, fun c hc => ?_, ?_⟩
  · exact List.all_eq_true.mp List.all_takeWhile c (List.mem_reverse.mp hc)
  · rw [trim, ← List.reverse_append, List.takeWhile_append_dropWhile, List.reverse_reverse]

/-- Blanks do not go on with a numeral. -/
theorem takeWhile_isDigit_append (cs : List Char) {blanks : List Char} (hblanks : ∀ c ∈ blanks, isTrimmed c = true) :
    (cs ++ blanks).takeWhile Char.isDigit = cs.takeWhile Char.isDigit := by
  induction cs with
  | nil =>
    cases blanks with
    | nil => rfl
    | cons c cs =>
      refine List.takeWhile_cons_of_neg fun hdigit => ?_
      have hblank := hblanks c List.mem_cons_self
      rw [isTrimmed_of_isDigit hdigit] at hblank
      cases hblank
  | cons c cs ih =>
    rw [List.cons_append, List.takeWhile_cons, List.takeWhile_cons, ih]

theorem parseInt_lt {digits : List Char} (h : ∀ c ∈ digits, c.isDigit = true) :
    parseInt digits < 10 ^ digits.length := by
  suffices hfold : ∀ n, digits.foldl (fun n c => 10 * n + (c.toNat - '0'.toNat)) n < (n + 1) * 10 ^ digits.length by
    simpa [parseInt] using hfold 0
  induction digits with
  | nil => simp
  | cons c cs ih =>
    intro n
    have hc : c.toNat - '0'.toNat < 10 := by
      have hdigit := h c List.mem_cons_self
      simp only [Char.isDigit, Bool.and_eq_true, decide_eq_true_eq, ge_iff_le] at hdigit
      have hle : c.toNat ≤ 57 := hdigit.2
      have hzero : '0'.toNat = 48 := rfl
      omega
    calc (c :: cs).foldl (fun n c => 10 * n + (c.toNat - '0'.toNat)) n
        < (10 * n + (c.toNat - '0'.toNat) + 1) * 10 ^ cs.length := ih (fun c hc => h c (List.mem_cons_of_mem _ hc)) _
      _ ≤ (10 * n + 10) * 10 ^ cs.length := Nat.mul_le_mul_right _ (by omega)
      _ = (n + 1) * 10 ^ (c :: cs).length := by rw [List.length_cons, pow_succ]; ring

end Auth

namespace Read

/-- What `parseInt` makes of a text without blanks in front, and without a sign. -/
def leadingDigits (cs : List Char) : Number :=
  if cs.takeWhile Char.isDigit = [] then .nan else .int (Auth.parseInt (cs.takeWhile Char.isDigit))

theorem parseInt_of_plus {text : String} {cs : List Char} (h : Auth.trim text.toList = '+' :: cs) :
    parseInt text = leadingDigits cs := by
  obtain ⟨blanks, hblanks, hrest⟩ := Auth.dropWhile_eq_trim text.toList
  have htake := Auth.takeWhile_isDigit_append cs hblanks
  unfold parseInt leadingDigits
  rw [hrest, h]
  simp only [List.cons_append, htake, one_mul]

theorem parseInt_of_unsigned {text : String} {c : Char} {cs : List Char} (h : Auth.trim text.toList = c :: cs)
    (hminus : c ≠ '-') (hplus : c ≠ '+') : parseInt text = leadingDigits (c :: cs) := by
  obtain ⟨blanks, hblanks, hrest⟩ := Auth.dropWhile_eq_trim text.toList
  have htake := Auth.takeWhile_isDigit_append (c :: cs) hblanks
  unfold parseInt leadingDigits
  rw [hrest, h]
  split
  · rename_i heq
    exact absurd (List.cons.inj heq).1 hminus
  · rename_i heq
    exact absurd (List.cons.inj heq).1 hplus
  · simp only [htake, one_mul]

end Read

end FlashWallet
