import Mathlib.Data.Nat.Bitwise

/-!
# Bit fields and masks

A mask selects a field of a number, and what is read through a mask is a quotient and a remainder.
-/

namespace Nyx

/-- The field of `width` bits from bit `low` on, where it stands in the number. -/
def field (x low width : ℕ) : ℕ := x / 2 ^ low % 2 ^ width * 2 ^ low

lemma testBit_field (x low width i : ℕ) :
    (field x low width).testBit i = (decide (low ≤ i ∧ i < low + width) && x.testBit i) := by
  rw [field, Nat.testBit_mul_two_pow]
  by_cases hi : low ≤ i
  · have hadd : i - low + low = i := by omega
    have hlt : i - low < width ↔ i < low + width := by omega
    simp [Nat.testBit_mod_two_pow, Nat.testBit_div_two_pow, hi, hadd, hlt]
  · simp [hi]

lemma and_mask (x low width : ℕ) : x &&& (2 ^ width - 1) * 2 ^ low = field x low width := by
  apply Nat.eq_of_testBit_eq
  intro i
  rw [testBit_field, Nat.testBit_and, Nat.testBit_mul_two_pow, Nat.testBit_two_pow_sub_one]
  by_cases hi : low ≤ i
  · have hlt : i - low < width ↔ i < low + width := by omega
    simp [hi, hlt, Bool.and_comm]
  · simp [hi]

lemma field_div (x low width : ℕ) : field x low width / 2 ^ low = x / 2 ^ low % 2 ^ width :=
  Nat.mul_div_cancel _ (Nat.two_pow_pos low)

lemma field_or (x low width : ℕ) {y : ℕ} (hy : y < 2 ^ low) :
    field x low width ||| y = field x low width + y := by
  rw [field, Nat.mul_comm]
  exact (Nat.two_pow_add_eq_or_of_lt hy _).symm

/-- One bit too many of `y` is read: this is harmless if it is clear or the field has it set. -/
lemma field_or_mod_succ_iff (x low width y : ℕ) (hwidth : 0 < width) :
    field x low width ||| y % 2 ^ (low + 1) = field x low width ||| y % 2 ^ low ↔
      (y.testBit low → x.testBit low) := by
  constructor
  · intro h hy
    have hbit := congrArg (fun n => n.testBit low) h
    simpa [Nat.testBit_or, testBit_field, Nat.testBit_mod_two_pow, hy, hwidth] using hbit
  · intro h
    apply Nat.eq_of_testBit_eq
    intro i
    simp only [Nat.testBit_or, testBit_field, Nat.testBit_mod_two_pow]
    by_cases hi : i = low
    · subst hi
      cases hy : y.testBit i with
      | false => simp
      | true => simp [h hy, hwidth]
    · have hlt : i < low + 1 ↔ i < low := by omega
      simp [hlt]

section Words

variable {x a b : UInt64}

lemma or_and_distrib (x a b : UInt64) : (x ||| a) &&& b = (x &&& b) ||| (a &&& b) := by
  rw [← UInt64.toBitVec_inj]
  ext i hi
  simp
  grind

lemma xor_and_distrib (x a b : UInt64) : (x ^^^ a) &&& b = (x &&& b) ^^^ (a &&& b) := by
  rw [← UInt64.toBitVec_inj]
  ext i hi
  simp
  grind

lemma or_and_of_disjoint (h : a &&& b = 0) : (x ||| a) &&& b = x &&& b := by
  rw [or_and_distrib, h, UInt64.or_zero]

lemma xor_and_of_disjoint (h : a &&& b = 0) : (x ^^^ a) &&& b = x &&& b := by
  rw [xor_and_distrib, h, UInt64.xor_zero]

end Words

end Nyx
