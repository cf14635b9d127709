import Mathlib.Data.Nat.Digits.Defs
import Nyx.Lib.Iterate

/-!
# Decimal numbers in HyperTrash OS

`print_dec` stores the digits of a number behind the text so far. It counts them with a threshold of
32 bits, which wraps after 999999999.
-/

namespace Nyx.Libk

def widthRound (value : UInt32) (s : ℕ × UInt32) : (ℕ × UInt32) ⊕ ℕ :=
  if value > s.2 ∧ s.2 < 0xFFFFFFFF then .inl (s.1 + 1, s.2 * 10 + 9) else .inr s.1

def nWidth (value : UInt32) : Option ℕ := iterate (widthRound value) 32 (1, 9)

def digits : ℕ → UInt32 → List UInt8
  | 0, _ => []
  -- the last digit is stored first
  | i + 1, value => digits i (value / 10) ++ [(value % 10).toUInt8 + 0x30]

/-- The characters that `print_dec` appends. -/
def printDec (value width : UInt32) : Option (List UInt8) :=
  (nWidth value).map fun n => List.replicate (width.toNat - n) 0x30 ++ digits n value

def decimal (v : ℕ) : List UInt8 := (Nat.toDigits 10 v).map fun c => UInt8.ofNat c.toNat

lemma digitChar_eq : ∀ d < 10, UInt8.ofNat d.digitChar.toNat = UInt8.ofNat d + 0x30 := by
  decide

lemma digits_zero (n : ℕ) : digits n 0 = List.replicate n 0x30 := by
  induction n with
  | zero => rfl
  | succ n ih =>
    rw [digits, List.replicate_succ']
    exact congrArg (· ++ [0x30]) ih

lemma digits_eq {n : ℕ} (hn : 0 < n) (value : UInt32) (h : value.toNat < 10 ^ n) :
    digits n value = (decimal value.toNat).leftpad n 0x30 := by
  induction n generalizing value with
  | zero => cases hn
  | succ n ih =>
    have hlast : (value % 10).toUInt8 + 0x30 =
        UInt8.ofNat (value.toNat % 10).digitChar.toNat := by
      rw [digitChar_eq _ (Nat.mod_lt _ (by decide))]
      exact congrArg (UInt8.ofNat · + 0x30) (UInt32.toNat_mod value 10)
    have hdiv : (value / 10).toNat = value.toNat / 10 := by simp
    by_cases hsmall : value.toNat < 10
    · have hzero : value / 10 = 0 := by
        rw [← UInt32.toNat_inj, hdiv]
        exact Nat.div_eq_of_lt hsmall
      rw [digits, hzero, digits_zero, hlast, decimal, Nat.toDigits_of_lt_base hsmall,
        Nat.mod_eq_of_lt hsmall]
      rfl
    · have hpos : 0 < n := by
        rcases n with _ | n
        · exact absurd h hsmall
        · exact n.succ_pos
      have hless : (value / 10).toNat < 10 ^ n := by
        rw [hdiv, Nat.div_lt_iff_lt_mul (by decide)]
        exact h
      rw [digits, ih hpos _ hless, hlast, hdiv, decimal, decimal,
        Nat.toDigits_of_base_le (by decide) (Nat.le_of_not_lt hsmall)]
      simp [List.leftpad]

lemma length_decimal_le_iff {n : ℕ} (hn : 0 < n) (v : ℕ) : (decimal v).length ≤ n ↔ v < 10 ^ n := by
  rw [decimal, List.length_map]
  exact Nat.length_toDigits_le_iff (by decide) hn

/-- Up to the first threshold that wraps, the loop counts the digits. -/
lemma nWidth_eq {value : UInt32} (h : value ≤ 1410065407) :
    ∃ n, nWidth value = some n ∧ n = (decimal value.toNat).length := by
  refine iterate_total (P := fun s : ℕ × UInt32 => 0 < s.1 ∧ s.1 ≤ 10 ∧
    s.2.toNat = (10 ^ s.1 - 1) % 2 ^ 32 ∧ s.1 ≤ (decimal value.toNat).length)
      (fun s => 10 - s.1) ?_ ?_ (show 10 - 1 ≤ 31 by decide)
  · rintro ⟨n, i⟩ ⟨hpos, hle, hi, hleast⟩
    dsimp only at hpos hle hi hleast
    have hfits := length_decimal_le_iff hpos value.toNat
    have hone : 1 ≤ 10 ^ n := Nat.one_le_pow n 10 (by decide)
    have hsmall : n ≤ 9 → 10 ^ n ≤ 10 ^ 9 := Nat.pow_le_pow_right (by decide)
    have hlarge : 10 ≤ n → 10 ^ 10 ≤ 10 ^ n := Nat.pow_le_pow_right (by decide)
    have hten : n = 10 → i.toNat = 1410065407 := by
      rintro rfl
      exact hi
    by_cases hgo : value > i ∧ i < 0xFFFFFFFF
    · refine .inr ⟨_, if_pos hgo, ?_⟩
      simp only [GT.gt, UInt32.lt_iff_toNat_lt, UInt32.le_iff_toNat_le, UInt32.reduceToNat] at hgo h
      have hnext : (i * 10 + 9).toNat = (10 ^ (n + 1) - 1) % 2 ^ 32 := by
        rw [UInt32.toNat_add, UInt32.toNat_mul, Nat.pow_succ]
        simp only [UInt32.reduceToNat]
        omega
      exact ⟨⟨by omega, by omega, hnext, by omega⟩, by omega⟩
    · refine .inl ⟨n, if_neg hgo, le_antisymm hleast (hfits.mpr ?_)⟩
      simp only [GT.gt, UInt32.lt_iff_toNat_lt, UInt32.le_iff_toNat_le, UInt32.reduceToNat] at hgo h
      omega
  · exact ⟨by decide, by decide, rfl, by simp [decimal, Nat.succ_le_iff, Nat.length_toDigits_pos]⟩

/-- The thresholds with which the digits are counted. -/
def threshold : ℕ → UInt32
  | 0 => 9
  | n + 1 => threshold n * 10 + 9

lemma nWidth_of_threshold {value bound : UInt32} {n : ℕ} (hn : n < 32)
    (hless : ∀ k < n, threshold k ≤ bound ∧ threshold k < 0xFFFFFFFF) (hvalue : bound < value)
    (hstop : value ≤ threshold n ∨ threshold n = 0xFFFFFFFF) : nWidth value = some (n + 1) := by
  have hgo : ∀ k < n, widthRound value (k + 1, threshold k) =
      .inl (k + 1 + 1, threshold (k + 1)) := by
    intro k hk
    exact if_pos ⟨UInt32.lt_of_le_of_lt (hless k hk).1 hvalue, (hless k hk).2⟩
  refine iterate_chain (f := fun k => (k + 1, threshold k)) hgo (if_neg ?_) hn
  rintro ⟨hgt, hlt⟩
  rcases hstop with hle | heq
  · exact UInt32.not_le.mpr hgt hle
  · exact UInt32.ne_of_lt hlt heq

/-- The width that is counted for a number above the first threshold that wraps. -/
def wrapWidth (value : UInt32) : ℕ :=
  if value ≤ 3567587327 then 12 else if value ≤ 3735027711 then 21
  else if value ≤ 4135583743 then 23 else 32

lemma nWidth_of_large {value : UInt32} (h : 1410065407 < value) :
    nWidth value = some (wrapWidth value) := by
  unfold wrapWidth
  split_ifs with h12 h21 h23
  · exact nWidth_of_threshold (by decide) (by decide) h (.inl h12)
  · exact nWidth_of_threshold (by decide) (by decide) (UInt32.not_le.mp h12) (.inl h21)
  · exact nWidth_of_threshold (by decide) (by decide) (UInt32.not_le.mp h21) (.inl h23)
  · exact nWidth_of_threshold (by decide) (by decide) (UInt32.not_le.mp h23) (.inr (by decide))

lemma printDec_eq {value : UInt32} {n : ℕ} (hn : nWidth value = some n)
    (hle : (decimal value.toNat).length ≤ n) (width : UInt32) :
    printDec value width = some ((decimal value.toNat).leftpad (max width.toNat n) 0x30) := by
  have hpos : 0 < (decimal value.toNat).length := by simp [decimal, Nat.length_toDigits_pos]
  have hlt := (length_decimal_le_iff (hpos.trans_le hle) value.toNat).mp hle
  rw [printDec, hn, Option.map_some, digits_eq (hpos.trans_le hle) _ hlt]
  simp only [List.leftpad, ← List.append_assoc, List.replicate_append_replicate]
  congr 3
  omega

/-- The decimal digits are appended with the zeros that the width asks for if and only if the number
is not above the first threshold that wraps, or the width reaches the count that is wrong. -/
theorem printDec_appends (value width : UInt32) :
    printDec value width = some ((decimal value.toNat).leftpad width.toNat 0x30) ↔
      value ≤ 1410065407 ∨ wrapWidth value ≤ width.toNat := by
  by_cases hsmall : value ≤ 1410065407
  · obtain ⟨n, hn, rfl⟩ := nWidth_eq hsmall
    rw [printDec_eq hn le_rfl]
    simp only [List.leftpad, hsmall, true_or, iff_true]
    congr 3
    omega
  · have hlength : (decimal value.toNat).length ≤ 10 :=
      (length_decimal_le_iff (by decide) _).mpr (value.toNat_lt.trans (by decide))
    have hwide : 10 < wrapWidth value := by
      unfold wrapWidth
      split_ifs <;> decide
    rw [printDec_eq (nWidth_of_large (UInt32.not_le.mp hsmall)) (by omega), Option.some.injEq,
      or_iff_right hsmall]
    constructor
    · intro heq
      have hsame := congrArg List.length heq
      simp only [List.leftpad, List.length_append, List.length_replicate] at hsame
      omega
    · intro hle
      rw [max_eq_left hle]

theorem printDec_appends_padded : printDec 2000000000 12 =
    some ([0x30, 0x30] ++ decimal 2000000000) :=
  (printDec_appends 2000000000 12).mpr (.inr (by decide))

/-- Two zeros stand in front of a number above the threshold. -/
theorem not_printDec_appends_large :
    printDec 2000000000 0 = some (0x30 :: 0x30 :: decimal 2000000000) := by
  decide

end Nyx.Libk
