import Nyx.Lib.LittleEndian

/-!
# Hexadecimal text

Numbers and bytes as hexadecimal digits, most significant first, and back.
-/

namespace Nyx

def hexChar (upper : Bool) (d : ℕ) : Char :=
  if d < 10 then Char.ofNat (48 + d) else Char.ofNat ((if upper then 55 else 87) + d)

def hexValue (c : Char) : Option ℕ :=
  if 48 ≤ c.toNat ∧ c.toNat ≤ 57 then some (c.toNat - 48)
  else if 97 ≤ c.toNat ∧ c.toNat ≤ 102 then some (c.toNat - 87)
  else if 65 ≤ c.toNat ∧ c.toNat ≤ 70 then some (c.toNat - 55)
  else none

def isHex (c : Char) : Bool := (hexValue c).isSome

/-- The `w` low digits of a number. -/
def hexDigits (upper : Bool) : ℕ → ℕ → List Char
  | 0, _ => []
  | w + 1, n => hexDigits upper w (n / 16) ++ [hexChar upper (n % 16)]

/-- `printf` of a 64 bit number with `%0<width>lx` or `%0<width>lX`: no zeros in front of the number
but those that fill the width. -/
def printHex (upper : Bool) (width n : ℕ) : List Char :=
  ((hexDigits upper 16 n).dropWhile (· == '0')).leftpad width '0'

def readHex (s : List Char) : Option ℕ :=
  s.foldlM (fun n c => (hexValue c).map (16 * n + ·)) 0

def decodeHex : List Char → Option (List UInt8)
  | [] => some []
  | [_] => none
  | a :: b :: s => do
    let high ← hexValue a
    let low ← hexValue b
    let bs ← decodeHex s
    pure (UInt8.ofNat (16 * high + low) :: bs)

lemma hexValue_hexChar (upper : Bool) {d : ℕ} (hd : d < 16) :
    hexValue (hexChar upper d) = some d := by
  revert d
  cases upper <;> decide

lemma isHex_iff {c : Char} : isHex c ↔ (48 ≤ c.toNat ∧ c.toNat ≤ 57) ∨
    (97 ≤ c.toNat ∧ c.toNat ≤ 102) ∨ (65 ≤ c.toNat ∧ c.toNat ≤ 70) := by
  unfold isHex hexValue
  split_ifs with h₁ h₂ h₃
  · simp [h₁]
  · simp [h₂]
  · simp [h₃]
  · simp only [Option.isSome_none, Bool.false_eq_true, false_iff]
    omega

@[simp] lemma length_hexDigits (upper : Bool) (w n : ℕ) : (hexDigits upper w n).length = w := by
  induction w generalizing n with
  | zero => rfl
  | succ w ih => rw [hexDigits, List.length_append, ih]; rfl

lemma isHex_hexDigits {upper : Bool} {w n : ℕ} {c : Char} (hc : c ∈ hexDigits upper w n) :
    isHex c := by
  induction w generalizing n with
  | zero => cases hc
  | succ w ih =>
    rcases List.mem_append.mp hc with hc | hc
    · exact ih hc
    · rw [List.mem_singleton.mp hc, isHex, hexValue_hexChar upper (Nat.mod_lt n (by decide))]
      rfl

lemma readHex_hexDigits (upper : Bool) (w n : ℕ) :
    readHex (hexDigits upper w n) = some (n % 16 ^ w) := by
  induction w generalizing n with
  | zero => rw [pow_zero, Nat.mod_one]; rfl
  | succ w ih =>
    have htail : readHex (hexDigits upper w (n / 16)) = some (n / 16 % 16 ^ w) := ih (n / 16)
    rw [readHex] at htail ⊢
    rw [hexDigits, List.foldlM_append, htail]
    simp only [Option.bind_eq_bind, Option.bind_some, List.foldlM_cons, List.foldlM_nil,
      hexValue_hexChar upper (Nat.mod_lt n (by decide : 0 < 16)), Option.map_some]
    rw [pow_succ', Nat.mod_mul, Nat.add_comm]
    rfl

lemma readHex_zeros (k : ℕ) (s : List Char) : readHex (List.replicate k '0' ++ s) = readHex s := by
  induction k with
  | zero => rfl
  | succ k ih => exact ih

lemma exists_zeros_dropWhile (s : List Char) :
    ∃ k, s = List.replicate k '0' ++ s.dropWhile (· == '0') := by
  induction s with
  | nil => exact ⟨0, rfl⟩
  | cons c s ih =>
    by_cases hc : c = '0'
    · obtain ⟨k, hk⟩ := ih
      refine ⟨k + 1, ?_⟩
      rw [hc, List.dropWhile_cons_of_pos rfl, List.replicate_succ, List.cons_append, ← hk]
    · refine ⟨0, ?_⟩
      rw [List.dropWhile_cons_of_neg (by simpa using hc)]
      rfl

lemma readHex_printHex (upper : Bool) (width : ℕ) {n : ℕ} (hn : n < 2 ^ 64) :
    readHex (printHex upper width n) = some n := by
  obtain ⟨k, hk⟩ := exists_zeros_dropWhile (hexDigits upper 16 n)
  have hdigits := readHex_hexDigits upper 16 n
  rw [hk, readHex_zeros, Nat.mod_eq_of_lt (by omega)] at hdigits
  rw [printHex, List.leftpad, readHex_zeros, hdigits]

lemma isHex_printHex {upper : Bool} {width n : ℕ} {c : Char} (hc : c ∈ printHex upper width n) :
    isHex c := by
  rcases List.mem_append.mp hc with hc | hc
  · rw [List.eq_of_mem_replicate hc]
    decide
  · exact isHex_hexDigits (List.dropWhile_subset _ hc)

lemma printHex_ne_nil (upper : Bool) {width : ℕ} (hw : 0 < width) (n : ℕ) :
    printHex upper width n ≠ [] := by
  intro h
  have hlen := congrArg List.length h
  rw [printHex, List.length_leftpad] at hlen
  simp at hlen
  omega

lemma leftpad_dropWhile {s : List Char} {w : ℕ} (h : s.length = w) :
    (s.dropWhile (· == '0')).leftpad w '0' = s := by
  obtain ⟨k, hk⟩ := exists_zeros_dropWhile s
  have hlen := congrArg List.length hk
  rw [List.length_append, List.length_replicate, h] at hlen
  rw [List.leftpad, show w - (s.dropWhile (· == '0')).length = k by omega, ← hk]

lemma hexDigits_zero (upper : Bool) (k : ℕ) : hexDigits upper k 0 = List.replicate k '0' := by
  induction k with
  | zero => rfl
  | succ k ih =>
    rw [hexDigits, Nat.zero_div, ih, List.replicate_succ']
    rfl

lemma hexDigits_of_lt (upper : Bool) {w n : ℕ} (k : ℕ) (hn : n < 16 ^ w) :
    hexDigits upper (k + w) n = List.replicate k '0' ++ hexDigits upper w n := by
  induction w generalizing n with
  | zero =>
    obtain rfl : n = 0 := by simpa using hn
    rw [Nat.add_zero, hexDigits_zero, hexDigits, List.append_nil]
  | succ w ih =>
    have hdiv : n / 16 < 16 ^ w := by
      omega
    rw [← Nat.add_assoc, hexDigits, hexDigits, ih hdiv, List.append_assoc]

lemma printHex_eq (upper : Bool) {w n : ℕ} (hw : w ≤ 16) (hn : n < 16 ^ w) :
    printHex upper w n = hexDigits upper w n := by
  have hdrop : (hexDigits upper 16 n).dropWhile (· == '0') =
      (hexDigits upper w n).dropWhile (· == '0') := by
    have hsplit := hexDigits_of_lt upper (16 - w) hn
    rw [Nat.sub_add_cancel hw] at hsplit
    rw [hsplit, List.dropWhile_append]
    simp
  rw [printHex, hdrop, leftpad_dropWhile (length_hexDigits upper w n)]

lemma decodeHex_append {s t : List Char} {bs : List UInt8} (h : decodeHex s = some bs) :
    decodeHex (s ++ t) = (decodeHex t).map (bs ++ ·) := by
  induction s using decodeHex.induct generalizing bs with
  | case1 =>
    cases h
    simp
  | case2 => cases h
  | case3 a b s ih =>
    simp only [decodeHex, Option.bind_eq_bind, Option.bind_eq_some_iff] at h
    obtain ⟨high, hhigh, low, hlow, cs, hcs, hbs⟩ := h
    cases hbs
    simp only [List.cons_append, decodeHex, hhigh, hlow, ih hcs, Option.bind_eq_bind,
      Option.bind_some]
    cases decodeHex t <;> rfl

lemma decodeHex_pair (upper : Bool) {high low : ℕ} (hhigh : high < 16) (hlow : low < 16) :
    decodeHex [hexChar upper high, hexChar upper low] = some [UInt8.ofNat (16 * high + low)] := by
  simp only [decodeHex, hexValue_hexChar upper hhigh, hexValue_hexChar upper hlow]
  rfl

lemma decodeHex_hexDigits (upper : Bool) (k n : ℕ) :
    decodeHex (hexDigits upper (2 * k) n) = some (toLeBytes k n).reverse := by
  induction k generalizing n with
  | zero => rfl
  | succ k ih =>
    have hbyte : 16 * (n / 16 % 16) + n % 16 = n % 256 := by omega
    have hlow : UInt8.ofNat (n % 256) = UInt8.ofNat n := by
      apply UInt8.toNat_inj.mp
      rw [UInt8.toNat_ofNat', UInt8.toNat_ofNat', Nat.mod_mod]
    have hsplit : hexDigits upper (2 * (k + 1)) n = hexDigits upper (2 * k) (n / 256) ++
        [hexChar upper (n / 16 % 16), hexChar upper (n % 16)] := by
      rw [Nat.mul_succ, hexDigits, hexDigits, List.append_assoc, Nat.div_div_eq_div_mul]
      rfl
    rw [hsplit, decodeHex_append (ih (n / 256)), decodeHex_pair upper (Nat.mod_lt _ (by decide))
      (Nat.mod_lt _ (by decide)), hbyte, hlow, toLeBytes_succ, List.reverse_cons, Option.map_some]

lemma decodeHex_flatMap (upper : Bool) (bs : List UInt8) :
    decodeHex (bs.flatMap fun b => printHex upper 2 b.toNat) = some bs := by
  induction bs with
  | nil => rfl
  | cons b bs ih =>
    have hone : decodeHex (printHex upper 2 b.toNat) = some [b] := by
      rw [printHex_eq upper (by decide) b.toNat_lt]
      have hdigits := decodeHex_hexDigits upper 1 b.toNat
      rw [toLeBytes_succ, UInt8.ofNat_toNat] at hdigits
      exact hdigits
    rw [List.flatMap_cons, decodeHex_append hone, ih]
    rfl

end Nyx
