import Mathlib.Data.Nat.Bitwise

/-!
# The buffer of taken and not-taken bits

`pt/tnt_cache.c` in its branch-less form: a ring of 32-bit words that is read from `bl_pos` on, the
most significant bit of a word first.
-/

namespace Nyx.Pt

def bufSize : ℕ := 2 ^ 32

def blBufEntries : ℕ := bufSize / 8 / 32

def tntHashSplitValueBits : ℕ := 58

/-- The ring of branch bits. -/
structure TntCache where
  blTntMemory : ℕ → UInt32
  blPos : ℕ
  blTnt : ℕ

inductive TntResult where
  | notTaken
  | taken
  | tntEmpty
  deriving DecidableEq

namespace TntCache

def isEmptyTntCache (t : TntCache) : Bool := t.blTnt = 0

def processTntCache (t : TntCache) : TntResult × TntCache :=
  if t.blTnt ≠ 0 then
    let bit := ((1 : UInt64) <<< 31) >>> UInt64.ofNat (t.blPos % 32)
    let word := t.blTntMemory (t.blPos / 32 % blBufEntries)
    (if bit &&& word.toUInt64 ≠ 0 then .taken else .notTaken,
      { t with
        blTnt := t.blTnt - 1
        blPos := (t.blPos + 1) % bufSize })
  else (.tntEmpty, t)

def adjustTntCache (t : TntCache) (num : ℕ) : TntCache :=
  let num := if num > t.blTnt then t.blTnt else num
  { t with
    blTnt := t.blTnt - num
    blPos := (t.blPos + num) % bufSize }

/-- The part of `get_tnt_hash` that puts the 58 bits from `blPos` on together from three words. -/
def hashValue (blPos : ℕ) (value1 value2 value3 : UInt32) : UInt64 :=
  let bits1 := 32 - blPos % 32
  let tmp1 := (tntHashSplitValueBits - bits1) % 32
  let tmp2 := (tntHashSplitValueBits - bits1) / 32 ≠ 0
  let bits2 := if tmp2 then 32 else tmp1
  let bits3 := tntHashSplitValueBits - (bits1 + bits2)
  let ones : UInt32 := 0xFFFFFFFF
  -- mask and shift
  ((value1.toUInt64 &&& (ones >>> UInt32.ofNat (32 - bits1)).toUInt64)
      <<< UInt64.ofNat (tntHashSplitValueBits - bits1)) |||
    ((value2.toUInt64 &&& (ones <<< UInt32.ofNat (32 - bits2)).toUInt64)
      <<< UInt64.ofNat (tntHashSplitValueBits - bits2 - bits1)) >>> UInt64.ofNat (32 - bits2) |||
    (value3.toUInt64 &&& (ones <<< UInt32.ofNat ((32 - bits3) % 32)).toUInt64)
      >>> UInt64.ofNat (32 - bits3)

def getTntHash (t : TntCache) : UInt64 :=
  if t.blTnt = 0 then 0 else
    let count := if t.blTnt / tntHashSplitValueBits ≠ 0 then tntHashSplitValueBits else t.blTnt
    let value := hashValue t.blPos (t.blTntMemory (t.blPos / 32 % blBufEntries))
      (t.blTntMemory ((t.blPos / 32 + 1) % blBufEntries))
      (t.blTntMemory ((t.blPos / 32 + 2) % blBufEntries))
    (UInt64.ofNat count <<< UInt64.ofNat tntHashSplitValueBits) |||
      value >>> UInt64.ofNat (tntHashSplitValueBits - count)

def bit (t : TntCache) (p : ℕ) : Bool :=
  (t.blTntMemory (p / 32 % blBufEntries)).toNat.testBit (31 - p % 32)

def content (t : TntCache) : List Bool := (List.range t.blTnt).map fun j => t.bit (t.blPos + j)

lemma bit_add_bufSize (t : TntCache) (p k : ℕ) : t.bit (p % bufSize + k) = t.bit (p + k) := by
  have hword : (p % bufSize + k) / 32 % blBufEntries = (p + k) / 32 % blBufEntries := by
    simp only [bufSize, blBufEntries]
    omega
  have hbit : (p % bufSize + k) % 32 = (p + k) % 32 := by
    simp only [bufSize]
    omega
  rw [bit, bit, hword, hbit]

lemma content_advance (t : TntCache) (num : ℕ) :
    content { t with blTnt := t.blTnt - num, blPos := (t.blPos + num) % bufSize } =
      t.content.drop num := by
  apply List.ext_getElem
  · simp [content]
  · intro j hj hj'
    simp only [content, List.getElem_map, List.getElem_range, List.getElem_drop]
    have hbit := bit_add_bufSize t (t.blPos + num) j
    rw [Nat.add_assoc] at hbit
    exact hbit

lemma content_adjustTntCache (t : TntCache) {num : ℕ} (h : num ≤ t.blTnt) :
    (t.adjustTntCache num).content = t.content.drop num := by
  have hnum : ¬num > t.blTnt := by omega
  simp only [adjustTntCache, if_neg hnum]
  exact content_advance t num

lemma length_content (t : TntCache) : t.content.length = t.blTnt := by simp [content]

lemma isEmptyTntCache_iff (t : TntCache) : t.isEmptyTntCache ↔ t.content = [] := by
  rw [isEmptyTntCache, decide_eq_true_iff, ← length_content, List.length_eq_zero_iff]

lemma mask_and_ne_zero_iff (w : UInt32) {k : ℕ} (hk : k < 32) :
    ((1 : UInt64) <<< 31) >>> UInt64.ofNat k &&& w.toUInt64 ≠ 0 ↔
      w.toNat.testBit (31 - k) := by
  have hmask : (((1 : UInt64) <<< 31) >>> UInt64.ofNat k).toNat = 2 ^ (31 - k) := by
    have hone : ((1 : UInt64) <<< 31).toNat = 2 ^ 31 := rfl
    have hk64 : (UInt64.ofNat k).toNat % 64 = k := by
      rw [UInt64.toNat_ofNat_of_lt' (by simp [UInt64.size]; omega)]
      omega
    rw [UInt64.toNat_shiftRight, hone, hk64, Nat.shiftRight_eq_div_pow,
      Nat.pow_div (by omega) (by decide)]
  have hand : (((1 : UInt64) <<< 31) >>> UInt64.ofNat k &&& w.toUInt64).toNat =
      (w.toNat.testBit (31 - k)).toNat * 2 ^ (31 - k) := by
    rw [UInt64.toNat_and, hmask, UInt32.toNat_toUInt64, Nat.and_comm, Nat.and_two_pow]
  rw [Ne, ← UInt64.toNat_inj, hand]
  cases w.toNat.testBit (31 - k) with
  | true => simp
  | false => simp

lemma processTntCache_cons {t : TntCache} {b : Bool} {bits : List Bool} (h : t.content = b :: bits) :
    ∃ t', t.processTntCache = (if b then .taken else .notTaken, t') ∧ t'.content = bits := by
  have hlen := length_content t
  rw [h, List.length_cons] at hlen
  have hnonempty : t.blTnt ≠ 0 := by omega
  have hfirst : t.bit t.blPos = b := by
    have hget : t.content[0]? = some b := by rw [h]; rfl
    have hzero : 0 < t.blTnt := by omega
    simpa [content, hzero] using hget
  have hmask := mask_and_ne_zero_iff (t.blTntMemory (t.blPos / 32 % blBufEntries))
    (Nat.mod_lt t.blPos (by decide : 0 < 32))
  refine ⟨{ t with blTnt := t.blTnt - 1, blPos := (t.blPos + 1) % bufSize }, ?_, ?_⟩
  · simp only [processTntCache, if_pos hnonempty, hmask]
    rw [show (t.blTntMemory (t.blPos / 32 % blBufEntries)).toNat.testBit (31 - t.blPos % 32) = b
      from hfirst]
  · rw [content_advance, h]
    rfl

lemma processTntCache_nil {t : TntCache} (h : t.content = []) :
    t.processTntCache = (.tntEmpty, t) := by
  have hempty : t.blTnt = 0 := by rw [← length_content, h]; rfl
  simp [processTntCache, hempty]

section Hash

lemma toNat_shiftCount {k : ℕ} (hk : k < 64) : (UInt64.ofNat k).toNat % 64 = k := by
  rw [UInt64.toNat_ofNat_of_lt' (by simp [UInt64.size]; omega)]
  omega

lemma testBit_shiftLeft64 (x : UInt64) {k : ℕ} (hk : k < 64) (i : ℕ) :
    (x <<< UInt64.ofNat k).toNat.testBit i =
      (decide (i < 64) && (decide (k ≤ i) && x.toNat.testBit (i - k))) := by
  rw [UInt64.toNat_shiftLeft, toNat_shiftCount hk, Nat.testBit_mod_two_pow, Nat.testBit_shiftLeft]

lemma testBit_shiftRight64 (x : UInt64) {k : ℕ} (hk : k < 64) (i : ℕ) :
    (x >>> UInt64.ofNat k).toNat.testBit i = x.toNat.testBit (k + i) := by
  rw [UInt64.toNat_shiftRight, toNat_shiftCount hk, Nat.testBit_shiftRight]

lemma testBit_word (w : UInt32) {i : ℕ} (hi : 32 ≤ i) : w.toNat.testBit i = false := by
  apply Nat.testBit_lt_two_pow
  calc w.toNat < 2 ^ 32 := w.toNat_lt
    _ ≤ 2 ^ i := Nat.pow_le_pow_right (by decide) hi

lemma toNat_shiftCount32 {k : ℕ} (hk : k < 32) : (UInt32.ofNat k).toNat % 32 = k := by
  rw [UInt32.toNat_ofNat_of_lt' (by simp [UInt32.size]; omega)]
  omega

lemma testBit_and_shiftRight (w : UInt32) {k : ℕ} (hk : k < 32) (i : ℕ) :
    (w.toUInt64 &&& ((0xFFFFFFFF : UInt32) >>> UInt32.ofNat k).toUInt64).toNat.testBit i =
      (decide (i + k < 32) && w.toNat.testBit i) := by
  have hones : (0xFFFFFFFF : UInt32).toNat = 2 ^ 32 - 1 := rfl
  rw [UInt64.toNat_and, UInt32.toNat_toUInt64, UInt32.toNat_toUInt64, UInt32.toNat_shiftRight,
    toNat_shiftCount32 hk, hones, Nat.testBit_and, Nat.testBit_shiftRight,
    Nat.testBit_two_pow_sub_one, Bool.and_comm, Nat.add_comm]

lemma testBit_and_shiftLeft (w : UInt32) {k : ℕ} (hk : k < 32) (i : ℕ) :
    (w.toUInt64 &&& ((0xFFFFFFFF : UInt32) <<< UInt32.ofNat k).toUInt64).toNat.testBit i =
      (decide (k ≤ i) && w.toNat.testBit i) := by
  have hones : (0xFFFFFFFF : UInt32).toNat = 2 ^ 32 - 1 := rfl
  rw [UInt64.toNat_and, UInt32.toNat_toUInt64, UInt32.toNat_toUInt64, UInt32.toNat_shiftLeft,
    toNat_shiftCount32 hk, hones, Nat.testBit_and, Nat.testBit_mod_two_pow, Nat.testBit_shiftLeft,
    Nat.testBit_two_pow_sub_one]
  by_cases hi : i < 32
  · have hsub : i - k < 32 := by omega
    simp [hi, hsub, Bool.and_comm]
  · simp [testBit_word w (by omega : 32 ≤ i)]

lemma testBit_hashValue_parts (blPos : ℕ) (w1 w2 w3 : UInt32) (i : ℕ) {r bits2 bits3 : ℕ}
    (hr : blPos % 32 = r)
    (hbits : r < 6 ∧ bits2 = 26 + r ∧ bits3 = 0 ∨ 6 ≤ r ∧ bits2 = 32 ∧ bits3 = r - 6) :
    (hashValue blPos w1 w2 w3).toNat.testBit i =
      (((decide (i < 64) && (decide (26 + r ≤ i) && (decide (i - (26 + r) + r < 32) &&
            w1.toNat.testBit (i - (26 + r))))) ||
        (decide (32 - bits2 + i < 64) && (decide (bits3 ≤ 32 - bits2 + i) &&
          (decide (32 - bits2 ≤ 32 - bits2 + i - bits3) &&
            w2.toNat.testBit (32 - bits2 + i - bits3))))) ||
        (decide ((32 - bits3) % 32 ≤ 32 - bits3 + i) && w3.toNat.testBit (32 - bits3 + i))) := by
  have hlt : r < 32 := hr ▸ Nat.mod_lt blPos (by decide)
  have h2 : (if (26 + r) / 32 ≠ 0 then 32 else (26 + r) % 32) = bits2 := by
    by_cases hsmall : r < 6
    · rw [if_neg (by omega)]
      omega
    · rw [if_pos (by omega)]
      omega
  have h3 : 58 - (32 - r + bits2) = bits3 := by omega
  have hshift1 : 58 - (32 - r) = 26 + r := by omega
  have hshift2 : 58 - bits2 - (32 - r) = bits3 := by omega
  have hmask1 : 32 - (32 - r) = r := by omega
  simp only [hashValue, tntHashSplitValueBits, hr, hshift1, h2, h3, hshift2, hmask1,
    UInt64.toNat_or, Nat.testBit_or]
  rw [testBit_shiftLeft64 _ (by omega), testBit_and_shiftRight _ hlt,
    testBit_shiftRight64 _ (by omega), testBit_shiftLeft64 _ (by omega),
    testBit_and_shiftLeft _ (by omega), testBit_shiftRight64 _ (by omega),
    testBit_and_shiftLeft _ (Nat.mod_lt _ (by decide))]

lemma testBit_hashValue (blPos : ℕ) (w1 w2 w3 : UInt32) {j : ℕ} (hj : j < 58) :
    (hashValue blPos w1 w2 w3).toNat.testBit (57 - j) =
      if blPos % 32 + j < 32 then w1.toNat.testBit (31 - (blPos % 32 + j))
      else if blPos % 32 + j < 64 then w2.toNat.testBit (63 - (blPos % 32 + j))
      else w3.toNat.testBit (95 - (blPos % 32 + j)) := by
  have hlt : blPos % 32 < 32 := Nat.mod_lt _ (by decide)
  generalize hr : blPos % 32 = r at hlt ⊢
  obtain ⟨bits2, bits3, hbits⟩ : ∃ bits2 bits3, r < 6 ∧ bits2 = 26 + r ∧ bits3 = 0 ∨
      6 ≤ r ∧ bits2 = 32 ∧ bits3 = r - 6 := by
    by_cases hsmall : r < 6
    · exact ⟨26 + r, 0, .inl ⟨hsmall, rfl, rfl⟩⟩
    · exact ⟨32, r - 6, .inr ⟨by omega, rfl, rfl⟩⟩
  rw [testBit_hashValue_parts blPos w1 w2 w3 (57 - j) hr hbits]
  by_cases h1 : r + j < 32
  · have hw2 := testBit_word w2 (by omega : 32 ≤ 32 - bits2 + (57 - j) - bits3)
    have hw3 := testBit_word w3 (by omega : 32 ≤ 32 - bits3 + (57 - j))
    have hindex : 57 - j - (26 + r) = 31 - (r + j) := by omega
    have hin : 57 - j < 64 ∧ 26 + r ≤ 57 - j ∧ 31 - (r + j) + r < 32 := by omega
    simp [h1, hw2, hw3, hindex, hin]
  · have hout1 : ¬26 + r ≤ 57 - j := by omega
    by_cases h2 : r + j < 64
    · have hw3 := testBit_word w3 (by omega : 32 ≤ 32 - bits3 + (57 - j))
      have hindex : 32 - bits2 + (57 - j) - bits3 = 63 - (r + j) := by omega
      have hin : 32 - bits2 + (57 - j) < 64 ∧ bits3 ≤ 32 - bits2 + (57 - j) ∧
          32 - bits2 ≤ 63 - (r + j) := by omega
      simp [h1, h2, hout1, hw3, hindex, hin]
    · have hout2 : ¬bits3 ≤ 32 - bits2 + (57 - j) := by omega
      have hindex : 32 - bits3 + (57 - j) = 95 - (r + j) := by omega
      have hin : (32 - bits3) % 32 ≤ 95 - (r + j) := by omega
      simp [h1, h2, hout1, hout2, hindex, hin]

lemma testBit_hashValue_of_le (blPos : ℕ) (w1 w2 w3 : UInt32) {i : ℕ} (hi : 58 ≤ i) :
    (hashValue blPos w1 w2 w3).toNat.testBit i = false := by
  have hlt : blPos % 32 < 32 := Nat.mod_lt _ (by decide)
  generalize hr : blPos % 32 = r at hlt
  have hout1 : ¬i - (26 + r) + r < 32 := by omega
  by_cases hsmall : r < 6
  · rw [testBit_hashValue_parts blPos w1 w2 w3 i hr (.inl ⟨hsmall, rfl, rfl⟩),
      testBit_word w2 (by omega), testBit_word w3 (by omega)]
    simp [hout1]
  · rw [testBit_hashValue_parts blPos w1 w2 w3 i hr (.inr ⟨by omega, rfl, rfl⟩),
      testBit_word w2 (by omega), testBit_word w3 (by omega)]
    simp [hout1]

def hashCount (t : TntCache) : ℕ := min tntHashSplitValueBits t.blTnt

lemma testBit_hashValue_ring (t : TntCache) {j : ℕ} (hj : j < 58) :
    (hashValue t.blPos (t.blTntMemory (t.blPos / 32 % blBufEntries))
      (t.blTntMemory ((t.blPos / 32 + 1) % blBufEntries))
      (t.blTntMemory ((t.blPos / 32 + 2) % blBufEntries))).toNat.testBit (57 - j) =
      t.bit (t.blPos + j) := by
  rw [testBit_hashValue _ _ _ _ hj, bit]
  by_cases h1 : t.blPos % 32 + j < 32
  · rw [if_pos h1, show (t.blPos + j) / 32 = t.blPos / 32 by omega,
      show (t.blPos + j) % 32 = t.blPos % 32 + j by omega]
  · by_cases h2 : t.blPos % 32 + j < 64
    · rw [if_neg h1, if_pos h2, show (t.blPos + j) / 32 = t.blPos / 32 + 1 by omega]
      congr 1
      omega
    · rw [if_neg h1, if_neg h2, show (t.blPos + j) / 32 = t.blPos / 32 + 2 by omega]
      congr 1
      omega

lemma testBit_getTntHash (t : TntCache) (i : ℕ) :
    t.getTntHash.toNat.testBit i =
      if i < 58 then decide (i < t.hashCount) && t.bit (t.blPos + (t.hashCount - 1 - i))
      else decide (i < 64) && t.hashCount.testBit (i - 58) := by
  by_cases h : t.blTnt = 0
  · have hzero : t.hashCount = 0 := by simp [hashCount, h]
    simp [getTntHash, h, hzero]
  have hcount : (if t.blTnt / tntHashSplitValueBits ≠ 0 then tntHashSplitValueBits else t.blTnt) =
      t.hashCount := by
    rw [hashCount, tntHashSplitValueBits]
    by_cases hmany : t.blTnt / 58 ≠ 0
    · rw [if_pos hmany, min_eq_left (by omega)]
    · rw [if_neg hmany, min_eq_right (by omega)]
  have hle : t.hashCount ≤ 58 := min_le_left _ _
  have htoNat : (UInt64.ofNat t.hashCount).toNat = t.hashCount :=
    UInt64.toNat_ofNat_of_lt' (by simp [UInt64.size]; omega)
  simp only [getTntHash, if_neg h, hcount, UInt64.toNat_or, Nat.testBit_or]
  rw [tntHashSplitValueBits, testBit_shiftLeft64 _ (by decide), htoNat,
    testBit_shiftRight64 _ (by omega)]
  by_cases hi : i < 58
  · have hlow : ¬58 ≤ i := by omega
    by_cases hin : i < t.hashCount
    · have hring := testBit_hashValue_ring t (by omega : t.hashCount - 1 - i < 58)
      rw [show 57 - (t.hashCount - 1 - i) = 58 - t.hashCount + i by omega] at hring
      simp [hlow, hin, hring]
    · rw [testBit_hashValue_of_le _ _ _ _ (by omega)]
      simp [hlow, hin]
  · rw [if_neg hi, testBit_hashValue_of_le _ _ _ _ (by omega)]
    simp [show 58 ≤ i by omega]

lemma take_content (t : TntCache) :
    t.content.take 58 = (List.range t.hashCount).map fun j => t.bit (t.blPos + j) := by
  rw [content, ← List.map_take, List.take_range]
  rfl

lemma hashCount_eq_of_getTntHash {t t' : TntCache} (heq : t.getTntHash = t'.getTntHash) :
    t.hashCount = t'.hashCount := by
  apply Nat.eq_of_testBit_eq
  intro k
  by_cases hk : k < 6
  · have hbit := testBit_getTntHash t (58 + k)
    rw [heq, testBit_getTntHash t' (58 + k)] at hbit
    have hhigh : ¬58 + k < 58 := by omega
    have hin : 58 + k < 64 := by omega
    simpa [hhigh, hin] using hbit.symm
  · have hsmall : ∀ s : TntCache, s.hashCount.testBit k = false := by
      intro s
      apply Nat.testBit_lt_two_pow
      calc s.hashCount ≤ 58 := min_le_left _ _
        _ < 2 ^ 6 := by decide
        _ ≤ 2 ^ k := Nat.pow_le_pow_right (by decide) (by omega)
    rw [hsmall t, hsmall t']

/-- The hash tells apart what differs in the next 58 bits. -/
theorem take_content_eq_of_getTntHash {t t' : TntCache} (heq : t.getTntHash = t'.getTntHash) :
    t.content.take 58 = t'.content.take 58 := by
  have hcount := hashCount_eq_of_getTntHash heq
  rw [take_content, take_content, hcount]
  apply List.map_congr_left
  intro j hj
  have hj' : j < t'.hashCount := List.mem_range.mp hj
  have hle : t'.hashCount ≤ 58 := min_le_left _ _
  have hbit := testBit_getTntHash t (t'.hashCount - 1 - j)
  rw [heq, testBit_getTntHash t' (t'.hashCount - 1 - j), hcount] at hbit
  have hi : t'.hashCount - 1 - j < 58 := by omega
  have hin : t'.hashCount - 1 - j < t'.hashCount := by omega
  have hback : t'.hashCount - 1 - (t'.hashCount - 1 - j) = j := by omega
  simpa [hi, hin, hback] using hbit.symm

lemma bit_eq_of_take_content {t t' : TntCache} (hcount : t.hashCount = t'.hashCount)
    (heq : t.content.take 58 = t'.content.take 58) {j : ℕ} (hj : j < t.hashCount) :
    t.bit (t.blPos + j) = t'.bit (t'.blPos + j) := by
  rw [take_content, take_content, ← hcount] at heq
  exact List.map_inj_left.mp heq j (List.mem_range.mpr hj)

/-- The hash is the number of the next bits, 58 at most, and these bits. -/
theorem getTntHash_eq_iff (t t' : TntCache) :
    t.getTntHash = t'.getTntHash ↔ min 58 t.blTnt = min 58 t'.blTnt ∧
      t.content.take (min 58 t.blTnt) = t'.content.take (min 58 t'.blTnt) := by
  have htake : ∀ s : TntCache, s.content.take (min 58 s.blTnt) = s.content.take 58 := by
    intro s
    have hlen : s.content.length = s.blTnt := by simp [content]
    rw [← hlen, ← List.take_eq_take_min]
  rw [htake, htake]
  constructor
  · intro heq
    exact ⟨hashCount_eq_of_getTntHash heq, take_content_eq_of_getTntHash heq⟩
  · rintro ⟨hcount, heq⟩
    have hcount' : t.hashCount = t'.hashCount := hcount
    apply UInt64.toNat_inj.mp
    apply Nat.eq_of_testBit_eq
    intro i
    rw [testBit_getTntHash, testBit_getTntHash, ← hcount']
    by_cases hi : i < t.hashCount
    · rw [bit_eq_of_take_content hcount' heq (by omega : t.hashCount - 1 - i < t.hashCount)]
    · simp [hi]

end Hash

end TntCache

end Nyx.Pt
