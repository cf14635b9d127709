import Mathlib.Data.BitVec
import Nyx.Lib.Iterate
import Nyx.Lib.OpenAddressing

/-!
# The hash tables of `khash.h`

The state of a bucket is two bits of an array of words; keys and values are arrays next to it. A
table filled to more than 0.77 is rehashed in place: an entry that moves kicks out the old entry of
its bucket.
-/

namespace Nyx

open Function

/-- The two bits of sixteen buckets in each word: whether the bucket is empty, and whether it is
deleted. -/
structure Flags where
  word : ℕ → BitVec 32

def Flags.set (flag : Flags) (i : ℕ) (w : BitVec 32) : Flags := ⟨update flag.word i w⟩

def acTest (bits : BitVec 32) (flag : Flags) (i : ℕ) : Bool :=
  ((flag.word (i >>> 4) >>> ((i &&& 0xf) <<< 1)) &&& bits) != 0

def acIsEmpty : Flags → ℕ → Bool := acTest 2

def acIsDel : Flags → ℕ → Bool := acTest 1

def acIsEither : Flags → ℕ → Bool := acTest 3

def acClear (bits : BitVec 32) (flag : Flags) (i : ℕ) : Flags :=
  flag.set (i >>> 4) (flag.word (i >>> 4) &&& ~~~(bits <<< ((i &&& 0xf) <<< 1)))

def acSetIsEmptyFalse : Flags → ℕ → Flags := acClear 2

def acSetIsBothFalse : Flags → ℕ → Flags := acClear 3

def acSetIsDelTrue (flag : Flags) (i : ℕ) : Flags :=
  flag.set (i >>> 4) (flag.word (i >>> 4) ||| 1#32 <<< ((i &&& 0xf) <<< 1))

def allEmpty : Flags := ⟨fun _ => 0xaaaaaaaa⟩

section Flags

variable (flag : Flags) (i j : ℕ)

def flagBit (b : ℕ) : Bool := (flag.word (i / 16)).getLsbD (2 * (i % 16) + b)

lemma bucket_shift : (i &&& 0xf) <<< 1 = 2 * (i % 16) := by
  have hmask : i &&& 0xf = i % 16 := Nat.and_two_pow_sub_one_eq_mod i 4
  omega

lemma bucket_word : i >>> 4 = i / 16 := Nat.shiftRight_eq_div_pow i 4

lemma test_twoPow (w : BitVec 32) {b : ℕ} (hb : b < 32) :
    ((w &&& BitVec.twoPow 32 b) != 0) = w.getLsbD b := by
  rw [BitVec.and_twoPow]
  cases h : w.getLsbD b with
  | false => simp
  | true =>
    have hne : BitVec.twoPow 32 b ≠ 0#32 := by
      intro hzero
      have hbit := congrArg (fun x => x.getLsbD b) hzero
      simp [hb] at hbit
    simpa using hne

lemma acIsEmpty_eq : acIsEmpty flag i = flagBit flag i 1 := by
  have hbits : (2 : BitVec 32) = BitVec.twoPow 32 1 := rfl
  rw [acIsEmpty, acTest, bucket_shift, bucket_word, hbits, test_twoPow _ (by decide),
    BitVec.getLsbD_ushiftRight, flagBit]

lemma acIsDel_eq : acIsDel flag i = flagBit flag i 0 := by
  have hbits : (1 : BitVec 32) = BitVec.twoPow 32 0 := rfl
  rw [acIsDel, acTest, bucket_shift, bucket_word, hbits, test_twoPow _ (by decide),
    BitVec.getLsbD_ushiftRight, flagBit]

lemma acIsEither_eq : acIsEither flag i = (acIsEmpty flag i || acIsDel flag i) := by
  have hbits : (3 : BitVec 32) = 2 ||| 1 := rfl
  have hor : ∀ x y : BitVec 32, (x ||| y != 0) = ((x != 0) || (y != 0)) := by
    intro x y
    rw [Bool.eq_iff_iff]
    simp [BitVec.or_eq_zero_iff]
    tauto
  rw [acIsEither, acIsEmpty, acIsDel, acTest, acTest, acTest, hbits, BitVec.and_or_distrib_left, hor]

lemma flagBit_set (w : BitVec 32) (b : ℕ) :
    flagBit (flag.set (i / 16) w) j b =
      if j / 16 = i / 16 then w.getLsbD (2 * (j % 16) + b) else flagBit flag j b := by
  show (update flag.word (i / 16) w (j / 16)).getLsbD _ = _
  split
  next h => rw [h, update_self]
  next h => rw [update_of_ne h, flagBit]

lemma getLsbD_mask {bits : BitVec 32} (hbits : bits.toNat < 2 ^ 2) {b : ℕ} (hb : b < 2) :
    (bits <<< (2 * (i % 16))).getLsbD (2 * (j % 16) + b) =
      (decide (j % 16 = i % 16) && bits.getLsbD b) := by
  rcases Nat.lt_trichotomy (j % 16) (i % 16) with hlt | heq | hlt
  · have hlow : 2 * (j % 16) + b < 2 * (i % 16) := by omega
    simp [hlow, hlt.ne]
  · simp [heq]
    omega
  · have hhigh : 2 ≤ 2 * (j % 16) + b - 2 * (i % 16) := by omega
    have hzero : bits.getLsbD (2 * (j % 16) + b - 2 * (i % 16)) = false :=
      Nat.testBit_lt_two_pow (Nat.lt_of_lt_of_le hbits (Nat.pow_le_pow_right (by decide) hhigh))
    simp [hzero, hlt.ne']

lemma flagBit_acClear {bits : BitVec 32} (hbits : bits.toNat < 2 ^ 2) {b : ℕ} (hb : b < 2) :
    flagBit (acClear bits flag i) j b =
      (flagBit flag j b && !(decide (j = i) && bits.getLsbD b)) := by
  have hrange : 2 * (j % 16) + b < 32 := by omega
  have hsame : j = i ↔ j / 16 = i / 16 ∧ j % 16 = i % 16 := by omega
  rw [acClear, bucket_shift, bucket_word, flagBit_set]
  split
  next hword =>
    rw [BitVec.getLsbD_and, BitVec.getLsbD_not, getLsbD_mask i j hbits hb, flagBit, hword]
    simp [hrange, hsame, hword]
  next hword => simp [hsame, hword]

lemma flagBit_acSetIsDelTrue {b : ℕ} (hb : b < 2) :
    flagBit (acSetIsDelTrue flag i) j b = (flagBit flag j b || (decide (j = i) && decide (b = 0))) := by
  have hone : ∀ b < 2, (1#32).getLsbD b = decide (b = 0) := by decide
  have hsame : j = i ↔ j / 16 = i / 16 ∧ j % 16 = i % 16 := by omega
  rw [acSetIsDelTrue, bucket_shift, bucket_word, flagBit_set]
  split
  next hword =>
    rw [BitVec.getLsbD_or, getLsbD_mask i j (by decide) hb, hone b hb, flagBit, hword]
    simp [hsame, hword]
  next hword => simp [hsame, hword]

lemma acIsEmpty_acSetIsEmptyFalse :
    acIsEmpty (acSetIsEmptyFalse flag i) j = (acIsEmpty flag j && !decide (j = i)) := by
  rw [acIsEmpty_eq, acIsEmpty_eq, acSetIsEmptyFalse, flagBit_acClear _ _ _ (by decide) (by decide)]
  simp

lemma acIsDel_acSetIsEmptyFalse : acIsDel (acSetIsEmptyFalse flag i) j = acIsDel flag j := by
  rw [acIsDel_eq, acIsDel_eq, acSetIsEmptyFalse, flagBit_acClear _ _ _ (by decide) (by decide)]
  simp

lemma acIsEmpty_acSetIsBothFalse :
    acIsEmpty (acSetIsBothFalse flag i) j = (acIsEmpty flag j && !decide (j = i)) := by
  rw [acIsEmpty_eq, acIsEmpty_eq, acSetIsBothFalse, flagBit_acClear _ _ _ (by decide) (by decide)]
  simp

lemma acIsDel_acSetIsBothFalse :
    acIsDel (acSetIsBothFalse flag i) j = (acIsDel flag j && !decide (j = i)) := by
  rw [acIsDel_eq, acIsDel_eq, acSetIsBothFalse, flagBit_acClear _ _ _ (by decide) (by decide)]
  simp

lemma acIsEither_acSetIsDelTrue :
    acIsEither (acSetIsDelTrue flag i) j = (acIsEither flag j || decide (j = i)) := by
  rw [acIsEither_eq, acIsEither_eq, acIsEmpty_eq, acIsEmpty_eq, acIsDel_eq, acIsDel_eq,
    flagBit_acSetIsDelTrue _ _ _ (by decide), flagBit_acSetIsDelTrue _ _ _ (by decide)]
  simp [Bool.or_assoc]

lemma flagBit_allEmpty {b : ℕ} (hb : b < 2) : flagBit allEmpty i b = decide (b = 1) := by
  have hall : ∀ q < 16, ∀ b < 2, (0xaaaaaaaa : BitVec 32).getLsbD (2 * q + b) = decide (b = 1) := by
    decide
  exact hall (i % 16) (Nat.mod_lt i (by decide)) b hb

lemma acIsEmpty_allEmpty : acIsEmpty allEmpty i := by
  rw [acIsEmpty_eq, flagBit_allEmpty i (by decide)]
  rfl

lemma acIsDel_allEmpty : acIsDel allEmpty i = false := by
  rw [acIsDel_eq, flagBit_allEmpty i (by decide)]
  rfl

end Flags

/-- `kh_##name##_t`. Cells of `keys` and `vals` from `nBuckets` on stand for what `krealloc` will
find in its memory. -/
structure Khash (κ ν : Type) where
  nBuckets : ℕ
  size : ℕ
  nOccupied : ℕ
  upperBound : ℕ
  flags : Flags
  keys : ℕ → κ
  vals : ℕ → ν

/-- `__ac_HASH_UPPER`, which is the double next to 0.77, in units of `2 ^ -53`. -/
def AC_HASH_UPPER : ℕ := 6935543426150564

/-- `(khint_t)(n * __ac_HASH_UPPER + 0.5)`, where no step rounds if `n` is a power of two. -/
def hashUpper (n : ℕ) : ℕ := (n * AC_HASH_UPPER + 2 ^ 52) / 2 ^ 53

def kroundup32 (x : ℕ) : ℕ :=
  let x := x - 1
  let x := x ||| x >>> 1
  let x := x ||| x >>> 2
  let x := x ||| x >>> 4
  let x := x ||| x >>> 8
  let x := x ||| x >>> 16
  x + 1

variable {κ ν : Type}

def khInit (keys : ℕ → κ) (vals : ℕ → ν) : Khash κ ν := ⟨0, 0, 0, 0, ⟨fun _ => 0⟩, keys, vals⟩

def khClear (h : Khash κ ν) : Khash κ ν :=
  if h.nBuckets ≠ 0 then { h with flags := allEmpty, size := 0, nOccupied := 0 } else h

def Khash.setValue (h : Khash κ ν) (x : ℕ) (v : ν) : Khash κ ν :=
  { h with vals := update h.vals x v }

/-- The arrays in `kh_resize`. -/
structure Rehash (κ ν : Type) where
  flags : Flags
  newFlags : Flags
  keys : ℕ → κ
  vals : ℕ → ν

variable [DecidableEq κ] (hash : κ → ℕ)

def Khash.passes (h : Khash κ ν) (key : κ) (i : ℕ) : Bool :=
  !acIsEmpty h.flags i && (acIsDel h.flags i || h.keys i != key)

def khGetStep (h : Khash κ ν) (key : κ) (last : ℕ) : ℕ × ℕ → (ℕ × ℕ) ⊕ ℕ
  | (i, step) =>
    if h.passes key i then
      if (i + (step + 1)) &&& (h.nBuckets - 1) = last then .inr h.nBuckets
      else .inl ((i + (step + 1)) &&& (h.nBuckets - 1), step + 1)
    else .inr (if acIsEither h.flags i then h.nBuckets else i)

/-- The probes are back at `last` within twice the number of buckets, so the loop is over then. -/
def khGet (h : Khash κ ν) (key : κ) : Option ℕ :=
  if h.nBuckets ≠ 0 then
    let last := hash key &&& (h.nBuckets - 1)
    iterate (khGetStep h key last) (2 * h.nBuckets) (last, 0)
  else some 0

def freeStep (newFlags : Flags) (newMask : ℕ) : ℕ × ℕ → (ℕ × ℕ) ⊕ ℕ
  | (i, step) =>
    if !acIsEmpty newFlags i then .inl ((i + (step + 1)) &&& newMask, step + 1) else .inr i

/-- One round of the kick-out process. It leaves with `none` if the search for a free bucket does
not end. -/
def kickOut (nBuckets newNBuckets : ℕ) :
    Rehash κ ν × κ × ν → (Rehash κ ν × κ × ν) ⊕ Option (Rehash κ ν)
  | (r, key, val) =>
    match iterate (freeStep r.newFlags (newNBuckets - 1)) newNBuckets
        (hash key &&& (newNBuckets - 1), 0) with
    | none => .inr none
    | some i =>
      let moved := { r with
        newFlags := acSetIsEmptyFalse r.newFlags i
        keys := update r.keys i key
        vals := update r.vals i val }
      if i < nBuckets ∧ acIsEither r.flags i = false then
        .inl ({ moved with flags := acSetIsDelTrue r.flags i }, r.keys i, r.vals i)
      else .inr (some moved)

/-- The body of the loop over the old buckets. Each round of the kick-out process but the last one
marks an old bucket as deleted. -/
def rehashBucket (nBuckets newNBuckets : ℕ) (r : Rehash κ ν) (j : ℕ) : Option (Rehash κ ν) :=
  if acIsEither r.flags j = false then
    (iterate (kickOut hash nBuckets newNBuckets) (nBuckets + 1)
      ({ r with flags := acSetIsDelTrue r.flags j }, r.keys j, r.vals j)).join
  else some r

/-- `kh_resize`, with memory that is always there. -/
def khResize (h : Khash κ ν) (newNBuckets : ℕ) : Option (Khash κ ν) :=
  let n := if kroundup32 newNBuckets < 4 then 4 else kroundup32 newNBuckets
  if hashUpper n ≤ h.size then some h
  else do
    let r ← (List.range h.nBuckets).foldlM (rehashBucket hash h.nBuckets n)
      ⟨h.flags, allEmpty, h.keys, h.vals⟩
    some ⟨n, h.size, h.size, hashUpper n, r.newFlags, r.keys, r.vals⟩

def khGrow (h : Khash κ ν) : Option (Khash κ ν) :=
  if h.upperBound ≤ h.nOccupied then
    if h.size <<< 1 < h.nBuckets then khResize hash h (h.nBuckets - 1)
    else khResize hash h (h.nBuckets + 1)
  else some h

def khPutStep (h : Khash κ ν) (key : κ) (last : ℕ) : ℕ × ℕ × ℕ → (ℕ × ℕ × ℕ) ⊕ (ℕ × ℕ × ℕ)
  | (i, step, site) =>
    if h.passes key i then
      let site := if acIsDel h.flags i then i else site
      if (i + (step + 1)) &&& (h.nBuckets - 1) = last then .inr (last, site, site)
      else .inl ((i + (step + 1)) &&& (h.nBuckets - 1), step + 1, site)
    else .inr (i, site, h.nBuckets)

def putBucket (h : Khash κ ν) (key : κ) : Option ℕ :=
  let last := hash key &&& (h.nBuckets - 1)
  if acIsEmpty h.flags last then some last
  else do
    let (i, site, x) ← iterate (khPutStep h key last) (2 * h.nBuckets) (last, 0, h.nBuckets)
    if x = h.nBuckets then some (if acIsEmpty h.flags i && site != h.nBuckets then site else i)
    else some x

def khPut (h : Khash κ ν) (key : κ) : Option (Khash κ ν × ℕ × ℤ) := do
  let h ← khGrow hash h
  let x ← putBucket hash h key
  if acIsEmpty h.flags x then
    some ({ h with
      keys := update h.keys x key
      flags := acSetIsBothFalse h.flags x
      size := h.size + 1
      nOccupied := h.nOccupied + 1 }, x, 1)
  else if acIsDel h.flags x then
    some ({ h with
      keys := update h.keys x key
      flags := acSetIsBothFalse h.flags x
      size := h.size + 1 }, x, 2)
  else some (h, x, 0)

end Nyx
