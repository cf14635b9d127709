import Mathlib.Algebra.Order.Ring.Int
import Nyx.Lib.Iterate

/-!
# Testing a range of a dirty bitmap

`bitmap_test_atomic` is `bitmap_test_and_clear_atomic` with masks that no longer clear; the loop
over the full words still exchanges each word with zero.
-/

namespace Nyx.DirtyBitmap

def BITS_PER_LONG : ℕ := 64

abbrev Word := BitVec BITS_PER_LONG

def ULONG_MAX : Word := BitVec.allOnes BITS_PER_LONG

def bitWord (nr : ℕ) : ℕ := nr / BITS_PER_LONG

def bitmapFirstWordMask (start : ℕ) : Word := ULONG_MAX <<< (start % BITS_PER_LONG)

/-- `BITMAP_LAST_WORD_MASK`, a right shift by `-nbits & (BITS_PER_LONG - 1)`. -/
def bitmapLastWordMask (nbits : ℕ) : Word :=
  ULONG_MAX >>> ((-(nbits : ℤ)) % (BITS_PER_LONG : ℤ)).toNat

/-- The variables of the scan. -/
structure Scan where
  map : List Word
  p : ℕ
  nr : ℕ
  bitsToClear : ℕ
  maskToClear : Word
  dirty : Word
  deriving DecidableEq

namespace Scan

def init (map : List Word) (start nr : ℕ) : Scan where
  map := map
  p := bitWord start
  nr := nr
  bitsToClear := BITS_PER_LONG - start % BITS_PER_LONG
  maskToClear := bitmapFirstWordMask start
  dirty := 0

def firstWord (s : Scan) : Option Scan :=
  if s.bitsToClear < s.nr then do
    let oldBits ← s.map[s.p]?
    return { map := s.map.set s.p (oldBits &&& ULONG_MAX)
             p := s.p + 1
             nr := s.nr - s.bitsToClear
             bitsToClear := BITS_PER_LONG
             maskToClear := ULONG_MAX
             dirty := s.dirty ||| (oldBits &&& s.maskToClear) }
  else
    some s

def fullWord (s : Scan) : Scan ⊕ Option Scan :=
  if BITS_PER_LONG ≤ s.nr then
    match s.map[s.p]? with
    | none => .inr none
    | some word =>
      if word ≠ 0 then
        .inl { s with map := s.map.set s.p 0, dirty := s.dirty ||| word,
                      nr := s.nr - BITS_PER_LONG, p := s.p + 1 }
      else
        .inl { s with nr := s.nr - BITS_PER_LONG, p := s.p + 1 }
  else
    .inr (some s)

def fullWords (s : Scan) : Option Scan :=
  if s.bitsToClear = BITS_PER_LONG then (iterate fullWord (s.nr + 1) s).join else some s

def lastWord (size : ℕ) (s : Scan) : Option Scan :=
  if s.nr ≠ 0 then do
    let oldBits ← s.map[s.p]?
    let maskToClear := s.maskToClear &&& bitmapLastWordMask size
    return { s with map := s.map.set s.p (oldBits &&& ULONG_MAX)
                    maskToClear := maskToClear
                    dirty := s.dirty ||| (oldBits &&& maskToClear) }
  else
    some s

end Scan

/-- The answer and the bitmap afterwards; `none` if the assertion fails or a word outside of the
map is read. -/
def bitmapTestAtomic (map : List Word) (start nr : ℤ) : Option (Bool × List Word) :=
  if 0 ≤ start ∧ 0 ≤ nr then do
    let s ← (Scan.init map start.toNat nr.toNat).firstWord
    let s ← s.fullWords
    let s ← s.lastWord (start.toNat + nr.toNat)
    return (s.dirty != 0, s.map)
  else
    none

def bitAt (map : List Word) (i : ℕ) : Bool :=
  (map.getD (i / BITS_PER_LONG) 0).getLsbD (i % BITS_PER_LONG)

/-- The words that the loop over the full words visits: those that lie inside the range, without
the one the range starts with unless it is the whole range. -/
def Exchanged (start nr k : ℕ) : Prop :=
  start ≤ BITS_PER_LONG * k ∧ BITS_PER_LONG * k + BITS_PER_LONG ≤ start + nr ∧
    (BITS_PER_LONG * k = start → nr = BITS_PER_LONG)

instance (start nr k : ℕ) : Decidable (Exchanged start nr k) :=
  inferInstanceAs (Decidable (_ ∧ _ ∧ _))

def clearWords (map : List Word) (a b : ℕ) : List Word :=
  map.mapIdx fun k word => if a ≤ k ∧ k < b then 0 else word

section Words

variable {map : List Word} {w : Word}

lemma getElem?_clearWords (map : List Word) (a b k : ℕ) :
    (clearWords map a b)[k]? = map[k]?.map fun word => if a ≤ k ∧ k < b then 0 else word := by
  rw [clearWords, List.getElem?_mapIdx]

lemma set_of_getElem? {α : Type} {l : List α} {a : α} {k : ℕ} (h : l[k]? = some a) :
    l.set k a = l := by
  obtain ⟨hk, rfl⟩ := List.getElem?_eq_some_iff.mp h
  exact List.set_getElem_self hk

lemma clearWords_self (map : List Word) (a : ℕ) : clearWords map a a = map := by
  apply List.ext_getElem?
  intro k
  have hempty : ¬ (a ≤ k ∧ k < a) := by omega
  simp [getElem?_clearWords, hempty]

lemma set_clearWords {a b : ℕ} (hab : a ≤ b) :
    (clearWords map a b).set b 0 = clearWords map a (b + 1) := by
  apply List.ext_getElem?
  intro k
  rw [List.getElem?_set, getElem?_clearWords, getElem?_clearWords]
  by_cases hk : b = k
  · subst hk
    have hin : a ≤ b ∧ b < b + 1 := by omega
    by_cases hlt : b < map.length
    · simp [clearWords, hin, hlt]
    · simp [clearWords, hlt]
  · have hiff : (a ≤ k ∧ k < b) ↔ (a ≤ k ∧ k < b + 1) := by omega
    simp [hk, hiff]

lemma clearWords_succ_of_zero {a b : ℕ} (hb : map[b]? = some 0) :
    clearWords map a b = clearWords map a (b + 1) := by
  apply List.ext_getElem?
  intro k
  rw [getElem?_clearWords, getElem?_clearWords]
  by_cases hk : k = b
  · subst hk
    simp [hb]
  · have hiff : (a ≤ k ∧ k < b) ↔ (a ≤ k ∧ k < b + 1) := by omega
    simp [hiff]

lemma clearWords_eq_self_iff {a b : ℕ} (hb : b ≤ map.length) :
    clearWords map a b = map ↔ ∀ k, a ≤ k → k < b → map[k]? = some 0 := by
  constructor
  · intro h k hak hkb
    have hk := congrArg (fun l => l[k]?) h
    rw [getElem?_clearWords, List.getElem?_eq_getElem (Nat.lt_of_lt_of_le hkb hb)] at hk
    rw [List.getElem?_eq_getElem (Nat.lt_of_lt_of_le hkb hb), ← hk]
    simp [hak, hkb]
  · intro h
    apply List.ext_getElem?
    intro k
    rw [getElem?_clearWords]
    by_cases hk : a ≤ k ∧ k < b
    · simp [h k hk.1 hk.2, hk]
    · simp [hk]

lemma word_ne_zero_iff : w ≠ 0 ↔ ∃ j, j < BITS_PER_LONG ∧ w.getLsbD j := by
  constructor
  · intro h
    by_contra hall
    apply h
    apply BitVec.eq_of_getLsbD_eq
    intro j hj
    have hclear : ¬ w.getLsbD j = true := fun hset => hall ⟨j, hj, hset⟩
    simpa using hclear
  · rintro ⟨j, -, hbit⟩ rfl
    simp at hbit

lemma or_ne_zero_iff (v w : Word) : v ||| w ≠ 0 ↔ v ≠ 0 ∨ w ≠ 0 := by
  simp only [word_ne_zero_iff, BitVec.getLsbD_or, Bool.or_eq_true]
  constructor
  · rintro ⟨j, hj, h | h⟩
    · exact .inl ⟨j, hj, h⟩
    · exact .inr ⟨j, hj, h⟩
  · rintro (⟨j, hj, h⟩ | ⟨j, hj, h⟩)
    · exact ⟨j, hj, .inl h⟩
    · exact ⟨j, hj, .inr h⟩

lemma zero_or_word (w : Word) : 0 ||| w = w := BitVec.zero_or

lemma and_ULONG_MAX (w : Word) : w &&& ULONG_MAX = w := BitVec.and_allOnes

lemma getLsbD_ULONG_MAX (j : ℕ) : ULONG_MAX.getLsbD j = decide (j < BITS_PER_LONG) :=
  BitVec.getLsbD_allOnes

lemma getLsbD_firstWordMask (start j : ℕ) :
    (bitmapFirstWordMask start).getLsbD j =
      decide (start % BITS_PER_LONG ≤ j ∧ j < BITS_PER_LONG) := by
  rw [bitmapFirstWordMask, BitVec.getLsbD_shiftLeft, getLsbD_ULONG_MAX, Bool.eq_iff_iff]
  simp only [Bool.and_eq_true, Bool.not_eq_true', decide_eq_true_eq, decide_eq_false_iff_not]
  omega

lemma getLsbD_lastWordMask {size j p : ℕ} (hp : BITS_PER_LONG * p < size)
    (hend : size ≤ BITS_PER_LONG * p + BITS_PER_LONG) :
    (bitmapLastWordMask size).getLsbD j = decide (BITS_PER_LONG * p + j < size) := by
  rw [bitmapLastWordMask, BitVec.getLsbD_ushiftRight, getLsbD_ULONG_MAX]
  rw [decide_eq_decide]
  simp only [BITS_PER_LONG] at hp hend ⊢
  omega

end Words

def AnyBit (map : List Word) (a b : ℕ) : Prop := ∃ i, a ≤ i ∧ i < b ∧ bitAt map i = true

section Range

variable {map : List Word} {w mask : Word} {a b m p : ℕ}

lemma anyBit_split (ham : a ≤ m) (hmb : m ≤ b) :
    AnyBit map a b ↔ AnyBit map a m ∨ AnyBit map m b := by
  constructor
  · rintro ⟨i, hai, hib, hbit⟩
    by_cases him : i < m
    · exact .inl ⟨i, hai, him, hbit⟩
    · exact .inr ⟨i, by omega, hib, hbit⟩
  · rintro (⟨i, hai, him, hbit⟩ | ⟨i, hmi, hib, hbit⟩)
    · exact ⟨i, hai, by omega, hbit⟩
    · exact ⟨i, by omega, hib, hbit⟩

lemma not_anyBit_self : ¬ AnyBit map a a := by
  rintro ⟨i, hai, hia, -⟩
  omega

variable (hword : map[p]? = some w)
include hword

lemma bitAt_of_word {j : ℕ} (hj : j < BITS_PER_LONG) :
    bitAt map (BITS_PER_LONG * p + j) = w.getLsbD j := by
  have hdiv : (BITS_PER_LONG * p + j) / BITS_PER_LONG = p := by
    simp only [BITS_PER_LONG] at hj ⊢
    omega
  have hmod : (BITS_PER_LONG * p + j) % BITS_PER_LONG = j := by
    simp only [BITS_PER_LONG] at hj ⊢
    omega
  rw [bitAt, hdiv, hmod, List.getD_eq_getElem?_getD, hword, Option.getD_some]

lemma masked_ne_zero_iff (ha : BITS_PER_LONG * p ≤ a)
    (hb : b ≤ BITS_PER_LONG * p + BITS_PER_LONG)
    (hmask : ∀ j, j < BITS_PER_LONG → mask.getLsbD j =
      decide (a ≤ BITS_PER_LONG * p + j ∧ BITS_PER_LONG * p + j < b)) :
    w &&& mask ≠ 0 ↔ AnyBit map a b := by
  rw [word_ne_zero_iff]
  constructor
  · rintro ⟨j, hj, hbit⟩
    rw [BitVec.getLsbD_and, hmask j hj, Bool.and_eq_true, decide_eq_true_eq] at hbit
    exact ⟨BITS_PER_LONG * p + j, hbit.2.1, hbit.2.2, (bitAt_of_word hword hj).trans hbit.1⟩
  · rintro ⟨i, hai, hib, hbit⟩
    obtain ⟨j, rfl⟩ : ∃ j, i = BITS_PER_LONG * p + j := ⟨i - BITS_PER_LONG * p, by omega⟩
    have hj : j < BITS_PER_LONG := by omega
    refine ⟨j, hj, ?_⟩
    rw [BitVec.getLsbD_and, hmask j hj, ← bitAt_of_word hword hj, hbit]
    simp [hai, hib]

lemma word_ne_zero_iff_anyBit :
    w ≠ 0 ↔ AnyBit map (BITS_PER_LONG * p) (BITS_PER_LONG * p + BITS_PER_LONG) := by
  rw [← and_ULONG_MAX w]
  apply masked_ne_zero_iff hword le_rfl le_rfl
  intro j hj
  simp [getLsbD_ULONG_MAX, hj]

end Range

/-- The state of the scan at a word boundary: all before it has been tested, and the words from
`first` on have been cleared. -/
structure AtWord (map : List Word) (start size first : ℕ) (s : Scan) : Prop where
  map_eq : s.map = clearWords map first s.p
  first_le : first ≤ s.p
  start_le : start ≤ BITS_PER_LONG * s.p
  position : BITS_PER_LONG * s.p + s.nr = size
  bitsToClear : s.bitsToClear = BITS_PER_LONG
  maskToClear : s.maskToClear = ULONG_MAX
  dirty : s.dirty ≠ 0 ↔ AnyBit map start (BITS_PER_LONG * s.p)

section Scan

variable {map : List Word} {start nr size first : ℕ} {s : Scan}

lemma AtWord.getElem? (h : AtWord map start size first s) : s.map[s.p]? = map[s.p]? := by
  rw [h.map_eq, getElem?_clearWords]
  simp

lemma AtWord.dirty_or (h : AtWord map start size first s) {v : Word} {b : ℕ}
    (hb : BITS_PER_LONG * s.p ≤ b) (hv : v ≠ 0 ↔ AnyBit map (BITS_PER_LONG * s.p) b) :
    s.dirty ||| v ≠ 0 ↔ AnyBit map start b := by
  rw [or_ne_zero_iff, h.dirty, hv, ← anyBit_split h.start_le hb]

section

variable (hfit : size ≤ BITS_PER_LONG * map.length) (h : AtWord map start size first s)
include hfit h

lemma fullWord_atWord :
    (s.nr < BITS_PER_LONG ∧ s.fullWord = .inr (some s)) ∨
      ∃ s', s.fullWord = .inl s' ∧ AtWord map start size first s' ∧ s'.nr < s.nr := by
  have hposition := h.position
  rw [Scan.fullWord]
  by_cases hnr : BITS_PER_LONG ≤ s.nr
  · right
    have hp : s.p < map.length := by
      simp only [BITS_PER_LONG] at hfit hposition hnr
      omega
    obtain ⟨word, hword⟩ : ∃ word, map[s.p]? = some word :=
      ⟨map[s.p], List.getElem?_eq_getElem hp⟩
    have hnext : BITS_PER_LONG * (s.p + 1) + (s.nr - BITS_PER_LONG) = size := by
      simp only [BITS_PER_LONG] at hposition hnr ⊢
      omega
    have hdirty := word_ne_zero_iff_anyBit hword
    have hle : BITS_PER_LONG * s.p ≤ BITS_PER_LONG * (s.p + 1) :=
      Nat.mul_le_mul_left _ (Nat.le_succ _)
    have hless : s.nr - BITS_PER_LONG < s.nr := by
      simp only [BITS_PER_LONG] at hnr ⊢
      omega
    rw [if_pos hnr, h.getElem?, hword]
    by_cases hzero : word = 0
    · subst hzero
      refine ⟨_, rfl, ⟨?_, ?_, h.start_le.trans hle, hnext, h.bitsToClear, h.maskToClear, ?_⟩, hless⟩
      · exact h.map_eq.trans (clearWords_succ_of_zero hword)
      · exact h.first_le.trans (Nat.le_succ _)
      · have hor := h.dirty_or hle hdirty
        simpa using hor
    · refine ⟨{ s with map := s.map.set s.p 0, dirty := s.dirty ||| word,
                       nr := s.nr - BITS_PER_LONG, p := s.p + 1 }, if_pos hzero,
        ⟨?_, ?_, h.start_le.trans hle, hnext, h.bitsToClear, h.maskToClear, ?_⟩, hless⟩
      · rw [h.map_eq, set_clearWords h.first_le]
      · exact h.first_le.trans (Nat.le_succ _)
      · exact h.dirty_or hle hdirty
  · left
    rw [if_neg hnr]
    exact ⟨Nat.lt_of_not_le hnr, rfl⟩

lemma fullWords_atWord :
    ∃ s', s.fullWords = some s' ∧ AtWord map start size first s' ∧ s'.nr < BITS_PER_LONG := by
  have hloop : ∃ r, iterate Scan.fullWord (s.nr + 1) s = some r ∧
      ∃ s', r = some s' ∧ AtWord map start size first s' ∧ s'.nr < BITS_PER_LONG := by
    refine iterate_total (P := AtWord map start size first) Scan.nr ?_ h le_rfl
    intro t ht
    obtain ⟨hnr, hdone⟩ | hgo := fullWord_atWord hfit ht
    · exact .inl ⟨some t, hdone, t, rfl, ht, hnr⟩
    · exact .inr hgo
  obtain ⟨r, hr, s', rfl, hs'⟩ := hloop
  refine ⟨s', ?_, hs'⟩
  rw [Scan.fullWords, if_pos h.bitsToClear, hr]
  rfl

lemma lastWord_atWord (hnr : s.nr < BITS_PER_LONG) :
    ∃ s', s.lastWord size = some s' ∧ s'.map = clearWords map first s.p ∧
      (s'.dirty ≠ 0 ↔ AnyBit map start size) := by
  have hposition := h.position
  rw [Scan.lastWord]
  by_cases hzero : s.nr = 0
  · rw [if_neg (not_not_intro hzero)]
    refine ⟨s, rfl, h.map_eq, ?_⟩
    rw [h.dirty, ← hposition, hzero, Nat.add_zero]
  · have hp : s.p < map.length := by
      simp only [BITS_PER_LONG] at hfit hposition
      omega
    have hword : map[s.p]? = some map[s.p] := List.getElem?_eq_getElem hp
    rw [if_pos hzero, h.getElem?, hword]
    refine ⟨_, rfl, ?_, ?_⟩
    · rw [and_ULONG_MAX, ← h.map_eq]
      exact set_of_getElem? (h.getElem?.trans hword)
    · apply h.dirty_or (by omega)
      apply masked_ne_zero_iff hword le_rfl (by omega)
      intro j hj
      rw [h.maskToClear, BitVec.getLsbD_and, getLsbD_ULONG_MAX,
        getLsbD_lastWordMask (p := s.p) (by omega) (by omega)]
      simp [hj]

end

lemma firstWord_of_lt (hfit : start + nr ≤ BITS_PER_LONG * map.length)
    (hlong : BITS_PER_LONG - start % BITS_PER_LONG < nr) :
    ∃ s, (Scan.init map start nr).firstWord = some s ∧ s.p = bitWord start + 1 ∧
      AtWord map start (start + nr) (bitWord start + 1) s := by
  have hp : bitWord start < map.length := by
    simp only [BITS_PER_LONG, bitWord] at hfit hlong ⊢
    omega
  have hword : map[bitWord start]? = some map[bitWord start] := List.getElem?_eq_getElem hp
  have hinit : (Scan.init map start nr).map[(Scan.init map start nr).p]? =
      some map[bitWord start] := hword
  rw [Scan.firstWord, if_pos (by exact hlong), hinit]
  refine ⟨_, rfl, rfl, ⟨?_, le_rfl, ?_, ?_, rfl, rfl, ?_⟩⟩
  · show map.set (bitWord start) (_ &&& ULONG_MAX) = _
    rw [and_ULONG_MAX, set_of_getElem? hword]
    exact (clearWords_self map _).symm
  · show start ≤ BITS_PER_LONG * (bitWord start + 1)
    simp only [BITS_PER_LONG, bitWord]
    omega
  · show BITS_PER_LONG * (bitWord start + 1) + (nr - (BITS_PER_LONG - start % BITS_PER_LONG)) = _
    simp only [BITS_PER_LONG, bitWord] at hlong ⊢
    omega
  · show (0 : Word) ||| (_ &&& bitmapFirstWordMask start) ≠ 0 ↔
      AnyBit map start (BITS_PER_LONG * (bitWord start + 1))
    rw [zero_or_word]
    apply masked_ne_zero_iff hword
    · simp only [BITS_PER_LONG, bitWord]
      omega
    · rw [Nat.mul_succ]
    · intro j hj
      rw [getLsbD_firstWordMask, decide_eq_decide]
      simp only [BITS_PER_LONG, bitWord] at hj ⊢
      omega

lemma init_atWord (haligned : start % BITS_PER_LONG = 0) :
    AtWord map start (start + nr) (bitWord start) (Scan.init map start nr) := by
  have hstart : BITS_PER_LONG * bitWord start = start := by
    simp only [BITS_PER_LONG, bitWord] at haligned ⊢
    omega
  refine ⟨(clearWords_self map _).symm, le_rfl, hstart.ge, ?_, ?_, ?_, ?_⟩
  · show BITS_PER_LONG * bitWord start + nr = _
    rw [hstart]
  · show BITS_PER_LONG - start % BITS_PER_LONG = _
    rw [haligned, Nat.sub_zero]
  · show bitmapFirstWordMask start = _
    rw [bitmapFirstWordMask, haligned, BitVec.shiftLeft_zero]
  · show (0 : Word) ≠ 0 ↔ AnyBit map start (BITS_PER_LONG * bitWord start)
    rw [hstart]
    simp [not_anyBit_self]

lemma lastWord_inside (hfit : start + nr ≤ BITS_PER_LONG * map.length)
    (hshort : nr ≤ BITS_PER_LONG - start % BITS_PER_LONG) :
    ∃ s, (Scan.init map start nr).lastWord (start + nr) = some s ∧ s.map = map ∧
      (s.dirty ≠ 0 ↔ AnyBit map start (start + nr)) := by
  rw [Scan.lastWord]
  by_cases hzero : nr = 0
  · subst hzero
    exact ⟨_, if_neg (not_not_intro rfl), rfl, by simp [Scan.init, not_anyBit_self]⟩
  · have hp : bitWord start < map.length := by
      simp only [BITS_PER_LONG, bitWord] at hfit hshort ⊢
      omega
    have hword : map[bitWord start]? = some map[bitWord start] := List.getElem?_eq_getElem hp
    have hinit : (Scan.init map start nr).map[(Scan.init map start nr).p]? =
        some map[bitWord start] := hword
    rw [if_pos (by exact hzero), hinit]
    refine ⟨_, rfl, ?_, ?_⟩
    · show map.set (bitWord start) (_ &&& ULONG_MAX) = map
      rw [and_ULONG_MAX, set_of_getElem? hword]
    · show (0 : Word) |||
        (_ &&& (bitmapFirstWordMask start &&& bitmapLastWordMask (start + nr))) ≠ 0 ↔ _
      have hend : start + nr ≤ BITS_PER_LONG * bitWord start + BITS_PER_LONG := by
        simp only [BITS_PER_LONG, bitWord] at hshort ⊢
        omega
      have hbegin : BITS_PER_LONG * bitWord start ≤ start := Nat.mul_div_le start BITS_PER_LONG
      rw [zero_or_word]
      apply masked_ne_zero_iff hword hbegin hend
      intro j hj
      rw [BitVec.getLsbD_and, getLsbD_firstWordMask,
        getLsbD_lastWordMask (p := bitWord start) (by omega) hend, ← Bool.decide_and,
        decide_eq_decide]
      simp only [BITS_PER_LONG, bitWord] at hj ⊢
      omega

lemma words_atWord (hfit : size ≤ BITS_PER_LONG * map.length) (h : AtWord map start size first s) :
    ∃ s', (s.fullWords >>= Scan.lastWord size) = some s' ∧
      s'.map = clearWords map first (size / BITS_PER_LONG) ∧
      (s'.dirty ≠ 0 ↔ AnyBit map start size) := by
  obtain ⟨t, hfull, ht, hnr⟩ := fullWords_atWord hfit h
  obtain ⟨s', hlast, hmap, hdirty⟩ := lastWord_atWord hfit ht hnr
  have hp : t.p = size / BITS_PER_LONG := by
    have hposition := ht.position
    simp only [BITS_PER_LONG] at hposition hnr ⊢
    omega
  refine ⟨s', ?_, hp ▸ hmap, hdirty⟩
  rw [hfull]
  exact hlast

end Scan

theorem bitmapTestAtomic_spec (map : List Word) (start nr : ℕ)
    (hfit : start + nr ≤ BITS_PER_LONG * map.length) :
    ∃ dirty first last, bitmapTestAtomic map start nr = some (dirty, clearWords map first last) ∧
      (dirty = true ↔ AnyBit map start (start + nr)) ∧ last ≤ map.length ∧
      ∀ k, Exchanged start nr k ↔ first ≤ k ∧ k < last := by
  have hlast : (start + nr) / BITS_PER_LONG ≤ map.length := by
    simp only [BITS_PER_LONG] at hfit ⊢
    omega
  have hrun : bitmapTestAtomic map start nr =
      ((Scan.init map start nr).firstWord >>= fun s =>
        (s.fullWords >>= Scan.lastWord (start + nr)) >>= fun s =>
          some (s.dirty != 0, s.map)) := by
    simp [bitmapTestAtomic, Option.bind_assoc]
  rw [hrun]
  by_cases hlong : BITS_PER_LONG - start % BITS_PER_LONG < nr
  · obtain ⟨s, hfirst, -, hs⟩ := firstWord_of_lt hfit hlong
    obtain ⟨s', hrest, hmap, hdirty⟩ := words_atWord hfit hs
    refine ⟨s'.dirty != 0, bitWord start + 1, (start + nr) / BITS_PER_LONG, ?_, ?_, hlast, ?_⟩
    · rw [hfirst, Option.bind_eq_bind, Option.bind_some, hrest, ← hmap]
      rfl
    · rw [bne_iff_ne, hdirty]
    · intro k
      simp only [Exchanged, BITS_PER_LONG, bitWord] at hlong ⊢
      omega
  · have hfirst : (Scan.init map start nr).firstWord = some (Scan.init map start nr) := if_neg hlong
    rw [hfirst, Option.bind_eq_bind, Option.bind_some]
    by_cases haligned : start % BITS_PER_LONG = 0
    · obtain ⟨s', hrest, hmap, hdirty⟩ := words_atWord hfit (init_atWord haligned)
      refine ⟨s'.dirty != 0, bitWord start, (start + nr) / BITS_PER_LONG, ?_, ?_, hlast, ?_⟩
      · rw [hrest, ← hmap]
        rfl
      · rw [bne_iff_ne, hdirty]
      · intro k
        simp only [Exchanged, BITS_PER_LONG, bitWord] at hlong haligned ⊢
        omega
    · obtain ⟨s', hrest, hmap, hdirty⟩ :=
        lastWord_inside hfit (Nat.le_of_not_lt hlong)
      have hskip : (Scan.init map start nr).fullWords = some (Scan.init map start nr) := by
        apply if_neg
        show BITS_PER_LONG - start % BITS_PER_LONG ≠ BITS_PER_LONG
        simp only [BITS_PER_LONG] at haligned ⊢
        omega
      refine ⟨s'.dirty != 0, 0, 0, ?_, ?_, Nat.zero_le _, ?_⟩
      · rw [hskip, Option.bind_eq_bind, Option.bind_some, hrest, clearWords_self, ← hmap]
        rfl
      · rw [bne_iff_ne, hdirty]
      · intro k
        simp only [Exchanged, BITS_PER_LONG] at hlong haligned ⊢
        omega

/-- The test answers whether a bit of the range is set and leaves the bitmap as it is. -/
def TestsOnly (map : List Word) (start nr : ℤ) : Prop :=
  ∃ dirty, bitmapTestAtomic map start nr = some (dirty, map) ∧
    (dirty = true ↔ ∃ i : ℕ, start ≤ i ∧ i < start + nr ∧ bitAt map i = true)

/-- The bitmap is left alone exactly if the words that are exchanged with zero are zero. -/
theorem bitmapTestAtomic_testsOnly_iff (map : List Word) (start nr : ℤ) (hstart : 0 ≤ start)
    (hnr : 0 ≤ nr) (hfit : start + nr ≤ (BITS_PER_LONG * map.length : ℕ)) :
    TestsOnly map start nr ↔ ∀ k, Exchanged start.toNat nr.toNat k → map[k]? = some 0 := by
  obtain ⟨start, rfl⟩ := Int.eq_ofNat_of_zero_le hstart
  obtain ⟨nr, rfl⟩ := Int.eq_ofNat_of_zero_le hnr
  obtain ⟨dirty, first, last, hrun, hdirty, hlast, hexchanged⟩ :=
    bitmapTestAtomic_spec map start nr (by exact_mod_cast hfit)
  have hanswer : dirty = true ↔ ∃ i : ℕ, (start : ℤ) ≤ i ∧ (i : ℤ) < start + nr ∧
      bitAt map i = true := by
    rw [hdirty]
    exact exists_congr fun i => by norm_cast
  have hmap : TestsOnly map start nr ↔ clearWords map first last = map := by
    constructor
    · rintro ⟨dirty', hrun', -⟩
      rw [hrun, Option.some.injEq, Prod.mk.injEq] at hrun'
      exact hrun'.2
    · intro hsame
      exact ⟨dirty, hrun.trans (by rw [hsame]), hanswer⟩
  rw [hmap, clearWords_eq_self_iff hlast]
  simp only [Int.toNat_natCast, hexchanged, and_imp]

theorem bitmapTestAtomic_testsOnly_gap : TestsOnly [1, 0, 2] 0 130 :=
  (bitmapTestAtomic_testsOnly_iff [1, 0, 2] 0 130 (by decide) (by decide) (by decide)).mpr
    fun k hk => by
      obtain ⟨-, hend, hfirst⟩ := hk
      obtain rfl : k = 1 := by
        simp only [BITS_PER_LONG] at hend hfirst
        omega
      rfl

/-- A dirty word in the middle of the range: the test finds it, and the same test does not find it
again. -/
theorem bitmapTestAtomic_middleWord : bitmapTestAtomic [0, 1, 0] 0 192 = some (true, [0, 0, 0]) ∧
    bitmapTestAtomic [0, 0, 0] 0 192 = some (false, [0, 0, 0]) ∧ ¬ TestsOnly [0, 1, 0] 0 192 := by
  have hrun : bitmapTestAtomic [0, 1, 0] 0 192 = some (true, [0, 0, 0]) := by decide +kernel
  refine ⟨hrun, by decide +kernel, ?_⟩
  rintro ⟨dirty, hsame, -⟩
  rw [hrun] at hsame
  cases hsame

end Nyx.DirtyBitmap
