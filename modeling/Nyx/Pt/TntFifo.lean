import Nyx.Lib.Machine
import Nyx.Pt.TntCache

/-!
# The TNT ring as a queue of bits

The ring in its branch-less form, the ring with one byte for each bit and a plain list of bits give
the same answers.
-/

namespace Nyx.Pt

open Function

def shortTntOffset : UInt8 := 1

/-- The position of the highest bit that is set; the instruction leaves it open for zero. -/
def asmBsr (x : UInt64) : UInt8 := UInt8.ofNat (Nat.log2 x.toNat)

def shortTntBits (data : UInt8) : ℕ := (asmBsr data.toUInt64 - shortTntOffset).toNat

def ShortTnt (data : UInt8) : Prop := data.toNat % 2 = 0 ∧ 4 ≤ data.toNat

instance : DecidablePred ShortTnt := fun data => by unfold ShortTnt; infer_instance

/-- The branches of a packet; the oldest one is the bit below the stop bit. -/
def branches (data : UInt8) : List Bool :=
  (List.range (shortTntBits data)).map fun j => data.toNat.testBit (shortTntBits data - j)

lemma shortTntBits_spec {data : UInt8} (h : ShortTnt data) :
    1 ≤ shortTntBits data ∧ shortTntBits data ≤ 6 ∧
      2 ^ (shortTntBits data + 1) ≤ data.toNat ∧ data.toNat < 2 ^ (shortTntBits data + 2) := by
  obtain ⟨-, h4⟩ := h
  have hlt : data.toNat < 2 ^ 8 := data.toNat_lt
  have hlow : 2 ≤ Nat.log2 data.toNat := (Nat.le_log2 (by omega)).mpr h4
  have hhigh : Nat.log2 data.toNat < 8 := (Nat.log2_lt (by omega)).mpr hlt
  have hbsr : (asmBsr data.toUInt64).toNat = Nat.log2 data.toNat := by
    rw [asmBsr, UInt8.toNat_toUInt64, UInt8.toNat_ofNat_of_lt' (by simp [UInt8.size]; omega)]
  have hbits : shortTntBits data = Nat.log2 data.toNat - 1 := by
    have hle : shortTntOffset ≤ asmBsr data.toUInt64 := by
      rw [UInt8.le_iff_toNat_le, hbsr]
      exact Nat.le_trans (by decide) hlow
    rw [shortTntBits, UInt8.toNat_sub_of_le _ _ hle, hbsr]
    rfl
  have hself := Nat.log2_self_le (n := data.toNat) (by omega)
  have hnext := Nat.lt_log2_self (n := data.toNat)
  rw [hbits, show Nat.log2 data.toNat - 1 + 1 = Nat.log2 data.toNat by omega,
    show Nat.log2 data.toNat - 1 + 2 = Nat.log2 data.toNat + 1 by omega]
  exact ⟨by omega, by omega, hself, hnext⟩

namespace TntCache

def tntCacheInit : TntCache := ⟨fun _ => 0, 0, 0⟩

def tntCacheFlush (t : TntCache) : TntCache := { t with blPos := 0, blTnt := 0 }

/-- The two words from `offset` on with the packet put behind the bits that are in use. -/
def appendResult (offset : ℕ) (value1 value2 : UInt32) (data : UInt8) : UInt64 :=
  let tmpData := (data.toUInt64 <<< UInt64.ofNat (64 - shortTntBits data - 1)) >>>
    UInt64.ofNat (offset % 32)
  let tmpValue := (value1.toUInt64 <<< UInt64.ofNat 32) ||| value2.toUInt64
  (tmpValue &&& ~~~((0xFFFFFFFFFFFFFFFF : UInt64) >>> UInt64.ofNat (offset % 32))) ||| tmpData

def appendTntCache (t : TntCache) (data : UInt8) : TntCache :=
  let offset := t.blTnt + t.blPos
  let result := appendResult offset (t.blTntMemory (offset / 32 % blBufEntries))
    (t.blTntMemory ((offset / 32 + 1) % blBufEntries)) data
  { t with
    blTntMemory := update
      (update t.blTntMemory (offset / 32 % blBufEntries) (result >>> 32).toUInt32)
      ((offset / 32 + 1) % blBufEntries) (result &&& 0xFFFFFFFF).toUInt32
    blTnt := t.blTnt + shortTntBits data }

lemma testBit_not64 (x : UInt64) {i : ℕ} (hi : i < 64) :
    (~~~x).toNat.testBit i = !x.toNat.testBit i := by
  rw [← UInt64.toNat_toBitVec, ← UInt64.toNat_toBitVec, BitVec.testBit_toNat,
    BitVec.testBit_toNat, UInt64.toBitVec_not, BitVec.getLsbD_not]
  simp [hi]

lemma testBit_appendResult (offset : ℕ) (w1 w2 : UInt32) {data : UInt8} (h : ShortTnt data)
    {k : ℕ} (hk : k < 64) :
    (appendResult offset w1 w2 data).toNat.testBit (63 - k) =
      if k < offset % 32 then w1.toNat.testBit (31 - k)
      else decide (k - offset % 32 < shortTntBits data) &&
        data.toNat.testBit (shortTntBits data - (k - offset % 32)) := by
  have hle : shortTntBits data ≤ 6 := (shortTntBits_spec h).2.1
  have hlt : offset % 32 < 32 := Nat.mod_lt _ (by decide)
  have hones : ((0xFFFFFFFFFFFFFFFF : UInt64)).toNat = 2 ^ 64 - 1 := rfl
  simp only [appendResult]
  generalize offset % 32 = r at hlt
  rw [UInt64.toNat_or, UInt64.toNat_and, Nat.testBit_or, Nat.testBit_and, UInt64.toNat_or,
    Nat.testBit_or, testBit_shiftLeft64 _ (by decide), UInt32.toNat_toUInt64,
    UInt32.toNat_toUInt64, testBit_not64 _ (by omega), testBit_shiftRight64 _ (by omega), hones,
    Nat.testBit_two_pow_sub_one, testBit_shiftRight64 _ (by omega),
    testBit_shiftLeft64 _ (by omega), UInt8.toNat_toUInt64]
  by_cases hk' : k < r
  · -- the packet starts behind this bit
    have hout : ¬r + (63 - k) < 64 := by omega
    have hword : w2.toNat.testBit (63 - k) = false := testBit_word w2 (by omega)
    have hindex : 63 - k - 32 = 31 - k := by omega
    have hin : 63 - k < 64 ∧ 32 ≤ 63 - k := by omega
    simp [hk', hout, hword, hindex, hin]
  · have hin : r + (63 - k) < 64 := by omega
    rw [if_neg hk']
    by_cases hbranch : k - r < shortTntBits data
    · have hfrom : 64 - shortTntBits data - 1 ≤ r + (63 - k) := by omega
      have hindex : r + (63 - k) - (64 - shortTntBits data - 1) = shortTntBits data - (k - r) := by
        omega
      simp [hin, hbranch, hfrom, hindex]
    · by_cases hzero : k - r = shortTntBits data
      · -- the lowest bit of the packet marks its kind and is zero
        have hindex : r + (63 - k) - (64 - shortTntBits data - 1) = 0 := by omega
        have heven : data.toNat.testBit 0 = false := by simp [h.1]
        simp [hin, hbranch, hindex, heven]
      · have hfrom : ¬64 - shortTntBits data - 1 ≤ r + (63 - k) := by omega
        simp [hin, hbranch, hfrom]

lemma testBit_upperWord (x : UInt64) {i : ℕ} (hi : i < 32) :
    (x >>> 32).toUInt32.toNat.testBit i = x.toNat.testBit (32 + i) := by
  rw [UInt64.toNat_toUInt32, Nat.testBit_mod_two_pow]
  simp only [hi, decide_true, Bool.true_and]
  exact testBit_shiftRight64 x (by decide : 32 < 64) i

lemma testBit_lowerWord (x : UInt64) {i : ℕ} (hi : i < 32) :
    (x &&& 0xFFFFFFFF).toUInt32.toNat.testBit i = x.toNat.testBit i := by
  have hones : (0xFFFFFFFF : UInt64).toNat = 2 ^ 32 - 1 := rfl
  rw [UInt64.toNat_toUInt32, Nat.testBit_mod_two_pow, UInt64.toNat_and, Nat.testBit_and, hones,
    Nat.testBit_two_pow_sub_one]
  simp [hi]

section Append

variable {t : TntCache} {data : UInt8}

lemma bit_appendTntCache_new (h : ShortTnt data) {j : ℕ} (hj : j < shortTntBits data) :
    (t.appendTntCache data).bit (t.blPos + (t.blTnt + j)) =
      data.toNat.testBit (shortTntBits data - j) := by
  have hle : shortTntBits data ≤ 6 := (shortTntBits_spec h).2.1
  simp only [bit, appendTntCache]
  generalize hoffset : t.blTnt + t.blPos = offset
  have hsum : t.blPos + (t.blTnt + j) = offset + j := by omega
  rw [hsum]
  have hwindow := testBit_appendResult offset (t.blTntMemory (offset / 32 % blBufEntries))
    (t.blTntMemory ((offset / 32 + 1) % blBufEntries)) h (k := offset % 32 + j) (by omega)
  by_cases hfirst : offset % 32 + j < 32
  · have hword : (offset + j) / 32 = offset / 32 := by omega
    have hne : offset / 32 % blBufEntries ≠ (offset / 32 + 1) % blBufEntries := by
      simp only [blBufEntries, bufSize]
      omega
    rw [hword, update_of_ne hne, update_self, testBit_upperWord _ (by omega),
      show 32 + (31 - (offset + j) % 32) = 63 - (offset % 32 + j) by omega, hwindow]
    simp [hj]
  · have hword : (offset + j) / 32 = offset / 32 + 1 := by omega
    rw [hword, update_self, testBit_lowerWord _ (by omega),
      show 31 - (offset + j) % 32 = 63 - (offset % 32 + j) by omega, hwindow]
    simp [hj]

lemma bit_appendTntCache_old (h : ShortTnt data) (hroom : t.blTnt ≤ 2 ^ 29 - 64) {j : ℕ}
    (hj : j < t.blTnt) : (t.appendTntCache data).bit (t.blPos + j) = t.bit (t.blPos + j) := by
  simp only [bit, appendTntCache]
  generalize hoffset : t.blTnt + t.blPos = offset
  generalize hp : t.blPos + j = p
  have hsecond : p / 32 % blBufEntries ≠ (offset / 32 + 1) % blBufEntries := by
    simp only [blBufEntries, bufSize]
    omega
  rw [update_of_ne hsecond]
  by_cases hfirst : p / 32 % blBufEntries = offset / 32 % blBufEntries
  · have hword : p / 32 = offset / 32 := by
      simp only [blBufEntries, bufSize] at hfirst
      omega
    rw [hfirst, update_self, testBit_upperWord _ (by omega),
      show 32 + (31 - p % 32) = 63 - p % 32 by omega, testBit_appendResult _ _ _ h (by omega),
      if_pos (by omega)]
  · rw [update_of_ne hfirst]

theorem content_appendTntCache (h : ShortTnt data) (hroom : t.blTnt ≤ 2 ^ 29 - 64) :
    (t.appendTntCache data).content = t.content ++ branches data := by
  apply List.ext_getElem
  · simp [content, branches, appendTntCache]
  · intro j hj hj'
    have hlen : j < t.blTnt + shortTntBits data := by
      rw [length_content] at hj
      exact hj
    simp only [content, List.getElem_map, List.getElem_range]
    have hpos : (t.appendTntCache data).blPos = t.blPos := rfl
    rw [hpos]
    by_cases hold : j < t.blTnt
    · rw [bit_appendTntCache_old h hroom hold, List.getElem_append_left (by simpa using hold)]
      simp
    · obtain ⟨i, rfl⟩ : ∃ i, j = t.blTnt + i := ⟨j - t.blTnt, by omega⟩
      rw [bit_appendTntCache_new h (by omega), List.getElem_append_right (by simp)]
      simp [branches]

end Append

lemma content_adjustTntCache_drop (t : TntCache) (num : ℕ) :
    (t.adjustTntCache num).content = t.content.drop num := by
  by_cases hmany : num ≤ t.blTnt
  · exact content_adjustTntCache t hmany
  · simp only [adjustTntCache, if_pos (by omega : num > t.blTnt)]
    rw [content_advance, List.drop_of_length_le (by rw [length_content]),
      List.drop_of_length_le (by rw [length_content]; omega)]

end TntCache

def TntResult.code : TntResult → UInt8
  | notTaken => 0
  | taken => 1
  | tntEmpty => 2

def TntResult.ofBranch (b : Bool) : TntResult := if b then taken else notTaken

/-- The ring of the build with `NON_BRANCH_LESS_CODE`. -/
structure TntCacheNbl where
  tntMemory : ℕ → UInt8
  pos : ℕ
  max : ℕ
  tnt : ℕ

namespace TntCacheNbl

def tntCacheInit : TntCacheNbl := ⟨fun _ => 0, 0, 0, 0⟩

def tntCacheFlush (t : TntCacheNbl) : TntCacheNbl := { t with max := 0, pos := 0, tnt := 0 }

def processTntCacheNbl (t : TntCacheNbl) : UInt8 × TntCacheNbl :=
  if t.tnt ≠ 0 then
    (t.tntMemory t.pos, { t with tnt := t.tnt - 1, pos := (t.pos + 1) % bufSize })
  else (TntResult.tntEmpty.code, t)

def branchByte (data : UInt8) (i : ℕ) : UInt8 :=
  ((data.toUInt64 &&& ((1 : UInt64) <<< UInt64.ofNat i)) >>> UInt64.ofNat i).toUInt8

/-- The loop of `append_tnt_cache_nbl` over the bits of the packet. -/
def writeBranches (tntMemory : ℕ → UInt8) (max : ℕ) (data : UInt8) : ℕ → UInt8 :=
  (List.range' 1 (shortTntBits data)).foldl
    (fun memory i =>
      update memory ((max + shortTntBits data - i) % bufSize) (branchByte data i))
    tntMemory

def appendTntCacheNbl (t : TntCacheNbl) (data : UInt8) : Option TntCacheNbl :=
  let bits := shortTntBits data
  -- assert(self->tnt < BUF_SIZE)
  if t.tnt + bits < bufSize then
    some ⟨writeBranches t.tntMemory t.max data, t.pos, (t.max + bits) % bufSize, t.tnt + bits⟩
  else none

/-- The outstanding bits are those of the queue, one byte each. -/
structure Holds (t : TntCacheNbl) (q : List Bool) : Prop where
  tnt_eq : t.tnt = q.length
  pos_lt : t.pos < bufSize
  max_eq : t.max = (t.pos + t.tnt) % bufSize
  byte_eq : ∀ (j : ℕ) (hj : j < q.length),
    t.tntMemory ((t.pos + j) % bufSize) = (TntResult.ofBranch q[j]).code

lemma holds_nil (memory : ℕ → UInt8) : Holds ⟨memory, 0, 0, 0⟩ [] := by
  constructor
  · rfl
  · exact Nat.two_pow_pos 32
  · rfl
  · intro j hj
    cases hj

lemma branchByte_eq (data : UInt8) {i : ℕ} (hi : i < 64) :
    branchByte data i = (TntResult.ofBranch (data.toNat.testBit i)).code := by
  have hmask : ((1 : UInt64) <<< UInt64.ofNat i).toNat = 2 ^ i := by
    rw [UInt64.toNat_shiftLeft, TntCache.toNat_shiftCount hi, UInt64.toNat_one, Nat.one_shiftLeft]
    exact Nat.mod_eq_of_lt (Nat.pow_lt_pow_right (by decide) hi)
  have hbit : ((data.toUInt64 &&& ((1 : UInt64) <<< UInt64.ofNat i)) >>> UInt64.ofNat i).toNat =
      (data.toNat.testBit i).toNat := by
    rw [UInt64.toNat_shiftRight, TntCache.toNat_shiftCount hi, UInt64.toNat_and, hmask,
      UInt8.toNat_toUInt64, Nat.and_two_pow, Nat.shiftRight_eq_div_pow,
      Nat.mul_div_cancel _ (Nat.two_pow_pos i)]
  rw [← UInt8.toNat_inj, branchByte, UInt64.toNat_toUInt8, hbit]
  cases data.toNat.testBit i with
  | true => rfl
  | false => rfl

lemma foldl_update_of_ne {l : List ℕ} {f : ℕ → ℕ} {v : ℕ → UInt8} {x : ℕ}
    (h : ∀ i ∈ l, f i ≠ x) (memory : ℕ → UInt8) :
    l.foldl (fun memory i => update memory (f i) (v i)) memory x = memory x := by
  induction l generalizing memory with
  | nil => rfl
  | cons i l ih =>
    rw [List.foldl_cons, ih (fun j hj => h j (by simp [hj])),
      update_of_ne (h i (by simp)).symm]

lemma foldl_update_of_mem {l : List ℕ} {f : ℕ → ℕ} {v : ℕ → UInt8} {i : ℕ} (hi : i ∈ l)
    (hinj : ∀ j ∈ l, f j = f i → j = i) (memory : ℕ → UInt8) :
    l.foldl (fun memory i => update memory (f i) (v i)) memory (f i) = v i := by
  induction l generalizing memory with
  | nil => cases hi
  | cons j l ih =>
    by_cases hmem : i ∈ l
    · exact ih hmem (fun k hk => hinj k (by simp [hk])) _
    · have hij : i = j := by simpa [hmem] using hi
      subst hij
      have hne : ∀ k ∈ l, f k ≠ f i := by
        intro k hk heq
        rw [hinj k (by simp [hk]) heq] at hk
        exact hmem hk
      rw [List.foldl_cons, foldl_update_of_ne hne, update_self]

lemma writeBranches_of_ne {memory : ℕ → UInt8} {max x : ℕ} {data : UInt8}
    (h : ∀ k < shortTntBits data, (max + k) % bufSize ≠ x) :
    writeBranches memory max data x = memory x := by
  apply foldl_update_of_ne
  intro i hi
  rw [List.mem_range'_1] at hi
  have hk := h (shortTntBits data - i) (by omega)
  rwa [← Nat.add_sub_assoc (by omega)] at hk

lemma writeBranches_branch {memory : ℕ → UInt8} {max k : ℕ} {data : UInt8} (hdata : ShortTnt data)
    (hk : k < shortTntBits data) :
    writeBranches memory max data ((max + k) % bufSize) =
      (TntResult.ofBranch (data.toNat.testBit (shortTntBits data - k))).code := by
  have hle : shortTntBits data ≤ 6 := (shortTntBits_spec hdata).2.1
  have hplace : max + k = max + shortTntBits data - (shortTntBits data - k) := by omega
  rw [hplace, ← branchByte_eq data (by omega)]
  apply foldl_update_of_mem (f := fun i => (max + shortTntBits data - i) % bufSize)
  · rw [List.mem_range'_1]
    omega
  · intro i hi heq
    rw [List.mem_range'_1] at hi
    simp only [bufSize] at heq
    omega

variable {t : TntCacheNbl} {q : List Bool}

lemma Holds.process_cons {b : Bool} (h : t.Holds (b :: q)) :
    ∃ t', t.processTntCacheNbl = ((TntResult.ofBranch b).code, t') ∧ t'.Holds q := by
  have hlen : t.tnt = q.length + 1 := h.tnt_eq
  have hfirst := h.byte_eq 0 (by simp)
  rw [Nat.add_zero, Nat.mod_eq_of_lt h.pos_lt] at hfirst
  refine ⟨{ t with tnt := t.tnt - 1, pos := (t.pos + 1) % bufSize }, ?_, ?_⟩
  · rw [processTntCacheNbl, if_pos (by omega), hfirst]
    rfl
  constructor
  · simp [hlen]
  · exact Nat.mod_lt _ (by decide)
  · have hmax := h.max_eq
    simp only [bufSize] at hmax ⊢
    omega
  · intro j hj
    have hbyte := h.byte_eq (j + 1) (by simpa using hj)
    simp only [Nat.mod_add_mod]
    rw [Nat.add_assoc, Nat.add_comm 1 j]
    exact hbyte

lemma Holds.process_nil (h : t.Holds []) : t.processTntCacheNbl = (TntResult.tntEmpty.code, t) := by
  have hzero : t.tnt = 0 := h.tnt_eq
  simp [processTntCacheNbl, hzero]

lemma Holds.append {data : UInt8} (h : t.Holds q) (hdata : ShortTnt data)
    (hroom : (q ++ branches data).length < bufSize) :
    ∃ t', t.appendTntCacheNbl data = some t' ∧ t'.Holds (q ++ branches data) := by
  have hlen : (q ++ branches data).length = t.tnt + shortTntBits data := by
    simp [branches, h.tnt_eq]
  rw [hlen] at hroom
  have hmax := h.max_eq
  refine ⟨⟨writeBranches t.tntMemory t.max data, t.pos, (t.max + shortTntBits data) % bufSize,
    t.tnt + shortTntBits data⟩, if_pos hroom, ?_⟩
  constructor
  · exact hlen.symm
  · exact h.pos_lt
  · simp only [bufSize] at hmax ⊢
    omega
  · intro j hj
    rw [hlen] at hj
    by_cases hold : j < q.length
    · rw [List.getElem_append_left hold, ← h.byte_eq j hold]
      apply writeBranches_of_ne
      intro k hk
      rw [h.tnt_eq] at hmax hroom
      simp only [bufSize] at hmax hroom ⊢
      omega
    · obtain ⟨k, rfl⟩ : ∃ k, j = q.length + k := ⟨j - q.length, by omega⟩
      have hplace : (t.pos + (q.length + k)) % bufSize = (t.max + k) % bufSize := by
        rw [hmax, h.tnt_eq, Nat.mod_add_mod, Nat.add_assoc]
      have hk : k < shortTntBits data := by
        rw [h.tnt_eq] at hj
        omega
      rw [List.getElem_append_right (by omega), hplace]
      apply (writeBranches_branch hdata hk).trans
      simp [branches]

end TntCacheNbl

inductive TntOp where
  | append (data : UInt8)
  | process
  | adjust (num : UInt8)
  | flush
  deriving DecidableEq

def TntOp.Valid : TntOp → Prop
  | append data => ShortTnt data
  | _ => True

instance : DecidablePred TntOp.Valid := fun op => by
  cases op <;> unfold TntOp.Valid <;> infer_instance

def fifo : Machine TntOp (Option UInt8) (List Bool)
  | q, .append data => some (none, q ++ branches data)
  | [], .process => some (some TntResult.tntEmpty.code, [])
  | b :: q, .process => some (some (TntResult.ofBranch b).code, q)
  | q, .adjust num => some (none, q.drop num.toNat)
  | _, .flush => some (none, [])

def packedRing : Machine TntOp (Option UInt8) TntCache
  | t, .append data => some (none, t.appendTntCache data)
  | t, .process => some (some t.processTntCache.1.code, t.processTntCache.2)
  | t, .adjust num => some (none, t.adjustTntCache num.toNat)
  | t, .flush => some (none, t.tntCacheFlush)

/-- The operations of the build with `NON_BRANCH_LESS_CODE`, in which `adjust_tnt_cache` does not
exist. -/
def byteRing : Machine TntOp (Option UInt8) TntCacheNbl
  | t, .append data => (t.appendTntCacheNbl data).map (none, ·)
  | t, .process => some (some t.processTntCacheNbl.1, t.processTntCacheNbl.2)
  | _, .adjust _ => none
  | t, .flush => some (none, t.tntCacheFlush)

/-- At most so many bits are outstanding that the ring has room for a packet. -/
def Outstanding (q : List Bool) : Prop := q.length ≤ 2 ^ 29 - 64

instance : DecidablePred Outstanding := fun q => by unfold Outstanding; infer_instance

lemma fifo_total (q : List Bool) (op : TntOp) : ∃ o q', fifo q op = some (o, q') := by
  cases op with
  | append data => exact ⟨_, _, rfl⟩
  | process =>
    cases q with
    | nil => exact ⟨_, _, rfl⟩
    | cons b q => exact ⟨_, _, rfl⟩
  | adjust num => exact ⟨_, _, rfl⟩
  | flush => exact ⟨_, _, rfl⟩

lemma packedRing_simulates :
    Machine.Simulates packedRing fifo TntOp.Valid Outstanding fun t q => t.content = q where
  total := fun _ _ => fifo_total _ _
  step := by
    intro t q op hr hop hq o q' hstep hq'
    cases op with
    | append data =>
      cases hstep
      have hroom : t.blTnt ≤ 2 ^ 29 - 64 := by
        rw [← TntCache.length_content, hr]
        exact hq
      refine ⟨t.appendTntCache data, rfl, ?_⟩
      rw [TntCache.content_appendTntCache hop hroom, hr]
    | process =>
      cases q with
      | nil =>
        cases hstep
        refine ⟨t, ?_, hr⟩
        simp [packedRing, TntCache.processTntCache_nil hr]
      | cons b q =>
        cases hstep
        obtain ⟨t', ht', hcontent⟩ := TntCache.processTntCache_cons hr
        refine ⟨t', ?_, hcontent⟩
        simp [packedRing, ht', TntResult.ofBranch]
    | adjust num =>
      cases hstep
      refine ⟨t.adjustTntCache num.toNat, rfl, ?_⟩
      rw [TntCache.content_adjustTntCache_drop, hr]
    | flush =>
      cases hstep
      exact ⟨t.tntCacheFlush, rfl, rfl⟩

lemma byteRing_simulates :
    Machine.Simulates byteRing fifo (fun op => op.Valid ∧ ∀ num, op ≠ .adjust num) Outstanding
      TntCacheNbl.Holds where
  total := fun _ _ => fifo_total _ _
  step := by
    intro t q op hr hop hq o q' hstep hq'
    cases op with
    | append data =>
      cases hstep
      have hroom : (q ++ branches data).length < bufSize := lt_of_le_of_lt hq' (by decide)
      obtain ⟨t', ht', hholds⟩ := hr.append hop.1 hroom
      refine ⟨t', ?_, hholds⟩
      simp [byteRing, ht']
    | process =>
      cases q with
      | nil =>
        cases hstep
        refine ⟨t, ?_, hr⟩
        simp [byteRing, hr.process_nil]
      | cons b q =>
        cases hstep
        obtain ⟨t', ht', hholds⟩ := hr.process_cons
        refine ⟨t', ?_, hholds⟩
        simp [byteRing, ht']
    | adjust num => exact absurd rfl (hop.2 num)
    | flush =>
      cases hstep
      exact ⟨t.tntCacheFlush, rfl, TntCacheNbl.holds_nil t.tntMemory⟩

/-- The packed ring answers like a queue of bits, and so does the ring with one byte for each
bit. -/
theorem tntCache_fifo (ops : List TntOp) (hvalid : ∀ op ∈ ops, op.Valid)
    (houtstanding : fifo.Stays Outstanding [] ops) :
    ∃ results, fifo.answers [] ops = some results ∧
      packedRing.answers TntCache.tntCacheInit ops = some results ∧
      ((∀ num, .adjust num ∉ ops) →
        byteRing.answers TntCacheNbl.tntCacheInit ops = some results) := by
  obtain ⟨results, hresults⟩ := Machine.exists_answers fifo_total [] ops
  refine ⟨results, hresults, ?_, ?_⟩
  · rw [← hresults]
    exact packedRing_simulates.answers_eq hvalid rfl houtstanding
  · intro hadjust
    rw [← hresults]
    apply byteRing_simulates.answers_eq _ (TntCacheNbl.holds_nil _) houtstanding
    intro op hop
    refine ⟨hvalid op hop, ?_⟩
    rintro num rfl
    exact hadjust num hop

theorem tntCache_fifo_twoPackets :
    packedRing.answers TntCache.tntCacheInit [.append 0x0A, .process, .append 0xFE, .process,
        .process, .flush, .process] = some [none, some 0, none, some 1, some 1, none, some 2] ∧
      byteRing.answers TntCacheNbl.tntCacheInit [.append 0x0A, .process, .append 0xFE, .process,
        .process, .flush, .process] = some [none, some 0, none, some 1, some 1, none, some 2] := by
  obtain ⟨results, hfifo, hpacked, hbyte⟩ := tntCache_fifo [.append 0x0A, .process, .append 0xFE,
    .process, .process, .flush, .process] (by decide) (by decide +kernel)
  have hresults : some results = some [none, some 0, none, some 1, some 1, none, some 2] :=
    hfifo.symm.trans (by decide +kernel)
  rw [← hresults]
  exact ⟨hpacked, hbyte (by simp)⟩

end Nyx.Pt
