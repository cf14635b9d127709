import Nyx.Lib.Bits

/-!
# The page walk of QEMU-PT

`pt/memory_access.c`: the translation of guest addresses by a walk over the page tables. The rules
of the architecture are stated next to it, for physical addresses of 49 bits.
-/

namespace Nyx.Paging

abbrev PhysMem := UInt64 → UInt8

def read64 (mem : PhysMem) (a : UInt64) : UInt64 :=
  (mem a).toUInt64 ||| (mem (a + 1)).toUInt64 <<< 8 ||| (mem (a + 2)).toUInt64 <<< 16 |||
    (mem (a + 3)).toUInt64 <<< 24 ||| (mem (a + 4)).toUInt64 <<< 32 |||
    (mem (a + 5)).toUInt64 <<< 40 ||| (mem (a + 6)).toUInt64 <<< 48 |||
    (mem (a + 7)).toUInt64 <<< 56

abbrev Entries := UInt64 → UInt64

def PAGETABLE_MASK : UInt64 := 0x1FFFFFFFFF000

def PML4_ENTRY_MASK : UInt64 := 0x1FFFFFFFFF000

def PML3_ENTRY_MASK : UInt64 := 0x1FFFFC0000000

def PML2_ENTRY_MASK : UInt64 := 0x1FFFFFFE00000

def INVALID : UInt64 := 0xFFFFFFFFFFFFFFFF

def checkBit (var pos : UInt64) : Bool := var &&& (1 <<< pos) != 0

/-- The walk goes from `paging_entries_buffer` to `paging_entries_buffer`; here is the last one. -/
def walkPml1 (addr : UInt64) (buffer : Entries) : UInt64 :=
  let pml1Index := (addr &&& 0x00000001FF000) >>> 12
  if buffer pml1Index ≠ 0 ∧ checkBit (buffer pml1Index) 0 then
    (buffer pml1Index &&& PML4_ENTRY_MASK) ||| (0xFFF &&& addr)
  else INVALID

def walkPml2 (read : UInt64 → Entries → Entries) (addr : UInt64) (buffer : Entries) : UInt64 :=
  let pml2Index := (addr &&& 0x000003FE00000) >>> 21
  if buffer pml2Index ≠ 0 ∧ checkBit (buffer pml2Index) 0 then
    if checkBit (buffer pml2Index) 7 then
      (buffer pml2Index &&& PML2_ENTRY_MASK) ||| (0x3FFFFF &&& addr)
    else walkPml1 addr (read (buffer pml2Index &&& PAGETABLE_MASK) buffer)
  else INVALID

def walkPml3 (read : UInt64 → Entries → Entries) (addr : UInt64) (buffer : Entries) : UInt64 :=
  let pml3Index := (addr &&& 0x0007FC0000000) >>> 30
  if buffer pml3Index ≠ 0 ∧ checkBit (buffer pml3Index) 0 then
    if checkBit (buffer pml3Index) 7 then
      (buffer pml3Index &&& PML3_ENTRY_MASK) ||| (0x7FFFFFFF &&& addr)
    else walkPml2 read addr (read (buffer pml3Index &&& PAGETABLE_MASK) buffer)
  else INVALID

/-- The walk, with the function that fills the buffer with the page at an address. -/
def get48PagingPhysAddrWith (read : UInt64 → Entries → Entries) (cr3 addr : UInt64) : UInt64 :=
  let pml4Index := (addr &&& 0xFF8000000000) >>> 39
  let buffer := read (cr3 &&& PAGETABLE_MASK) fun _ => 0
  if buffer pml4Index ≠ 0 ∧ checkBit (buffer pml4Index) 0 then
    walkPml3 read addr (read (buffer pml4Index &&& PAGETABLE_MASK) buffer)
  else INVALID

def cpuPhysicalMemoryRw (mem : PhysMem) (base : UInt64) (_ : Entries) : Entries := fun i =>
  read64 mem (base + 8 * i)

/-- The RAM in a snapshot: `shadow_memory[ram_region_index]` and its size. -/
structure SnapshotRam where
  bytes : PhysMem
  maxSize : UInt64

/-- `read_snapshot_memory` for the size of a page. -/
def readSnapshotMemory (snap : SnapshotRam) (address : UInt64) (buffer : Entries) : Entries :=
  if address = 0xFFFFFFFFFFFFFFFF then buffer
  else if address + 0x1000 > snap.maxSize then fun _ => 0
  else cpuPhysicalMemoryRw snap.bytes address buffer

def get48PagingPhysAddr (mem : PhysMem) (cr3 addr : UInt64) : UInt64 :=
  get48PagingPhysAddrWith (cpuPhysicalMemoryRw mem) cr3 addr

def get48PagingPhysAddrSnapshot (snap : SnapshotRam) (cr3 addr : UInt64) : UInt64 :=
  get48PagingPhysAddrWith (readSnapshotMemory snap) cr3 addr

/-- Every page of the snapshot reads as the same page of the memory. -/
def SnapshotRam.SameContent (snap : SnapshotRam) (mem : PhysMem) : Prop :=
  ∀ base, base &&& 0xFFF = 0 → ∀ buffer i, i < 512 →
    readSnapshotMemory snap base buffer i = cpuPhysicalMemoryRw mem base buffer i

/-- The entry that a translation ends with, and the number of bits of the address below it. -/
structure Leaf where
  bits : ℕ
  entry : ℕ
  deriving DecidableEq

/-- The entry of an address in a table, `low` bits of the address below its index. -/
def entryAt (mem : PhysMem) (table addr low : ℕ) : ℕ :=
  (read64 mem (UInt64.ofNat (field table 12 37 + 8 * (addr / 2 ^ low % 2 ^ 9)))).toNat

/-- The translation rules: an entry is present if bit 0 is set, and in the second and the third table
it maps a page itself if bit 7 is set. -/
def leaf1 (pte : ℕ) : Option Leaf := if pte.testBit 0 then some ⟨12, pte⟩ else none

def leaf2 (mem : PhysMem) (addr pde : ℕ) : Option Leaf :=
  if pde.testBit 0 then
    if pde.testBit 7 then some ⟨21, pde⟩ else leaf1 (entryAt mem pde addr 12)
  else none

def leaf3 (mem : PhysMem) (addr pdpte : ℕ) : Option Leaf :=
  if pdpte.testBit 0 then
    if pdpte.testBit 7 then some ⟨30, pdpte⟩ else leaf2 mem addr (entryAt mem pdpte addr 21)
  else none

def leaf4 (mem : PhysMem) (addr pml4e : ℕ) : Option Leaf :=
  if pml4e.testBit 0 then leaf3 mem addr (entryAt mem pml4e addr 30) else none

def leaf (mem : PhysMem) (cr3 addr : ℕ) : Option Leaf := leaf4 mem addr (entryAt mem cr3 addr 39)

def Leaf.phys (l : Leaf) (addr : ℕ) : ℕ := field l.entry l.bits (49 - l.bits) + addr % 2 ^ l.bits

def translate (mem : PhysMem) (cr3 addr : ℕ) : Option ℕ :=
  (leaf mem cr3 addr).map fun l => l.phys addr

/-- What the code returns: from a large page on it takes one bit of the address too many. -/
def Leaf.returned (l : Leaf) (addr : ℕ) : ℕ :=
  field l.entry l.bits (49 - l.bits) ||| addr % 2 ^ if l.bits = 12 then 12 else l.bits + 1

lemma checkBit_eq_testBit {e pos : UInt64} {k : ℕ} (h : ((1 : UInt64) <<< pos).toNat = 2 ^ k) :
    checkBit e pos = e.toNat.testBit k := by
  have heq : (e &&& (1 <<< pos)).toNat = (e.toNat.testBit k).toNat * 2 ^ k := by
    rw [UInt64.toNat_and, h, Nat.and_two_pow]
  have hzero : e &&& (1 <<< pos) = 0 ↔ e.toNat.testBit k = false := by
    rw [← UInt64.toNat_inj, heq]
    cases e.toNat.testBit k <;> simp
  cases hb : e.toNat.testBit k with
  | false => simpa [checkBit] using hzero.mpr hb
  | true => simpa [checkBit, hb] using hzero

lemma large_iff (e : UInt64) : checkBit e 7 = e.toNat.testBit 7 :=
  checkBit_eq_testBit (show ((1 : UInt64) <<< 7).toNat = 2 ^ 7 by rfl)

lemma present_iff (e : UInt64) : (e ≠ 0 ∧ checkBit e 0) ↔ e.toNat.testBit 0 := by
  rw [checkBit_eq_testBit (show ((1 : UInt64) <<< 0).toNat = 2 ^ 0 by rfl)]
  refine ⟨And.right, fun h => ⟨?_, h⟩⟩
  rintro rfl
  simp at h

lemma toNat_shift_mask {x mask shift : UInt64} {low width : ℕ} (hshift : shift.toNat % 64 = low)
    (hmask : mask.toNat = (2 ^ width - 1) * 2 ^ low) :
    ((x &&& mask) >>> shift).toNat = x.toNat / 2 ^ low % 2 ^ width := by
  rw [UInt64.toNat_shiftRight, UInt64.toNat_and, hmask, hshift, Nat.shiftRight_eq_div_pow,
    and_mask, field_div]

lemma toNat_mask {x mask : UInt64} {low width : ℕ} (hmask : mask.toNat = (2 ^ width - 1) * 2 ^ low) :
    (x &&& mask).toNat = field x.toNat low width := by
  rw [UInt64.toNat_and, hmask, and_mask]

lemma toNat_page {e addr mask offset : UInt64} (low width n : ℕ)
    (hmask : mask.toNat = (2 ^ width - 1) * 2 ^ low) (hoffset : offset.toNat = 2 ^ n - 1) :
    ((e &&& mask) ||| (offset &&& addr)).toNat = field e.toNat low width ||| addr.toNat % 2 ^ n := by
  rw [UInt64.toNat_or, toNat_mask hmask, UInt64.toNat_and, hoffset, Nat.and_comm,
    Nat.and_two_pow_sub_one_eq_mod]

lemma toNat_page4K (e addr : UInt64) :
    ((e &&& PML4_ENTRY_MASK) ||| (0xFFF &&& addr)).toNat =
      Leaf.returned ⟨12, e.toNat⟩ addr.toNat := by
  rw [toNat_page 12 37 12 (by decide) (by decide)]
  simp [Leaf.returned]

lemma toNat_page2M (e addr : UInt64) :
    ((e &&& PML2_ENTRY_MASK) ||| (0x3FFFFF &&& addr)).toNat =
      Leaf.returned ⟨21, e.toNat⟩ addr.toNat := by
  rw [toNat_page 21 28 22 (by decide) (by decide)]
  simp [Leaf.returned]

lemma toNat_page1G (e addr : UInt64) :
    ((e &&& PML3_ENTRY_MASK) ||| (0x7FFFFFFF &&& addr)).toNat =
      Leaf.returned ⟨30, e.toNat⟩ addr.toNat := by
  rw [toNat_page 30 19 31 (by decide) (by decide)]
  simp [Leaf.returned]

section Walk

variable (mem : PhysMem) (cr3 addr : UInt64)

lemma toNat_entry {index : UInt64} {low : ℕ} (hindex : index.toNat = addr.toNat / 2 ^ low % 2 ^ 9)
    (table : UInt64) (buffer : Entries) :
    (cpuPhysicalMemoryRw mem (table &&& PAGETABLE_MASK) buffer index).toNat =
      entryAt mem table.toNat addr.toNat low := by
  have hbase : (table &&& PAGETABLE_MASK).toNat = field table.toNat 12 37 := toNat_mask rfl
  rw [entryAt, ← hbase, ← hindex]
  simp [cpuPhysicalMemoryRw]

def returned (l : Option Leaf) (addr : ℕ) : ℕ := l.elim INVALID.toNat fun l => l.returned addr

lemma returned_some (l : Leaf) (addr : ℕ) : returned (some l) addr = l.returned addr := rfl

lemma toNat_walkPml1 (buffer : Entries) :
    (walkPml1 addr buffer).toNat =
      returned (leaf1 (buffer ((addr &&& 0x00000001FF000) >>> 12)).toNat) addr.toNat := by
  generalize hindex : (addr &&& 0x00000001FF000) >>> 12 = index
  simp only [walkPml1, hindex, present_iff, leaf1]
  by_cases hp : (buffer index).toNat.testBit 0 = true
  · rw [if_pos hp, if_pos hp, toNat_page4K, returned_some]
  · rw [if_neg hp, if_neg hp]
    rfl

lemma toNat_walkPml2 (buffer : Entries) :
    (walkPml2 (cpuPhysicalMemoryRw mem) addr buffer).toNat =
      returned (leaf2 mem addr.toNat (buffer ((addr &&& 0x000003FE00000) >>> 21)).toNat)
        addr.toNat := by
  have hnext : ((addr &&& 0x00000001FF000) >>> 12).toNat = addr.toNat / 2 ^ 12 % 2 ^ 9 :=
    toNat_shift_mask (by decide) (by decide)
  generalize hindex : (addr &&& 0x000003FE00000) >>> 21 = index
  simp only [walkPml2, hindex, present_iff, large_iff, leaf2]
  by_cases hp : (buffer index).toNat.testBit 0 = true
  · rw [if_pos hp, if_pos hp]
    by_cases hl : (buffer index).toNat.testBit 7 = true
    · rw [if_pos hl, if_pos hl, toNat_page2M, returned_some]
    · rw [if_neg hl, if_neg hl, toNat_walkPml1, toNat_entry mem addr hnext]
  · rw [if_neg hp, if_neg hp]
    rfl

lemma toNat_walkPml3 (buffer : Entries) :
    (walkPml3 (cpuPhysicalMemoryRw mem) addr buffer).toNat =
      returned (leaf3 mem addr.toNat (buffer ((addr &&& 0x0007FC0000000) >>> 30)).toNat)
        addr.toNat := by
  have hnext : ((addr &&& 0x000003FE00000) >>> 21).toNat = addr.toNat / 2 ^ 21 % 2 ^ 9 :=
    toNat_shift_mask (by decide) (by decide)
  generalize hindex : (addr &&& 0x0007FC0000000) >>> 30 = index
  simp only [walkPml3, hindex, present_iff, large_iff, leaf3]
  by_cases hp : (buffer index).toNat.testBit 0 = true
  · rw [if_pos hp, if_pos hp]
    by_cases hl : (buffer index).toNat.testBit 7 = true
    · rw [if_pos hl, if_pos hl, toNat_page1G, returned_some]
    · rw [if_neg hl, if_neg hl, toNat_walkPml2, toNat_entry mem addr hnext]
  · rw [if_neg hp, if_neg hp]
    rfl

lemma toNat_get48PagingPhysAddr :
    (get48PagingPhysAddr mem cr3 addr).toNat =
      returned (leaf mem cr3.toNat addr.toNat) addr.toNat := by
  have hfirst : ((addr &&& 0xFF8000000000) >>> 39).toNat = addr.toNat / 2 ^ 39 % 2 ^ 9 :=
    toNat_shift_mask (by decide) (by decide)
  have hnext : ((addr &&& 0x0007FC0000000) >>> 30).toNat = addr.toNat / 2 ^ 30 % 2 ^ 9 :=
    toNat_shift_mask (by decide) (by decide)
  simp only [get48PagingPhysAddr, get48PagingPhysAddrWith, present_iff,
    toNat_entry mem addr hfirst, leaf, leaf4]
  by_cases hp : (entryAt mem cr3.toNat addr.toNat 39).testBit 0 = true
  · rw [if_pos hp, if_pos hp, toNat_walkPml3, toNat_entry mem addr hnext,
      toNat_entry mem addr hfirst]
  · rw [if_neg hp, if_neg hp]
    rfl

end Walk

lemma leaf_bits {mem : PhysMem} {cr3 addr : ℕ} {l : Leaf} (h : leaf mem cr3 addr = some l) :
    l.bits = 12 ∨ l.bits = 21 ∨ l.bits = 30 := by
  unfold leaf leaf4 leaf3 leaf2 leaf1 at h
  split at h
  · split at h
    · split at h
      · cases h
        simp
      · split at h
        · split at h
          · cases h
            simp
          · split at h
            · cases h
              simp
            · cases h
        · cases h
    · cases h
  · cases h

lemma Leaf.returned_eq_phys_iff {l : Leaf} (addr : ℕ)
    (hbits : l.bits = 12 ∨ l.bits = 21 ∨ l.bits = 30) :
    l.returned addr = l.phys addr ↔
      (l.bits ≠ 12 → addr.testBit l.bits → l.entry.testBit l.bits) := by
  have hlt : addr % 2 ^ l.bits < 2 ^ l.bits := Nat.mod_lt _ (Nat.two_pow_pos _)
  rw [Leaf.phys, ← field_or _ _ _ hlt, Leaf.returned]
  by_cases h12 : l.bits = 12
  · simp [h12]
  · rw [if_neg h12, field_or_mod_succ_iff _ _ _ _ (by omega)]
    simp [h12]

lemma Leaf.returned_lt {l : Leaf} (addr : ℕ) (hbits : l.bits = 12 ∨ l.bits = 21 ∨ l.bits = 30) :
    l.returned addr < 2 ^ 49 := by
  apply Nat.or_lt_two_pow
  · have hfield : l.entry / 2 ^ l.bits % 2 ^ (49 - l.bits) < 2 ^ (49 - l.bits) :=
      Nat.mod_lt _ (Nat.two_pow_pos _)
    calc field l.entry l.bits (49 - l.bits)
        < 2 ^ (49 - l.bits) * 2 ^ l.bits := Nat.mul_lt_mul_of_pos_right hfield (Nat.two_pow_pos _)
      _ = 2 ^ 49 := by rw [← Nat.pow_add]; congr 1; omega
  · apply (Nat.mod_lt _ (Nat.two_pow_pos _)).trans_le
    apply Nat.pow_le_pow_right (by decide)
    split <;> omega

lemma get48PagingPhysAddr_eq_invalid_iff (mem : PhysMem) (cr3 addr : UInt64) :
    get48PagingPhysAddr mem cr3 addr = INVALID ↔ translate mem cr3.toNat addr.toNat = none := by
  rw [← UInt64.toNat_inj, toNat_get48PagingPhysAddr, translate, Option.map_eq_none_iff]
  cases hl : leaf mem cr3.toNat addr.toNat with
  | none => simp [Paging.returned]
  | some l =>
    have hlt := l.returned_lt addr.toNat (leaf_bits hl)
    have hinvalid : 2 ^ 49 ≤ INVALID.toNat := by decide
    rw [returned_some]
    simp only [reduceCtorEq, iff_false]
    omega

lemma get48PagingPhysAddrWith_congr {read read' : UInt64 → Entries → Entries}
    (h : ∀ base, base &&& 0xFFF = 0 → ∀ buffer buffer' i, i < 512 →
      read base buffer i = read' base buffer' i) (cr3 addr : UInt64) :
    get48PagingPhysAddrWith read cr3 addr = get48PagingPhysAddrWith read' cr3 addr := by
  have hbase : ∀ e : UInt64, (e &&& PAGETABLE_MASK) &&& 0xFFF = 0 := fun e => by
    rw [UInt64.and_assoc, show PAGETABLE_MASK &&& 0xFFF = 0 by decide, UInt64.and_zero]
  have hlt : ∀ {i : UInt64} {low : ℕ}, i.toNat = addr.toNat / 2 ^ low % 2 ^ 9 → i < 512 :=
    fun hi => by
      rw [UInt64.lt_iff_toNat_lt, hi]
      exact Nat.mod_lt _ (by decide)
  have h4 : (addr &&& 0xFF8000000000) >>> 39 < 512 :=
    hlt (toNat_shift_mask (show (39 : UInt64).toNat % 64 = 39 by decide) (by decide))
  have h3 : (addr &&& 0x0007FC0000000) >>> 30 < 512 :=
    hlt (toNat_shift_mask (show (30 : UInt64).toNat % 64 = 30 by decide) (by decide))
  have h2 : (addr &&& 0x000003FE00000) >>> 21 < 512 :=
    hlt (toNat_shift_mask (show (21 : UInt64).toNat % 64 = 21 by decide) (by decide))
  have h1 : (addr &&& 0x00000001FF000) >>> 12 < 512 :=
    hlt (toNat_shift_mask (show (12 : UInt64).toNat % 64 = 12 by decide) (by decide))
  have hpml1 : ∀ e buffer buffer', walkPml1 addr (read (e &&& PAGETABLE_MASK) buffer) =
      walkPml1 addr (read' (e &&& PAGETABLE_MASK) buffer') := by
    intro e buffer buffer'
    simp only [walkPml1, h _ (hbase e) buffer buffer' _ h1]
  have hpml2 : ∀ e buffer buffer', walkPml2 read addr (read (e &&& PAGETABLE_MASK) buffer) =
      walkPml2 read' addr (read' (e &&& PAGETABLE_MASK) buffer') := by
    intro e buffer buffer'
    simp only [walkPml2, h _ (hbase e) buffer buffer' _ h2]
    rw [hpml1]
  have hpml3 : ∀ e buffer buffer', walkPml3 read addr (read (e &&& PAGETABLE_MASK) buffer) =
      walkPml3 read' addr (read' (e &&& PAGETABLE_MASK) buffer') := by
    intro e buffer buffer'
    simp only [walkPml3, h _ (hbase e) buffer buffer' _ h3]
    rw [hpml2]
  simp only [get48PagingPhysAddrWith, h _ (hbase cr3) (fun _ => 0) (fun _ => 0) _ h4]
  rw [hpml3]

lemma get48PagingPhysAddrSnapshot_eq {snap : SnapshotRam} {mem : PhysMem}
    (h : snap.SameContent mem) (cr3 addr : UInt64) :
    get48PagingPhysAddrSnapshot snap cr3 addr = get48PagingPhysAddr mem cr3 addr :=
  get48PagingPhysAddrWith_congr (fun base hbase buffer _ i hi => h base hbase buffer i hi) cr3 addr

/-- The walk finds what the page tables say. -/
structure WalkCorrect (mem : PhysMem) (cr3 addr : UInt64) : Prop where
  phys : ∀ pa, translate mem cr3.toNat addr.toNat = some pa →
    (get48PagingPhysAddr mem cr3 addr).toNat = pa
  invalid : get48PagingPhysAddr mem cr3 addr = INVALID ↔ translate mem cr3.toNat addr.toNat = none
  snapshot : ∀ snap : SnapshotRam, snap.SameContent mem →
    get48PagingPhysAddrSnapshot snap cr3 addr = get48PagingPhysAddr mem cr3 addr

/-- In a large page the lowest bit of its number is not also set in the address, or the entry has it
set anyway. -/
def LowestBitFits (mem : PhysMem) (cr3 addr : UInt64) : Prop :=
  ∀ l, leaf mem cr3.toNat addr.toNat = some l → l.bits ≠ 12 →
    addr.toNat.testBit l.bits = true → l.entry.testBit l.bits = true

theorem walkCorrect_iff (mem : PhysMem) (cr3 addr : UInt64) :
    WalkCorrect mem cr3 addr ↔ LowestBitFits mem cr3 addr := by
  constructor
  · intro h l hl
    have hphys : translate mem cr3.toNat addr.toNat = some (l.phys addr.toNat) := by
      rw [translate, hl, Option.map_some]
    have heq := h.phys _ hphys
    rw [toNat_get48PagingPhysAddr, hl, returned_some] at heq
    exact (l.returned_eq_phys_iff addr.toNat (leaf_bits hl)).mp heq
  · intro h
    refine ⟨fun pa hpa => ?_, get48PagingPhysAddr_eq_invalid_iff mem cr3 addr,
      fun snap hsame => get48PagingPhysAddrSnapshot_eq hsame cr3 addr⟩
    obtain ⟨l, hl, rfl⟩ := Option.map_eq_some_iff.mp hpa
    rw [toNat_get48PagingPhysAddr, hl, returned_some]
    exact (l.returned_eq_phys_iff addr.toNat (leaf_bits hl)).mpr (h l hl)

def gigabytePage : PhysMem := fun a =>
  if a = 0 then 0x01 else if a = 1 then 0x10 else if a = 0x1008 then 0x81
  else if a = 0x100B then 0x80 else 0

theorem get48PagingPhysAddr_gigabytePage :
    translate gigabytePage 0 0x40000000 = some 0x80000000 ∧
      get48PagingPhysAddr gigabytePage 0 0x40000000 = 0xC0000000 := by
  decide +kernel

end Nyx.Paging
