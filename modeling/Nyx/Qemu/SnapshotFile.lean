import Mathlib.Algebra.GroupWithZero.Nat
import Mathlib.Data.List.Forall2

/-!
# Snapshots of the RAM in files

`pt/fast_vm_reload.c`: a copy of the RAM blocks is written to a file with a table of its parts, and
the RAM of another process is filled from it. A pointer into the RAM is the index of its block, a
pointer into the copy its distance from `ptr`.
-/

namespace Nyx.SnapshotFile

/-- The name of a block: `char idstr[256]`, with its terminator. -/
structure IdStr where
  chars : List Char
  length_lt : chars.length < 256
  deriving DecidableEq

/-- The memory region of a block. -/
structure MemoryRegion where
  addr : UInt64
  size : UInt64
  readonly : Bool
  deriving DecidableEq

/-- A block of the guest's memory. -/
structure RAMBlock where
  idstr : IdStr
  offset : UInt64
  mr : MemoryRegion
  host : List UInt8
  deriving DecidableEq

def RAMBlock.usedLength (b : RAMBlock) : ℕ := b.host.length

/-- An entry of `mr_ranges`. -/
structure MrRange where
  mrStart : UInt64
  mrEnd : UInt64
  hostPtr : ℕ
  shadowPtr : ℕ
  offset : UInt64
  deriving DecidableEq

/-- The fields of `fast_reload_t` that describe the copy; `ptr` is the memory it points to. -/
structure FastReload where
  shadowMemory : List ℕ
  ramBlockArray : List ℕ
  shadowMemoryRegions : UInt32
  ramRegionIndex : UInt32
  vramRegionIndex : UInt32
  mrRanges : List MrRange
  ptr : List UInt8
  deriving DecidableEq

def fastReloadNew : FastReload := ⟨[], [], 0, 0, 0xFFFFFFFF, [], []⟩

/-- `fast_reload_dump_head_t`. -/
structure DumpHead where
  shadowMemoryRegions : UInt32
  ramRegionIndex : UInt32

/-- `fast_reload_dump_entry_t`. -/
structure DumpEntry where
  shadowMemoryOffset : ℕ
  idstr : IdStr

/-- The files of a snapshot. -/
structure DumpFiles where
  head : DumpHead
  entries : List DumpEntry
  dump : List UInt8

def strstr : List Char → List Char → Bool
  | [], needle => needle.isEmpty
  | c :: haystack, needle => needle.isPrefixOf (c :: haystack) || strstr haystack needle

def memcmpEq (s : List Char) (start : List Char) : Bool := start.isPrefixOf s

def pcRam : List Char := ['p', 'c', '.', 'r', 'a', 'm']

def vgaVram : List Char := ['v', 'g', 'a', '.', 'v', 'r', 'a', 'm']

/-- The loop that looks for the RAM and the video RAM, with the test that it uses for names. -/
def findRegions (test : List Char → List Char → Bool) :
    List RAMBlock → UInt32 → UInt32 × UInt32 → UInt32 × UInt32
  | [], _, regions => regions
  | b :: blocks, i, (ram, vram) =>
    findRegions test blocks (i + 1)
      (if test b.idstr.chars pcRam then i else ram,
        if test b.idstr.chars vgaVram then i else vram)

/-- Whether `start_region` is set at the end of that loop. -/
def hasStartRegion (blocks : List RAMBlock) : Bool := blocks.any fun b => b.offset = 0

def guestRamSize (blocks : List RAMBlock) : ℕ := (blocks.map RAMBlock.usedLength).sum

def memcpyTo (ptr : List UInt8) (offset : ℕ) (data : List UInt8) : List UInt8 :=
  ptr.take offset ++ data ++ ptr.drop (offset + data.length)

/-- The loop of `alloc_shadow_memory` that copies the blocks one behind the other. -/
def copyBlocks : List RAMBlock → ℕ → List UInt8 → List UInt8 × List ℕ
  | [], _, ptr => (ptr, [])
  | b :: blocks, offset, ptr =>
    let rest := copyBlocks blocks (offset + b.usedLength) (memcpyTo ptr offset b.host)
    (rest.1, offset :: rest.2)

/-- The loop that sets up the restore ranges; there is room for ten of them. -/
def addRanges (shadowMemory : List ℕ) : List RAMBlock → ℕ → List MrRange → Option (List MrRange)
  | [], _, ranges => some ranges
  | b :: blocks, i, ranges =>
    if b.mr.readonly then addRanges shadowMemory blocks (i + 1) ranges
    else if ranges.length < 10 then
      match shadowMemory[i]? with
      | some shadowPtr =>
        addRanges shadowMemory blocks (i + 1)
          (ranges ++ [⟨b.mr.addr, b.mr.addr + b.mr.size, i, shadowPtr, b.offset⟩])
      | none => none
    else none

/-- `none` stands for a failed assertion and for a write behind the end of an array. -/
def allocShadowMemory (self : FastReload) (blocks : List RAMBlock) : Option FastReload :=
  let regions := findRegions strstr blocks self.shadowMemoryRegions
    (self.ramRegionIndex, self.vramRegionIndex)
  let shadowMemoryRegions := self.shadowMemoryRegions + UInt32.ofNat blocks.length
  let copy := copyBlocks blocks 0 (List.replicate (guestRamSize blocks) 0)
  if blocks.length ≤ shadowMemoryRegions.toNat ∧ hasStartRegion blocks then
    (addRanges copy.2 blocks 0 self.mrRanges).map fun ranges =>
      ⟨copy.2, List.range blocks.length, shadowMemoryRegions, regions.1, regions.2, ranges, copy.1⟩
  else none

def dumpToFile (self : FastReload) (blocks : List RAMBlock) : DumpFiles where
  head := ⟨self.shadowMemoryRegions, self.ramRegionIndex⟩
  entries := (self.shadowMemory.zip self.ramBlockArray).filterMap fun (offset, i) =>
    blocks[i]?.map fun b => ⟨offset, b.idstr⟩
  dump := self.ptr

/-- The loop of `alloc_shadow_memory_from_dump` that fills the blocks. -/
def loadBlocks (ptr : List UInt8) :
    List RAMBlock → List DumpEntry → ℕ → Option (List RAMBlock × List ℕ)
  | [], _, _ => some ([], [])
  | _ :: _, [], _ => none
  | b :: blocks, entry :: entries, offset =>
    if entry.idstr = b.idstr ∧ entry.shadowMemoryOffset = offset then
      (loadBlocks ptr blocks entries (offset + b.usedLength)).map fun rest =>
        ({ b with host := (ptr.drop offset).take b.usedLength } :: rest.1, offset :: rest.2)
    else none

/-- The state of the snapshot and the RAM after the dump is loaded. -/
def allocShadowMemoryFromDump (self : FastReload) (files : DumpFiles) (blocks : List RAMBlock) :
    Option (FastReload × List RAMBlock) :=
  let regions := findRegions memcmpEq blocks 0 (files.head.ramRegionIndex, files.head.ramRegionIndex)
  if files.head.shadowMemoryRegions.toNat = blocks.length ∧
      guestRamSize blocks = files.dump.length ∧ hasStartRegion blocks then
    match loadBlocks files.dump blocks files.entries 0 with
    | none => none
    | some (blocks', shadowMemory) =>
      (addRanges shadowMemory blocks 0 self.mrRanges).map fun ranges =>
        (⟨shadowMemory, List.range blocks.length, files.head.shadowMemoryRegions, regions.1,
          regions.2, ranges, files.dump⟩, blocks')
  else none

def FastReload.shadow (self : FastReload) (i len : ℕ) : Option (List UInt8) :=
  self.shadowMemory[i]?.map fun offset => (self.ptr.drop offset).take len

/-- What a process has after loading is what was there when the snapshot was created. -/
structure Persisted (blocks : List RAMBlock) (created : FastReload)
    (loaded : FastReload × List RAMBlock) : Prop where
  ram : loaded.2.map RAMBlock.host = blocks.map RAMBlock.host
  shadow : ∀ i b, blocks[i]? = some b → loaded.1.shadow i b.usedLength = some b.host
  mrRanges : loaded.1.mrRanges = created.mrRanges
  ramRegionIndex : loaded.1.ramRegionIndex = created.ramRegionIndex
  vramRegionIndex : loaded.1.vramRegionIndex = created.vramRegionIndex

/-- The same block in another process, whose memory may hold anything. -/
structure SameLayout (b b' : RAMBlock) : Prop where
  idstr : b'.idstr = b.idstr
  offset : b'.offset = b.offset
  mr : b'.mr = b.mr
  usedLength : b'.usedLength = b.usedLength

def lastBlock (test : List Char → Bool) : List RAMBlock → Option ℕ
  | [] => none
  | b :: blocks =>
    match lastBlock test blocks with
    | some k => some (k + 1)
    | none => if test b.idstr.chars then some 0 else none

def lastContaining (name : List Char) : List RAMBlock → Option ℕ := lastBlock (strstr · name)

def lastBeginning (name : List Char) : List RAMBlock → Option ℕ := lastBlock (memcmpEq · name)

section Copy

def offsetsFrom : List RAMBlock → ℕ → List ℕ
  | [], _ => []
  | b :: blocks, offset => offset :: offsetsFrom blocks (offset + b.usedLength)

def contents (blocks : List RAMBlock) : List UInt8 := blocks.flatMap RAMBlock.host

def entriesFrom : List RAMBlock → ℕ → List DumpEntry
  | [], _ => []
  | b :: blocks, offset => ⟨offset, b.idstr⟩ :: entriesFrom blocks (offset + b.usedLength)

lemma length_contents (blocks : List RAMBlock) : (contents blocks).length = guestRamSize blocks := by
  rw [contents, List.length_flatMap]
  rfl

lemma copyBlocks_eq (blocks : List RAMBlock) (done tail : List UInt8)
    (htail : tail.length = guestRamSize blocks) :
    copyBlocks blocks done.length (done ++ tail) =
      (done ++ contents blocks, offsetsFrom blocks done.length) := by
  induction blocks generalizing done tail with
  | nil =>
    have hnil : tail = [] := List.length_eq_zero_iff.mp htail
    simp [copyBlocks, contents, offsetsFrom, hnil]
  | cons b blocks ih =>
    have hsize : tail.length = b.usedLength + guestRamSize blocks := by
      simpa [guestRamSize] using htail
    have hcopy : memcpyTo (done ++ tail) done.length b.host =
        (done ++ b.host) ++ tail.drop b.usedLength := by
      simp [memcpyTo, RAMBlock.usedLength, List.drop_append]
    have hlength : done.length + b.usedLength = (done ++ b.host).length := by
      simp [RAMBlock.usedLength]
    have hrest := ih (done ++ b.host) (tail.drop b.usedLength) (by simp [hsize])
    simp only [copyBlocks, hcopy]
    rw [hlength, hrest]
    simp [contents, offsetsFrom, RAMBlock.usedLength]

variable {blocks blocks' : List RAMBlock}

lemma SameLayout.setHost {b b' : RAMBlock} (h : SameLayout b b') :
    { b' with host := b.host } = b := by
  cases b
  cases b'
  obtain ⟨rfl, rfl, rfl, -⟩ := h
  rfl

lemma loadBlocks_eq (h : List.Forall₂ SameLayout blocks blocks') (done : List UInt8) :
    loadBlocks (done ++ contents blocks) blocks' (entriesFrom blocks done.length) done.length =
      some (blocks, offsetsFrom blocks done.length) := by
  induction h generalizing done with
  | nil => rfl
  | @cons b b' blocks blocks' hb _ ih =>
    have hlength : done.length + b.usedLength = (done ++ b.host).length := by
      simp [RAMBlock.usedLength]
    have hrest := ih (done ++ b.host)
    have hhost : ((done ++ contents (b :: blocks)).drop done.length).take b.usedLength = b.host := by
      simp [contents, RAMBlock.usedLength]
    simp only [entriesFrom, loadBlocks]
    rw [if_pos ⟨hb.idstr.symm, trivial⟩, hb.usedLength, hhost, hb.setHost, hlength,
      show done ++ contents (b :: blocks) = done ++ b.host ++ contents blocks by simp [contents],
      hrest]
    simp [offsetsFrom, RAMBlock.usedLength]

lemma shadow_eq (blocks : List RAMBlock) (done : List UInt8) {i : ℕ} {b : RAMBlock}
    (hi : blocks[i]? = some b) :
    (offsetsFrom blocks done.length)[i]?.map
        (fun offset => ((done ++ contents blocks).drop offset).take b.usedLength) =
      some b.host := by
  induction blocks generalizing done i with
  | nil => simp at hi
  | cons c blocks ih =>
    cases i with
    | zero =>
      have hc : c = b := by simpa using hi
      subst hc
      simp [offsetsFrom, contents, RAMBlock.usedLength]
    | succ i =>
      have hlength : done.length + c.usedLength = (done ++ c.host).length := by
        simp [RAMBlock.usedLength]
      have hrest := ih (done ++ c.host) (by simpa using hi)
      rw [offsetsFrom, List.getElem?_cons_succ, hlength,
        show done ++ contents (c :: blocks) = done ++ c.host ++ contents blocks by simp [contents]]
      exact hrest

end Copy

section Layout

variable {blocks blocks' : List RAMBlock} (h : List.Forall₂ SameLayout blocks blocks')

include h in
lemma guestRamSize_eq_of_layout : guestRamSize blocks' = guestRamSize blocks := by
  induction h with
  | nil => rfl
  | cons hb _ ih =>
    simp only [guestRamSize, List.map_cons, List.sum_cons, hb.usedLength] at ih ⊢
    rw [ih]

include h in
lemma hasStartRegion_eq_of_layout : hasStartRegion blocks' = hasStartRegion blocks := by
  induction h with
  | nil => rfl
  | cons hb _ ih =>
    simp only [hasStartRegion, List.any_cons, hb.offset] at ih ⊢
    rw [ih]

include h in
lemma findRegions_eq_of_layout (test : List Char → List Char → Bool) (i : UInt32)
    (regions : UInt32 × UInt32) :
    findRegions test blocks' i regions = findRegions test blocks i regions := by
  induction h generalizing i regions with
  | nil => rfl
  | cons hb _ ih =>
    rw [findRegions, findRegions, hb.idstr, ih]

include h in
lemma addRanges_eq_of_layout (shadowMemory : List ℕ) (i : ℕ) (ranges : List MrRange) :
    addRanges shadowMemory blocks' i ranges = addRanges shadowMemory blocks i ranges := by
  induction h generalizing i ranges with
  | nil => rfl
  | cons hb _ ih => simp only [addRanges, hb.mr, hb.offset, ih]

end Layout

section Regions

lemma strstr_of_memcmpEq {s name : List Char} (h : memcmpEq s name) : strstr s name := by
  cases s with
  | nil =>
    cases name with
    | nil => rfl
    | cons c name => cases h
  | cons c s => simp [strstr, show name.isPrefixOf (c :: s) = true from h]

lemma lastBlock_lt {test : List Char → Bool} {blocks : List RAMBlock} {k : ℕ}
    (h : lastBlock test blocks = some k) : k < blocks.length := by
  induction blocks generalizing k with
  | nil => cases h
  | cons b blocks ih =>
    rw [lastBlock] at h
    cases hrest : lastBlock test blocks with
    | some j =>
      rw [hrest] at h
      cases h
      exact Nat.succ_lt_succ (ih hrest)
    | none =>
      by_cases hb : test b.idstr.chars = true
      · simp only [hrest, if_pos hb] at h
        cases h
        simp
      · simp [hrest, hb] at h

lemma lastBlock_ne_none_of_imp {test test' : List Char → Bool} (himp : ∀ s, test s → test' s)
    {blocks : List RAMBlock} (h : lastBlock test blocks ≠ none) : lastBlock test' blocks ≠ none := by
  induction blocks with
  | nil => exact h
  | cons b blocks ih =>
    rw [lastBlock] at h ⊢
    cases hrest' : lastBlock test' blocks with
    | some j => simp
    | none =>
      have hrest : lastBlock test blocks = none := by
        by_contra hne
        exact ih hne hrest'
      by_cases hb : test b.idstr.chars = true
      · simp [himp _ hb]
      · simp [hrest, hb] at h

lemma findRegions_eq (test : List Char → List Char → Bool) (blocks : List RAMBlock) (i : UInt32)
    (ram vram : UInt32) :
    findRegions test blocks i (ram, vram) =
      (((lastBlock (test · pcRam) blocks).map fun k => i + UInt32.ofNat k).getD ram,
        ((lastBlock (test · vgaVram) blocks).map fun k => i + UInt32.ofNat k).getD vram) := by
  have hcons : ∀ (name : List Char) (b : RAMBlock) (blocks : List RAMBlock) (i r : UInt32),
      ((lastBlock (test · name) (b :: blocks)).map fun k => i + UInt32.ofNat k).getD r =
        ((lastBlock (test · name) blocks).map fun k => i + 1 + UInt32.ofNat k).getD
          (if test b.idstr.chars name then i else r) := by
    intro name b blocks i r
    rw [lastBlock]
    cases lastBlock (test · name) blocks with
    | some k => simp [UInt32.ofNat_add, UInt32.add_assoc, UInt32.add_comm 1]
    | none =>
      by_cases hb : test b.idstr.chars name = true
      · simp [hb]
      · simp [hb]
  induction blocks generalizing i ram vram with
  | nil => rfl
  | cons b blocks ih => rw [findRegions, ih, hcons, hcons]

end Regions

section RoundTrip

variable {blocks blocks' : List RAMBlock} {created : FastReload}

/-- The snapshot is the one of these blocks. -/
structure SnapshotOf (blocks : List RAMBlock) (created : FastReload) : Prop where
  length_lt : blocks.length < 2 ^ 32
  start : hasStartRegion blocks = true
  shadowMemory : created.shadowMemory = offsetsFrom blocks 0
  ramBlockArray : created.ramBlockArray = List.range blocks.length
  regions : created.shadowMemoryRegions.toNat = blocks.length
  ram : created.ramRegionIndex = UInt32.ofNat ((lastContaining pcRam blocks).getD 0)
  vram : created.vramRegionIndex =
    ((lastContaining vgaVram blocks).map UInt32.ofNat).getD 0xFFFFFFFF
  ranges : addRanges (offsetsFrom blocks 0) blocks 0 [] = some created.mrRanges
  ptr : created.ptr = contents blocks

lemma allocShadowMemory_new (blocks : List RAMBlock) : allocShadowMemory fastReloadNew blocks =
    if blocks.length ≤ (UInt32.ofNat blocks.length).toNat ∧ hasStartRegion blocks = true then
      (addRanges (offsetsFrom blocks 0) blocks 0 []).map fun ranges =>
        ⟨offsetsFrom blocks 0, List.range blocks.length, UInt32.ofNat blocks.length,
          ((lastContaining pcRam blocks).map UInt32.ofNat).getD 0,
          ((lastContaining vgaVram blocks).map UInt32.ofNat).getD 0xFFFFFFFF, ranges,
          contents blocks⟩
    else none := by
  have hcopy : copyBlocks blocks 0 (List.replicate (guestRamSize blocks) 0) =
      (contents blocks, offsetsFrom blocks 0) :=
    copyBlocks_eq blocks [] _ (List.length_replicate ..)
  have hzero : ∀ n : UInt32, 0 + n = n := UInt32.zero_add
  simp only [allocShadowMemory, fastReloadNew, hcopy, findRegions_eq, hzero]
  rfl

lemma snapshotOf_allocShadowMemory (h : allocShadowMemory fastReloadNew blocks = some created) :
    SnapshotOf blocks created := by
  rw [allocShadowMemory_new] at h
  by_cases hok : blocks.length ≤ (UInt32.ofNat blocks.length).toNat ∧ hasStartRegion blocks = true
  · rw [if_pos hok, Option.map_eq_some_iff] at h
    obtain ⟨ranges, hranges, rfl⟩ := h
    have hlt : blocks.length < 2 ^ 32 := Nat.lt_of_le_of_lt hok.1 (UInt32.toNat_lt _)
    constructor
    · exact hlt
    · exact hok.2
    · rfl
    · rfl
    · exact UInt32.toNat_ofNat_of_lt' hlt
    · show ((lastContaining pcRam blocks).map UInt32.ofNat).getD 0 = _
      cases lastContaining pcRam blocks with
      | none => rfl
      | some k => rfl
    · rfl
    · exact hranges
    · rfl
  · rw [if_neg hok] at h
    cases h

/-- The blocks of which a snapshot can be created: one of them is at the start of the memory, and
`mr_ranges` has room for those that are not read-only. -/
structure Creatable (blocks : List RAMBlock) : Prop where
  length_lt : blocks.length < 2 ^ 32
  start : hasStartRegion blocks = true
  writable : blocks.countP (fun b => !b.mr.readonly) ≤ 10

lemma addRanges_eq_some_iff (shadowMemory : List ℕ) (blocks : List RAMBlock) (i : ℕ)
    (ranges : List MrRange) (hshadow : i + blocks.length ≤ shadowMemory.length)
    (hranges : ranges.length ≤ 10) :
    (∃ ranges', addRanges shadowMemory blocks i ranges = some ranges') ↔
      ranges.length + blocks.countP (fun b => !b.mr.readonly) ≤ 10 := by
  induction blocks generalizing i ranges with
  | nil => simpa [addRanges] using hranges
  | cons b blocks ih =>
    rw [List.length_cons] at hshadow
    rw [addRanges]
    by_cases hro : b.mr.readonly = true
    · rw [if_pos hro, ih (i + 1) ranges (by omega) hranges]
      simp [hro]
    · by_cases hroom : ranges.length < 10
      · have hlt : i < shadowMemory.length := by omega
        rw [if_neg hro, if_pos hroom, List.getElem?_eq_getElem hlt]
        rw [ih (i + 1) _ (by omega) (by rw [List.length_append]; exact hroom)]
        simp [hro, Nat.add_assoc, Nat.add_comm 1]
      · rw [if_neg hro, if_neg hroom]
        simp [hro]
        omega

lemma length_offsetsFrom (blocks : List RAMBlock) (offset : ℕ) :
    (offsetsFrom blocks offset).length = blocks.length := by
  induction blocks generalizing offset with
  | nil => rfl
  | cons b blocks ih => simp [offsetsFrom, ih]

lemma allocShadowMemory_eq_some_iff (blocks : List RAMBlock) :
    (∃ created, allocShadowMemory fastReloadNew blocks = some created) ↔ Creatable blocks := by
  have hranges := addRanges_eq_some_iff (offsetsFrom blocks 0) blocks 0 []
    (by simp [length_offsetsFrom]) (by decide)
  rw [List.length_nil, Nat.zero_add] at hranges
  constructor
  · rintro ⟨created, hcreated⟩
    have h := snapshotOf_allocShadowMemory hcreated
    exact ⟨h.length_lt, h.start, hranges.mp ⟨_, h.ranges⟩⟩
  · intro h
    obtain ⟨ranges, hsome⟩ := hranges.mpr h.writable
    rw [allocShadowMemory_new, UInt32.toNat_ofNat_of_lt' h.length_lt, hsome]
    exact ⟨_, if_pos ⟨Nat.le_refl _, h.start⟩⟩

lemma filterMap_entries (pre blocks : List RAMBlock) (offset : ℕ) :
    ((offsetsFrom blocks offset).zip (List.range' pre.length blocks.length)).filterMap
        (fun (offset, i) => (pre ++ blocks)[i]?.map fun b => (⟨offset, b.idstr⟩ : DumpEntry)) =
      entriesFrom blocks offset := by
  induction blocks generalizing pre offset with
  | nil => rfl
  | cons b blocks ih =>
    have hrest := ih (pre ++ [b]) (offset + b.usedLength)
    rw [List.append_assoc, List.singleton_append, List.length_append, List.length_singleton] at hrest
    simp only [offsetsFrom, List.length_cons, List.range'_succ, List.zip_cons_cons, entriesFrom]
    rw [List.filterMap_cons_some (b := ⟨offset, b.idstr⟩) (by simp), hrest]

lemma SnapshotOf.dumpToFile (h : SnapshotOf blocks created) :
    dumpToFile created blocks = ⟨⟨created.shadowMemoryRegions, created.ramRegionIndex⟩,
      entriesFrom blocks 0, contents blocks⟩ := by
  have hentries := filterMap_entries [] blocks 0
  rw [List.length_nil, ← List.range_eq_range', List.nil_append] at hentries
  simp only [SnapshotFile.dumpToFile, h.shadowMemory, h.ramBlockArray, h.ptr, hentries]

lemma SnapshotOf.load (h : SnapshotOf blocks created)
    (hlayout : List.Forall₂ SameLayout blocks blocks') :
    allocShadowMemoryFromDump fastReloadNew (SnapshotFile.dumpToFile created blocks) blocks' =
      some (⟨offsetsFrom blocks 0, List.range blocks.length, created.shadowMemoryRegions,
        ((lastBeginning pcRam blocks).map UInt32.ofNat).getD created.ramRegionIndex,
        ((lastBeginning vgaVram blocks).map UInt32.ofNat).getD created.ramRegionIndex,
        created.mrRanges, contents blocks⟩, blocks) := by
  have hlength := hlayout.length_eq
  have hload : loadBlocks (contents blocks) blocks' (entriesFrom blocks 0) 0 =
      some (blocks, offsetsFrom blocks 0) := loadBlocks_eq hlayout []
  have hzero : ∀ n : UInt32, 0 + n = n := UInt32.zero_add
  have hok : created.shadowMemoryRegions.toNat = blocks'.length ∧
      guestRamSize blocks' = (contents blocks).length ∧ hasStartRegion blocks' = true := by
    refine ⟨h.regions.trans hlength, ?_, ?_⟩
    · rw [guestRamSize_eq_of_layout hlayout, length_contents]
    · rw [hasStartRegion_eq_of_layout hlayout, h.start]
  simp only [allocShadowMemoryFromDump, h.dumpToFile, if_pos hok, hload]
  rw [addRanges_eq_of_layout hlayout, findRegions_eq_of_layout hlayout, findRegions_eq]
  simp only [fastReloadNew, h.ranges, hlength, hzero]
  rfl

/-- The two ways to find a region name the same block: for the RAM, where a name begins with the
text at all; for the video RAM, which is the RAM otherwise. -/
structure IndicesKept (blocks : List RAMBlock) : Prop where
  ram : ∀ k, lastBeginning pcRam blocks = some k → lastContaining pcRam blocks = some k
  vram : ∀ k, lastBeginning vgaVram blocks = some k → lastContaining vgaVram blocks = some k
  vram_absent : lastBeginning vgaVram blocks = none →
    lastContaining vgaVram blocks = some ((lastContaining pcRam blocks).getD 0)

lemma exists_lastContaining {name : List Char} {k : ℕ} (h : lastBeginning name blocks = some k) :
    ∃ j, lastContaining name blocks = some j := by
  apply Option.ne_none_iff_exists'.mp
  apply lastBlock_ne_none_of_imp (fun s => @strstr_of_memcmpEq s name)
  rw [show lastBlock (memcmpEq · name) blocks = some k from h]
  exact Option.some_ne_none k

lemma ofNat32_inj {j k : ℕ} (hj : j < 2 ^ 32) (hk : k < 2 ^ 32) :
    UInt32.ofNat j = UInt32.ofNat k ↔ j = k := by
  constructor
  · intro heq
    have htoNat := congrArg UInt32.toNat heq
    rwa [UInt32.toNat_ofNat_of_lt' hj, UInt32.toNat_ofNat_of_lt' hk] at htoNat
  · exact congrArg UInt32.ofNat

section

variable (h : SnapshotOf blocks created)
include h

lemma SnapshotOf.lt_of_lastBlock {test : List Char → Bool} {k : ℕ}
    (hk : lastBlock test blocks = some k) : k + 1 < 2 ^ 32 := by
  have hlt := lastBlock_lt hk
  have hlength := h.length_lt
  omega

lemma SnapshotOf.getD_lt (name : List Char) : (lastContaining name blocks).getD 0 + 1 < 2 ^ 32 := by
  cases hk : lastContaining name blocks with
  | none => decide
  | some k => exact h.lt_of_lastBlock hk

lemma SnapshotOf.ram_iff :
    ((lastBeginning pcRam blocks).map UInt32.ofNat).getD created.ramRegionIndex =
        created.ramRegionIndex ↔
      ∀ k, lastBeginning pcRam blocks = some k → lastContaining pcRam blocks = some k := by
  cases hk : lastBeginning pcRam blocks with
  | none => simp
  | some k =>
    obtain ⟨j, hj⟩ := exists_lastContaining hk
    have hklt : k + 1 < 2 ^ 32 := h.lt_of_lastBlock hk
    have hjlt : j + 1 < 2 ^ 32 := h.lt_of_lastBlock hj
    simp only [Option.map_some, Option.getD_some, h.ram, hj, Option.some.injEq]
    rw [ofNat32_inj (by omega) (by omega)]
    constructor
    · rintro rfl k rfl
      rfl
    · intro hall
      exact (hall k rfl).symm

lemma SnapshotOf.vram_iff :
    ((lastBeginning vgaVram blocks).map UInt32.ofNat).getD created.ramRegionIndex =
        created.vramRegionIndex ↔
      (∀ k, lastBeginning vgaVram blocks = some k → lastContaining vgaVram blocks = some k) ∧
      (lastBeginning vgaVram blocks = none →
        lastContaining vgaVram blocks = some ((lastContaining pcRam blocks).getD 0)) := by
  have hram := h.getD_lt pcRam
  cases hk : lastBeginning vgaVram blocks with
  | none =>
    simp only [Option.map_none, Option.getD_none, h.ram, h.vram]
    cases hj : lastContaining vgaVram blocks with
    | none =>
      -- no block for the video RAM: the index of the RAM is never `0xFFFFFFFF`
      have hne : UInt32.ofNat ((lastContaining pcRam blocks).getD 0) ≠ UInt32.ofNat 0xFFFFFFFF := by
        rw [Ne, ofNat32_inj (by omega) (by decide)]
        omega
      simpa using hne
    | some j =>
      have hjlt : j + 1 < 2 ^ 32 := h.lt_of_lastBlock hj
      simp only [Option.map_some, Option.getD_some, Option.some.injEq]
      rw [ofNat32_inj (by omega) (by omega)]
      simp [eq_comm]
  | some k =>
    obtain ⟨j, hj⟩ := exists_lastContaining hk
    have hklt : k + 1 < 2 ^ 32 := h.lt_of_lastBlock hk
    have hjlt : j + 1 < 2 ^ 32 := h.lt_of_lastBlock hj
    simp only [Option.map_some, Option.getD_some, h.vram, hj, Option.some.injEq]
    rw [ofNat32_inj (by omega) (by omega)]
    simp [eq_comm]

end

/-- A snapshot is created, and loading its dump in a process with the same blocks gives it back,
exactly if there is room for its ranges and both ways to find the regions agree. -/
theorem persisted_iff (hlayout : List.Forall₂ SameLayout blocks blocks') :
    (∃ created, allocShadowMemory fastReloadNew blocks = some created ∧
      ∃ loaded, allocShadowMemoryFromDump fastReloadNew (SnapshotFile.dumpToFile created blocks)
        blocks' = some loaded ∧ Persisted blocks created loaded) ↔
      Creatable blocks ∧ IndicesKept blocks := by
  rw [← allocShadowMemory_eq_some_iff]
  constructor
  · rintro ⟨created, hcreated, loaded, hloaded, hpersisted⟩
    have h := snapshotOf_allocShadowMemory hcreated
    rw [h.load hlayout] at hloaded
    cases hloaded
    obtain ⟨hvram, habsent⟩ := h.vram_iff.mp hpersisted.vramRegionIndex
    exact ⟨⟨created, hcreated⟩, h.ram_iff.mp hpersisted.ramRegionIndex, hvram, habsent⟩
  · rintro ⟨⟨created, hcreated⟩, hkept⟩
    have h := snapshotOf_allocShadowMemory hcreated
    refine ⟨created, hcreated, _, h.load hlayout, ?_⟩
    constructor
    · rfl
    · intro i b hi
      exact shadow_eq blocks [] hi
    · rfl
    · exact h.ram_iff.mpr hkept.ram
    · exact h.vram_iff.mpr ⟨hkept.vram, hkept.vram_absent⟩

def pcBlocks : List RAMBlock :=
  [⟨⟨pcRam, by decide⟩, 0, ⟨0, 2, false⟩, [1, 2]⟩,
    ⟨⟨vgaVram, by decide⟩, 0x1000, ⟨0xA0000, 1, false⟩, [3]⟩]

theorem persisted_iff_pcBlocks :
    ∃ created, allocShadowMemory fastReloadNew pcBlocks = some created ∧
      ∃ loaded, allocShadowMemoryFromDump fastReloadNew (SnapshotFile.dumpToFile created pcBlocks)
        pcBlocks = some loaded ∧ Persisted pcBlocks created loaded := by
  have hlayout : List.Forall₂ SameLayout pcBlocks pcBlocks :=
    List.forall₂_same.mpr fun b _ => ⟨rfl, rfl, rfl, rfl⟩
  apply (persisted_iff hlayout).mpr
  have hram : lastContaining pcRam pcBlocks = some 0 := by decide
  have hvram : lastContaining vgaVram pcBlocks = some 1 := by decide
  have hram' : lastBeginning pcRam pcBlocks = some 0 := by decide
  have hvram' : lastBeginning vgaVram pcBlocks = some 1 := by decide
  refine ⟨⟨by decide, by decide, by decide⟩, ?_, ?_, ?_⟩
  · simp [hram, hram']
  · simp [hvram, hvram']
  · simp [hvram']

/-- The video RAM of a PCI card: its name only contains what the loader takes for a beginning. -/
def pciBlocks : List RAMBlock :=
  [⟨⟨pcRam, by decide⟩, 0, ⟨0, 2, false⟩, [1, 2]⟩,
    ⟨⟨['0', '0', '0', '0', ':', '0', '0', ':', '0', '2', '.', '0', '/'] ++ vgaVram, by decide⟩,
      0x1000, ⟨0xA0000, 1, false⟩, [3]⟩]

def pciCreated : FastReload := (allocShadowMemory fastReloadNew pciBlocks).get (by decide)

def pciLoaded : FastReload × List RAMBlock :=
  (allocShadowMemoryFromDump fastReloadNew (SnapshotFile.dumpToFile pciCreated pciBlocks)
    pciBlocks).get (by decide)

theorem not_persisted_pciBlocks :
    allocShadowMemory fastReloadNew pciBlocks = some pciCreated ∧
      allocShadowMemoryFromDump fastReloadNew (SnapshotFile.dumpToFile pciCreated pciBlocks)
        pciBlocks = some pciLoaded ∧
      pciCreated.vramRegionIndex = 1 ∧ pciLoaded.1.vramRegionIndex = 0 ∧
      ¬Persisted pciBlocks pciCreated pciLoaded := by
  refine ⟨Option.some_get _ |>.symm, Option.some_get _ |>.symm, by decide, by decide, ?_⟩
  intro hpersisted
  exact absurd hpersisted.vramRegionIndex (by decide)

end RoundTrip

end Nyx.SnapshotFile
