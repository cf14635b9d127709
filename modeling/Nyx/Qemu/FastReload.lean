import Nyx.Lib.Exec
import Nyx.Lib.SlotTable

/-!
# Restoring the guest RAM

The RAM is brought back to the snapshot from two lists of written pages, one of the kernel and one
of QEMU, which share the dirty bits. Pages on the black list keep their content: their dirty bit is
cleared, which only the pass over the first list looks at.
-/

namespace Nyx.FastReload

open Function

def TARGET_PAGE_SIZE : ℕ := 0x1000

def USER_FDL_SLOTS : ℕ := 0x400000

inductive Abort where
  | userFdlFull
  deriving DecidableEq, Repr

/-- A range of the guest's memory. -/
structure MrRange where
  mrStart : ℕ
  mrEnd : ℕ
  block : ℕ
  offset : ℕ
  deriving DecidableEq, Repr

/-- The part of `fast_reload_t` that stays as it is after the snapshot was taken. -/
structure Snapshot where
  mrRanges : List MrRange
  ramRegionIndex : ℕ
  /-- The offset of each RAM block in the dirty bitmap, in bytes. -/
  blockOffset : ℕ → ℕ
  blackListPages : List ℕ
  shadowMemory : ℕ → ℕ → UInt8

/-- The memory of each RAM block, the dirty bits of QEMU and those that the kernel has not handed
over yet, the list of the kernel and the list of QEMU. -/
structure Machine where
  host : ℕ → ℕ → UInt8
  dirty : ℕ → Bool
  kvmDirty : ℕ → Bool
  fdlData : List ℕ
  userFdl : List ℕ
  userFdlEnabled : Bool

abbrev ReloadM := Exec Abort Machine

/-- The pages of the dirty bitmap that a range of bytes touches. -/
def dirtyPages (start length : ℕ) : List ℕ :=
  List.range' (start / TARGET_PAGE_SIZE)
    ((start + length + (TARGET_PAGE_SIZE - 1)) / TARGET_PAGE_SIZE - start / TARGET_PAGE_SIZE)

namespace Machine

def testDirty (m : Machine) (start length : ℕ) : Bool := (dirtyPages start length).any m.dirty

def clearDirty (m : Machine) (start length : ℕ) : Machine :=
  { m with dirty := fun p => m.dirty p && decide (p ∉ dirtyPages start length) }

def setDirty (m : Machine) (start length : ℕ) : Machine :=
  { m with dirty := fun p => m.dirty p || decide (p ∈ dirtyPages start length) }

def copyPage (m : Machine) (snap : Snapshot) (block offsetAddr : ℕ) : Machine :=
  { m with
    host := update m.host block
      (blit (m.host block) offsetAddr (snap.shadowMemory block) offsetAddr TARGET_PAGE_SIZE) }

def memoryGlobalDirtyLogSync (m : Machine) : Machine :=
  { m with dirty := fun p => m.dirty p || m.kvmDirty p, kvmDirty := fun _ => false }

end Machine

def unsetBlackListPages (snap : Snapshot) (m : Machine) : Machine :=
  snap.blackListPages.foldl
    (fun m page => m.clearDirty (snap.blockOffset snap.ramRegionIndex + page) TARGET_PAGE_SIZE) m

def findDirtyRange (snap : Snapshot) (addr : ℕ) (m : Machine) (r : MrRange) : Machine :=
  if r.mrStart ≤ addr ∧ addr < r.mrEnd then
    if m.testDirty (r.offset + (addr - r.mrStart)) TARGET_PAGE_SIZE then
      (m.clearDirty (r.offset + (addr - r.mrStart)) TARGET_PAGE_SIZE).copyPage snap r.block
        (addr - r.mrStart)
    else m.clearDirty (r.offset + (addr - r.mrStart)) TARGET_PAGE_SIZE
  else m

/-- Reading the index starts a new list in the kernel. -/
def findDirtyPagesFdl (snap : Snapshot) (m : Machine) : Machine :=
  { m.fdlData.foldl (fun m addr => snap.mrRanges.foldl (findDirtyRange snap addr) m) m with
    fdlData := [] }

def qemuUserFdlRestore (snap : Snapshot) (m : Machine) : Machine :=
  { m.userFdl.foldl
      (fun m addr =>
        (m.clearDirty (snap.blockOffset snap.ramRegionIndex + addr) TARGET_PAGE_SIZE).copyPage snap
          snap.ramRegionIndex addr) m with
    userFdl := [] }

/-- The part of `fast_reload_restore` that deals with memory. -/
def fastReloadRestore (snap : Snapshot) (m : Machine) : Machine :=
  qemuUserFdlRestore snap
    (findDirtyPagesFdl snap (unsetBlackListPages snap m.memoryGlobalDirtyLogSync))

def userFdlRound (addr : ℕ) : ReloadM Unit := fun m =>
  let page := addr / TARGET_PAGE_SIZE * TARGET_PAGE_SIZE
  if m.testDirty page TARGET_PAGE_SIZE then (.ok (), m)
  else if m.userFdl.length + 1 < USER_FDL_SLOTS then
    (.ok (), { m with userFdl := m.userFdl ++ [page] })
  else (.error .userFdlFull, { m with userFdl := m.userFdl ++ [page] })

/-- `fast_reload_qemu_user_fdl_set_dirty`. The memory region is not looked at. -/
def qemuUserFdlSetDirty (addr length : ℕ) : ReloadM Unit := do
  let enabled ← Exec.gets Machine.userFdlEnabled
  if enabled ∧ 0x1000 ≤ length then
    Exec.forEach (List.range ((length + 0xfff) / 0x1000)) fun i => userFdlRound (addr + 0x1000 * i)
  else pure ()

def qemuWrite (snap : Snapshot) (block addr length : ℕ) (content : ℕ → UInt8) : ReloadM Unit := do
  Exec.modify fun m =>
    { m with host := update m.host block (blit (m.host block) addr content 0 length) }
  qemuUserFdlSetDirty (addr / 0x1000 * 0x1000) length
  Exec.modify fun m => m.setDirty (snap.blockOffset block + addr) length

/-- A write of the guest to a page of a block: the kernel logs the first write of every page, and
the page becomes dirty with the next sync. -/
def guestWrite (snap : Snapshot) (block guestAddr page : ℕ) (content : ℕ → UInt8) (m : Machine) :
    Machine :=
  { m with
    host := update m.host block
      (blit (m.host block) (page * TARGET_PAGE_SIZE) content 0 TARGET_PAGE_SIZE)
    fdlData := if guestAddr ∈ m.fdlData then m.fdlData else m.fdlData ++ [guestAddr]
    kvmDirty := update m.kvmDirty (snap.blockOffset block / TARGET_PAGE_SIZE + page) true }

/-- The RAM is mapped linearly from the start of its memory region on and is the first RAM block. -/
structure Layout (snap : Snapshot) (mrStart size : ℕ) : Prop where
  size_mod : size % TARGET_PAGE_SIZE = 0
  offset : snap.blockOffset snap.ramRegionIndex = 0
  ram : ⟨mrStart, mrStart + size, snap.ramRegionIndex, 0⟩ ∈ snap.mrRanges
  others : ∀ r ∈ snap.mrRanges, r = ⟨mrStart, mrStart + size, snap.ramRegionIndex, 0⟩ ∨
    r.block ≠ snap.ramRegionIndex ∧ size ≤ r.offset
  blocks : ∀ b, b ≠ snap.ramRegionIndex → size ≤ snap.blockOffset b
  black : ∀ a ∈ snap.blackListPages, a % TARGET_PAGE_SIZE = 0

def Machine.lists (m : Machine) : List ℕ × List ℕ × (ℕ → Bool) × Bool :=
  (m.fdlData, m.userFdl, m.kvmDirty, m.userFdlEnabled)

/-- A pass of the restore over the pages in `S`: the dirty bits are cleared, and `copy` tells from the
bit of a page whether the page is taken from the snapshot. -/
structure Passes (snap : Snapshot) (size : ℕ) (copy : Bool → Bool) (S : ℕ → Bool)
    (m m' : Machine) : Prop where
  bytes : ∀ b, b / TARGET_PAGE_SIZE < size / TARGET_PAGE_SIZE → m'.host snap.ramRegionIndex b =
    if S (b / TARGET_PAGE_SIZE) && copy (m.dirty (b / TARGET_PAGE_SIZE)) then
      snap.shadowMemory snap.ramRegionIndex b
    else m.host snap.ramRegionIndex b
  dirty : ∀ p < size / TARGET_PAGE_SIZE, m'.dirty p = (m.dirty p && !S p)
  lists : m'.lists = m.lists

section Passes

variable {snap : Snapshot} {mrStart size p : ℕ} {copy : Bool → Bool} {S T : ℕ → Bool}
  {m m₁ m' : Machine}

lemma any_eq_mem (l : List ℕ) (c : ℕ) : (l.any fun a => decide (c = a)) = decide (c ∈ l) := by
  rw [Bool.eq_iff_iff]
  simp

namespace Passes

lemma refl (m : Machine) : Passes snap size copy (fun _ => false) m m := by
  constructor <;> simp

variable (hcopy : copy false → ∀ d, copy d)
include hcopy

lemma trans (h : Passes snap size copy S m m₁)
    (h' : Passes snap size copy T m₁ m') : Passes snap size copy (fun p => S p || T p) m m' where
  bytes b hb := by
    rw [h'.bytes b hb, h.bytes b hb, h.dirty _ hb]
    by_cases hS : S (b / TARGET_PAGE_SIZE) = true
    · by_cases hfalse : copy false = true
      · simp [hS, hfalse, hcopy hfalse]
      · simp [hS, hfalse]
    · simp [hS]
  dirty p hp := by
    rw [h'.dirty p hp, h.dirty p hp]
    simp [Bool.and_assoc]
  lists := h'.lists.trans h.lists

lemma foldl {α : Type} {step : Machine → α → Machine}
    {S : α → ℕ → Bool} {l : List α} (hstep : ∀ a ∈ l, ∀ m, Passes snap size copy (S a) m (step m a))
    (m : Machine) : Passes snap size copy (fun q => l.any (S · q)) m (l.foldl step m) := by
  induction l generalizing m with
  | nil => exact .refl m
  | cons a l ih =>
    have hrest := ih (fun b hb => hstep b (List.mem_cons_of_mem a hb)) (step m a)
    exact (hstep a List.mem_cons_self m).trans hcopy hrest

lemma pages {step : Machine → ℕ → Machine} {l : List ℕ} (hl : ∀ a ∈ l, a % TARGET_PAGE_SIZE = 0)
    (hstep : ∀ m p, Passes snap size copy (fun q => q = p) m (step m (p * TARGET_PAGE_SIZE)))
    (m : Machine) :
    Passes snap size copy (fun q => decide (q * TARGET_PAGE_SIZE ∈ l)) m (l.foldl step m) := by
  have hpage : ∀ a ∈ l, ∀ m,
      Passes snap size copy (fun q => decide (q * TARGET_PAGE_SIZE = a)) m (step m a) := by
    intro a ha m
    obtain ⟨p, rfl⟩ : ∃ p, a = p * TARGET_PAGE_SIZE :=
      ⟨_, (Nat.div_mul_cancel (Nat.dvd_of_mod_eq_zero (hl a ha))).symm⟩
    have heq : ∀ q, q * TARGET_PAGE_SIZE = p * TARGET_PAGE_SIZE ↔ q = p := by
      intro q
      simp only [TARGET_PAGE_SIZE]
      omega
    simpa only [heq] using hstep m p
  simpa only [any_eq_mem] using foldl hcopy hpage m

end Passes

lemma dirtyPages_page (p : ℕ) : dirtyPages (p * TARGET_PAGE_SIZE) TARGET_PAGE_SIZE = [p] := by
  have hstart : p * TARGET_PAGE_SIZE / TARGET_PAGE_SIZE = p := by
    simp only [TARGET_PAGE_SIZE]
    omega
  have hend : (p * TARGET_PAGE_SIZE + TARGET_PAGE_SIZE + (TARGET_PAGE_SIZE - 1)) / TARGET_PAGE_SIZE =
      p + 1 := by
    simp only [TARGET_PAGE_SIZE]
    omega
  rw [dirtyPages, hstart, hend, Nat.add_sub_cancel_left]
  rfl

lemma le_of_mem_dirtyPages {start length : ℕ} (h : p ∈ dirtyPages start length) :
    start / TARGET_PAGE_SIZE ≤ p := (List.mem_range'_1.mp h).1

lemma blit_page (dst src : ℕ → UInt8) (p b : ℕ) :
    blit dst (p * TARGET_PAGE_SIZE) src (p * TARGET_PAGE_SIZE) TARGET_PAGE_SIZE b =
      if b / TARGET_PAGE_SIZE = p then src b else dst b := by
  have hin : (p * TARGET_PAGE_SIZE ≤ b ∧ b < p * TARGET_PAGE_SIZE + TARGET_PAGE_SIZE) ↔
      b / TARGET_PAGE_SIZE = p := by
    simp only [TARGET_PAGE_SIZE]
    omega
  unfold blit
  by_cases hb : b / TARGET_PAGE_SIZE = p
  · rw [if_pos (hin.mpr hb), if_pos hb, Nat.add_sub_cancel' (hin.mpr hb).1]
  · rw [if_neg (mt hin.mp hb), if_neg hb]

lemma passes_clearDirty (m : Machine) (p : ℕ) :
    Passes snap size (fun _ => false) (fun q => q = p) m
      (m.clearDirty (p * TARGET_PAGE_SIZE) TARGET_PAGE_SIZE) where
  bytes b _ := by simp [Machine.clearDirty]
  dirty q _ := by simp [Machine.clearDirty, dirtyPages_page]
  lists := rfl

lemma passes_copyPage (m : Machine) (p : ℕ) :
    Passes snap size (fun _ => true) (fun q => q = p) m
      ((m.clearDirty (p * TARGET_PAGE_SIZE) TARGET_PAGE_SIZE).copyPage snap snap.ramRegionIndex
        (p * TARGET_PAGE_SIZE)) where
  bytes b _ := by simp [Machine.copyPage, Machine.clearDirty, blit_page]
  dirty q _ := by simp [Machine.copyPage, Machine.clearDirty, dirtyPages_page]
  lists := rfl

lemma passes_findDirtyRange {mrStart : ℕ} (hp : p < size / TARGET_PAGE_SIZE) (m : Machine) :
    Passes snap size id (fun q => q = p) m (findDirtyRange snap (mrStart + p * TARGET_PAGE_SIZE) m
      ⟨mrStart, mrStart + size, snap.ramRegionIndex, 0⟩) := by
  have hin : mrStart ≤ mrStart + p * TARGET_PAGE_SIZE ∧
      mrStart + p * TARGET_PAGE_SIZE < mrStart + size := by
    simp only [TARGET_PAGE_SIZE] at *
    omega
  have hpos : mrStart + p * TARGET_PAGE_SIZE - mrStart = p * TARGET_PAGE_SIZE := by omega
  have hdirty : m.testDirty (p * TARGET_PAGE_SIZE) TARGET_PAGE_SIZE = m.dirty p := by
    simp [Machine.testDirty, dirtyPages_page]
  rw [findDirtyRange, if_pos hin]
  simp only [hpos, Nat.zero_add, hdirty]
  -- the bit of the page decides
  by_cases hd : m.dirty p = true
  · rw [if_pos hd]
    have hcopied : Passes snap size (fun _ => true) _ m _ := passes_copyPage m p
    refine { hcopied with bytes := fun b hb => ?_ }
    rw [hcopied.bytes b hb]
    by_cases hb : b / TARGET_PAGE_SIZE = p <;> simp [hb, hd]
  · rw [if_neg hd]
    have hcleared : Passes snap size (fun _ => false) _ m _ := passes_clearDirty m p
    refine { hcleared with bytes := fun b hb => ?_ }
    rw [hcleared.bytes b hb]
    by_cases hb : b / TARGET_PAGE_SIZE = p <;> simp [hb, hd]

section Ranges

variable (hl : Layout snap mrStart size)
include hl

lemma Layout.page_lt {b : ℕ} (hb : b < size) : b / TARGET_PAGE_SIZE < size / TARGET_PAGE_SIZE := by
  have hmod := hl.size_mod
  simp only [TARGET_PAGE_SIZE] at *
  omega

lemma Layout.not_mem_dirtyPages (hp : p < size / TARGET_PAGE_SIZE) {start : ℕ} (h : size ≤ start)
    (length : ℕ) : p ∉ dirtyPages start length := by
  intro hmem
  have hle := le_of_mem_dirtyPages hmem
  have hmod := hl.size_mod
  simp only [TARGET_PAGE_SIZE] at *
  omega

lemma passes_findDirtyRange_of_ne (m : Machine) (addr : ℕ) {r : MrRange}
    (hblock : r.block ≠ snap.ramRegionIndex) (hoffset : size ≤ r.offset) :
    Passes snap size copy (fun _ => false) m (findDirtyRange snap addr m r) := by
  have hclear : ∀ p < size / TARGET_PAGE_SIZE,
      (m.clearDirty (r.offset + (addr - r.mrStart)) TARGET_PAGE_SIZE).dirty p = m.dirty p := by
    intro p hp
    have hle : size ≤ r.offset + (addr - r.mrStart) := by omega
    have hout := hl.not_mem_dirtyPages hp hle TARGET_PAGE_SIZE
    simp [Machine.clearDirty, hout]
  unfold findDirtyRange
  split
  · split
    · constructor
      · simp [Machine.copyPage, Machine.clearDirty, update_of_ne hblock.symm]
      · simpa [Machine.copyPage] using hclear
      · rfl
    · constructor
      · simp [Machine.clearDirty]
      · simpa using hclear
      · rfl
  · exact .refl m

lemma passes_ranges (hp : p < size / TARGET_PAGE_SIZE) (m : Machine) :
    Passes snap size id (fun q => q = p) m
      (snap.mrRanges.foldl (findDirtyRange snap (mrStart + p * TARGET_PAGE_SIZE)) m) := by
  have hrange : ∀ r ∈ snap.mrRanges, ∀ m, Passes snap size id (fun q =>
      decide (r = ⟨mrStart, mrStart + size, snap.ramRegionIndex, 0⟩) && decide (q = p)) m
      (findDirtyRange snap (mrStart + p * TARGET_PAGE_SIZE) m r) := by
    intro r hr m
    rcases hl.others r hr with rfl | ⟨hblock, hoffset⟩
    · simpa using passes_findDirtyRange hp m
    · have hne : r ≠ ⟨mrStart, mrStart + size, snap.ramRegionIndex, 0⟩ := by
        rintro rfl
        exact hblock rfl
      simpa [hne] using passes_findDirtyRange_of_ne hl m _ hblock hoffset
  have hany : ∀ q, (snap.mrRanges.any fun r =>
      decide (r = ⟨mrStart, mrStart + size, snap.ramRegionIndex, 0⟩) && decide (q = p)) =
      decide (q = p) := by
    intro q
    by_cases hq : q = p <;> simp [hq, hl.ram]
  simpa only [hany] using Passes.foldl (by simp) hrange m

lemma passes_ranges_of_out {addr : ℕ} (hout : ¬(mrStart ≤ addr ∧ addr < mrStart + size))
    (m : Machine) :
    Passes snap size id (fun _ => false) m (snap.mrRanges.foldl (findDirtyRange snap addr) m) := by
  have hrange : ∀ r ∈ snap.mrRanges, ∀ m,
      Passes snap size id (fun _ => false) m (findDirtyRange snap addr m r) := by
    intro r hr m
    rcases hl.others r hr with rfl | ⟨hblock, hoffset⟩
    · rw [findDirtyRange, if_neg hout]
      exact .refl m
    · exact passes_findDirtyRange_of_ne hl m addr hblock hoffset
  have hany : (snap.mrRanges.any fun _ => false) = false := List.any_eq_false.mpr (by simp)
  simpa only [hany] using Passes.foldl (by simp) hrange m

end Ranges

/-- The entries of the kernel's list that lie in the RAM are pages of it. -/
def PageEntries (mrStart size : ℕ) (fdl : List ℕ) : Prop :=
  ∀ addr ∈ fdl, mrStart ≤ addr → addr < mrStart + size → ∃ p, addr = mrStart + p * TARGET_PAGE_SIZE

lemma passes_entries (hl : Layout snap mrStart size) {fdl : List ℕ}
    (hfdl : PageEntries mrStart size fdl) (m : Machine) :
    Passes snap size id (fun q => decide (q < size / TARGET_PAGE_SIZE) &&
        decide (mrStart + q * TARGET_PAGE_SIZE ∈ fdl)) m
      (fdl.foldl (fun m addr => snap.mrRanges.foldl (findDirtyRange snap addr) m) m) := by
  have hentry : ∀ addr ∈ fdl, ∀ m, Passes snap size id (fun q =>
      decide (q < size / TARGET_PAGE_SIZE) && decide (mrStart + q * TARGET_PAGE_SIZE = addr)) m
      (snap.mrRanges.foldl (findDirtyRange snap addr) m) := by
    intro addr haddr m
    by_cases hin : mrStart ≤ addr ∧ addr < mrStart + size
    · obtain ⟨p, rfl⟩ := hfdl addr haddr hin.1 hin.2
      have hp : p < size / TARGET_PAGE_SIZE := by
        have hmod := hl.size_mod
        simp only [TARGET_PAGE_SIZE] at *
        omega
      have hpage : ∀ q, (decide (q < size / TARGET_PAGE_SIZE) && decide
          (mrStart + q * TARGET_PAGE_SIZE = mrStart + p * TARGET_PAGE_SIZE)) = decide (q = p) := by
        intro q
        rw [← Bool.decide_and, decide_eq_decide]
        simp only [TARGET_PAGE_SIZE] at *
        omega
      simpa only [hpage] using passes_ranges hl hp m
    · have hnone : ∀ q, (decide (q < size / TARGET_PAGE_SIZE) &&
          decide (mrStart + q * TARGET_PAGE_SIZE = addr)) = false := by
        intro q
        rw [← Bool.decide_and, decide_eq_false_iff_not]
        simp only [TARGET_PAGE_SIZE] at *
        omega
      simpa only [hnone] using passes_ranges_of_out hl hin m
  have hany : ∀ q, (fdl.any fun addr => decide (q < size / TARGET_PAGE_SIZE) &&
      decide (mrStart + q * TARGET_PAGE_SIZE = addr)) =
      (decide (q < size / TARGET_PAGE_SIZE) && decide (mrStart + q * TARGET_PAGE_SIZE ∈ fdl)) := by
    intro q
    by_cases hq : q < size / TARGET_PAGE_SIZE <;> simp [hq, any_eq_mem]
  simpa only [hany] using Passes.foldl (by simp) hentry m

end Passes

/-- What holds between two restores: the dirty bits of the RAM are explained by the two lists, and a
page that differs from its shadow copy is in one of them, or on the black list. -/
structure Tracked (snap : Snapshot) (mrStart size : ℕ) (m : Machine) : Prop where
  enabled : m.userFdlEnabled = true
  entries : PageEntries mrStart size m.fdlData
  user : ∀ a ∈ m.userFdl, a % TARGET_PAGE_SIZE = 0
  kvm : ∀ p < size / TARGET_PAGE_SIZE, m.kvmDirty p = true →
    mrStart + p * TARGET_PAGE_SIZE ∈ m.fdlData
  dirty : ∀ p < size / TARGET_PAGE_SIZE, m.dirty p = true →
    p * TARGET_PAGE_SIZE ∈ m.userFdl ∨ mrStart + p * TARGET_PAGE_SIZE ∈ m.fdlData
  clean : ∀ b < size, b / TARGET_PAGE_SIZE * TARGET_PAGE_SIZE ∉ snap.blackListPages →
    b / TARGET_PAGE_SIZE * TARGET_PAGE_SIZE ∉ m.userFdl →
    ¬(mrStart + b / TARGET_PAGE_SIZE * TARGET_PAGE_SIZE ∈ m.fdlData ∧
      (m.dirty (b / TARGET_PAGE_SIZE) = true ∨ m.kvmDirty (b / TARGET_PAGE_SIZE) = true)) →
    m.host snap.ramRegionIndex b = snap.shadowMemory snap.ramRegionIndex b

section Restore

variable {snap : Snapshot} {mrStart size : ℕ} {m : Machine} (hl : Layout snap mrStart size)
  (hm : Tracked snap mrStart size m)
include hl hm

lemma passes_restore : ∃ m₁ m₂ m₃ : Machine,
    Passes snap size (fun _ => false) (fun q => decide (q * TARGET_PAGE_SIZE ∈ snap.blackListPages))
      m.memoryGlobalDirtyLogSync m₁ ∧
    Passes snap size id (fun q => decide (q < size / TARGET_PAGE_SIZE) &&
      decide (mrStart + q * TARGET_PAGE_SIZE ∈ m.fdlData)) m₁ m₂ ∧
    Passes snap size (fun _ => true) (fun q => decide (q * TARGET_PAGE_SIZE ∈ m.userFdl))
      { m₂ with fdlData := [] } m₃ ∧
    fastReloadRestore snap m = { m₃ with userFdl := [] } := by
  have hblack : Passes snap size (fun _ => false)
      (fun q => decide (q * TARGET_PAGE_SIZE ∈ snap.blackListPages)) m.memoryGlobalDirtyLogSync
      (unsetBlackListPages snap m.memoryGlobalDirtyLogSync) := by
    refine Passes.pages (by simp) hl.black (fun m p => ?_) _
    rw [hl.offset, Nat.zero_add]
    exact passes_clearDirty m p
  set m₁ := unsetBlackListPages snap m.memoryGlobalDirtyLogSync
  have hkernel := passes_entries hl hm.entries m₁
  set m₂ := m.fdlData.foldl (fun m addr => snap.mrRanges.foldl (findDirtyRange snap addr) m) m₁
  have huser : Passes snap size (fun _ => true) (fun q => decide (q * TARGET_PAGE_SIZE ∈ m.userFdl))
      { m₂ with fdlData := [] }
      (m.userFdl.foldl (fun m addr => (m.clearDirty (snap.blockOffset snap.ramRegionIndex + addr)
        TARGET_PAGE_SIZE).copyPage snap snap.ramRegionIndex addr) { m₂ with fdlData := [] }) := by
    refine Passes.pages (fun _ _ => rfl) hm.user (fun m p => ?_) _
    rw [hl.offset, Nat.zero_add]
    exact passes_copyPage m p
  have hfdl : m₁.fdlData = m.fdlData := congrArg Prod.fst hblack.lists
  have hlog : m₂.userFdl = m.userFdl :=
    congrArg (fun l : List ℕ × List ℕ × (ℕ → Bool) × Bool => l.2.1) (hkernel.lists.trans hblack.lists)
  refine ⟨m₁, m₂, _, hblack, hkernel, huser, ?_⟩
  have hfind : findDirtyPagesFdl snap m₁ = { m₂ with fdlData := [] } := by
    rw [findDirtyPagesFdl, hfdl]
  have hrestore : fastReloadRestore snap m = qemuUserFdlRestore snap (findDirtyPagesFdl snap m₁) := rfl
  rw [hrestore, hfind, qemuUserFdlRestore, hlog]

lemma lists_restore : (fastReloadRestore snap m).lists = ([], [], fun _ => false, true) := by
  obtain ⟨m₁, m₂, m₃, hblack, hkernel, huser, heq⟩ := passes_restore hl hm
  have h₁ := hblack.lists
  have h₂ := hkernel.lists
  have h₃ := huser.lists
  simp only [Machine.lists, Machine.memoryGlobalDirtyLogSync, Prod.mk.injEq, hm.enabled] at h₁ h₂ h₃
  simp [heq, Machine.lists, h₃, h₂, h₁]

lemma bytes_restore {b : ℕ} (hb : b < size) :
    (fastReloadRestore snap m).host snap.ramRegionIndex b =
      if b / TARGET_PAGE_SIZE * TARGET_PAGE_SIZE ∈ m.userFdl ∨
          mrStart + b / TARGET_PAGE_SIZE * TARGET_PAGE_SIZE ∈ m.fdlData ∧
          (m.dirty (b / TARGET_PAGE_SIZE) ∨ m.kvmDirty (b / TARGET_PAGE_SIZE)) ∧
          b / TARGET_PAGE_SIZE * TARGET_PAGE_SIZE ∉ snap.blackListPages then
        snap.shadowMemory snap.ramRegionIndex b
      else m.host snap.ramRegionIndex b := by
  have hpage := hl.page_lt hb
  obtain ⟨m₁, m₂, m₃, hblack, hkernel, huser, heq⟩ := passes_restore hl hm
  rw [heq, huser.bytes b hpage, hkernel.bytes b hpage, hblack.bytes b hpage, hblack.dirty _ hpage]
  by_cases hu : b / TARGET_PAGE_SIZE * TARGET_PAGE_SIZE ∈ m.userFdl
  · simp [hu]
  · by_cases hf : mrStart + b / TARGET_PAGE_SIZE * TARGET_PAGE_SIZE ∈ m.fdlData
    · simp [hu, hf, hpage, Machine.memoryGlobalDirtyLogSync]
    · simp [hu, hf, Machine.memoryGlobalDirtyLogSync]

lemma dirty_restore {p : ℕ} (hp : p < size / TARGET_PAGE_SIZE) :
    (fastReloadRestore snap m).dirty p = false := by
  obtain ⟨m₁, m₂, m₃, hblack, hkernel, huser, heq⟩ := passes_restore hl hm
  rw [heq, huser.dirty p hp, hkernel.dirty p hp, hblack.dirty p hp]
  by_cases hbit : m.dirty p = true ∨ m.kvmDirty p = true
  · have hlisted : p * TARGET_PAGE_SIZE ∈ m.userFdl ∨ mrStart + p * TARGET_PAGE_SIZE ∈ m.fdlData := by
      rcases hbit with hd | hk
      · exact hm.dirty p hp hd
      · exact .inr (hm.kvm p hp hk)
    rcases hlisted with hu | hf
    · simp [hu]
    · simp [hf, hp]
  · have hd : m.dirty p = false := by simpa using fun h => hbit (.inl h)
    have hk : m.kvmDirty p = false := by simpa using fun h => hbit (.inr h)
    simp [Machine.memoryGlobalDirtyLogSync, hd, hk]

lemma Tracked.restore : Tracked snap mrStart size (fastReloadRestore snap m) := by
  have hlists := lists_restore hl hm
  simp only [Machine.lists, Prod.mk.injEq] at hlists
  obtain ⟨hfdl, huser, hkvm, henabled⟩ := hlists
  refine ⟨henabled, ?_, ?_, ?_, ?_, ?_⟩
  · intro a ha
    simp [hfdl] at ha
  · intro a ha
    simp [huser] at ha
  · intro p _ hk
    simp [hkvm] at hk
  · intro p hp hd
    simp [dirty_restore hl hm hp] at hd
  · intro b hb hblack _ _
    rw [bytes_restore hl hm hb]
    split
    next => rfl
    next h =>
      apply hm.clean b hb hblack
      · exact fun hu => h (.inl hu)
      · exact fun hf => h (.inr ⟨hf.1, hf.2, hblack⟩)

end Restore

/-- The machine with a snapshot, in every state it gets to. A write of QEMU to the RAM covers whole
pages; the writes to the other blocks can be of any kind. -/
inductive Reached (snap : Snapshot) (mrStart size : ℕ) : Machine → Prop where
  | create (m : Machine)
      (host : ∀ b < size, m.host snap.ramRegionIndex b = snap.shadowMemory snap.ramRegionIndex b)
      (dirty : ∀ p, m.dirty p = false) (kvmDirty : ∀ p, m.kvmDirty p = false)
      (fdlData : m.fdlData = []) (userFdl : m.userFdl = []) (enabled : m.userFdlEnabled = true) :
      Reached snap mrStart size m
  | guestWrite {m : Machine} (page : ℕ) (content : ℕ → UInt8) : Reached snap mrStart size m →
      page < size / TARGET_PAGE_SIZE →
      Reached snap mrStart size (guestWrite snap snap.ramRegionIndex
        (mrStart + page * TARGET_PAGE_SIZE) page content m)
  | otherGuestWrite {m : Machine} (block guestAddr page : ℕ) (content : ℕ → UInt8) :
      Reached snap mrStart size m → block ≠ snap.ramRegionIndex →
      ¬(mrStart ≤ guestAddr ∧ guestAddr < mrStart + size) →
      Reached snap mrStart size (guestWrite snap block guestAddr page content m)
  | qemuWrite {m m' : Machine} (addr length : ℕ) (content : ℕ → UInt8) :
      Reached snap mrStart size m → addr % TARGET_PAGE_SIZE = 0 → length % TARGET_PAGE_SIZE = 0 →
      addr + length ≤ size →
      (qemuWrite snap snap.ramRegionIndex addr length content).run m = (.ok (), m') →
      Reached snap mrStart size m'
  | otherQemuWrite {m m' : Machine} (block addr length : ℕ) (content : ℕ → UInt8) :
      Reached snap mrStart size m → block ≠ snap.ramRegionIndex →
      (qemuWrite snap block addr length content).run m = (.ok (), m') →
      Reached snap mrStart size m'
  | sync {m : Machine} : Reached snap mrStart size m →
      Reached snap mrStart size m.memoryGlobalDirtyLogSync
  | restore {m : Machine} : Reached snap mrStart size m →
      Reached snap mrStart size (fastReloadRestore snap m)

section Steps

variable {snap : Snapshot} {mrStart size : ℕ} {m m' : Machine}

lemma Tracked.sync (hm : Tracked snap mrStart size m) :
    Tracked snap mrStart size m.memoryGlobalDirtyLogSync where
  enabled := hm.enabled
  entries := hm.entries
  user := hm.user
  kvm p _ hk := absurd hk (by simp [Machine.memoryGlobalDirtyLogSync])
  dirty p hp hd := by
    simp only [Machine.memoryGlobalDirtyLogSync, Bool.or_eq_true] at hd
    rcases hd with hd | hk
    · exact hm.dirty p hp hd
    · exact .inr (hm.kvm p hp hk)
  clean b hb hblack huser hlisted := by
    apply hm.clean b hb hblack huser
    simpa [Machine.memoryGlobalDirtyLogSync] using hlisted

lemma mem_fdlData_guestWrite (snap : Snapshot) (block guestAddr page : ℕ) (content : ℕ → UInt8)
    (m : Machine) (a : ℕ) :
    a ∈ (guestWrite snap block guestAddr page content m).fdlData ↔ a = guestAddr ∨ a ∈ m.fdlData := by
  unfold guestWrite
  by_cases h : guestAddr ∈ m.fdlData
  · simp only [h, if_true]
    refine ⟨.inr, ?_⟩
    rintro (rfl | ha)
    · exact h
    · exact ha
  · simp [h, or_comm]

lemma Tracked.logs (hl : Layout snap mrStart size) (hm : Tracked snap mrStart size m)
    {block guestAddr page : ℕ} {content : ℕ → UInt8}
    (hentry : mrStart ≤ guestAddr → guestAddr < mrStart + size →
      ∃ p, guestAddr = mrStart + p * TARGET_PAGE_SIZE)
    (hkvm : ∀ p < size / TARGET_PAGE_SIZE,
      (guestWrite snap block guestAddr page content m).kvmDirty p ↔
        mrStart + p * TARGET_PAGE_SIZE = guestAddr ∨ m.kvmDirty p)
    (hhost : ∀ b, mrStart + b / TARGET_PAGE_SIZE * TARGET_PAGE_SIZE ≠ guestAddr →
      (guestWrite snap block guestAddr page content m).host snap.ramRegionIndex b =
        m.host snap.ramRegionIndex b) :
    Tracked snap mrStart size (guestWrite snap block guestAddr page content m) := by
  have hfdl := mem_fdlData_guestWrite snap block guestAddr page content m
  refine ⟨hm.enabled, ?_, hm.user, ?_, ?_, ?_⟩
  · intro a ha hle hlt
    rcases (hfdl a).mp ha with rfl | ha
    · exact hentry hle hlt
    · exact hm.entries a ha hle hlt
  · intro p hp hk
    rw [hfdl]
    exact ((hkvm p hp).mp hk).imp_right (hm.kvm p hp)
  · intro p hp hd
    rw [hfdl]
    exact (hm.dirty p hp hd).imp_right .inr
  · intro b hb hblack huser hlisted
    rw [hfdl, hkvm _ (hl.page_lt hb)] at hlisted
    have hne : mrStart + b / TARGET_PAGE_SIZE * TARGET_PAGE_SIZE ≠ guestAddr :=
      fun heq => hlisted ⟨.inl heq, .inr (.inl heq)⟩
    rw [hhost b hne]
    exact hm.clean b hb hblack huser fun hf => hlisted ⟨.inr hf.1, hf.2.imp_right .inr⟩

lemma Tracked.guestWrite (hl : Layout snap mrStart size) (hm : Tracked snap mrStart size m) (page : ℕ)
    (content : ℕ → UInt8) :
    Tracked snap mrStart size (guestWrite snap snap.ramRegionIndex (mrStart + page * TARGET_PAGE_SIZE)
      page content m) := by
  have hpage : ∀ p, mrStart + p * TARGET_PAGE_SIZE = mrStart + page * TARGET_PAGE_SIZE ↔ p = page := by
    intro p
    simp only [TARGET_PAGE_SIZE]
    omega
  apply hm.logs hl
  · exact fun _ _ => ⟨page, rfl⟩
  · intro p _
    rw [hpage]
    by_cases hp : p = page <;> simp [FastReload.guestWrite, hl.offset, hp]
  · intro b hb
    have hout : b < page * TARGET_PAGE_SIZE ∨ page * TARGET_PAGE_SIZE + TARGET_PAGE_SIZE ≤ b := by
      simp only [TARGET_PAGE_SIZE] at *
      omega
    simp [FastReload.guestWrite, blit_outside _ _ _ hout]

lemma Tracked.otherGuestWrite (hl : Layout snap mrStart size) (hm : Tracked snap mrStart size m)
    {block guestAddr : ℕ} (page : ℕ) (content : ℕ → UInt8) (hblock : block ≠ snap.ramRegionIndex)
    (hout : ¬(mrStart ≤ guestAddr ∧ guestAddr < mrStart + size)) :
    Tracked snap mrStart size (FastReload.guestWrite snap block guestAddr page content m) := by
  have hle := hl.blocks block hblock
  apply hm.logs hl
  · exact fun hle hlt => absurd ⟨hle, hlt⟩ hout
  · intro p hp
    have hne : p ≠ snap.blockOffset block / TARGET_PAGE_SIZE + page := by
      simp only [TARGET_PAGE_SIZE] at *
      omega
    have hother : mrStart + p * TARGET_PAGE_SIZE ≠ guestAddr := by
      simp only [TARGET_PAGE_SIZE] at *
      omega
    simp [FastReload.guestWrite, hne, hother]
  · intro b _
    simp [FastReload.guestWrite, update_of_ne hblock.symm]

/-- What the log of QEMU's writes does: it grows by the addresses of those pages in the range that
are not dirty yet. -/
structure Logged (m m' : Machine) (pages : List ℕ) : Prop where
  eq : m' = { m with userFdl := m'.userFdl }
  mem : ∀ a, a ∈ m'.userFdl ↔
    a ∈ m.userFdl ∨ ∃ p ∈ pages, m.dirty p = false ∧ a = p * TARGET_PAGE_SIZE

lemma logged_nil (m : Machine) : Logged m m [] := ⟨rfl, by simp⟩

lemma Logged.trans {m₁ : Machine} {ps qs : List ℕ} (h : Logged m m₁ ps) (h' : Logged m₁ m' qs) :
    Logged m m' (ps ++ qs) := by
  have hdirty : m₁.dirty = m.dirty := by rw [h.eq]
  refine ⟨by rw [h'.eq, h.eq], fun a => ?_⟩
  rw [h'.mem, h.mem, hdirty]
  simp only [List.mem_append, or_and_right, exists_or, or_assoc]

lemma run_userFdlRound (addr : ℕ) (m : Machine) : (userFdlRound addr).run m =
    if m.dirty (addr / TARGET_PAGE_SIZE) then (.ok (), m)
    else if m.userFdl.length + 1 < USER_FDL_SLOTS then
      (.ok (), { m with userFdl := m.userFdl ++ [addr / TARGET_PAGE_SIZE * TARGET_PAGE_SIZE] })
    else (.error .userFdlFull,
      { m with userFdl := m.userFdl ++ [addr / TARGET_PAGE_SIZE * TARGET_PAGE_SIZE] }) := by
  have htest : m.testDirty (addr / TARGET_PAGE_SIZE * TARGET_PAGE_SIZE) TARGET_PAGE_SIZE =
      m.dirty (addr / TARGET_PAGE_SIZE) := by
    simp [Machine.testDirty, dirtyPages_page]
  rw [← htest, Exec.run, userFdlRound]

lemma logged_userFdlRound {addr : ℕ} (h : (userFdlRound addr).run m = (.ok (), m')) :
    Logged m m' [addr / TARGET_PAGE_SIZE] := by
  rw [run_userFdlRound] at h
  by_cases hd : m.dirty (addr / TARGET_PAGE_SIZE) = true
  · rw [if_pos hd] at h
    cases h
    exact ⟨rfl, by simp [hd]⟩
  · rw [if_neg hd] at h
    by_cases hroom : m.userFdl.length + 1 < USER_FDL_SLOTS
    · rw [if_pos hroom] at h
      cases h
      exact ⟨rfl, by simp [hd]⟩
    · rw [if_neg hroom] at h
      cases h

lemma logged_rounds (addr : ℕ) (is : List ℕ)
    (h : (Exec.forEach is fun i => userFdlRound (addr + 0x1000 * i)).run m = (.ok (), m')) :
    Logged m m' (is.map fun i => (addr + 0x1000 * i) / TARGET_PAGE_SIZE) := by
  induction is generalizing m with
  | nil =>
    cases h
    exact logged_nil _
  | cons i is ih =>
    obtain ⟨u, m₁, hround, hrest⟩ := Exec.run_bind_eq_ok h
    exact (logged_userFdlRound hround).trans (ih hrest)

/-- The pages that a write counts, if it is long enough to be logged. -/
def loggedPages (addr length : ℕ) : List ℕ :=
  if 0x1000 ≤ length then (List.range ((length + 0xfff) / 0x1000)).map
    fun i => (addr / 0x1000 * 0x1000 + 0x1000 * i) / TARGET_PAGE_SIZE
  else []

lemma mem_loggedPages {addr length p : ℕ} : p ∈ loggedPages addr length ↔
    0x1000 ≤ length ∧ addr / 0x1000 ≤ p ∧ p < addr / 0x1000 + (length + 0xfff) / 0x1000 := by
  unfold loggedPages
  by_cases hlength : 0x1000 ≤ length
  · rw [if_pos hlength, List.mem_map]
    simp only [TARGET_PAGE_SIZE]
    constructor
    · rintro ⟨i, hi, rfl⟩
      have hlt := List.mem_range.mp hi
      omega
    · rintro ⟨-, hle, hlt⟩
      exact ⟨p - addr / 0x1000, List.mem_range.mpr (by omega), by omega⟩
  · simp [hlength]

lemma logged_setDirty {addr length : ℕ} (henabled : m.userFdlEnabled)
    (h : (qemuUserFdlSetDirty (addr / 0x1000 * 0x1000) length).run m = (.ok (), m')) :
    Logged m m' (loggedPages addr length) := by
  rw [qemuUserFdlSetDirty, Exec.run_gets_bind] at h
  unfold loggedPages
  by_cases hlength : 0x1000 ≤ length
  · rw [if_pos ⟨henabled, hlength⟩] at h
    rw [if_pos hlength]
    exact logged_rounds _ _ h
  · rw [if_neg fun hand => hlength hand.2] at h
    rw [if_neg hlength]
    cases h
    exact logged_nil _

lemma qemuWrite_eq {block addr length : ℕ} {content : ℕ → UInt8} (henabled : m.userFdlEnabled)
    (h : (qemuWrite snap block addr length content).run m = (.ok (), m')) :
    ∃ m₁, Logged m m₁ (loggedPages addr length) ∧
      m' = { m₁.setDirty (snap.blockOffset block + addr) length with
        host := update m.host block (blit (m.host block) addr content 0 length) } := by
  obtain ⟨u, m₁, hset, hrest⟩ := Exec.run_bind_eq_ok h
  cases hset
  obtain ⟨u, m₂, hlog, hlast⟩ := Exec.run_bind_eq_ok hrest
  cases hlast
  have hlogged := logged_setDirty (by exact henabled) hlog
  refine ⟨{ m₂ with host := m.host }, ⟨?_, hlogged.mem⟩, ?_⟩
  · rw [hlogged.eq]
  · rw [hlogged.eq]
    rfl

variable (hm : Tracked snap mrStart size m)
include hm

lemma Tracked.logged {m₁ : Machine} {pages : List ℕ}
    (hlog : Logged m m₁ pages) : Tracked snap mrStart size m₁ := by
  have hgrows : ∀ a ∈ m.userFdl, a ∈ m₁.userFdl := fun a ha => (hlog.mem a).mpr (.inl ha)
  have hmem := hlog.mem
  obtain ⟨userFdl, rfl⟩ : ∃ userFdl, m₁ = { m with userFdl := userFdl } := ⟨_, hlog.eq⟩
  refine ⟨hm.enabled, hm.entries, ?_, hm.kvm, ?_, ?_⟩
  · intro a ha
    rcases (hmem a).mp ha with ha | ⟨p, -, -, rfl⟩
    · exact hm.user a ha
    · exact Nat.mul_mod_left _ _
  · intro p hp hd
    exact (hm.dirty p hp hd).imp_left (hgrows _)
  · intro b hb hblack huser hlisted
    exact hm.clean b hb hblack (fun hu => huser (hgrows _ hu)) hlisted

variable (hl : Layout snap mrStart size)
include hl

lemma Tracked.mark
    {host : ℕ → ℕ → UInt8} {start length : ℕ}
    (hpages : ∀ p < size / TARGET_PAGE_SIZE, p ∈ dirtyPages start length →
      p * TARGET_PAGE_SIZE ∈ m.userFdl ∨ m.dirty p)
    (hhost : ∀ b < size, b / TARGET_PAGE_SIZE ∉ dirtyPages start length →
      host snap.ramRegionIndex b = m.host snap.ramRegionIndex b) :
    Tracked snap mrStart size { m.setDirty start length with host := host } := by
  have hexplained : ∀ p < size / TARGET_PAGE_SIZE, p ∈ dirtyPages start length →
      p * TARGET_PAGE_SIZE ∈ m.userFdl ∨ mrStart + p * TARGET_PAGE_SIZE ∈ m.fdlData := by
    intro p hp hmem
    rcases hpages p hp hmem with hu | hd
    · exact .inl hu
    · exact hm.dirty p hp hd
  refine ⟨hm.enabled, hm.entries, hm.user, hm.kvm, ?_, ?_⟩
  · intro p hp hd
    simp only [Machine.setDirty, Bool.or_eq_true, decide_eq_true_iff] at hd
    rcases hd with hd | hmem
    · exact hm.dirty p hp hd
    · exact hexplained p hp hmem
  · intro b hb hblack huser hlisted
    by_cases hmem : b / TARGET_PAGE_SIZE ∈ dirtyPages start length
    · rcases hexplained _ (hl.page_lt hb) hmem with hu | hf
      · exact absurd hu huser
      · exact absurd ⟨hf, .inl (by simp [Machine.setDirty, hmem])⟩ hlisted
    · refine (hhost b hb hmem).trans (hm.clean b hb hblack huser ?_)
      simpa [Machine.setDirty, hmem] using hlisted

lemma Tracked.qemuWrite {addr length : ℕ} {content : ℕ → UInt8}
    (haddr : addr % TARGET_PAGE_SIZE = 0) (hlength : length % TARGET_PAGE_SIZE = 0)
    (h : (FastReload.qemuWrite snap snap.ramRegionIndex addr length content).run m = (.ok (), m')) :
    Tracked snap mrStart size m' := by
  obtain ⟨m₁, hlog, rfl⟩ := qemuWrite_eq hm.enabled h
  have hsame : m₁.dirty = m.dirty ∧ m₁.host = m.host := by
    rw [hlog.eq]
    exact ⟨rfl, rfl⟩
  rw [hl.offset, Nat.zero_add]
  apply (hm.logged hlog).mark hl
  · intro p hp hmem
    by_cases hd : m.dirty p = true
    · exact .inr (by rw [hsame.1, hd])
    · have hcounted : p ∈ loggedPages addr length := by
        have hrange := List.mem_range'_1.mp hmem
        rw [mem_loggedPages]
        simp only [TARGET_PAGE_SIZE] at *
        omega
      exact .inl ((hlog.mem _).mpr (.inr ⟨p, hcounted, by simpa using hd, rfl⟩))
  · intro b hb hmem
    have hout : b < addr ∨ addr + length ≤ b := by
      by_contra hin
      apply hmem
      apply List.mem_range'_1.mpr
      simp only [TARGET_PAGE_SIZE] at *
      omega
    rw [update_self, blit_outside _ _ _ hout, hsame.2]

lemma Tracked.otherQemuWrite
    {block addr length : ℕ} {content : ℕ → UInt8} (hblock : block ≠ snap.ramRegionIndex)
    (h : (FastReload.qemuWrite snap block addr length content).run m = (.ok (), m')) :
    Tracked snap mrStart size m' := by
  obtain ⟨m₁, hlog, rfl⟩ := qemuWrite_eq hm.enabled h
  have hsame : m₁.host = m.host := by rw [hlog.eq]
  apply (hm.logged hlog).mark hl
  · intro p hp hmem
    have hoffset := Nat.le_trans (hl.blocks block hblock) (Nat.le_add_right _ addr)
    exact absurd hmem (hl.not_mem_dirtyPages hp hoffset length)
  · intro b _ _
    rw [update_of_ne hblock.symm, hsame]

end Steps

lemma Reached.tracked {snap : Snapshot} {mrStart size : ℕ} (hl : Layout snap mrStart size)
    {m : Machine} (h : Reached snap mrStart size m) : Tracked snap mrStart size m := by
  induction h with
  | create m host dirty kvmDirty fdlData userFdl enabled =>
    refine ⟨enabled, ?_, ?_, ?_, ?_, fun b hb _ _ _ => host b hb⟩
    · intro a ha
      simp [fdlData] at ha
    · intro a ha
      simp [userFdl] at ha
    · intro p _ hk
      simp [kvmDirty] at hk
    · intro p _ hd
      simp [dirty] at hd
  | guestWrite page content _ _ ih => exact ih.guestWrite hl page content
  | otherGuestWrite block guestAddr page content _ hblock hout ih =>
    exact ih.otherGuestWrite hl page content hblock hout
  | qemuWrite addr length content _ haddr hlength _ hrun ih => exact ih.qemuWrite hl haddr hlength hrun
  | otherQemuWrite block addr length content _ hblock hrun ih =>
    exact ih.otherQemuWrite hl hblock hrun
  | sync _ ih => exact ih.sync
  | restore _ ih => exact ih.restore hl

/-- Every page of the RAM is as in the snapshot, except those on the black list, which are as they
were before. -/
structure Restored (snap : Snapshot) (size : ℕ) (before after : Machine) : Prop where
  shadow : ∀ b < size, b / TARGET_PAGE_SIZE * TARGET_PAGE_SIZE ∉ snap.blackListPages →
    after.host snap.ramRegionIndex b = snap.shadowMemory snap.ramRegionIndex b
  kept : ∀ b < size, b / TARGET_PAGE_SIZE * TARGET_PAGE_SIZE ∈ snap.blackListPages →
    after.host snap.ramRegionIndex b = before.host snap.ramRegionIndex b

/-- In every state of the machine, a restore does what it should if and only if the pages of the
black list that QEMU wrote itself are equal to their shadow copies anyway. -/
theorem fastReloadRestore_restored_iff {snap : Snapshot} {mrStart size : ℕ}
    (hl : Layout snap mrStart size) {m : Machine} (hm : Reached snap mrStart size m) :
    Restored snap size m (fastReloadRestore snap m) ↔
      ∀ b < size, b / TARGET_PAGE_SIZE * TARGET_PAGE_SIZE ∈ snap.blackListPages →
        b / TARGET_PAGE_SIZE * TARGET_PAGE_SIZE ∈ m.userFdl →
        m.host snap.ramRegionIndex b = snap.shadowMemory snap.ramRegionIndex b := by
  have htracked := hm.tracked hl
  constructor
  · intro h b hb hblack huser
    have hkept := h.kept b hb hblack
    rw [bytes_restore hl htracked hb, if_pos (.inl huser)] at hkept
    exact hkept.symm
  · intro h
    constructor
    · intro b hb hblack
      -- the next round starts with clean pages
      have hnext := htracked.restore hl
      have hlists := lists_restore hl htracked
      simp only [Machine.lists, Prod.mk.injEq] at hlists
      apply hnext.clean b hb hblack
      · simp [hlists.2.1]
      · simp [hlists.1]
    · intro b hb hblack
      rw [bytes_restore hl htracked hb]
      by_cases huser : b / TARGET_PAGE_SIZE * TARGET_PAGE_SIZE ∈ m.userFdl
      · rw [if_pos (.inl huser)]
        exact (h b hb hblack huser).symm
      · rw [if_neg]
        rintro (hu | ⟨-, -, hnot⟩)
        · exact huser hu
        · exact hnot hblack

def twoPages : Snapshot where
  mrRanges := [⟨0, 0x2000, 0, 0⟩]
  ramRegionIndex := 0
  blockOffset b := b * 0x2000
  blackListPages := [0]
  shadowMemory _ _ := 0

lemma twoPages_layout : Layout twoPages 0 0x2000 where
  size_mod := rfl
  offset := rfl
  ram := List.mem_singleton.mpr rfl
  others r hr := .inl (List.mem_singleton.mp hr)
  blocks b hb := by
    have hpos : b ≠ 0 := hb
    show 0x2000 ≤ b * 0x2000
    omega
  black a ha := by
    rw [List.mem_singleton.mp ha]
    rfl

def freshMachine : Machine :=
  ⟨fun _ _ => 0, fun _ => false, fun _ => false, [], [], true⟩

lemma freshMachine_reached : Reached twoPages 0 0x2000 freshMachine :=
  .create _ (fun _ _ => rfl) (fun _ => rfl) (fun _ => rfl) rfl rfl rfl

def afterQemuWrite (page : ℕ) : Machine :=
  ((qemuWrite twoPages 0 (page * 0x1000) 0x1000 fun _ => 1).run freshMachine).2

theorem fastReloadRestore_restored_twoPages :
    Restored twoPages 0x2000 (guestWrite twoPages 0 0 0 (fun _ => 2) (afterQemuWrite 1))
      (fastReloadRestore twoPages (guestWrite twoPages 0 0 0 (fun _ => 2) (afterQemuWrite 1))) := by
  have hok : ((qemuWrite twoPages 0 (1 * 0x1000) 0x1000 fun _ => 1).run freshMachine).1 = .ok () := by
    decide +kernel
  have hqemu : Reached twoPages 0 0x2000 (afterQemuWrite 1) :=
    .qemuWrite (1 * 0x1000) 0x1000 (fun _ => 1) freshMachine_reached rfl rfl (by decide)
      (Prod.ext hok rfl)
  have huser : (afterQemuWrite 1).userFdl = [0x1000] := by decide +kernel
  have hguest : Reached twoPages 0 0x2000 (guestWrite twoPages 0 0 0 (fun _ => 2) (afterQemuWrite 1)) :=
    .guestWrite 0 (fun _ => 2) hqemu (by decide)
  rw [fastReloadRestore_restored_iff twoPages_layout hguest]
  intro b _ hblack hmem
  have hzero : b / TARGET_PAGE_SIZE * TARGET_PAGE_SIZE = 0 := List.mem_singleton.mp hblack
  have hother : b / TARGET_PAGE_SIZE * TARGET_PAGE_SIZE ∈ (afterQemuWrite 1).userFdl := hmem
  rw [hzero, huser] at hother
  exact absurd hother (by decide)

theorem fastReloadRestore_overwrites_blackList :
    Reached twoPages 0 0x2000 (afterQemuWrite 0) ∧
      ¬Restored twoPages 0x2000 (afterQemuWrite 0) (fastReloadRestore twoPages (afterQemuWrite 0)) := by
  have hok : ((qemuWrite twoPages 0 (0 * 0x1000) 0x1000 fun _ => 1).run freshMachine).1 = .ok () := by
    decide +kernel
  refine ⟨.qemuWrite (0 * 0x1000) 0x1000 (fun _ => 1) freshMachine_reached rfl rfl (by decide)
    (Prod.ext hok rfl), ?_⟩
  intro h
  have hkept := h.kept 0 (by decide) (List.mem_singleton.mpr rfl)
  exact absurd hkept (by decide +kernel)

end Nyx.FastReload
