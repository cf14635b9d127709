import Nyx.Qemu.FastReload

/-!
# The list of QEMU's own writes

`invalidate_and_set_dirty` logs a write before it sets the dirty bits. The log aligns the address
down and keeps the length, leaves out short writes, and skips dirty pages.
-/

namespace Nyx.FastReload

/-- A write into the guest's memory. -/
structure RamWrite where
  addr : ℕ
  length : ℕ
  content : ℕ → UInt8

namespace RamWrite

def Overlaps (w : RamWrite) (p : ℕ) : Prop :=
  p * TARGET_PAGE_SIZE < w.addr + w.length ∧ w.addr < p * TARGET_PAGE_SIZE + TARGET_PAGE_SIZE

instance (w : RamWrite) (p : ℕ) : Decidable (w.Overlaps p) := inferInstanceAs (Decidable (_ ∧ _))

/-- The write is long enough to be logged, and its pages are counted up to this one. -/
def Logs (w : RamWrite) (p : ℕ) : Prop :=
  0x1000 ≤ w.length ∧ w.addr / 0x1000 ≤ p ∧ p < w.addr / 0x1000 + (w.length + 0xfff) / 0x1000

instance (w : RamWrite) (p : ℕ) : Decidable (w.Logs p) := inferInstanceAs (Decidable (_ ∧ _ ∧ _))

end RamWrite

def qemuWrites (snap : Snapshot) (ws : List RamWrite) : ReloadM Unit :=
  Exec.forEach ws fun w => qemuWrite snap snap.ramRegionIndex w.addr w.length w.content

section

variable {snap : Snapshot} {m m' : Machine} {w : RamWrite} {p : ℕ}

lemma mem_dirtyPages_iff : p ∈ dirtyPages w.addr w.length ↔ w.Overlaps p := by
  rw [dirtyPages, List.mem_range'_1, RamWrite.Overlaps]
  simp only [TARGET_PAGE_SIZE]
  omega

lemma RamWrite.Logs.overlaps (h : w.Logs p) : w.Overlaps p := by
  obtain ⟨hlength, hle, hlt⟩ := h
  simp only [RamWrite.Overlaps, TARGET_PAGE_SIZE]
  omega

lemma qemuWrite_log (hoffset : snap.blockOffset snap.ramRegionIndex = 0)
    (henabled : m.userFdlEnabled)
    (h : (qemuWrite snap snap.ramRegionIndex w.addr w.length w.content).run m = (.ok (), m')) :
    m'.userFdlEnabled ∧
      (∀ p, m'.dirty p ↔ m.dirty p ∨ w.Overlaps p) ∧
      ∀ p, p * TARGET_PAGE_SIZE ∈ m'.userFdl ↔
        p * TARGET_PAGE_SIZE ∈ m.userFdl ∨ m.dirty p = false ∧ w.Logs p := by
  obtain ⟨m₁, hlog, rfl⟩ := qemuWrite_eq henabled h
  have hsame : m₁.dirty = m.dirty ∧ m₁.userFdlEnabled = m.userFdlEnabled := by
    rw [hlog.eq]
    exact ⟨rfl, rfl⟩
  refine ⟨hsame.2.trans henabled, fun p => ?_, fun p => ?_⟩
  · simp [Machine.setDirty, hsame.1, hoffset, mem_dirtyPages_iff]
  · have hpage : ∀ q, p * TARGET_PAGE_SIZE = q * TARGET_PAGE_SIZE ↔ p = q := by
      intro q
      simp only [TARGET_PAGE_SIZE]
      omega
    refine (hlog.mem _).trans (or_congr_right ?_)
    simp [hpage, mem_loggedPages, RamWrite.Logs, and_comm]

lemma qemuWrites_log (hoffset : snap.blockOffset snap.ramRegionIndex = 0) {ws : List RamWrite}
    (henabled : m.userFdlEnabled) (h : (qemuWrites snap ws).run m = (.ok (), m')) (p : ℕ) :
    p * TARGET_PAGE_SIZE ∈ m'.userFdl ↔ p * TARGET_PAGE_SIZE ∈ m.userFdl ∨
      m.dirty p = false ∧ ∃ w, ws.find? (fun w => w.Overlaps p) = some w ∧ w.Logs p := by
  induction ws generalizing m with
  | nil =>
    cases h
    simp
  | cons w ws ih =>
    obtain ⟨u, m₁, hwrite, hrest⟩ := Exec.run_bind_eq_ok h
    obtain ⟨henabled₁, hdirty, hlog⟩ := qemuWrite_log hoffset henabled hwrite
    rw [ih henabled₁ hrest, hlog]
    have hclean : m₁.dirty p = false ↔ m.dirty p = false ∧ ¬w.Overlaps p := by
      have hiff := hdirty p
      cases hd : m₁.dirty p <;> cases hd' : m.dirty p <;> simp_all
    by_cases hover : w.Overlaps p
    · simp [hclean, hover]
    · have hnot : ¬w.Logs p := fun hl => hover hl.overlaps
      simp [hclean, hover, hnot]

/-- Every page of every write is in the list exactly if each page was clean and the first write that
touches it is long enough and counts it. -/
theorem userFdl_complete_iff (hoffset : snap.blockOffset snap.ramRegionIndex = 0)
    {ws : List RamWrite} (henabled : m.userFdlEnabled = true) (hempty : m.userFdl = [])
    (h : (qemuWrites snap ws).run m = (.ok (), m')) :
    (∀ w ∈ ws, ∀ p, w.Overlaps p → p * TARGET_PAGE_SIZE ∈ m'.userFdl) ↔
      ∀ p w, ws.find? (fun w => w.Overlaps p) = some w → m.dirty p = false ∧ w.Logs p := by
  have hlog := qemuWrites_log hoffset henabled h
  simp only [hempty, List.not_mem_nil, false_or] at hlog
  constructor
  · intro hall p w hfirst
    have hmem := List.mem_of_find?_eq_some hfirst
    have hover : w.Overlaps p := by simpa using List.find?_some hfirst
    obtain ⟨hclean, w', hfirst', hlogs⟩ := (hlog p).mp (hall w hmem p hover)
    rw [hfirst] at hfirst'
    cases hfirst'
    exact ⟨hclean, hlogs⟩
  · intro hfirst w hw p hover
    have hsome : (ws.find? fun w => w.Overlaps p).isSome = true :=
      List.find?_isSome.mpr ⟨w, hw, by simpa using hover⟩
    obtain ⟨w', hw'⟩ := Option.isSome_iff_exists.mp hsome
    obtain ⟨hclean, hlogs⟩ := hfirst p w' hw'
    exact (hlog p).mpr ⟨hclean, w', hw', hlogs⟩

end

theorem userFdl_complete_page :
    ∃ m', (qemuWrites twoPages [⟨0x1000, 0x1000, fun _ => 1⟩]).run freshMachine = (.ok (), m') ∧
      1 * TARGET_PAGE_SIZE ∈ m'.userFdl := by
  have hok : ((qemuWrites twoPages [⟨0x1000, 0x1000, fun _ => 1⟩]).run freshMachine).1 = .ok () := by
    decide +kernel
  refine ⟨_, Prod.ext hok rfl, ?_⟩
  have hoffset : twoPages.blockOffset twoPages.ramRegionIndex = 0 := rfl
  have hall := (userFdl_complete_iff hoffset rfl rfl (Prod.ext hok rfl)).mpr ?_
  · exact hall _ (List.mem_singleton.mpr rfl) 1 (by decide)
  · intro p w hw
    have hmem := List.mem_singleton.mp (List.mem_of_find?_eq_some hw)
    have hover : w.Overlaps p := by simpa using List.find?_some hw
    subst hmem
    obtain rfl : p = 1 := by
      simp only [RamWrite.Overlaps, TARGET_PAGE_SIZE] at hover
      omega
    exact ⟨rfl, by decide⟩

/-- A short write is not logged, and no later write of its page is. -/
theorem userFdl_misses_shortWrite :
    ((qemuWrites twoPages [⟨0x1010, 4, fun _ => 1⟩, ⟨0x1000, 0x1000, fun _ => 2⟩]).run
        freshMachine).1 = .ok () ∧
      ((qemuWrites twoPages [⟨0x1010, 4, fun _ => 1⟩, ⟨0x1000, 0x1000, fun _ => 2⟩]).run
        freshMachine).2.userFdl = [] := by
  decide +kernel

end Nyx.FastReload
