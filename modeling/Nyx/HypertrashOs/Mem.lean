import Mathlib.Algebra.Group.Nat.Defs
import Nyx.Lib.Bits
import Nyx.Lib.Iterate

/-!
# Memory of the guest kernel

The bitmap of used frames, and the memory map of the boot loader from which it is filled.
-/

namespace Nyx.Mem

/-- Sets a bit of the bitmap `frames`, which is an array of 32 bit words. -/
def setFrame (nframes frameAddr : ℕ) (frames : ℕ → ℕ) : ℕ → ℕ :=
  if frameAddr < nframes * 4 * 0x400 % 2 ^ 32 then
    let frame := frameAddr / 0x1000
    Function.update frames (frame / 0x20) (frames (frame / 0x20) ||| 1 <<< (frame % 0x20))
  else frames

def testFrame (frames : ℕ → ℕ) (frameAddr : ℕ) : ℕ :=
  let frame := frameAddr / 0x1000
  frames (frame / 0x20) &&& 1 <<< (frame % 0x20)

/-- An entry of the e820 map. -/
structure MmapEntry where
  addrA : UInt32
  addrB : UInt32
  lenA : UInt32
  lenB : UInt32
  type : UInt32

/-- A round of the loop over the pages of an entry. Its `i` hides that of the loop over the
entries. -/
def reserveRound (nframes : ℕ) (tmp : ℕ → MmapEntry) :
    ℕ × (ℕ → ℕ) → (ℕ × (ℕ → ℕ)) ⊕ (ℕ → ℕ)
  | (i, frames) =>
    let page := (tmp i).addrA.toNat + i
    if i < (tmp i).lenA.toNat then
      if page > 0xFFFFFFFF then .inr frames
      else .inl (i + 0x1000, setFrame nframes (page &&& 0xFFFFF000) frames)
    else .inr frames

/-- Offsets are below a length of 32 bits, so there are at most `0x100000` of them. -/
def reserve (nframes : ℕ) (tmp : ℕ → MmapEntry) (frames : ℕ → ℕ) : Option (ℕ → ℕ) :=
  iterate (reserveRound nframes tmp) 0x100001 (0, frames)

/-- `tmp` is the memory from the start of the map on, of which `entries` entries are the map. -/
def memE820Parse (nframes : ℕ) (tmp : ℕ → MmapEntry) (entries : ℕ) (frames : ℕ → ℕ) :
    Option (ℕ → ℕ) :=
  (List.range entries).foldlM
    (fun frames i => if (tmp i).type ≠ 1 then reserve nframes tmp frames else some frames) frames

namespace MmapEntry

def addr (e : MmapEntry) : ℕ := e.addrB.toNat * 2 ^ 32 + e.addrA.toNat

def len (e : MmapEntry) : ℕ := e.lenB.toNat * 2 ^ 32 + e.lenA.toNat

/-- The frame has a byte of the entry below 4 GiB. -/
def Overlaps (e : MmapEntry) (frame : ℕ) : Prop :=
  ∃ a < 2 ^ 32, a / 0x1000 = frame ∧ e.addr ≤ a ∧ a < e.addr + e.len

end MmapEntry

variable {nframes frame : ℕ} {tmp : ℕ → MmapEntry} {frames : ℕ → ℕ}

lemma testFrame_ne_zero (frames : ℕ → ℕ) (a : ℕ) : testFrame frames a ≠ 0 ↔
    (frames (a / 0x1000 / 0x20)).testBit (a / 0x1000 % 0x20) := by
  rw [testFrame, Nat.one_shiftLeft, Nat.and_two_pow]
  cases (frames (a / 0x1000 / 0x20)).testBit (a / 0x1000 % 0x20) <;> simp

lemma testFrame_setFrame (hframe : frame < 2 ^ 20) (a : ℕ) :
    testFrame (setFrame nframes (frame * 0x1000) frames) a ≠ 0 ↔
      (frame < nframes % 2 ^ 20 ∧ a / 0x1000 = frame) ∨ testFrame frames a ≠ 0 := by
  have hin : frame * 0x1000 < nframes * 4 * 0x400 % 2 ^ 32 ↔ frame < nframes % 2 ^ 20 := by omega
  have hdiv : frame * 0x1000 / 0x1000 = frame := by omega
  simp only [testFrame_ne_zero, setFrame, hin, hdiv]
  generalize nframes % 2 ^ 20 = limit
  by_cases hlt : frame < limit
  · by_cases hword : a / 0x1000 / 0x20 = frame / 0x20
    · have hbit : frame % 0x20 = a / 0x1000 % 0x20 ↔ a / 0x1000 = frame := by omega
      simp [hlt, hword, Nat.one_shiftLeft, Nat.testBit_two_pow, hbit, or_comm]
    · have hne : a / 0x1000 ≠ frame := by
        intro heq
        exact hword (by rw [heq])
      simp [hlt, hword, hne]
  · simp [hlt]

/-- The address that the loop over the pages computes in its round `k`. -/
def pageAt (tmp : ℕ → MmapEntry) (k : ℕ) : ℕ := (tmp (k * 0x1000)).addrA.toNat + k * 0x1000

/-- The loop over the pages does not stop in its round `k`. -/
def GoesOn (tmp : ℕ → MmapEntry) (k : ℕ) : Prop :=
  k * 0x1000 < (tmp (k * 0x1000)).lenA.toNat ∧ pageAt tmp k ≤ 0xFFFFFFFF

/-- The frame is among those that the loop over the pages marks. They do not depend on the entry
that the loop is for. -/
def Marks (nframes : ℕ) (tmp : ℕ → MmapEntry) (f : ℕ) : Prop :=
  f < nframes % 2 ^ 20 ∧ ∃ k, (∀ j ≤ k, GoesOn tmp j) ∧ pageAt tmp k / 0x1000 = f

/-- The frame is to be marked. -/
def Reserved (nframes : ℕ) (tmp : ℕ → MmapEntry) (entries f : ℕ) : Prop :=
  f < nframes ∧ ∃ i < entries, (tmp i).type ≠ 1 ∧ (tmp i).Overlaps f

lemma reserveRound_eq (nframes : ℕ) (tmp : ℕ → MmapEntry) (k : ℕ) (frames : ℕ → ℕ) :
    (GoesOn tmp k ∧ reserveRound nframes tmp (k * 0x1000, frames) =
      .inl ((k + 1) * 0x1000, setFrame nframes (pageAt tmp k / 0x1000 * 0x1000) frames)) ∨
    (¬ GoesOn tmp k ∧ reserveRound nframes tmp (k * 0x1000, frames) = .inr frames) := by
  unfold GoesOn reserveRound
  by_cases hlen : k * 0x1000 < (tmp (k * 0x1000)).lenA.toNat
  · by_cases hpage : pageAt tmp k ≤ 0xFFFFFFFF
    · have hmask : pageAt tmp k &&& 0xFFFFF000 = field (pageAt tmp k) 12 20 := and_mask _ 12 20
      have hfield : field (pageAt tmp k) 12 20 = pageAt tmp k / 0x1000 * 0x1000 := by
        rw [field]
        omega
      refine .inl ⟨⟨hlen, hpage⟩, ?_⟩
      rw [← hfield, ← hmask, Nat.add_mul]
      exact (if_pos hlen).trans (if_neg (Nat.not_lt.mpr hpage))
    · exact .inr ⟨fun h => hpage h.2, (if_pos hlen).trans (if_pos (Nat.lt_of_not_le hpage))⟩
  · exact .inr ⟨fun h => hlen h.1, if_neg hlen⟩

lemma reserve_marks (nframes : ℕ) (tmp : ℕ → MmapEntry) (frames : ℕ → ℕ) :
    ∃ frames', reserve nframes tmp frames = some frames' ∧ ∀ a,
      testFrame frames' a ≠ 0 ↔ Marks nframes tmp (a / 0x1000) ∨ testFrame frames a ≠ 0 := by
  refine iterate_total (P := fun s : ℕ × (ℕ → ℕ) => ∃ k, s.1 = k * 0x1000 ∧
    (∀ j < k, GoesOn tmp j) ∧ ∀ a, testFrame s.2 a ≠ 0 ↔ (a / 0x1000 < nframes % 2 ^ 20 ∧
      ∃ j < k, pageAt tmp j / 0x1000 = a / 0x1000) ∨ testFrame frames a ≠ 0)
    (fun s => 0x100000 - s.1 / 0x1000) ?_ ⟨0, rfl, by simp, by simp⟩ (by simp)
  rintro ⟨i, frames'⟩ ⟨k, rfl, hdone, hmarked⟩
  obtain ⟨hgo, hround⟩ | ⟨hstop, hround⟩ := reserveRound_eq nframes tmp k frames'
  · have hk := (tmp (k * 0x1000)).lenA.toNat_lt
    obtain ⟨hlen, hpage⟩ := hgo
    refine .inr ⟨_, hround, ⟨k + 1, rfl, ?_, fun a => ?_⟩, by dsimp only; omega⟩
    · intro j hj
      obtain hj | rfl := Nat.lt_succ_iff_lt_or_eq.mp hj
      · exact hdone j hj
      · exact ⟨hlen, hpage⟩
    · rw [testFrame_setFrame (by omega), hmarked, Nat.exists_lt_succ_right]
      constructor
      · rintro (⟨hlt, heq⟩ | ⟨hlt, hold⟩ | hold)
        · exact .inl ⟨heq ▸ hlt, .inr heq.symm⟩
        · exact .inl ⟨hlt, .inl hold⟩
        · exact .inr hold
      · rintro (⟨hlt, hold | heq⟩ | hold)
        · exact .inr (.inl ⟨hlt, hold⟩)
        · exact .inl ⟨heq ▸ hlt, heq.symm⟩
        · exact .inr (.inr hold)
  · refine .inl ⟨_, hround, fun a => ?_⟩
    rw [hmarked, Marks]
    refine or_congr_left (and_congr_right fun _ => exists_congr fun j => and_congr_left fun _ => ?_)
    constructor
    · intro hj j' hj'
      exact hdone j' (by omega)
    · intro hall
      by_contra hle
      exact hstop (hall k (by omega))

lemma memE820Parse_eq (nframes : ℕ) (tmp : ℕ → MmapEntry) (entries : ℕ) :
    ∃ frames, memE820Parse nframes tmp entries (fun _ => 0) = some frames ∧ ∀ f,
      testFrame frames (f * 0x1000) ≠ 0 ↔ (∃ i < entries, (tmp i).type ≠ 1) ∧ Marks nframes tmp f := by
  induction entries with
  | zero => exact ⟨_, rfl, by simp [testFrame]⟩
  | succ k ih =>
    obtain ⟨frames, hrun, hmarked⟩ := ih
    unfold memE820Parse at hrun ⊢
    rw [List.range_succ, List.foldlM_append, hrun]
    by_cases htype : (tmp k).type = 1
    · refine ⟨frames, by simp [htype], fun f => ?_⟩
      rw [hmarked, Nat.exists_lt_succ_right, or_iff_left fun h => h htype]
    · obtain ⟨frames', hreserve, hmarks⟩ := reserve_marks nframes tmp frames
      refine ⟨frames', by simpa [htype] using hreserve, fun f => ?_⟩
      rw [hmarks, hmarked, Nat.exists_lt_succ_right, Nat.mul_div_cancel f (by decide)]
      simp only [htype, ne_eq, not_false_eq_true, or_true, true_and]
      exact or_iff_left_of_imp And.right

end Nyx.Mem
