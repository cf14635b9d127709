import Mathlib.Data.List.Induction
import Nyx.Lib.Simulation
import Nyx.Qemu.BlockCow

/-!
# The copy-on-write disk as a disk

A disk shows at every byte the last write that covers it. The cache does so only for requests of
whole chunks, and if the offsets of the write and the read are congruent.
-/

namespace Nyx.BlockCow

/-- A write of the guest. -/
structure DiskWrite where
  offset : ℕ
  qiov : Qiov

/-- The writes that a disk has to show, the newest first: those before the switch, and those since
the last reset after it. -/
structure Journal where
  frozen : List DiskWrite
  recent : List DiskWrite
  fuzz : Bool

namespace Journal

def writes (j : Journal) : List DiskWrite := j.recent ++ j.frozen

def step (j : Journal) : DiskEvent → Journal
  | .read _ _ => j
  | .write offset qiov =>
    if j.fuzz then { j with recent := ⟨offset.toNat, qiov⟩ :: j.recent }
    else { j with frozen := ⟨offset.toNat, qiov⟩ :: j.frozen }
  | .switchToFuzzMode => { j with fuzz := true }
  | .cowCacheReset => if j.fuzz then { j with recent := [] } else j

end Journal

def journal (es : List DiskEvent) : Journal := es.foldl Journal.step ⟨[], [], false⟩

def DiskWrite.covers (p : ℕ) (w : DiskWrite) : Bool := w.offset ≤ p ∧ p < w.offset + w.qiov.size

def byteOf (image : ℕ → UInt8) (ws : List DiskWrite) (sel : DiskWrite → Bool) (p : ℕ) : UInt8 :=
  match ws.find? sel with
  | some w => w.qiov.byte (p - w.offset)
  | none => image p

def freshState (image : ℕ → UInt8) (inFuzzingMode : Bool) : CowState :=
  ⟨cowCacheNew, image, false, inFuzzingMode⟩

def DiskEvent.Passes (blk : BlockBackend) : DiskEvent → Prop
  | .read offset qiov | .write offset qiov => 0 ≤ blk.blkCheckByteRequest offset qiov.size
  | .switchToFuzzMode | .cowCacheReset => True

/-- Every read of the run gives the last write of each byte, or the byte of the image. -/
def ReadsLastWrite (blk : BlockBackend) (inFuzzingMode : Bool) (image : ℕ → UInt8)
    (es : List DiskEvent) : Prop :=
  ∀ pre offset qiov post, es = pre ++ .read offset qiov :: post → ∀ i < qiov.size,
    (cowCacheReadEntry ((performAll blk pre).run (freshState image inFuzzingMode)).2 blk offset
      qiov).2.byte i =
    byteOf image (journal pre).writes (DiskWrite.covers (offset.toNat + i)) (offset.toNat + i)

/-- Request and write consist of whole chunks, at offsets that are congruent. -/
def DiskWrite.aligned (offset size : ℕ) (w : DiskWrite) : Bool :=
  w.qiov.size % CHUNK_SIZE = 0 ∧ size % CHUNK_SIZE = 0 ∧ w.offset % CHUNK_SIZE = offset % CHUNK_SIZE

/-- The last write of every byte that a read asks for is aligned to the read. -/
def Aligned (es : List DiskEvent) : Prop :=
  ∀ pre offset qiov post, es = pre ++ .read offset qiov :: post → ∀ i < qiov.size,
    ∀ w, (journal pre).writes.find? (DiskWrite.covers (offset.toNat + i)) = some w →
      w.aligned offset.toNat qiov.size = true

section Reads

def CowCache.visible (c : CowCache) (offsetAddr i : ℕ) : Option UInt8 :=
  if c.enabledFuzz then (c.secondary.get offsetAddr i).or (c.primary.get offsetAddr i)
  else c.primary.get offsetAddr i

lemma byte_readChunk (t : SlotTable ℕ UInt8) (offsetAddr iovOffset : ℕ) (qiov : Qiov) (i : ℕ) :
    (readChunk t offsetAddr iovOffset qiov).byte i =
      if iovOffset ≤ i ∧ i < iovOffset + CHUNK_SIZE then
        (t.get offsetAddr (i - iovOffset)).getD (qiov.byte i)
      else qiov.byte i := by
  unfold readChunk SlotTable.get
  cases t.lookup offsetAddr with
  | none => simp
  | some o => rfl

lemma byte_readRound (c : CowCache) (offsetAddr iovOffset : ℕ) (qiov : Qiov) (i : ℕ) :
    (if c.enabledFuzz then readFromSecondaryBuffer c offsetAddr iovOffset qiov
      else readFromPrimaryBuffer c offsetAddr iovOffset qiov).byte i =
      if iovOffset ≤ i ∧ i < iovOffset + CHUNK_SIZE then
        (c.visible offsetAddr (i - iovOffset)).getD (qiov.byte i)
      else qiov.byte i := by
  unfold CowCache.visible
  by_cases hfuzz : c.enabledFuzz
  · rw [if_pos hfuzz, if_pos hfuzz, readFromSecondaryBuffer]
    cases hk : c.secondary.lookup offsetAddr with
    | none =>
      have hget : c.secondary.get offsetAddr (i - iovOffset) = none := by simp [SlotTable.get, hk]
      rw [hget, Option.none_or]
      exact byte_readChunk _ _ _ _ _
    | some o =>
      have hget : c.secondary.get offsetAddr (i - iovOffset) =
          some (c.secondary.data (o + (i - iovOffset))) := by simp [SlotTable.get, hk]
      rw [hget, Option.some_or, ← hget]
      exact byte_readChunk _ _ _ _ _
  · rw [if_neg hfuzz, if_neg hfuzz]
    exact byte_readChunk _ _ _ _ _

lemma byte_readLoop_of_lt (c : CowCache) (offsetAddr iovOffset : ℕ) (qiov : Qiov) (i : ℕ)
    (h : i < iovOffset) (n : ℕ) : (readLoop c n offsetAddr iovOffset qiov).byte i = qiov.byte i := by
  induction n generalizing offsetAddr iovOffset qiov with
  | zero => rfl
  | succ n ih =>
    rw [readLoop, ih _ _ _ (by omega), byte_readRound, if_neg (by omega)]

lemma byte_readLoop (c : CowCache) (n offsetAddr iovOffset : ℕ) (qiov : Qiov) (i : ℕ)
    (h : i < n * CHUNK_SIZE) :
    (readLoop c n offsetAddr iovOffset qiov).byte (iovOffset + i) =
      (c.visible (offsetAddr + i / CHUNK_SIZE * CHUNK_SIZE) (i % CHUNK_SIZE)).getD
        (qiov.byte (iovOffset + i)) := by
  induction n generalizing offsetAddr iovOffset qiov i with
  | zero => omega
  | succ n ih =>
    rw [readLoop]
    by_cases hi : i < CHUNK_SIZE
    · rw [byte_readLoop_of_lt _ _ _ _ _ (by omega), byte_readRound, if_pos (by omega)]
      rw [Nat.add_sub_cancel_left, Nat.div_eq_of_lt hi, Nat.mod_eq_of_lt hi, Nat.zero_mul, Nat.add_zero]
    · obtain ⟨j, rfl⟩ := Nat.exists_eq_add_of_le (Nat.le_of_not_lt hi)
      have hj : j < n * CHUNK_SIZE := by
        rw [Nat.succ_mul] at h
        omega
      have hrest := ih (offsetAddr + CHUNK_SIZE) (iovOffset + CHUNK_SIZE)
        (if c.enabledFuzz then readFromSecondaryBuffer c offsetAddr iovOffset qiov
          else readFromPrimaryBuffer c offsetAddr iovOffset qiov) j hj
      rw [← Nat.add_assoc, hrest, byte_readRound, if_neg (by omega), Nat.add_mod_left]
      congr 2
      rw [Nat.add_div_left j (by decide), Nat.succ_mul]
      omega

end Reads

section Tables

def DiskWrite.keys (a : ℕ) (w : DiskWrite) : Bool :=
  w.qiov.size % CHUNK_SIZE = 0 ∧ w.offset ≤ a ∧ a < w.offset + w.qiov.size ∧
    (a - w.offset) % CHUNK_SIZE = 0

/-- The table holds under every key the last chunk written there. -/
structure Holds (t : SlotTable ℕ UInt8) (ws : List DiskWrite) : Prop where
  valid : t.Valid CHUNK_SIZE
  get : ∀ a i, i < CHUNK_SIZE →
    t.get a i = (ws.find? (DiskWrite.keys a)).map fun w => w.qiov.byte (a - w.offset + i)

lemma holds_empty {t : SlotTable ℕ UInt8} (h : ∀ k, t.lookup k = none) : Holds t [] := by
  refine ⟨SlotTable.valid_of_lookup_none h, ?_⟩
  intro a i _
  simp [SlotTable.get, h]

lemma keys_iff (w : DiskWrite) (a : ℕ) (hsize : w.qiov.size % CHUNK_SIZE = 0) :
    w.keys a ↔ ∃ j < w.qiov.size / CHUNK_SIZE, a = w.offset + CHUNK_SIZE * j := by
  rw [DiskWrite.keys, decide_eq_true_iff]
  simp only [CHUNK_SIZE] at *
  constructor
  · rintro ⟨-, hle, hlt, hmod⟩
    exact ⟨(a - w.offset) / 0x1000, by omega, by omega⟩
  · rintro ⟨j, hj, rfl⟩
    omega

lemma Holds.putRange {t : SlotTable ℕ UInt8} {ws : List DiskWrite} (h : Holds t ws) (w : DiskWrite)
    (hsize : w.qiov.size % CHUNK_SIZE = 0) :
    Holds (t.putRange CHUNK_SIZE w.qiov.byte (w.qiov.size / CHUNK_SIZE) w.offset 0) (w :: ws) := by
  refine ⟨h.valid.putRange _ _ _ _, ?_⟩
  intro a i hi
  rw [h.valid.get_putRange _ _ _ _ _ hi, List.find?_cons]
  by_cases hkey : w.keys a = true
  · rw [if_pos ((keys_iff w a hsize).mp hkey), hkey, Nat.zero_add]
    rfl
  · rw [if_neg fun hex => hkey ((keys_iff w a hsize).mpr hex), Bool.eq_false_iff.mpr hkey]
    exact h.get a i hi

lemma Holds.skip {t : SlotTable ℕ UInt8} {ws : List DiskWrite} (h : Holds t ws) (w : DiskWrite)
    (hsize : ¬w.qiov.size % CHUNK_SIZE = 0) : Holds t (w :: ws) := by
  refine ⟨h.valid, ?_⟩
  intro a i hi
  have hkey : w.keys a = false := by simp [DiskWrite.keys, hsize]
  rw [List.find?_cons, hkey]
  exact h.get a i hi

end Tables

section Writes

variable {s s' : CowState} {qiov : Qiov}

lemma writeLoop_primary {n offsetAddr iovOffset : ℕ} (hfuzz : s.cache.enabledFuzz = false)
    (hrun : (writeLoop qiov n offsetAddr iovOffset).run s = (.ok (), s')) :
    s' = { s with cache := { s.cache with
      primary := s.cache.primary.putRange CHUNK_SIZE qiov.byte n offsetAddr iovOffset } } := by
  induction n generalizing s offsetAddr iovOffset with
  | zero =>
    cases hrun
    rfl
  | succ n ih =>
    obtain ⟨u, s₁, hround, hrest⟩ := Exec.run_bind_eq_ok hrun
    rw [writeRound, Exec.run_gets_bind, if_neg (by simp [hfuzz]), run_writeToPrimaryBuffer] at hround
    split at hround
    · cases hround
    · cases hround
      exact ih (s := s.putPrimary offsetAddr iovOffset qiov) hfuzz hrest

/-- The buffer keeps consisting of whole chunks, and once raised, `cow_cache_full` stays. -/
structure Full (raised : Bool) (s : CowState) : Prop where
  full : raised = true → s.cowCacheFull = true
  whole : WholeChunks s.cache.secondary

lemma full_writeRound (raised : Bool) (offsetAddr iovOffset : ℕ) (qiov : Qiov) :
    Exec.Triple (Full raised) (writeRound offsetAddr iovOffset qiov) (fun _ => Full raised)
      (fun _ _ => True) := by
  intro s hs
  rw [writeRound, Exec.run_gets_bind]
  by_cases hfuzz : s.cache.enabledFuzz = true
  · rw [if_pos hfuzz, run_writeToSecondaryBuffer hs.whole]
    by_cases hroom : COW_CACHE_SECONDARY_SIZE ≤ s.cache.secondary.next
    · rw [if_pos hroom]
      exact ⟨fun _ => rfl, hs.whole⟩
    · rw [if_neg hroom]
      exact ⟨hs.full, hs.whole.put hroom _ _ _⟩
  · rw [if_neg hfuzz, run_writeToPrimaryBuffer]
    by_cases hroom : (s.cache.primary.lookup offsetAddr).isNone ∧
        COW_CACHE_SIZE ≤ s.cache.primary.next + CHUNK_SIZE
    · rw [if_pos hroom]
      trivial
    · rw [if_neg hroom]
      exact ⟨hs.full, hs.whole⟩

lemma full_perform (blk : BlockBackend) (raised : Bool) (e : DiskEvent) :
    Exec.Triple (Full raised) (perform blk e) (fun _ => Full raised) (fun _ _ => True) := by
  cases e with
  | read offset qiov => exact Exec.Triple.skip
  | write offset qiov =>
    apply triple_write
    intro offsetAddr iovOffset
    exact full_writeRound raised offsetAddr iovOffset qiov
  | switchToFuzzMode =>
    apply Exec.Triple.modify
    intro s hs
    exact ⟨hs.full, hs.whole⟩
  | cowCacheReset =>
    apply Exec.Triple.modify
    intro s hs
    split
    · exact ⟨hs.full, wholeChunks_zero _ rfl⟩
    · exact hs

lemma writeLoop_secondary {n offsetAddr iovOffset : ℕ} (hfuzz : s.cache.enabledFuzz)
    (hwhole : WholeChunks s.cache.secondary)
    (hrun : (writeLoop qiov n offsetAddr iovOffset).run s = (.ok (), s'))
    (hfull : s'.cowCacheFull = false) : s' = { s with cache := { s.cache with
      secondary := s.cache.secondary.putRange CHUNK_SIZE qiov.byte n offsetAddr iovOffset } } ∧
      WholeChunks s'.cache.secondary := by
  induction n generalizing s offsetAddr iovOffset with
  | zero =>
    cases hrun
    exact ⟨rfl, hwhole⟩
  | succ n ih =>
    obtain ⟨u, s₁, hround, hrest⟩ := Exec.run_bind_eq_ok hrun
    rw [writeRound, Exec.run_gets_bind, if_pos hfuzz, run_writeToSecondaryBuffer hwhole] at hround
    split at hround
    · cases hround
      have hraised := (triple_writeLoop (fun a io => full_writeRound true a io qiov) n _ _).ok
        (⟨fun _ => rfl, hwhole⟩ : Full true { s with cowCacheFull := true }) hrest
      exact absurd (hraised.full rfl) (by simp [hfull])
    next hroom =>
      cases hround
      exact ih (s := s.putSecondary offsetAddr iovOffset qiov) hfuzz (hwhole.put hroom _ _ _) hrest

end Writes

/-- The disk is the image with the writes of the journal. -/
structure Shows (image : ℕ → UInt8) (s : CowState) (j : Journal) : Prop where
  image : s.image = image
  fuzz : s.cache.enabledFuzz = j.fuzz
  whole : WholeChunks s.cache.secondary
  primary : Holds s.cache.primary j.frozen
  secondary : Holds s.cache.secondary j.recent
  recent : j.fuzz = false → j.recent = []

section Shows

variable {blk : BlockBackend} {image : ℕ → UInt8} {s s' : CowState} {j : Journal}

lemma shows_freshState (image : ℕ → UInt8) (inFuzzingMode : Bool) :
    Shows image (freshState image inFuzzingMode) ⟨[], [], false⟩ where
  image := rfl
  fuzz := rfl
  whole := wholeChunks_zero _ rfl
  primary := holds_empty fun _ => rfl
  secondary := holds_empty fun _ => rfl
  recent _ := rfl

lemma Shows.write (h : Shows image s j) {offset : ℤ} {qiov : Qiov}
    (hpass : 0 ≤ blk.blkCheckByteRequest offset qiov.size)
    (hrun : (perform blk (.write offset qiov)).run s = (.ok (), s')) (hfull : s'.cowCacheFull = false) :
    Shows image s' (j.step (.write offset qiov)) := by
  rw [perform, run_cowCacheWrite] at hrun
  unfold Journal.step
  by_cases hsize : qiov.size % CHUNK_SIZE = 0
  · rw [if_pos ⟨hpass, hsize⟩] at hrun
    cases hfuzz : j.fuzz with
    | false =>
      cases writeLoop_primary (h.fuzz.trans hfuzz) hrun
      exact { h with
        fuzz := h.fuzz.trans hfuzz
        primary := h.primary.putRange ⟨offset.toNat, qiov⟩ hsize
        recent := fun _ => h.recent hfuzz }
    | true =>
      obtain ⟨rfl, hwhole⟩ := writeLoop_secondary (h.fuzz.trans hfuzz) h.whole hrun hfull
      exact { h with
        fuzz := h.fuzz.trans hfuzz
        whole := hwhole
        secondary := h.secondary.putRange ⟨offset.toNat, qiov⟩ hsize
        recent := fun hj => Bool.noConfusion hj }
  · rw [if_neg fun hand => hsize hand.2] at hrun
    cases hrun
    cases hfuzz : j.fuzz with
    | false =>
      exact { h with
        fuzz := h.fuzz.trans hfuzz
        primary := h.primary.skip ⟨offset.toNat, qiov⟩ hsize
        recent := fun _ => h.recent hfuzz }
    | true =>
      exact { h with
        fuzz := h.fuzz.trans hfuzz
        secondary := h.secondary.skip ⟨offset.toNat, qiov⟩ hsize
        recent := fun hj => Bool.noConfusion hj }

lemma Shows.step (h : Shows image s j) {e : DiskEvent} (hpass : e.Passes blk)
    (hrun : (perform blk e).run s = (.ok (), s')) (hfull : s'.cowCacheFull = false) :
    Shows image s' (j.step e) := by
  cases e with
  | read offset qiov =>
    cases hrun
    exact h
  | write offset qiov => exact h.write hpass hrun hfull
  | switchToFuzzMode =>
    cases hrun
    exact ⟨h.image, rfl, h.whole, h.primary, h.secondary, fun hj => absurd hj (by simp [Journal.step])⟩
  | cowCacheReset =>
    cases hfuzz : j.fuzz with
    | false =>
      cases (run_cowCacheReset_idle (h.fuzz.trans hfuzz)).symm.trans hrun
      simpa [Journal.step, hfuzz] using h
    | true =>
      cases (run_cowCacheReset (h.fuzz.trans hfuzz)).symm.trans hrun
      simp only [Journal.step, hfuzz, if_true]
      exact ⟨h.image, h.fuzz.trans hfuzz, wholeChunks_zero _ rfl, h.primary, holds_empty fun _ => rfl,
        fun _ => rfl⟩

lemma notFull_of_run (hwhole : WholeChunks s.cache.secondary) {es : List DiskEvent}
    (hrun : (performAll blk es).run s = (.ok (), s')) (hfull : s'.cowCacheFull = false) :
    s.cowCacheFull = false := by
  by_contra hraised
  have hs : Full true s := ⟨fun _ => by simpa using hraised, hwhole⟩
  have hs' : Full true s' :=
    (Exec.Triple.forEach_const fun e _ => full_perform blk true e).ok hs hrun
  exact absurd (hs'.full rfl) (by simp [hfull])

lemma Shows.run (h : Shows image s j) {es : List DiskEvent} (hpass : ∀ e ∈ es, e.Passes blk)
    (hrun : (performAll blk es).run s = (.ok (), s')) (hfull : s'.cowCacheFull = false) :
    Shows image s' (es.foldl Journal.step j) := by
  induction es generalizing s j with
  | nil =>
    cases hrun
    exact h
  | cons e es ih =>
    obtain ⟨u, s₁, hfirst, hrest⟩ := Exec.run_bind_eq_ok hrun
    have hwhole : Full false s₁ :=
      (full_perform blk false e).ok ⟨fun hf => absurd hf (by simp), h.whole⟩ hfirst
    have hfull₁ : s₁.cowCacheFull = false := notFull_of_run hwhole.whole hrest hfull
    have hstep := h.step (hpass e List.mem_cons_self) hfirst hfull₁
    exact ih hstep (fun e' he' => hpass e' (List.mem_cons_of_mem e he')) hrest

lemma Shows.visible (h : Shows image s j) (a : ℕ) {i : ℕ} (hi : i < CHUNK_SIZE) :
    s.cache.visible a i =
      (j.writes.find? (DiskWrite.keys a)).map fun w => w.qiov.byte (a - w.offset + i) := by
  rw [CowCache.visible, Journal.writes, List.find?_append, Option.map_or, h.fuzz,
    ← h.primary.get a i hi, ← h.secondary.get a i hi]
  cases hfuzz : j.fuzz with
  | true => rfl
  | false =>
    have hnone : s.cache.secondary.get a i = none := by
      rw [h.secondary.get a i hi, h.recent hfuzz]
      rfl
    rw [hnone]
    rfl

lemma keys_chunk (w : DiskWrite) (offset i : ℕ) {size : ℕ} (hsize : size % CHUNK_SIZE = 0) :
    w.keys (offset + i / CHUNK_SIZE * CHUNK_SIZE) =
      (w.covers (offset + i) && w.aligned offset size) := by
  rw [Bool.eq_iff_iff, Bool.and_eq_true, DiskWrite.keys, DiskWrite.covers, DiskWrite.aligned,
    decide_eq_true_iff, decide_eq_true_iff, decide_eq_true_iff]
  simp only [CHUNK_SIZE] at *
  omega

lemma Shows.read (h : Shows image s j) {offset : ℤ} {qiov : Qiov}
    (hpass : 0 ≤ blk.blkCheckByteRequest offset qiov.size) {i : ℕ} (hi : i < qiov.size) :
    (cowCacheReadEntry s blk offset qiov).2.byte i =
      byteOf image j.writes
        (fun w => w.covers (offset.toNat + i) && w.aligned offset.toNat qiov.size)
        (offset.toNat + i) := by
  have hcheck : ¬blk.blkCheckByteRequest offset qiov.size < 0 := by omega
  rw [cowCacheReadEntry, blkCoPreadv, if_neg hcheck, cowCacheRead, if_neg hcheck]
  by_cases hsize : qiov.size % CHUNK_SIZE = 0
  · rw [if_neg (not_not.mpr hsize)]
    have hrounds : i < qiov.size / CHUNK_SIZE * CHUNK_SIZE := by
      rw [Nat.div_mul_cancel (Nat.dvd_of_mod_eq_zero hsize)]
      exact hi
    have hloop := byte_readLoop s.cache (qiov.size / CHUNK_SIZE) offset.toNat 0
      { qiov with byte := fun i => s.image (offset.toNat + i) } i hrounds
    rw [Nat.zero_add] at hloop
    rw [hloop, h.visible _ (Nat.mod_lt i (by decide)), byteOf]
    have hsel : (DiskWrite.keys (offset.toNat + i / CHUNK_SIZE * CHUNK_SIZE)) =
        fun w => w.covers (offset.toNat + i) && w.aligned offset.toNat qiov.size := by
      funext w
      exact keys_chunk w _ i hsize
    cases hfind : j.writes.find? (DiskWrite.keys (offset.toNat + i / CHUNK_SIZE * CHUNK_SIZE)) with
    | none =>
      rw [← hsel, hfind, h.image]
      rfl
    | some w =>
      have hkey := List.find?_some hfind
      rw [DiskWrite.keys, decide_eq_true_iff] at hkey
      have hpos : offset.toNat + i / CHUNK_SIZE * CHUNK_SIZE - w.offset + i % CHUNK_SIZE =
          offset.toNat + i - w.offset := by
        simp only [CHUNK_SIZE] at *
        omega
      rw [← hsel, hfind]
      show w.qiov.byte _ = w.qiov.byte _
      rw [hpos]
  · -- nothing is aligned to the read
    have hnone : j.writes.find?
        (fun w => w.covers (offset.toNat + i) && w.aligned offset.toNat qiov.size) = none := by
      rw [List.find?_eq_none]
      intro w _
      simp [DiskWrite.aligned, hsize]
    rw [if_pos hsize, byteOf, hnone]
    rw [h.image]

end Shows

section Shape

def DiskWrite.paint (f : DiskWrite → ℕ → UInt8) (w : DiskWrite) : DiskWrite :=
  ⟨w.offset, w.qiov.size, f w⟩

def DiskEvent.paint (f : DiskWrite → ℕ → UInt8) : DiskEvent → DiskEvent
  | .read offset qiov => .read offset ⟨qiov.size, fun _ => 0⟩
  | .write offset qiov => .write offset ⟨qiov.size, f ⟨offset.toNat, qiov⟩⟩
  | .switchToFuzzMode => .switchToFuzzMode
  | .cowCacheReset => .cowCacheReset

def DiskEvent.shape : DiskEvent → DiskEvent := DiskEvent.paint fun _ _ => 0

def Journal.paint (f : DiskWrite → ℕ → UInt8) (j : Journal) : Journal :=
  ⟨j.frozen.map (DiskWrite.paint f), j.recent.map (DiskWrite.paint f), j.fuzz⟩

variable (f : DiskWrite → ℕ → UInt8)

lemma DiskEvent.shape_paint (e : DiskEvent) : (e.paint f).shape = e.shape := by
  cases e <;> rfl

lemma Journal.paint_step (j : Journal) (e : DiskEvent) :
    (j.step e).paint f = (j.paint f).step (e.paint f) := by
  obtain ⟨frozen, recent, fuzz⟩ := j
  cases e <;> cases fuzz <;> rfl

lemma paint_journal (es : List DiskEvent) :
    (journal es).paint f = journal (es.map (DiskEvent.paint f)) := by
  unfold journal
  rw [List.foldl_map]
  have hfold : ∀ (j : Journal), (es.foldl Journal.step j).paint f =
      es.foldl (fun j e => j.step (e.paint f)) (j.paint f) := by
    induction es with
    | nil => intro j; rfl
    | cons e es ih =>
      intro j
      rw [List.foldl_cons, ih, Journal.paint_step]
      rfl
  exact hfold _

lemma writes_paint (j : Journal) : (j.paint f).writes = j.writes.map (DiskWrite.paint f) := by
  simp [Journal.writes, Journal.paint]

lemma find_paint (es : List DiskEvent) (p : ℕ) :
    (journal (es.map (DiskEvent.paint f))).writes.find? (DiskWrite.covers p) =
      ((journal es).writes.find? (DiskWrite.covers p)).map (DiskWrite.paint f) := by
  rw [← paint_journal, writes_paint, List.find?_map]
  rfl

def eraseData (t : SlotTable ℕ UInt8) : SlotTable ℕ UInt8 := { t with data := fun _ => 0 }

def CowState.shape (s : CowState) : CowState :=
  { s with
    cache := ⟨eraseData s.cache.primary, eraseData s.cache.secondary, s.cache.enabledFuzz⟩
    image := fun _ => 0 }

lemma eraseData_fill (t : SlotTable ℕ UInt8) (k : ℕ) (src : ℕ → UInt8) (start : ℕ) :
    eraseData (t.fill CHUNK_SIZE k src start) =
      (eraseData t).fill CHUNK_SIZE k (fun _ => 0) start := by
  have hblit : ∀ o, blit (fun _ => (0 : UInt8)) o (fun _ => 0) start CHUNK_SIZE = fun _ => 0 := by
    intro o
    funext i
    simp [blit]
  unfold SlotTable.fill
  cases hk : t.lookup k with
  | none => simp [eraseData, hk]
  | some o => simp [eraseData, hk, hblit]

lemma eraseData_put (t : SlotTable ℕ UInt8) (k : ℕ) (src : ℕ → UInt8) (start : ℕ) :
    eraseData (t.put CHUNK_SIZE k src start) =
      (eraseData t).put CHUNK_SIZE k (fun _ => 0) start := by
  rw [SlotTable.put, SlotTable.put, eraseData_fill]
  congr 1
  show eraseData (if (t.lookup k).isNone then _ else _) = if (t.lookup k).isNone then _ else _
  split <;> rfl

def Shaped (m m' : CowM Unit) : Prop :=
  Exec.Simulates (fun s => WholeChunks s.cache.secondary) CowState.shape id m m'

lemma shaped_writeRound (offsetAddr iovOffset : ℕ) (qiov : Qiov) :
    Shaped (writeRound offsetAddr iovOffset qiov)
      (writeRound offsetAddr iovOffset ⟨qiov.size, fun _ => 0⟩) := by
  refine Exec.Simulates.bind (Exec.Simulates.gets fun _ _ => rfl) fun fuzz =>
    Exec.Simulates.ite (fun s h => ?_) fun s h => ?_
  · have hwhole : WholeChunks s.shape.cache.secondary := ⟨h.mod, h.le⟩
    have hnext : s.shape.cache.secondary.next = s.cache.secondary.next := rfl
    rw [run_writeToSecondaryBuffer h, run_writeToSecondaryBuffer hwhole, hnext]
    by_cases hroom : COW_CACHE_SECONDARY_SIZE ≤ s.cache.secondary.next
    · rw [if_pos hroom, if_pos hroom]
      exact ⟨_, rfl, rfl, h⟩
    · rw [if_neg hroom, if_neg hroom]
      refine ⟨_, rfl, ?_, h.put hroom _ _ _⟩
      simp only [CowState.putSecondary, CowState.shape, eraseData_put]
  · have hprimary : s.shape.cache.primary = eraseData s.cache.primary := rfl
    rw [run_writeToPrimaryBuffer, run_writeToPrimaryBuffer, hprimary, eraseData]
    by_cases hroom : (s.cache.primary.lookup offsetAddr).isNone ∧
        COW_CACHE_SIZE ≤ s.cache.primary.next + CHUNK_SIZE
    · rw [if_pos hroom, if_pos hroom]
      exact ⟨_, rfl⟩
    · rw [if_neg hroom, if_neg hroom]
      refine ⟨_, rfl, ?_, h⟩
      simp only [CowState.putPrimary, CowState.shape, eraseData_put]

lemma shaped_writeLoop (qiov : Qiov) (n offsetAddr iovOffset : ℕ) :
    Shaped (writeLoop qiov n offsetAddr iovOffset)
      (writeLoop ⟨qiov.size, fun _ => 0⟩ n offsetAddr iovOffset) := by
  induction n generalizing offsetAddr iovOffset with
  | zero => exact Exec.Simulates.pure ()
  | succ n ih => exact Exec.Simulates.bind (shaped_writeRound _ _ qiov) fun _ => ih _ _

lemma shaped_perform (blk : BlockBackend) (e : DiskEvent) :
    Shaped (perform blk e) (perform blk e.shape) := by
  intro s h
  cases e with
  | read offset qiov => exact ⟨s, rfl, rfl, h⟩
  | switchToFuzzMode => exact ⟨_, rfl, rfl, ⟨h.mod, h.le⟩⟩
  | write offset qiov =>
    rw [DiskEvent.shape, DiskEvent.paint, perform, perform, run_cowCacheWrite, run_cowCacheWrite]
    by_cases hsize : 0 ≤ blk.blkCheckByteRequest offset qiov.size ∧ qiov.size % CHUNK_SIZE = 0
    · rw [if_pos hsize, if_pos hsize]
      exact shaped_writeLoop qiov _ _ _ s h
    · rw [if_neg hsize, if_neg hsize]
      exact ⟨s, rfl, rfl, h⟩
  | cowCacheReset =>
    cases hfuzz : s.cache.enabledFuzz with
    | true =>
      have hrun : (perform blk .cowCacheReset).run s.shape = _ := run_cowCacheReset hfuzz
      rw [DiskEvent.shape, DiskEvent.paint, hrun]
      exact ⟨_, run_cowCacheReset hfuzz, rfl, wholeChunks_zero _ rfl⟩
    | false =>
      have hrun : (perform blk .cowCacheReset).run s.shape = _ := run_cowCacheReset_idle hfuzz
      rw [DiskEvent.shape, DiskEvent.paint, hrun]
      exact ⟨s, run_cowCacheReset_idle hfuzz, rfl, h⟩

lemma shaped_performAll (blk : BlockBackend) (es : List DiskEvent) :
    Shaped (performAll blk es) (performAll blk (es.map DiskEvent.shape)) := by
  induction es with
  | nil => exact Exec.Simulates.pure ()
  | cons e es ih => exact Exec.Simulates.bind (shaped_perform blk e) fun _ => ih

end Shape

section Disk

variable {blk : BlockBackend} {inFuzzingMode : Bool} {image : ℕ → UInt8} {s : CowState}

lemma shows_before {pre post : List DiskEvent} (hpass : ∀ e ∈ pre ++ post, e.Passes blk)
    (hrun : (performAll blk (pre ++ post)).run (freshState image inFuzzingMode) = (.ok (), s))
    (hfull : s.cowCacheFull = false) :
    Shows image ((performAll blk pre).run (freshState image inFuzzingMode)).2 (journal pre) := by
  have hstart := shows_freshState image inFuzzingMode
  rw [performAll_append] at hrun
  have hkept : Exec.Triple (Full false) (performAll blk pre) (fun _ => Full false) fun _ _ => True :=
    Exec.Triple.forEach_const fun e _ => full_perform blk false e
  rcases hpre : (performAll blk pre).run (freshState image inFuzzingMode) with ⟨r, s₁⟩
  cases r with
  | error e =>
    rw [Exec.run_bind_error hpre] at hrun
    cases hrun
  | ok u =>
    rw [Exec.run_bind_ok hpre] at hrun
    have hwhole := (hkept.ok ⟨fun hf => absurd hf (by simp), hstart.whole⟩ hpre).whole
    exact hstart.run (fun e he => hpass e (List.mem_append_left post he)) hpre
      (notFull_of_run hwhole hrun hfull)

lemma byteOf_aligned {ws : List DiskWrite} {p offset size : ℕ}
    (h : ∀ w, ws.find? (DiskWrite.covers p) = some w → w.aligned offset size) :
    byteOf image ws (fun w => w.covers p && w.aligned offset size) p =
      byteOf image ws (DiskWrite.covers p) p := by
  have hfind : ws.find? (fun w => w.covers p && w.aligned offset size) =
      ws.find? (DiskWrite.covers p) := by
    cases hw : ws.find? (DiskWrite.covers p) with
    | none =>
      rw [List.find?_eq_none] at hw ⊢
      intro w hmem
      simp [hw w hmem]
    | some w =>
      have haligned := h w hw
      rw [List.find?_eq_some_iff_append] at hw ⊢
      obtain ⟨hcovers, as, bs, rfl, hfirst⟩ := hw
      refine ⟨by simp [hcovers, haligned], as, bs, rfl, ?_⟩
      intro w' hw'
      have hnot := hfirst w' hw'
      simp [hnot]
  rw [byteOf, byteOf, hfind]

/-- Ones in the writes that are not aligned to a request, zeros elsewhere. -/
def marks (offset size : ℕ) (w : DiskWrite) : ℕ → UInt8 := fun _ =>
  if w.aligned offset size then 0 else 1

lemma aligned_paint (f : DiskWrite → ℕ → UInt8) (offset size : ℕ) (w : DiskWrite) :
    (w.paint f).aligned offset size = w.aligned offset size := rfl

lemma byteOf_marks {ws : List DiskWrite} {p offset size : ℕ} {w : DiskWrite}
    (hw : ws.find? (DiskWrite.covers p) = some w) (haligned : ¬w.aligned offset size) :
    byteOf (fun _ => 0) (ws.map (DiskWrite.paint (marks offset size)))
        (fun w => w.covers p && w.aligned offset size) p ≠
      byteOf (fun _ => 0) (ws.map (DiskWrite.paint (marks offset size))) (DiskWrite.covers p) p := by
  have hone : byteOf (fun _ => 0) (ws.map (DiskWrite.paint (marks offset size)))
      (DiskWrite.covers p) p = 1 := by
    have hfind : (ws.map (DiskWrite.paint (marks offset size))).find? (DiskWrite.covers p) =
        some (w.paint (marks offset size)) := by
      rw [List.find?_map]
      exact congrArg (Option.map (DiskWrite.paint (marks offset size))) hw
    rw [byteOf, hfind]
    simp [DiskWrite.paint, marks, haligned]
  have hzero : byteOf (fun _ => 0) (ws.map (DiskWrite.paint (marks offset size)))
      (fun w => w.covers p && w.aligned offset size) p = 0 := by
    unfold byteOf
    cases hfind : (ws.map (DiskWrite.paint (marks offset size))).find?
        (fun w => w.covers p && w.aligned offset size) with
    | none => rfl
    | some w' =>
      obtain ⟨w₀, -, rfl⟩ := List.mem_map.mp (List.mem_of_find?_eq_some hfind)
      have hsel := List.find?_some hfind
      rw [Bool.and_eq_true, aligned_paint] at hsel
      simp [DiskWrite.paint, marks, hsel.2]
  rw [hone, hzero]
  decide

end Disk

lemma aligned_of_shape {es es' : List DiskEvent}
    (hshape : es'.map DiskEvent.shape = es.map DiskEvent.shape) (h : Aligned es) : Aligned es' := by
  intro pre' offset qiov' post' hes' i hi w' hw'
  rw [hes', List.map_append, List.map_cons] at hshape
  obtain ⟨pre, rest, rfl, hpre, hrest⟩ := List.map_eq_append_iff.mp hshape.symm
  obtain ⟨e, post, rfl, he, -⟩ := List.map_eq_cons_iff.mp hrest
  cases e with
  | read offset₁ qiov =>
    obtain rfl : offset₁ = offset := (DiskEvent.read.inj he).1
    have hsize : qiov.size = qiov'.size := (Qiov.mk.inj (DiskEvent.read.inj he).2).1
    -- the two journals only differ in the data
    have hfind : ((journal pre).writes.find? (DiskWrite.covers (offset₁.toNat + i))).map
        (DiskWrite.paint fun _ _ => 0) = some (w'.paint fun _ _ => 0) := by
      rw [← find_paint, ← Option.map_some, ← hw', ← find_paint]
      exact congrArg (fun es => (journal es).writes.find? (DiskWrite.covers (offset₁.toNat + i))) hpre
    obtain ⟨w, hw, hpaint⟩ := Option.map_eq_some_iff.mp hfind
    have haligned := h pre offset₁ qiov post rfl i (hsize ▸ hi) w hw
    rw [← aligned_paint (fun _ _ => 0), hpaint, hsize] at haligned
    exact haligned
  | write offset₁ qiov => cases he
  | switchToFuzzMode => cases he
  | cowCacheReset => cases he

lemma passes_shape (blk : BlockBackend) (e : DiskEvent) : e.shape.Passes blk ↔ e.Passes blk := by
  cases e <;> rfl

lemma run_of_shape {blk : BlockBackend} {inFuzzingMode : Bool} {image : ℕ → UInt8}
    (image' : ℕ → UInt8) {es es' : List DiskEvent} {s : CowState}
    (hshape : es'.map DiskEvent.shape = es.map DiskEvent.shape) (hpass : ∀ e ∈ es, e.Passes blk)
    (hrun : (performAll blk es).run (freshState image inFuzzingMode) = (.ok (), s))
    (hfull : s.cowCacheFull = false) :
    (∀ e ∈ es', e.Passes blk) ∧
      ∃ s', (performAll blk es').run (freshState image' inFuzzingMode) = (.ok (), s') ∧
        s'.cowCacheFull = false := by
  constructor
  · intro e he
    have hmem : e.shape ∈ es.map DiskEvent.shape := hshape ▸ List.mem_map_of_mem he
    obtain ⟨e₀, he₀, heq⟩ := List.mem_map.mp hmem
    rw [← passes_shape, ← heq, passes_shape]
    exact hpass e₀ he₀
  · have hwhole : ∀ image, WholeChunks (freshState image inFuzzingMode).cache.secondary :=
      fun _ => wholeChunks_zero _ rfl
    have hstart : (freshState image inFuzzingMode).shape = (freshState image' inFuzzingMode).shape := rfl
    have hfirst := ((shaped_performAll blk es).of_ok (hwhole image) hrun).1
    rw [hstart, ← hshape] at hfirst
    obtain ⟨s', hrun', hstate, -⟩ := (shaped_performAll blk es').ok (hwhole image') hfirst
    have hflag := congrArg CowState.cowCacheFull hstate
    exact ⟨s', hrun', hflag.trans hfull⟩

lemma mem_step {j : Journal} {e : DiskEvent} {w : DiskWrite} (h : w ∈ (j.step e).writes) :
    w ∈ j.writes ∨ ∃ offset, e = .write offset w.qiov ∧ w.offset = offset.toNat := by
  obtain ⟨frozen, recent, fuzz⟩ := j
  cases e with
  | read offset qiov => exact .inl h
  | switchToFuzzMode => exact .inl h
  | write offset qiov =>
    have hnew : w ∈ recent ++ frozen ∨ w = ⟨offset.toNat, qiov⟩ := by
      cases fuzz <;> simp only [Journal.step, Journal.writes, if_true, Bool.false_eq_true, if_false,
        List.mem_append, List.mem_cons] at h ⊢ <;> tauto
    rcases hnew with h | rfl
    · exact .inl h
    · exact .inr ⟨offset, rfl, rfl⟩
  | cowCacheReset =>
    cases fuzz with
    | false => exact .inl h
    | true => exact .inl (List.mem_append_right recent h)

lemma mem_journal {es : List DiskEvent} {w : DiskWrite} (h : w ∈ (journal es).writes) :
    ∃ offset, .write offset w.qiov ∈ es ∧ w.offset = offset.toNat := by
  induction es using List.reverseRecOn with
  | nil => simp [journal, Journal.writes] at h
  | append_singleton es e ih =>
    have hlast : journal (es ++ [e]) = (journal es).step e := by simp [journal]
    rw [hlast] at h
    rcases mem_step h with h | ⟨offset, rfl, hoffset⟩
    · obtain ⟨offset, hmem, hoffset⟩ := ih h
      exact ⟨offset, List.mem_append_left _ hmem, hoffset⟩
    · exact ⟨offset, by simp, hoffset⟩

lemma aligned_of_chunks {es : List DiskEvent}
    (h : ∀ e ∈ es, ∀ offset qiov, e = .read offset qiov ∨ e = .write offset qiov →
      qiov.size % CHUNK_SIZE = 0 ∧ offset.toNat % CHUNK_SIZE = 0) : Aligned es := by
  intro pre offset qiov post hes i hi w hw
  have hread := h (.read offset qiov) (by simp [hes]) offset qiov (.inl rfl)
  obtain ⟨offset', hmem, hoffset⟩ := mem_journal (List.mem_of_find?_eq_some hw)
  have hwrite := h (.write offset' w.qiov) (by simp [hes, hmem]) offset' w.qiov (.inr rfl)
  rw [DiskWrite.aligned, decide_eq_true_iff, hoffset]
  exact ⟨hwrite.1, hread.1, hwrite.2.trans hread.2.symm⟩

/-- For the requests of a run that does not fill the buffer: the cache is a disk for every image and
all data if and only if the last write of every byte is aligned to the reads of it. -/
theorem cowDisk_readsLastWrite_iff (blk : BlockBackend) (inFuzzingMode : Bool) (image : ℕ → UInt8)
    (es : List DiskEvent) (s : CowState) (hpass : ∀ e ∈ es, e.Passes blk)
    (hrun : (performAll blk es).run (freshState image inFuzzingMode) = (.ok (), s))
    (hfull : s.cowCacheFull = false) :
    (∀ image' es', es'.map DiskEvent.shape = es.map DiskEvent.shape →
      ReadsLastWrite blk inFuzzingMode image' es') ↔ Aligned es := by
  constructor
  · intro h pre offset qiov post hes i hi w hw
    by_contra haligned
    set f := marks offset.toNat qiov.size
    have hshape : (es.map (DiskEvent.paint f)).map DiskEvent.shape = es.map DiskEvent.shape := by
      rw [List.map_map]
      exact List.map_congr_left fun e _ => DiskEvent.shape_paint f e
    have hsplit : es.map (DiskEvent.paint f) = pre.map (DiskEvent.paint f) ++
        .read offset ⟨qiov.size, fun _ => 0⟩ :: post.map (DiskEvent.paint f) := by
      rw [hes, List.map_append, List.map_cons]
      rfl
    obtain ⟨hpass', s', hrun', hfull'⟩ := run_of_shape (fun _ => 0) hshape hpass hrun hfull
    have hreads := h (fun _ => 0) _ hshape _ _ _ _ hsplit i hi
    rw [hsplit] at hpass' hrun'
    have hshows := shows_before hpass' hrun' hfull'
    have hread : (DiskEvent.read offset ⟨qiov.size, fun _ => 0⟩).Passes blk := hpass' _ (by simp)
    rw [hshows.read hread hi, ← paint_journal, writes_paint] at hreads
    exact byteOf_marks hw haligned hreads
  · intro h image' es' hshape pre offset qiov post hes' i hi
    obtain ⟨hpass', s', hrun', hfull'⟩ := run_of_shape image' hshape hpass hrun hfull
    rw [hes'] at hpass' hrun'
    have hshows := shows_before hpass' hrun' hfull'
    have hread : (DiskEvent.read offset qiov).Passes blk := hpass' _ (by simp)
    rw [hshows.read hread hi]
    exact byteOf_aligned (aligned_of_shape hshape h pre offset qiov post hes' i hi)

def chunkEvents : List DiskEvent :=
  [.write 0 (oneChunk 1), .switchToFuzzMode, .read 0 (oneChunk 0), .write 0 (oneChunk 2),
    .read 0 (oneChunk 0)]

lemma chunkEvents_request {e : DiskEvent} (he : e ∈ chunkEvents) {offset : ℤ} {qiov : Qiov}
    (h : e = .read offset qiov ∨ e = .write offset qiov) : offset = 0 ∧ qiov.size = CHUNK_SIZE := by
  simp only [chunkEvents, List.mem_cons, List.not_mem_nil, or_false] at he
  rcases he with rfl | rfl | rfl | rfl | rfl <;> rcases h with h | h <;> cases h <;> exact ⟨rfl, rfl⟩

theorem cowDisk_readsLastWrite_chunks :
    ReadsLastWrite smallDisk false (fun _ => 7) chunkEvents := by
  have haligned : Aligned chunkEvents := by
    apply aligned_of_chunks
    intro e he offset qiov h
    obtain ⟨rfl, hsize⟩ := chunkEvents_request he h
    rw [hsize]
    decide
  have hpass : ∀ e ∈ chunkEvents, e.Passes smallDisk := by
    intro e he
    cases e with
    | read offset qiov =>
      obtain ⟨rfl, hsize⟩ := chunkEvents_request he (.inl rfl)
      rw [DiskEvent.Passes, hsize]
      decide
    | write offset qiov =>
      obtain ⟨rfl, hsize⟩ := chunkEvents_request he (.inr rfl)
      rw [DiskEvent.Passes, hsize]
      decide
    | switchToFuzzMode => trivial
    | cowCacheReset => trivial
  have hok : ((performAll smallDisk chunkEvents).run (freshState (fun _ => 7) false)).1 = .ok () := by
    decide +kernel
  exact (cowDisk_readsLastWrite_iff smallDisk false (fun _ => 7) chunkEvents _ hpass
    (Prod.ext hok rfl) (by decide +kernel)).mpr haligned _ _ rfl

def sectorEvents : List DiskEvent := [.write 0 ⟨512, fun _ => 1⟩, .read 0 ⟨512, fun _ => 0⟩]

theorem cowDisk_loses_sector :
    (∀ e ∈ sectorEvents, e.Passes smallDisk) ∧
      ((performAll smallDisk sectorEvents).run (freshState (fun _ => 0) false)).1 = .ok () ∧
      ((performAll smallDisk sectorEvents).run (freshState (fun _ => 0) false)).2.cowCacheFull = false ∧
      ¬ReadsLastWrite smallDisk false (fun _ => 0) sectorEvents := by
  refine ⟨?_, by decide +kernel, by decide +kernel, ?_⟩
  · intro e he
    simp only [sectorEvents, List.mem_cons, List.not_mem_nil, or_false] at he
    rcases he with rfl | rfl
    · show 0 ≤ smallDisk.blkCheckByteRequest 0 512
      decide
    · show 0 ≤ smallDisk.blkCheckByteRequest 0 512
      decide
  · intro h
    have hbyte := h [.write 0 ⟨512, fun _ => 1⟩] 0 ⟨512, fun _ => 0⟩ [] rfl 0 (by decide)
    exact absurd hbyte (by decide +kernel)

end Nyx.BlockCow
