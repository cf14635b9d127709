import Mathlib.Algebra.Group.Int.Defs
import Nyx.Lib.Exec
import Nyx.Lib.SlotTable

/-!
# The copy-on-write disk

Writes go to a primary buffer while the machine is set up and to a secondary one while it is fuzzed,
in chunks of 4 KiB found under the offset of the request. A reset forgets the secondary buffer.
-/

namespace Nyx.BlockCow

open Exec (Triple run_bind_ok run_gets_bind run_bind_error bind_assoc)

def CHUNK_SIZE : ℕ := 0x1000

def COW_CACHE_SIZE : ℕ := 0xC0000000

def COW_CACHE_SECONDARY_SIZE : ℕ := 0x20000000

inductive Abort where
  | primaryFull
  | secondaryFull
  | size
  | enabledFuzz
  deriving DecidableEq, Repr

/-- The buffer of a request. -/
structure Qiov where
  size : ℕ
  byte : ℕ → UInt8

/-- The check of the range of a request. -/
structure BlockBackend where
  blkCheckByteRequest : ℤ → ℕ → ℤ
  bounds : ∀ {offset size}, 0 ≤ blkCheckByteRequest offset size →
    0 ≤ offset ∧ offset + size < 2 ^ 63

/-- `cow_cache_t`. The lookup, data and offset of each buffer are one table. -/
structure CowCache where
  primary : SlotTable ℕ UInt8
  secondary : SlotTable ℕ UInt8
  enabledFuzz : Bool

/-- The cache over the image, and the flags it sets. -/
structure CowState where
  cache : CowCache
  image : ℕ → UInt8
  cowCacheFull : Bool
  inFuzzingMode : Bool

abbrev CowM := Exec Abort CowState

def emptyBuffer : SlotTable ℕ UInt8 := ⟨fun _ => none, fun _ => 0, 0⟩

def cowCacheNew : CowCache := ⟨emptyBuffer, emptyBuffer, false⟩

def assert (e : Abort) (c : CowState → Bool) : CowM Unit := fun s =>
  if c s then (.ok (), s) else (.error e, s)

def modifyPrimary (f : SlotTable ℕ UInt8 → SlotTable ℕ UInt8) : CowM Unit :=
  Exec.modify fun s => { s with cache := { s.cache with primary := f s.cache.primary } }

def modifySecondary (f : SlotTable ℕ UInt8 → SlotTable ℕ UInt8) : CowM Unit :=
  Exec.modify fun s => { s with cache := { s.cache with secondary := f s.cache.secondary } }

def switchToFuzzMode : CowM Unit :=
  Exec.modify fun s => { s with cache := { s.cache with enabledFuzz := true } }

/-- A buffer as it is in its files. -/
structure SavedBuffer where
  khash : ℕ → Option ℕ
  pcow : ℕ → UInt8
  size : ℕ

/-- `read_primary_buffer` up to the switch. -/
def loadPrimaryBuffer (file : SavedBuffer) (switchMode : Bool) : CowM Unit := do
  assert .enabledFuzz fun s => !s.cache.enabledFuzz
  modifyPrimary fun t =>
    { lookup := if file.size ≠ 0 then file.khash else fun _ => none
      data := if switchMode then file.pcow else blit t.data 0 file.pcow 0 file.size
      next := file.size }

def cowCacheReset : CowM Unit := Exec.modify fun s =>
  if s.cache.enabledFuzz then
    { s with cache := { s.cache with
      secondary := { s.cache.secondary with lookup := fun _ => none, next := 0 } } }
  else s

/-- `qemu_iovec_from_buf` of the chunk of a key, if the table has it. -/
def readChunk (t : SlotTable ℕ UInt8) (offsetAddr iovOffset : ℕ) (qiov : Qiov) : Qiov :=
  match t.lookup offsetAddr with
  | some o => { qiov with byte := blit qiov.byte iovOffset t.data o CHUNK_SIZE }
  | none => qiov

def readFromPrimaryBuffer (c : CowCache) (offsetAddr iovOffset : ℕ) (qiov : Qiov) : Qiov :=
  readChunk c.primary offsetAddr iovOffset qiov

def readFromSecondaryBuffer (c : CowCache) (offsetAddr iovOffset : ℕ) (qiov : Qiov) : Qiov :=
  if (c.secondary.lookup offsetAddr).isSome then readChunk c.secondary offsetAddr iovOffset qiov
  else readChunk c.primary offsetAddr iovOffset qiov

def readLoop (c : CowCache) : ℕ → ℕ → ℕ → Qiov → Qiov
  | 0, _, _, qiov => qiov
  | n + 1, offsetAddr, iovOffset, qiov =>
    readLoop c n (offsetAddr + CHUNK_SIZE) (iovOffset + CHUNK_SIZE)
      (if c.enabledFuzz then readFromSecondaryBuffer c offsetAddr iovOffset qiov
        else readFromPrimaryBuffer c offsetAddr iovOffset qiov)

def cowCacheRead (c : CowCache) (blk : BlockBackend) (offset : ℤ) (qiov : Qiov) : ℤ × Qiov :=
  if blk.blkCheckByteRequest offset qiov.size < 0 then
    (blk.blkCheckByteRequest offset qiov.size, qiov)
  else if qiov.size % CHUNK_SIZE ≠ 0 then (0, qiov)
  else (qiov.size, readLoop c (qiov.size / CHUNK_SIZE) offset.toNat 0 qiov)

def blkCoPreadv (s : CowState) (blk : BlockBackend) (offset : ℤ) (qiov : Qiov) : ℤ × Qiov :=
  if blk.blkCheckByteRequest offset qiov.size < 0 then
    (blk.blkCheckByteRequest offset qiov.size, qiov)
  else (0, { qiov with byte := fun i => s.image (offset.toNat + i) })

/-- The result of the request is that of the image, its data that of the cache where it has some. -/
def cowCacheReadEntry (s : CowState) (blk : BlockBackend) (offset : ℤ) (qiov : Qiov) : ℤ × Qiov :=
  ((blkCoPreadv s blk offset qiov).1,
    (cowCacheRead s.cache blk offset (blkCoPreadv s blk offset qiov).2).2)

def writeToPrimaryBuffer (offsetAddr iovOffset : ℕ) (qiov : Qiov) : CowM Unit := do
  let k ← Exec.gets fun s => s.cache.primary.lookup offsetAddr
  if k.isNone then do
    modifyPrimary fun t => t.alloc CHUNK_SIZE offsetAddr
    assert .primaryFull fun s => s.cache.primary.next < COW_CACHE_SIZE
    modifyPrimary fun t => t.fill CHUNK_SIZE offsetAddr qiov.byte iovOffset
  else modifyPrimary fun t => t.fill CHUNK_SIZE offsetAddr qiov.byte iovOffset

/-- A new chunk of the secondary buffer starts as a copy of the one in the primary buffer, if there
is one. -/
def copyPage (primary : SlotTable ℕ UInt8) (offsetAddr : ℕ) (t : SlotTable ℕ UInt8) :
    SlotTable ℕ UInt8 :=
  match primary.lookup offsetAddr with
  | some o => (t.alloc CHUNK_SIZE offsetAddr).fill CHUNK_SIZE offsetAddr primary.data o
  | none => t.alloc CHUNK_SIZE offsetAddr

def writeToSecondaryBuffer (offsetAddr iovOffset : ℕ) (qiov : Qiov) : CowM Unit := do
  let c ← Exec.gets CowState.cache
  if COW_CACHE_SECONDARY_SIZE ≤ c.secondary.next then
    Exec.modify fun s => { s with cowCacheFull := true }
  else if (c.secondary.lookup offsetAddr).isNone then do
    modifySecondary (copyPage c.primary offsetAddr)
    assert .secondaryFull fun s => s.cache.secondary.next ≤ COW_CACHE_SECONDARY_SIZE
    modifySecondary fun t => t.fill CHUNK_SIZE offsetAddr qiov.byte iovOffset
  else modifySecondary fun t => t.fill CHUNK_SIZE offsetAddr qiov.byte iovOffset

def writeRound (offsetAddr iovOffset : ℕ) (qiov : Qiov) : CowM Unit := do
  let enabledFuzz ← Exec.gets fun s => s.cache.enabledFuzz
  if enabledFuzz then writeToSecondaryBuffer offsetAddr iovOffset qiov
  else writeToPrimaryBuffer offsetAddr iovOffset qiov

def writeLoop (qiov : Qiov) : ℕ → ℕ → ℕ → CowM Unit
  | 0, _, _ => pure ()
  | n + 1, offsetAddr, iovOffset => do
    writeRound offsetAddr iovOffset qiov
    writeLoop qiov n (offsetAddr + CHUNK_SIZE) (iovOffset + CHUNK_SIZE)

/-- The first check of the size returns, so that the second one never warns. -/
def cowCacheWrite (blk : BlockBackend) (offset : ℤ) (qiov : Qiov) : CowM ℤ :=
  if blk.blkCheckByteRequest offset qiov.size < 0 then
    pure (blk.blkCheckByteRequest offset qiov.size)
  else if qiov.size % CHUNK_SIZE ≠ 0 then pure 0
  else do
    let inFuzzingMode ← Exec.gets CowState.inFuzzingMode
    if qiov.size % CHUNK_SIZE ≠ 0 ∧ inFuzzingMode then do
      Exec.modify fun s => { s with cowCacheFull := true }
      pure 0
    else do
      assert .size fun _ => qiov.size % CHUNK_SIZE = 0
      writeLoop qiov (qiov.size / CHUNK_SIZE) offset.toNat 0
      pure qiov.size

section Runs

variable {s : CowState} {offsetAddr iovOffset : ℕ} {qiov : Qiov}

lemma run_assert {e : Abort} {c : CowState → Bool} (h : c s) :
    (assert e c).run s = (.ok (), s) := if_pos h

lemma run_assert_error {e : Abort} {c : CowState → Bool} (h : ¬c s) :
    (assert e c).run s = (.error e, s) := if_neg h

def CowState.putPrimary (s : CowState) (offsetAddr iovOffset : ℕ) (qiov : Qiov) : CowState :=
  { s with cache := { s.cache with
    primary := s.cache.primary.put CHUNK_SIZE offsetAddr qiov.byte iovOffset } }

def CowState.putSecondary (s : CowState) (offsetAddr iovOffset : ℕ) (qiov : Qiov) : CowState :=
  { s with cache := { s.cache with
    secondary := s.cache.secondary.put CHUNK_SIZE offsetAddr qiov.byte iovOffset } }

lemma run_writeToPrimaryBuffer (s : CowState) (offsetAddr iovOffset : ℕ) (qiov : Qiov) :
    (writeToPrimaryBuffer offsetAddr iovOffset qiov).run s =
      if (s.cache.primary.lookup offsetAddr).isNone ∧
          COW_CACHE_SIZE ≤ s.cache.primary.next + CHUNK_SIZE then
        (.error .primaryFull, { s with cache := { s.cache with
          primary := s.cache.primary.alloc CHUNK_SIZE offsetAddr } })
      else (.ok (), s.putPrimary offsetAddr iovOffset qiov) := by
  rw [writeToPrimaryBuffer, run_gets_bind]
  by_cases hnew : (s.cache.primary.lookup offsetAddr).isNone
  · set s' : CowState := { s with cache := { s.cache with
      primary := s.cache.primary.alloc CHUNK_SIZE offsetAddr } }
    have hmodify : (modifyPrimary fun t => t.alloc CHUNK_SIZE offsetAddr).run s = (.ok (), s') := rfl
    have hnext : s'.cache.primary.next = s.cache.primary.next + CHUNK_SIZE := rfl
    rw [if_pos hnew, run_bind_ok hmodify]
    by_cases hfull : COW_CACHE_SIZE ≤ s.cache.primary.next + CHUNK_SIZE
    · rw [if_pos ⟨hnew, hfull⟩, run_bind_error (run_assert_error _)]
      simpa [hnext] using hfull
    · rw [if_neg fun h => hfull h.2, run_bind_ok (run_assert _)]
      · simp only [modifyPrimary, Exec.run_modify, CowState.putPrimary, SlotTable.put, hnew, s',
          if_true]
      · simpa [hnext] using hfull
  · rw [if_neg hnew, if_neg fun h => hnew h.1]
    simp only [modifyPrimary, Exec.run_modify, CowState.putPrimary, SlotTable.put, hnew]
    rfl

lemma fill_copyPage (primary t : SlotTable ℕ UInt8) (offsetAddr iovOffset : ℕ) (src : ℕ → UInt8) :
    (copyPage primary offsetAddr t).fill CHUNK_SIZE offsetAddr src iovOffset =
      (t.alloc CHUNK_SIZE offsetAddr).fill CHUNK_SIZE offsetAddr src iovOffset := by
  unfold copyPage
  split
  · exact SlotTable.fill_fill _ _ _ _ _ _
  · rfl

lemma next_copyPage (primary t : SlotTable ℕ UInt8) (offsetAddr : ℕ) :
    (copyPage primary offsetAddr t).next = t.next + CHUNK_SIZE := by
  unfold copyPage
  split
  · exact SlotTable.next_fill _ _ _
  · rfl

/-- The used part of the secondary buffer consists of whole chunks. -/
structure WholeChunks (t : SlotTable ℕ UInt8) : Prop where
  mod : t.next % CHUNK_SIZE = 0
  le : t.next ≤ COW_CACHE_SECONDARY_SIZE

lemma WholeChunks.room {t : SlotTable ℕ UInt8} (h : WholeChunks t)
    (hfull : ¬COW_CACHE_SECONDARY_SIZE ≤ t.next) :
    t.next + CHUNK_SIZE ≤ COW_CACHE_SECONDARY_SIZE := by
  have hmod := h.mod
  simp only [CHUNK_SIZE, COW_CACHE_SECONDARY_SIZE] at *
  omega

lemma WholeChunks.put {t : SlotTable ℕ UInt8} (h : WholeChunks t)
    (hfull : ¬COW_CACHE_SECONDARY_SIZE ≤ t.next) (offsetAddr : ℕ) (src : ℕ → UInt8) (start : ℕ) :
    WholeChunks (t.put CHUNK_SIZE offsetAddr src start) := by
  have hmod := h.mod
  have hroom := h.room hfull
  constructor
  · rw [SlotTable.next_put]
    split
    · rw [Nat.add_mod_right]
      exact hmod
    · exact hmod
  · rw [SlotTable.next_put]
    split
    · exact hroom
    · exact h.le

lemma run_writeToSecondaryBuffer (h : WholeChunks s.cache.secondary) (offsetAddr iovOffset : ℕ)
    (qiov : Qiov) : (writeToSecondaryBuffer offsetAddr iovOffset qiov).run s =
      if COW_CACHE_SECONDARY_SIZE ≤ s.cache.secondary.next then (.ok (), { s with cowCacheFull := true })
      else (.ok (), s.putSecondary offsetAddr iovOffset qiov) := by
  rw [writeToSecondaryBuffer, run_gets_bind]
  by_cases hfull : COW_CACHE_SECONDARY_SIZE ≤ s.cache.secondary.next
  · rw [if_pos hfull, if_pos hfull]
    rfl
  rw [if_neg hfull, if_neg hfull]
  by_cases hnew : (s.cache.secondary.lookup offsetAddr).isNone
  · set s' : CowState := { s with cache := { s.cache with
      secondary := copyPage s.cache.primary offsetAddr s.cache.secondary } }
    have hmodify : (modifySecondary (copyPage s.cache.primary offsetAddr)).run s = (.ok (), s') := rfl
    have hnext : s'.cache.secondary.next = s.cache.secondary.next + CHUNK_SIZE := next_copyPage _ _ _
    have hroom := h.room hfull
    rw [if_pos hnew, run_bind_ok hmodify, run_bind_ok (run_assert _)]
    · simp only [modifySecondary, Exec.run_modify, CowState.putSecondary, SlotTable.put, hnew, s',
        fill_copyPage, if_true]
    · simpa [hnext] using hroom
  · rw [if_neg hnew]
    simp only [modifySecondary, Exec.run_modify, CowState.putSecondary, SlotTable.put, hnew]
    rfl

end Runs

lemma run_cowCacheReset {s : CowState} (h : s.cache.enabledFuzz) :
    cowCacheReset.run s = (.ok (), { s with cache := { s.cache with
      secondary := { s.cache.secondary with lookup := fun _ => none, next := 0 } } }) := by
  rw [cowCacheReset, Exec.run_modify, if_pos h]

lemma run_cowCacheReset_idle {s : CowState} (h : s.cache.enabledFuzz = false) :
    cowCacheReset.run s = (.ok (), s) := by
  rw [cowCacheReset, Exec.run_modify, if_neg (by simp [h])]

lemma run_cowCacheWrite (s : CowState) (blk : BlockBackend) (offset : ℤ) (qiov : Qiov) :
    (cowCacheWrite blk offset qiov >>= fun _ => pure ()).run s =
      if 0 ≤ blk.blkCheckByteRequest offset qiov.size ∧ qiov.size % CHUNK_SIZE = 0 then
        (writeLoop qiov (qiov.size / CHUNK_SIZE) offset.toNat 0).run s
      else (.ok (), s) := by
  unfold cowCacheWrite
  by_cases hcheck : blk.blkCheckByteRequest offset qiov.size < 0
  · rw [if_pos hcheck, if_neg fun h => absurd h.1 (by omega)]
    rfl
  by_cases hsize : qiov.size % CHUNK_SIZE = 0
  · have hassert : (assert .size fun _ => qiov.size % CHUNK_SIZE = 0).run s = (.ok (), s) :=
      run_assert (decide_eq_true hsize)
    rw [if_neg hcheck, if_neg (not_not.mpr hsize), if_pos ⟨by omega, hsize⟩, bind_assoc,
      run_gets_bind, if_neg fun h => h.1 hsize, bind_assoc, run_bind_ok hassert,
      bind_assoc]
    rcases hloop : (writeLoop qiov (qiov.size / CHUNK_SIZE) offset.toNat 0).run s with ⟨r, s'⟩
    cases r with
    | ok u =>
      rw [run_bind_ok hloop]
      rfl
    | error e => rw [run_bind_error hloop]
  · rw [if_neg hcheck, if_pos hsize, if_neg fun h => hsize h.2]
    rfl

inductive DiskEvent where
  | read (offset : ℤ) (qiov : Qiov)
  | write (offset : ℤ) (qiov : Qiov)
  | switchToFuzzMode
  | cowCacheReset

def perform (blk : BlockBackend) : DiskEvent → CowM Unit
  | .read _ _ => pure ()
  | .write offset qiov => cowCacheWrite blk offset qiov >>= fun _ => pure ()
  | .switchToFuzzMode => BlockCow.switchToFuzzMode
  | .cowCacheReset => BlockCow.cowCacheReset

def performAll (blk : BlockBackend) (es : List DiskEvent) : CowM Unit := Exec.forEach es (perform blk)

section Invariants

variable {blk : BlockBackend} {I : CowState → Prop} {E : Abort → CowState → Prop} {qiov : Qiov}

section

variable (h : ∀ offsetAddr iovOffset, Triple I (writeRound offsetAddr iovOffset qiov) (fun _ => I) E)
include h

lemma triple_writeLoop (n offsetAddr iovOffset : ℕ) :
    Triple I (writeLoop qiov n offsetAddr iovOffset) (fun _ => I) E := by
  induction n generalizing offsetAddr iovOffset with
  | zero => exact Triple.skip
  | succ n ih => exact Triple.bind (h _ _) fun _ => ih _ _

lemma triple_write (offset : ℤ) : Triple I (perform blk (.write offset qiov)) (fun _ => I) E := by
  intro s hs
  rw [perform, run_cowCacheWrite]
  by_cases hsize : 0 ≤ blk.blkCheckByteRequest offset qiov.size ∧ qiov.size % CHUNK_SIZE = 0
  · rw [if_pos hsize]
    exact triple_writeLoop h _ _ _ s hs
  · rw [if_neg hsize]
    exact hs

end

/-- In fuzz mode the primary buffer and the image are frozen. -/
structure Frozen (primary : SlotTable ℕ UInt8) (image : ℕ → UInt8) (s : CowState) : Prop where
  primary : s.cache.primary = primary
  image : s.image = image
  fuzz : s.cache.enabledFuzz = true
  whole : WholeChunks s.cache.secondary

variable {primary : SlotTable ℕ UInt8} {image : ℕ → UInt8}

lemma frozen_writeRound (offsetAddr iovOffset : ℕ) (qiov : Qiov) :
    Triple (Frozen primary image) (writeRound offsetAddr iovOffset qiov)
      (fun _ => Frozen primary image) (fun _ _ => False) := by
  intro s hs
  rw [writeRound, run_gets_bind, if_pos hs.fuzz, run_writeToSecondaryBuffer hs.whole]
  by_cases hfull : COW_CACHE_SECONDARY_SIZE ≤ s.cache.secondary.next
  · rw [if_pos hfull]
    exact ⟨hs.primary, hs.image, hs.fuzz, hs.whole⟩
  · rw [if_neg hfull]
    exact ⟨hs.primary, hs.image, hs.fuzz, hs.whole.put hfull _ _ _⟩

lemma wholeChunks_zero (t : SlotTable ℕ UInt8) (h : t.next = 0) : WholeChunks t := by
  constructor <;> simp [h]

lemma frozen_perform (e : DiskEvent) :
    Triple (Frozen primary image) (perform blk e) (fun _ => Frozen primary image)
      (fun _ _ => False) := by
  cases e with
  | read offset qiov => exact Triple.skip
  | write offset qiov =>
    apply triple_write
    intro offsetAddr iovOffset
    exact frozen_writeRound offsetAddr iovOffset qiov
  | switchToFuzzMode =>
    apply Triple.modify
    intro s hs
    exact ⟨hs.primary, hs.image, rfl, hs.whole⟩
  | cowCacheReset =>
    apply Triple.modify
    intro s hs
    rw [if_pos hs.fuzz]
    exact ⟨hs.primary, hs.image, hs.fuzz, wholeChunks_zero _ rfl⟩

lemma frozen_performAll (es : List DiskEvent) :
    Triple (Frozen primary image) (performAll blk es) (fun _ => Frozen primary image)
      (fun _ _ => False) :=
  Triple.forEach_const fun e _ => frozen_perform e

/-- Before the switch nothing has touched the secondary buffer. -/
structure SetUp (s : CowState) : Prop where
  fuzz : s.cache.enabledFuzz = false
  secondary : s.cache.secondary = emptyBuffer

lemma setUp_writeRound (offsetAddr iovOffset : ℕ) (qiov : Qiov) :
    Triple SetUp (writeRound offsetAddr iovOffset qiov) (fun _ => SetUp) (fun _ => SetUp) := by
  intro s hs
  have hfuzz : ¬s.cache.enabledFuzz = true := by simp [hs.fuzz]
  rw [writeRound, run_gets_bind, if_neg hfuzz, run_writeToPrimaryBuffer]
  by_cases hfull : (s.cache.primary.lookup offsetAddr).isNone ∧
      COW_CACHE_SIZE ≤ s.cache.primary.next + CHUNK_SIZE
  · rw [if_pos hfull]
    exact ⟨hs.fuzz, hs.secondary⟩
  · rw [if_neg hfull]
    exact ⟨hs.fuzz, hs.secondary⟩

/-- The states of the cache before the switch: from the start of QEMU on, through requests and
through loading a saved primary buffer. -/
inductive Booted (blk : BlockBackend) : CowState → Prop where
  | new (image : ℕ → UInt8) (inFuzzingMode : Bool) :
      Booted blk ⟨cowCacheNew, image, false, inFuzzingMode⟩
  | perform {s s' : CowState} (e : DiskEvent) : Booted blk s → e ≠ .switchToFuzzMode →
      (perform blk e).run s = (.ok (), s') → Booted blk s'
  | load {s s' : CowState} (file : SavedBuffer) (switchMode : Bool) : Booted blk s →
      (loadPrimaryBuffer file switchMode).run s = (.ok (), s') → Booted blk s'

lemma setUp_perform {e : DiskEvent} (he : e ≠ .switchToFuzzMode) :
    Triple SetUp (perform blk e) (fun _ => SetUp) (fun _ => SetUp) := by
  cases e with
  | read offset qiov => exact Triple.skip
  | write offset qiov =>
    apply triple_write
    intro offsetAddr iovOffset
    exact setUp_writeRound offsetAddr iovOffset qiov
  | switchToFuzzMode => exact absurd rfl he
  | cowCacheReset =>
    apply Triple.modify
    intro s hs
    rw [if_neg (by simp [hs.fuzz])]
    exact hs

lemma Booted.setUp {s : CowState} (h : Booted blk s) : SetUp s := by
  induction h with
  | new image inFuzzingMode => exact ⟨rfl, rfl⟩
  | perform e _ he hrun ih => exact (setUp_perform he).ok ih hrun
  | @load s s' file switchMode _ hrun ih =>
    have hassert : (assert .enabledFuzz fun s => !s.cache.enabledFuzz).run s = (.ok (), s) :=
      run_assert (by simp [ih.fuzz])
    rw [loadPrimaryBuffer, run_bind_ok hassert] at hrun
    cases hrun
    exact ⟨ih.fuzz, ih.secondary⟩

end Invariants

def afterSwitch (blk : BlockBackend) (s : CowState) (es : List DiskEvent) :
    Except Abort Unit × CowState :=
  (performAll blk (.switchToFuzzMode :: es)).run s

lemma cowCacheReadEntry_congr {s s' : CowState} (himage : s.image = s'.image)
    (hprimary : s.cache.primary = s'.cache.primary)
    (hfuzz : s.cache.enabledFuzz = s'.cache.enabledFuzz)
    (hempty : ∀ k, s.cache.secondary.lookup k = none)
    (hempty' : ∀ k, s'.cache.secondary.lookup k = none) (blk : BlockBackend) (offset : ℤ)
    (qiov : Qiov) : cowCacheReadEntry s blk offset qiov = cowCacheReadEntry s' blk offset qiov := by
  have hround : ∀ a io q,
      readFromSecondaryBuffer s.cache a io q = readFromSecondaryBuffer s'.cache a io q := by
    intro a io q
    simp [readFromSecondaryBuffer, hempty, hempty', hprimary]
  have hloop : ∀ n a io q, readLoop s.cache n a io q = readLoop s'.cache n a io q := by
    intro n
    induction n with
    | zero => intro a io q; rfl
    | succ n ih =>
      intro a io q
      simp only [readLoop, hfuzz, hround, readFromPrimaryBuffer, hprimary, ih]
  have hread : ∀ q, cowCacheRead s.cache blk offset q = cowCacheRead s'.cache blk offset q := by
    intro q
    simp only [cowCacheRead, hloop]
  have hpreadv : blkCoPreadv s blk offset qiov = blkCoPreadv s' blk offset qiov := by
    simp only [blkCoPreadv, himage]
  rw [cowCacheReadEntry, cowCacheReadEntry, hpreadv, hread]

lemma run_switchToFuzzMode {s : CowState} (hs : SetUp s) :
    ∃ s', BlockCow.switchToFuzzMode.run s = (.ok (), s') ∧ Frozen s.cache.primary s.image s' ∧
      ∀ k, s'.cache.secondary.lookup k = none := by
  refine ⟨_, rfl, ⟨rfl, rfl, rfl, wholeChunks_zero _ ?_⟩, fun k => ?_⟩
  · rw [hs.secondary]
    rfl
  · rw [hs.secondary]
    rfl

lemma frozen_afterSwitch (blk : BlockBackend) {s : CowState} (hs : SetUp s) (es : List DiskEvent) :
    (afterSwitch blk s es).1 = .ok () ∧ Frozen s.cache.primary s.image (afterSwitch blk s es).2 := by
  obtain ⟨s₀, hswitch, hfrozen, -⟩ := run_switchToFuzzMode hs
  have hrun : afterSwitch blk s es = (performAll blk es).run s₀ := run_bind_ok hswitch
  have hall := @frozen_performAll blk _ _ es s₀ hfrozen
  rw [hrun]
  rcases hr : (performAll blk es).run s₀ with ⟨r, s'⟩
  rw [hr] at hall
  cases r with
  | ok u => exact ⟨rfl, hall⟩
  | error e => exact hall.elim

lemma performAll_append (blk : BlockBackend) (es es' : List DiskEvent) :
    performAll blk (es ++ es') = (performAll blk es >>= fun _ => performAll blk es') :=
  Exec.forEach_append es es' (perform blk)

/-- After the switch the primary buffer and the image stay as they were, and after every reset each
read gives what it gave right after the switch. -/
theorem cowCache_isolated (blk : BlockBackend) {s : CowState} (hs : Booted blk s)
    (es : List DiskEvent) :
    (afterSwitch blk s es).1 = .ok () ∧ (afterSwitch blk s es).2.cache.primary = s.cache.primary ∧
      (afterSwitch blk s es).2.image = s.image ∧
      ∀ offset qiov,
        cowCacheReadEntry (afterSwitch blk s (es ++ [.cowCacheReset])).2 blk offset qiov =
          cowCacheReadEntry (afterSwitch blk s []).2 blk offset qiov := by
  obtain ⟨hok, hfrozen⟩ := frozen_afterSwitch blk hs.setUp es
  refine ⟨hok, hfrozen.primary, hfrozen.image, ?_⟩
  obtain ⟨s₀, hswitch, hfrozen₀, hempty₀⟩ := run_switchToFuzzMode hs.setUp
  have hnil : afterSwitch blk s [] = (.ok (), s₀) := run_bind_ok hswitch
  have hrun : (performAll blk (.switchToFuzzMode :: es)).run s = (.ok (), (afterSwitch blk s es).2) :=
    Prod.ext hok rfl
  have hreset : afterSwitch blk s (es ++ [.cowCacheReset]) =
      (performAll blk [.cowCacheReset]).run (afterSwitch blk s es).2 := by
    rw [afterSwitch, ← List.cons_append, performAll_append, run_bind_ok hrun]
  set s₁ := (afterSwitch blk s es).2
  have hafter : (performAll blk [.cowCacheReset]).run s₁ = (.ok (), { s₁ with cache := { s₁.cache with
      secondary := { s₁.cache.secondary with lookup := fun _ => none, next := 0 } } }) :=
    run_bind_ok (run_cowCacheReset hfrozen.fuzz)
  intro offset qiov
  rw [hreset, hafter, hnil]
  apply cowCacheReadEntry_congr
  · exact hfrozen.image.trans hfrozen₀.image.symm
  · exact hfrozen.primary.trans hfrozen₀.primary.symm
  · exact hfrozen.fuzz.trans hfrozen₀.fuzz.symm
  · intro k
    rfl
  · exact hempty₀

def smallDisk : BlockBackend where
  blkCheckByteRequest offset size := if 0 ≤ offset ∧ offset + size ≤ 0x4000 then 0 else -5
  bounds {offset size} h := by
    split at h
    · omega
    · omega

def oneChunk (b : UInt8) : Qiov := ⟨0x1000, fun _ => b⟩

def bootState : CowState :=
  ((perform smallDisk (.write 0 (oneChunk 1))).run ⟨cowCacheNew, fun _ => 0, false, false⟩).2

theorem cowCache_isolated_oneChunk :
    (cowCacheReadEntry (afterSwitch smallDisk bootState ([.write 0 (oneChunk 2)] ++ [.cowCacheReset])).2
      smallDisk 0 (oneChunk 0)).2.byte 5 = 1 := by
  have hok : ((perform smallDisk (.write 0 (oneChunk 1))).run
      ⟨cowCacheNew, fun _ => 0, false, false⟩).1 = .ok () := by decide +kernel
  have hboot : Booted smallDisk bootState :=
    .perform (.write 0 (oneChunk 1)) (.new _ _) (by simp) (Prod.ext hok rfl)
  rw [(cowCache_isolated smallDisk hboot [.write 0 (oneChunk 2)]).2.2.2 0 (oneChunk 0)]
  decide +kernel

end Nyx.BlockCow
