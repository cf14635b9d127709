import Nyx.Lib.Simulation
import Nyx.Qemu.BlockCow
import Nyx.Qemu.KhashMap

/-!
# The copy-on-write disk with its hash tables

Each buffer of the cache finds its chunks through a hash table. The requests do what those of
`Nyx.BlockCow` do on the slots that the tables describe, and every search and insertion ends.
-/

namespace Nyx.CowKhash

open Exec (Simulates run_bind_ok run_gets_bind run_unwrap_bind)

open Function

open BlockCow (CHUNK_SIZE COW_CACHE_SIZE COW_CACHE_SECONDARY_SIZE Abort Qiov BlockBackend CowState
  DiskEvent)

def khInt64HashFunc (key : UInt64) : ℕ := (key >>> 33 ^^^ key ^^^ key <<< 11).toNat % 2 ^ 32

/-- A buffer of chunks and the table of their offsets. -/
structure Buffer where
  lookup : Khash UInt64 UInt64
  data : ℕ → UInt8
  offset : ℕ

/-- `cow_cache_t`. -/
structure CowCache where
  primary : Buffer
  secondary : Buffer
  filename : String
  enabledFuzz : Bool

/-- The cache over the image, in one process. -/
structure Process where
  cache : CowCache
  image : ℕ → UInt8
  cowCacheFull : Bool
  inFuzzingMode : Bool

/-- A failed `assert`, a loop that does not end, or a file that cannot be read. -/
inductive Fault where
  | abort (e : Abort)
  | hang
  | file

abbrev CowM := Exec Fault Process

/-- What the allocator hands out: the cells that `krealloc` adds to the arrays of a table. -/
structure Memory where
  keys : ℕ → UInt64
  vals : ℕ → UInt64

def newBuffer (m : Memory) : Buffer := ⟨khInit m.keys m.vals, fun _ => 0, 0⟩

def cowCacheNew (m m' : Memory) (filename : String) : CowCache :=
  ⟨newBuffer m, newBuffer m', filename, false⟩

namespace Buffer

def get (b : Buffer) (offsetAddr : ℕ) : Option ℕ :=
  khGet khInt64HashFunc b.lookup (UInt64.ofNat offsetAddr)

def khEnd (b : Buffer) : ℕ := b.lookup.nBuckets

def value (b : Buffer) (k : ℕ) : ℕ := (b.lookup.vals k).toNat

def create (b : Buffer) (offsetAddr : ℕ) : Option (Buffer × ℕ) := do
  let (h, k, _) ← khPut khInt64HashFunc b.lookup (UInt64.ofNat offsetAddr)
  some ({ b with
    lookup := h.setValue k (UInt64.ofNat b.offset)
    offset := b.offset + CHUNK_SIZE }, k)

def write (b : Buffer) (k : ℕ) (src : ℕ → UInt8) (start : ℕ) : Buffer :=
  { b with data := blit b.data (b.value k) src start CHUNK_SIZE }

def read (b : Buffer) (k iovOffset : ℕ) (qiov : Qiov) : Qiov :=
  { qiov with byte := blit qiov.byte iovOffset b.data (b.value k) CHUNK_SIZE }

end Buffer

def readFromPrimaryBuffer (c : CowCache) (offsetAddr iovOffset : ℕ) (qiov : Qiov) : Option Qiov := do
  let k ← c.primary.get offsetAddr
  if k ≠ c.primary.khEnd then some (c.primary.read k iovOffset qiov) else some qiov

def readFromSecondaryBuffer (c : CowCache) (offsetAddr iovOffset : ℕ) (qiov : Qiov) :
    Option Qiov := do
  let k ← c.secondary.get offsetAddr
  if k ≠ c.secondary.khEnd then some (c.secondary.read k iovOffset qiov)
  else do
    let k ← c.primary.get offsetAddr
    if k ≠ c.primary.khEnd then some (c.primary.read k iovOffset qiov) else some qiov

def readRound (c : CowCache) (offsetAddr iovOffset : ℕ) (qiov : Qiov) : Option Qiov :=
  if c.enabledFuzz then readFromSecondaryBuffer c offsetAddr iovOffset qiov
  else readFromPrimaryBuffer c offsetAddr iovOffset qiov

def readLoop (c : CowCache) : ℕ → ℕ → ℕ → Qiov → Option Qiov
  | 0, _, _, qiov => some qiov
  | n + 1, offsetAddr, iovOffset, qiov => do
    let qiov ← readRound c offsetAddr iovOffset qiov
    readLoop c n (offsetAddr + CHUNK_SIZE) (iovOffset + CHUNK_SIZE) qiov

def cowCacheRead (c : CowCache) (blk : BlockBackend) (offset : ℤ) (qiov : Qiov) :
    Option (ℤ × Qiov) :=
  if blk.blkCheckByteRequest offset qiov.size < 0 then
    some (blk.blkCheckByteRequest offset qiov.size, qiov)
  else if qiov.size % CHUNK_SIZE ≠ 0 then some (0, qiov)
  else (readLoop c (qiov.size / CHUNK_SIZE) offset.toNat 0 qiov).map fun q => (qiov.size, q)

def blkCoPreadv (image : ℕ → UInt8) (blk : BlockBackend) (offset : ℤ) (qiov : Qiov) : ℤ × Qiov :=
  if blk.blkCheckByteRequest offset qiov.size < 0 then
    (blk.blkCheckByteRequest offset qiov.size, qiov)
  else (0, { qiov with byte := fun i => image (offset.toNat + i) })

def cowCacheReadEntry (blk : BlockBackend) (offset : ℤ) (qiov : Qiov) : CowM (ℤ × Qiov) := do
  let image ← Exec.gets fun s => s.image
  let c ← Exec.gets fun s => s.cache
  let r ← Exec.unwrap .hang (cowCacheRead c blk offset (blkCoPreadv image blk offset qiov).2)
  pure ((blkCoPreadv image blk offset qiov).1, r.2)

def assert (e : Abort) (c : Bool) : CowM Unit := if c then pure () else Exec.panic (.abort e)

def setPrimary (b : Buffer) : CowM Unit :=
  Exec.modify fun s => { s with cache := { s.cache with primary := b } }

def setSecondary (b : Buffer) : CowM Unit :=
  Exec.modify fun s => { s with cache := { s.cache with secondary := b } }

def writeToPrimaryBuffer (offsetAddr iovOffset : ℕ) (qiov : Qiov) : CowM Unit := do
  let b ← Exec.gets fun s => s.cache.primary
  let k ← Exec.unwrap .hang (b.get offsetAddr)
  if k = b.khEnd then do
    let (b, k) ← Exec.unwrap .hang (b.create offsetAddr)
    setPrimary b
    assert .primaryFull (b.offset < COW_CACHE_SIZE)
    setPrimary (b.write k qiov.byte iovOffset)
  else setPrimary (b.write k qiov.byte iovOffset)

/-- The copy of a page that the primary buffer has, into the new one. -/
def copyPage (primary : Buffer) (kPrimary : ℕ) (b : Buffer) (k : ℕ) : Buffer :=
  if kPrimary ≠ primary.khEnd then b.write k primary.data (primary.value kPrimary) else b

def writeToSecondaryBuffer (offsetAddr iovOffset : ℕ) (qiov : Qiov) : CowM Unit := do
  let c ← Exec.gets fun s => s.cache
  let kPrimary ← Exec.unwrap .hang (c.primary.get offsetAddr)
  let kSecondary ← Exec.unwrap .hang (c.secondary.get offsetAddr)
  if COW_CACHE_SECONDARY_SIZE ≤ c.secondary.offset then
    Exec.modify fun s => { s with cowCacheFull := true }
  else if kSecondary = c.secondary.khEnd then do
    let (b, k) ← Exec.unwrap .hang (c.secondary.create offsetAddr)
    setSecondary (copyPage c.primary kPrimary b k)
    assert .secondaryFull (b.offset ≤ COW_CACHE_SECONDARY_SIZE)
    setSecondary ((copyPage c.primary kPrimary b k).write k qiov.byte iovOffset)
  else setSecondary (c.secondary.write kSecondary qiov.byte iovOffset)

def writeRound (offsetAddr iovOffset : ℕ) (qiov : Qiov) : CowM Unit := do
  let enabledFuzz ← Exec.gets fun s => s.cache.enabledFuzz
  if enabledFuzz then writeToSecondaryBuffer offsetAddr iovOffset qiov
  else writeToPrimaryBuffer offsetAddr iovOffset qiov

def writeLoop (qiov : Qiov) : ℕ → ℕ → ℕ → CowM Unit
  | 0, _, _ => pure ()
  | n + 1, offsetAddr, iovOffset => do
    writeRound offsetAddr iovOffset qiov
    writeLoop qiov n (offsetAddr + CHUNK_SIZE) (iovOffset + CHUNK_SIZE)

def cowCacheWrite (blk : BlockBackend) (offset : ℤ) (qiov : Qiov) : CowM ℤ :=
  if blk.blkCheckByteRequest offset qiov.size < 0 then
    pure (blk.blkCheckByteRequest offset qiov.size)
  else if qiov.size % CHUNK_SIZE ≠ 0 then pure 0
  else do
    let inFuzzingMode ← Exec.gets fun s => s.inFuzzingMode
    if qiov.size % CHUNK_SIZE ≠ 0 ∧ inFuzzingMode then do
      Exec.modify fun s => { s with cowCacheFull := true }
      pure 0
    else do
      assert .size (qiov.size % CHUNK_SIZE = 0)
      writeLoop qiov (qiov.size / CHUNK_SIZE) offset.toNat 0
      pure qiov.size

def switchToFuzzMode : CowM Unit :=
  Exec.modify fun s => { s with cache := { s.cache with enabledFuzz := true } }

def cowCacheReset : CowM Unit := Exec.modify fun s =>
  if s.cache.enabledFuzz then
    { s with cache := { s.cache with
      secondary := { s.cache.secondary with lookup := khClear s.cache.secondary.lookup, offset := 0 } } }
  else s

section Buffers

def Buffer.table (b : Buffer) : SlotTable ℕ UInt8 where
  lookup a := if a < 2 ^ 64 then (b.lookup.table.find (UInt64.ofNat a)).map UInt64.toNat else none
  data := b.data
  next := b.offset

/-- The table has one key for each chunk that is in use. -/
structure Buffer.Valid (limit : ℕ) (b : Buffer) : Prop where
  lookup : b.lookup.Valid khInt64HashFunc
  chunks : b.lookup.size * CHUNK_SIZE = b.offset
  le : b.offset ≤ limit
  buckets : b.lookup.nBuckets ≤ 2 ^ 22

variable {b : Buffer} {limit offsetAddr k : ℕ}

lemma Buffer.get_spec (hb : b.Valid limit) (ha : offsetAddr < 2 ^ 64) :
    ∃ k, b.get offsetAddr = some k ∧
      (k = b.khEnd ∧ b.table.lookup offsetAddr = none ∨
        k ≠ b.khEnd ∧ b.table.lookup offsetAddr = some (b.value k)) := by
  obtain ⟨k, hget, hcases⟩ := khGet_spec hb.lookup (UInt64.ofNat offsetAddr)
  have hlookup : b.table.lookup offsetAddr =
      (b.lookup.table.find (UInt64.ofNat offsetAddr)).map UInt64.toNat := if_pos ha
  refine ⟨k, hget, ?_⟩
  rw [hlookup]
  rcases hcases with ⟨hend, hnone⟩ | ⟨hlt, hsome⟩
  · exact .inl ⟨hend, by rw [hnone]; rfl⟩
  · exact .inr ⟨hlt.ne, by rw [hsome]; rfl⟩

lemma Buffer.create_spec (hb : b.Valid limit) (hlimit : limit ≤ COW_CACHE_SIZE)
    (ha : offsetAddr < 2 ^ 64) (hnone : b.table.lookup offsetAddr = none) :
    ∃ b' k, b.create offsetAddr = some (b', k) ∧ b'.table = b.table.alloc CHUNK_SIZE offsetAddr ∧
      b'.table.lookup offsetAddr = some (b'.value k) ∧
      (b.offset + CHUNK_SIZE ≤ limit → b'.Valid limit) := by
  have hlookup : b.table.lookup offsetAddr =
      (b.lookup.table.find (UInt64.ofNat offsetAddr)).map UInt64.toNat := if_pos ha
  have hfind : b.lookup.table.find (UInt64.ofNat offsetAddr) = none := by
    rwa [hlookup, Option.map_eq_none_iff] at hnone
  have hbuckets := hb.buckets
  have hchunks := hb.chunks
  have hle := hb.le
  obtain ⟨h, k, ret, hput, hspec⟩ := khPut_spec hb.lookup (by omega) hfind
  obtain ⟨hvalid, hupdate, hsize, hn⟩ := hspec (UInt64.ofNat b.offset)
  simp only [CHUNK_SIZE, COW_CACHE_SIZE] at hchunks hlimit
  have hlt64 : b.offset < 2 ^ 64 := by omega
  have hoffset : (UInt64.ofNat b.offset).toNat = b.offset := UInt64.toNat_ofNat_of_lt' hlt64
  have hvalue : ((h.setValue k (UInt64.ofNat b.offset)).vals k).toNat = b.offset := by
    show (update h.vals k (UInt64.ofNat b.offset) k).toNat = b.offset
    rw [update_self, hoffset]
  set b' : Buffer := { b with
    lookup := h.setValue k (UInt64.ofNat b.offset)
    offset := b.offset + CHUNK_SIZE }
  have htable : b'.table = b.table.alloc CHUNK_SIZE offsetAddr := by
    have hslots : b'.table.lookup = update b.table.lookup offsetAddr (some b.offset) := by
      funext a
      show (if a < 2 ^ 64 then _ else none) = _
      by_cases hlt : a < 2 ^ 64
      · rw [if_pos hlt, hupdate]
        by_cases heq : a = offsetAddr
        · rw [heq, update_self, update_self, Option.map_some, hoffset]
        · have hne : UInt64.ofNat a ≠ UInt64.ofNat offsetAddr := by
            intro hcoll
            apply heq
            rw [← UInt64.toNat_ofNat_of_lt' hlt, hcoll, UInt64.toNat_ofNat_of_lt' ha]
          rw [update_of_ne hne, update_of_ne heq]
          exact (if_pos hlt).symm
      · have hne : a ≠ offsetAddr := by omega
        rw [if_neg hlt, update_of_ne hne]
        exact (if_neg hlt).symm
    show SlotTable.mk b'.table.lookup b.data (b.offset + CHUNK_SIZE) = _
    rw [hslots]
    rfl
  refine ⟨b', k, by rw [Buffer.create, hput]; rfl, htable, ?_, fun hroom => ⟨hvalid, ?_, hroom, ?_⟩⟩
  · rw [htable, SlotTable.lookup_alloc_self]
    exact congrArg some hvalue.symm
  · rw [hsize, Nat.add_mul, Nat.one_mul, hb.chunks]
  · refine hn.trans ?_
    omega

lemma Buffer.table_write (hk : b.table.lookup offsetAddr = some (b.value k)) (src : ℕ → UInt8)
    (start : ℕ) : (b.write k src start).table = b.table.fill CHUNK_SIZE offsetAddr src start := by
  rw [SlotTable.fill, hk]
  rfl

lemma Buffer.Valid.write (hb : b.Valid limit) (k : ℕ) (src : ℕ → UInt8) (start : ℕ) :
    (b.write k src start).Valid limit := ⟨hb.lookup, hb.chunks, hb.le, hb.buckets⟩

lemma Buffer.read_eq (hk : b.table.lookup offsetAddr = some (b.value k)) (iovOffset : ℕ)
    (qiov : Qiov) : b.read k iovOffset qiov = BlockCow.readChunk b.table offsetAddr iovOffset qiov := by
  rw [BlockCow.readChunk, hk]
  rfl

lemma newBuffer_spec (m : Memory) (limit : ℕ) :
    (newBuffer m).table = BlockCow.emptyBuffer ∧ (newBuffer m).Valid limit := by
  obtain ⟨hvalid, hfind⟩ := khInit_spec khInt64HashFunc m.keys m.vals
  have hlookup : (newBuffer m).table.lookup = fun _ => none := by
    funext a
    show (if a < 2 ^ 64 then _ else none) = none
    split <;> rfl
  constructor
  · rw [BlockCow.emptyBuffer, ← hlookup]
    rfl
  · exact ⟨hvalid, Nat.zero_mul CHUNK_SIZE, Nat.zero_le limit, Nat.zero_le _⟩

end Buffers

/-- The state of `Nyx.BlockCow` that a process is in. No request depends on `in_fuzzing_mode`. -/
def Process.state (s : Process) : CowState where
  cache := ⟨s.cache.primary.table, s.cache.secondary.table, s.cache.enabledFuzz⟩
  image := s.image
  cowCacheFull := s.cowCacheFull
  inFuzzingMode := false

/-- Both tables are valid. -/
structure Process.Valid (s : Process) : Prop where
  primary : s.cache.primary.Valid COW_CACHE_SIZE
  secondary : s.cache.secondary.Valid COW_CACHE_SECONDARY_SIZE

/-- A computation on processes that does what another one does on the states they are in. -/
def Refines {α : Type} (m : CowM α) (m' : BlockCow.CowM α) : Prop :=
  Simulates Process.Valid Process.state Fault.abort m m'

section Refinement

variable {s : Process} {offsetAddr : ℕ}

lemma run_assert {e : Abort} {c : Bool} (h : c) (s : Process) :
    (assert e c).run s = (.ok (), s) := by
  rw [assert, if_pos h]
  rfl

lemma run_assert_error {e : Abort} {c : Bool} (h : c = false) (s : Process) :
    (assert e c).run s = (.error (.abort e), s) := by
  rw [assert, if_neg (by simp [h])]
  rfl

lemma refines_writeToPrimaryBuffer (ha : offsetAddr < 2 ^ 64) (iovOffset : ℕ) (qiov : Qiov) :
    Refines (writeToPrimaryBuffer offsetAddr iovOffset qiov)
      (BlockCow.writeToPrimaryBuffer offsetAddr iovOffset qiov) := by
  intro s hs
  rw [BlockCow.run_writeToPrimaryBuffer]
  obtain ⟨k, hget, ⟨hend, hnone⟩ | ⟨hne, hsome⟩⟩ := Buffer.get_spec hs.primary ha
  · -- a new page
    obtain ⟨b, k', hcreate, htable, hslot, hvalid⟩ := Buffer.create_spec hs.primary le_rfl ha hnone
    have hoffset : b.offset = s.cache.primary.offset + CHUNK_SIZE := congrArg SlotTable.next htable
    have hnone' : (s.state.cache.primary.lookup offsetAddr).isNone = true :=
      Option.isNone_iff_eq_none.mpr hnone
    have hrun : (writeToPrimaryBuffer offsetAddr iovOffset qiov).run s =
        (do assert .primaryFull (b.offset < COW_CACHE_SIZE)
            setPrimary (b.write k' qiov.byte iovOffset)).run
          { s with cache := { s.cache with primary := b } } := by
      rw [writeToPrimaryBuffer, run_gets_bind, run_unwrap_bind hget, if_pos hend,
        run_unwrap_bind hcreate]
      rfl
    by_cases hfull : COW_CACHE_SIZE ≤ s.cache.primary.offset + CHUNK_SIZE
    · rw [if_pos ⟨hnone', hfull⟩, hrun]
      refine ⟨_, Exec.run_bind_error (run_assert_error ?_ _)⟩
      rw [hoffset, decide_eq_false_iff_not]
      exact Nat.not_lt.mpr hfull
    · have hput : (b.write k' qiov.byte iovOffset).table =
          s.cache.primary.table.put CHUNK_SIZE offsetAddr qiov.byte iovOffset := by
        rw [Buffer.table_write hslot, htable, SlotTable.put_of_none hnone]
      rw [if_neg fun h => hfull h.2, hrun, run_bind_ok (run_assert _ _)]
      · refine ⟨_, rfl, ?_, (hvalid (by omega)).write _ _ _, hs.secondary⟩
        rw [BlockCow.CowState.putPrimary, Process.state, hput]
        rfl
      · rw [hoffset, decide_eq_true_iff]
        exact Nat.lt_of_not_le hfull
  · have hnone' : ¬(s.state.cache.primary.lookup offsetAddr).isNone = true := by
      have hlookup : s.state.cache.primary.lookup offsetAddr = _ := hsome
      rw [hlookup]
      simp
    have hput : (s.cache.primary.write k qiov.byte iovOffset).table =
        s.cache.primary.table.put CHUNK_SIZE offsetAddr qiov.byte iovOffset := by
      rw [Buffer.table_write hsome, SlotTable.put_of_some hsome]
    rw [if_neg fun h => hnone' h.1, writeToPrimaryBuffer, run_gets_bind,
      run_unwrap_bind hget, if_neg hne]
    refine ⟨_, rfl, ?_, hs.primary.write _ _ _, hs.secondary⟩
    rw [BlockCow.CowState.putPrimary, Process.state, hput]
    rfl

lemma valid_copyPage {p b : Buffer} {kPrimary k limit : ℕ} (hb : b.Valid limit) :
    (copyPage p kPrimary b k).Valid limit := by
  unfold copyPage
  split
  · exact hb.write _ _ _
  · exact hb

lemma table_write_copyPage {p b : Buffer} {kPrimary k : ℕ}
    (hslot : b.table.lookup offsetAddr = some (b.value k)) (src : ℕ → UInt8) (start : ℕ) :
    ((copyPage p kPrimary b k).write k src start).table =
      b.table.fill CHUNK_SIZE offsetAddr src start := by
  unfold copyPage
  split
  · rw [Buffer.table_write (b := b.write _ _ _) hslot, Buffer.table_write hslot, SlotTable.fill_fill]
  · rw [Buffer.table_write hslot]

lemma Process.Valid.wholeChunks (hs : s.Valid) : BlockCow.WholeChunks s.state.cache.secondary := by
  refine ⟨?_, hs.secondary.le⟩
  show s.cache.secondary.offset % CHUNK_SIZE = 0
  rw [← hs.secondary.chunks]
  exact Nat.mul_mod_left _ _

lemma refines_writeToSecondaryBuffer (ha : offsetAddr < 2 ^ 64) (iovOffset : ℕ) (qiov : Qiov) :
    Refines (writeToSecondaryBuffer offsetAddr iovOffset qiov)
      (BlockCow.writeToSecondaryBuffer offsetAddr iovOffset qiov) := by
  intro s hs
  have hsize : COW_CACHE_SECONDARY_SIZE ≤ COW_CACHE_SIZE := by decide
  obtain ⟨kp, hprimary, -⟩ := Buffer.get_spec hs.primary ha
  obtain ⟨k, hget, hcases⟩ := Buffer.get_spec hs.secondary ha
  rw [BlockCow.run_writeToSecondaryBuffer hs.wholeChunks, writeToSecondaryBuffer, run_gets_bind,
    run_unwrap_bind hprimary, run_unwrap_bind hget]
  by_cases hfull : COW_CACHE_SECONDARY_SIZE ≤ s.cache.secondary.offset
  · rw [if_pos hfull]
    have hfull' : COW_CACHE_SECONDARY_SIZE ≤ s.state.cache.secondary.next := hfull
    rw [if_pos hfull']
    exact ⟨_, rfl, rfl, hs.primary, hs.secondary⟩
  have hfull' : ¬COW_CACHE_SECONDARY_SIZE ≤ s.state.cache.secondary.next := hfull
  have hroom : s.cache.secondary.offset + CHUNK_SIZE ≤ COW_CACHE_SECONDARY_SIZE :=
    hs.wholeChunks.room hfull'
  rw [if_neg hfull, if_neg hfull']
  rcases hcases with ⟨hend, hnone⟩ | ⟨hne, hsome⟩
  · -- a new page
    obtain ⟨b, k', hcreate, htable, hslot, hvalid⟩ := Buffer.create_spec hs.secondary hsize ha hnone
    have hcopy : (copyPage s.cache.primary kp b k').Valid COW_CACHE_SECONDARY_SIZE :=
      valid_copyPage (hvalid hroom)
    have hput : ((copyPage s.cache.primary kp b k').write k' qiov.byte iovOffset).table =
        s.cache.secondary.table.put CHUNK_SIZE offsetAddr qiov.byte iovOffset := by
      rw [table_write_copyPage hslot, htable, SlotTable.put_of_none hnone]
    have hoffset : b.offset = s.cache.secondary.offset + CHUNK_SIZE := congrArg SlotTable.next htable
    rw [if_pos hend, run_unwrap_bind hcreate]
    simp only [setSecondary]
    rw [Exec.run_modify_bind, run_bind_ok (run_assert _ _)]
    · refine ⟨_, rfl, ?_, hs.primary, hcopy.write _ _ _⟩
      rw [BlockCow.CowState.putSecondary, Process.state, hput]
      rfl
    · rw [hoffset, decide_eq_true_iff]
      exact hroom
  · have hput : (s.cache.secondary.write k qiov.byte iovOffset).table =
        s.cache.secondary.table.put CHUNK_SIZE offsetAddr qiov.byte iovOffset := by
      rw [Buffer.table_write hsome, SlotTable.put_of_some hsome]
    rw [if_neg hne]
    refine ⟨_, rfl, ?_, hs.primary, hs.secondary.write _ _ _⟩
    rw [BlockCow.CowState.putSecondary, Process.state, hput]
    rfl

lemma refines_writeRound (ha : offsetAddr < 2 ^ 64) (iovOffset : ℕ) (qiov : Qiov) :
    Refines (writeRound offsetAddr iovOffset qiov) (BlockCow.writeRound offsetAddr iovOffset qiov) := by
  refine Simulates.bind (Simulates.gets fun _ _ => rfl) fun enabledFuzz => ?_
  exact Simulates.ite (refines_writeToSecondaryBuffer ha iovOffset qiov)
    (refines_writeToPrimaryBuffer ha iovOffset qiov)

lemma refines_writeLoop (qiov : Qiov) (n : ℕ) {offsetAddr : ℕ}
    (ha : offsetAddr + n * CHUNK_SIZE < 2 ^ 64) (iovOffset : ℕ) :
    Refines (writeLoop qiov n offsetAddr iovOffset) (BlockCow.writeLoop qiov n offsetAddr iovOffset) := by
  induction n generalizing offsetAddr iovOffset with
  | zero => exact Simulates.pure ()
  | succ n ih =>
    rw [Nat.succ_mul] at ha
    refine Simulates.bind (refines_writeRound (by omega) iovOffset qiov) fun _ => ?_
    exact ih (by omega) _

lemma request_lt {blk : BlockBackend} {offset : ℤ} {size : ℕ}
    (hcheck : ¬blk.blkCheckByteRequest offset size < 0) :
    offset.toNat + size / CHUNK_SIZE * CHUNK_SIZE < 2 ^ 64 := by
  obtain ⟨hpos, hlt⟩ := blk.bounds (Int.not_lt.mp hcheck)
  have hle := Nat.div_mul_le_self size CHUNK_SIZE
  omega

lemma refines_cowCacheWrite (blk : BlockBackend) (offset : ℤ) (qiov : Qiov) :
    Refines (cowCacheWrite blk offset qiov) (BlockCow.cowCacheWrite blk offset qiov) := by
  unfold cowCacheWrite BlockCow.cowCacheWrite
  split
  · exact Simulates.pure _
  next hcheck =>
    split
    · exact Simulates.pure _
    next hsize =>
      have hmod : qiov.size % CHUNK_SIZE = 0 := not_not.mp hsize
      have hassert : Refines (assert .size (qiov.size % CHUNK_SIZE = 0))
          (BlockCow.assert .size fun _ => qiov.size % CHUNK_SIZE = 0) := by
        intro s hs
        rw [BlockCow.run_assert (decide_eq_true hmod)]
        exact ⟨s, run_assert (decide_eq_true hmod) s, rfl, hs⟩
      intro s hs
      rw [run_gets_bind, run_gets_bind, if_neg fun h => hsize h.1, if_neg fun h => hsize h.1]
      refine Simulates.bind hassert (fun _ => ?_) s hs
      refine Simulates.bind (refines_writeLoop qiov _ (request_lt hcheck) 0) fun _ => ?_
      exact Simulates.pure _

lemma readFromPrimaryBuffer_eq (hs : s.Valid) (ha : offsetAddr < 2 ^ 64) (iovOffset : ℕ)
    (qiov : Qiov) : readFromPrimaryBuffer s.cache offsetAddr iovOffset qiov =
      some (BlockCow.readFromPrimaryBuffer s.state.cache offsetAddr iovOffset qiov) := by
  obtain ⟨k, hget, ⟨hend, hnone⟩ | ⟨hne, hsome⟩⟩ := Buffer.get_spec hs.primary ha
  · have hmiss : BlockCow.readChunk s.cache.primary.table offsetAddr iovOffset qiov = qiov := by
      rw [BlockCow.readChunk, hnone]
    show (s.cache.primary.get offsetAddr).bind _ = some (BlockCow.readChunk _ _ _ _)
    rw [hget, Option.bind_some, if_neg (not_not.mpr hend)]
    exact congrArg some hmiss.symm
  · show (s.cache.primary.get offsetAddr).bind _ = some (BlockCow.readChunk _ _ _ _)
    rw [hget, Option.bind_some, if_pos hne, Buffer.read_eq hsome]
    rfl

lemma readFromSecondaryBuffer_eq (hs : s.Valid) (ha : offsetAddr < 2 ^ 64) (iovOffset : ℕ)
    (qiov : Qiov) : readFromSecondaryBuffer s.cache offsetAddr iovOffset qiov =
      some (BlockCow.readFromSecondaryBuffer s.state.cache offsetAddr iovOffset qiov) := by
  obtain ⟨k, hget, ⟨hend, hnone⟩ | ⟨hne, hsome⟩⟩ := Buffer.get_spec hs.secondary ha
  · have hmiss : ¬(s.state.cache.secondary.lookup offsetAddr).isSome = true := by
      have hlookup : s.state.cache.secondary.lookup offsetAddr = none := hnone
      simp [hlookup]
    show (s.cache.secondary.get offsetAddr).bind _ = _
    rw [hget, Option.bind_some, if_neg (not_not.mpr hend), BlockCow.readFromSecondaryBuffer,
      if_neg hmiss]
    exact readFromPrimaryBuffer_eq hs ha iovOffset qiov
  · have hhit : (s.state.cache.secondary.lookup offsetAddr).isSome = true := by
      have hlookup : s.state.cache.secondary.lookup offsetAddr = _ := hsome
      simp [hlookup]
    show (s.cache.secondary.get offsetAddr).bind _ = _
    rw [hget, Option.bind_some, if_pos hne, BlockCow.readFromSecondaryBuffer, if_pos hhit,
      Buffer.read_eq hsome]
    rfl

lemma readLoop_eq (hs : s.Valid) (n : ℕ) {offsetAddr : ℕ} (ha : offsetAddr + n * CHUNK_SIZE < 2 ^ 64)
    (iovOffset : ℕ) (qiov : Qiov) : readLoop s.cache n offsetAddr iovOffset qiov =
      some (BlockCow.readLoop s.state.cache n offsetAddr iovOffset qiov) := by
  induction n generalizing offsetAddr iovOffset qiov with
  | zero => rfl
  | succ n ih =>
    rw [Nat.succ_mul] at ha
    have hround : readRound s.cache offsetAddr iovOffset qiov = some
        (if s.state.cache.enabledFuzz then
          BlockCow.readFromSecondaryBuffer s.state.cache offsetAddr iovOffset qiov
        else BlockCow.readFromPrimaryBuffer s.state.cache offsetAddr iovOffset qiov) := by
      rw [readRound, readFromPrimaryBuffer_eq hs (by omega), readFromSecondaryBuffer_eq hs (by omega)]
      exact (apply_ite some _ _ _).symm
    rw [readLoop, BlockCow.readLoop, hround]
    exact ih (by omega) _ _

lemma cowCacheRead_eq (hs : s.Valid) (blk : BlockBackend) (offset : ℤ) (qiov : Qiov) :
    cowCacheRead s.cache blk offset qiov =
      some (BlockCow.cowCacheRead s.state.cache blk offset qiov) := by
  unfold cowCacheRead BlockCow.cowCacheRead
  split
  · rfl
  next hcheck =>
    split
    · rfl
    · rw [readLoop_eq hs _ (request_lt hcheck)]
      rfl

lemma refines_cowCacheReadEntry (blk : BlockBackend) (offset : ℤ) (qiov : Qiov) :
    Refines (cowCacheReadEntry blk offset qiov)
      (Exec.gets fun s => BlockCow.cowCacheReadEntry s blk offset qiov) := by
  intro s hs
  refine ⟨s, ?_, rfl, hs⟩
  rw [cowCacheReadEntry, run_gets_bind, run_gets_bind,
    run_unwrap_bind (cowCacheRead_eq hs _ _ _)]
  rfl

def perform (blk : BlockBackend) : DiskEvent → CowM Unit
  | .read offset qiov => cowCacheReadEntry blk offset qiov >>= fun _ => pure ()
  | .write offset qiov => cowCacheWrite blk offset qiov >>= fun _ => pure ()
  | .switchToFuzzMode => CowKhash.switchToFuzzMode
  | .cowCacheReset => CowKhash.cowCacheReset

lemma refines_cowCacheReset : Refines cowCacheReset BlockCow.cowCacheReset := by
  intro s hs
  obtain ⟨hvalid, hsize, hn, hfind⟩ := khClear_spec hs.secondary.lookup
  refine ⟨_, rfl, ?_⟩
  cases hfuzz : s.cache.enabledFuzz with
  | false => simp [hfuzz, hs, Process.state]
  | true =>
    simp only [Process.state, hfuzz, if_true]
    refine ⟨?_, hs.primary, hvalid, by rw [hsize]; rfl, Nat.zero_le _, hn.trans_le hs.secondary.buckets⟩
    simp [Buffer.table, hfind]

lemma refines_perform (blk : BlockBackend) (e : DiskEvent) :
    Refines (perform blk e) (BlockCow.perform blk e) := by
  cases e with
  | read offset qiov =>
    exact Simulates.bind (refines_cowCacheReadEntry blk offset qiov) fun _ => Simulates.pure ()
  | write offset qiov =>
    exact Simulates.bind (refines_cowCacheWrite blk offset qiov) fun _ => Simulates.pure ()
  | switchToFuzzMode => exact fun s hs => ⟨_, rfl, rfl, hs.primary, hs.secondary⟩
  | cowCacheReset => exact refines_cowCacheReset

/-- Whatever is asked of the disk, a read after it gives what it gives on the slots that the tables
describe, and the tables never make QEMU hang. -/
theorem performAll_read (blk : BlockBackend) (es : List DiskEvent) (offset : ℤ) (qiov : Qiov) :
    Refines (Exec.forEach es (perform blk) >>= fun _ => cowCacheReadEntry blk offset qiov)
      (BlockCow.performAll blk es >>= fun _ =>
        Exec.gets fun s => BlockCow.cowCacheReadEntry s blk offset qiov) := by
  refine Simulates.bind ?_ fun _ => refines_cowCacheReadEntry blk offset qiov
  induction es with
  | nil => exact Simulates.pure ()
  | cons e es ih => exact Simulates.bind (refines_perform blk e) fun _ => ih

/-- A chunk is overwritten in fuzzing mode and comes back with the reset. -/
theorem performAll_read_reset :
    ∃ r s', (Exec.forEach [.write 0 (BlockCow.oneChunk 1), .switchToFuzzMode,
        .write 0 (BlockCow.oneChunk 2), .cowCacheReset] (perform BlockCow.smallDisk) >>= fun _ =>
          cowCacheReadEntry BlockCow.smallDisk 0 (BlockCow.oneChunk 0)).run
        ⟨cowCacheNew ⟨fun _ => 7, fun _ => 7⟩ ⟨fun _ => 8, fun _ => 8⟩ "disk.img", fun _ => 0, false,
          false⟩ = (.ok r, s') ∧ r.2.byte 5 = 1 := by
  have hread := performAll_read BlockCow.smallDisk [.write 0 (BlockCow.oneChunk 1),
    .switchToFuzzMode, .write 0 (BlockCow.oneChunk 2), .cowCacheReset] 0 (BlockCow.oneChunk 0)
    ⟨cowCacheNew ⟨fun _ => 7, fun _ => 7⟩ ⟨fun _ => 8, fun _ => 8⟩ "disk.img", fun _ => 0, false, false⟩
    ⟨(newBuffer_spec _ _).2, (newBuffer_spec _ _).2⟩
  obtain ⟨s', hrun, -⟩ := hread
  exact ⟨_, s', hrun, by decide +kernel⟩

end Refinement

end Nyx.CowKhash
