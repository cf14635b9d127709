import Nyx.Lib.BinaryFile
import Nyx.Qemu.CowKhash

/-!
# The saved primary buffer

A snapshot keeps the primary buffer in two files: the arrays of the hash table, and the chunks in
use. A process that starts from them shows the same disk and goes on alike.
-/

namespace Nyx

open Exec (Triple Keeps Simulates run_bind_ok run_gets_bind)

open Function

def acFsize (m : ℕ) : ℕ := if m < 16 then 1 else m >>> 4

namespace BlockCow

inductive Request where
  | read (offset : ℤ) (qiov : Qiov)
  | write (offset : ℤ) (qiov : Qiov)

/-- The result that `blk_aio_complete` gets, and the vector of a read. -/
inductive Response where
  | read (ret : ℤ) (qiov : Qiov)
  | write (ret : ℤ)

def serve (blk : BlockBackend) : Request → CowM Response
  | .read offset qiov => do
    let r ← Exec.gets fun s => cowCacheReadEntry s blk offset qiov
    pure (.read r.1 r.2)
  | .write offset qiov => do
    let ret ← cowCacheWrite blk offset qiov
    pure (.write ret)

def serveAll (blk : BlockBackend) : List Request → CowM (List Response)
  | [] => pure []
  | r :: rs => do
    let response ← serve blk r
    let responses ← serveAll blk rs
    pure (response :: responses)

/-- Before the switch: the secondary buffer is as new, and so is the memory that no chunk uses. -/
structure Primary (s : CowState) : Prop where
  fuzz : s.cache.enabledFuzz = false
  secondary : s.cache.secondary = emptyBuffer
  notFull : s.cowCacheFull = false
  slots : SlotTable.Valid CHUNK_SIZE s.cache.primary
  unused : ∀ i, s.cache.primary.next ≤ i → s.cache.primary.data i = 0

lemma primary_cowCacheNew (image : ℕ → UInt8) : Primary ⟨cowCacheNew, image, false, false⟩ :=
  ⟨rfl, rfl, rfl, SlotTable.valid_of_lookup_none fun _ => rfl, fun _ _ => rfl⟩

lemma fill_unused {t : SlotTable ℕ UInt8} (ht : SlotTable.Valid CHUNK_SIZE t) (k : ℕ)
    (src : ℕ → UInt8) (start : ℕ) {i : ℕ} (hi : t.next ≤ i) :
    (t.fill CHUNK_SIZE k src start).data i = t.data i := by
  unfold SlotTable.fill
  split
  next o ho =>
    have hslot := ht.slot ho
    exact blit_outside _ _ _ (.inr (by omega))
  next => rfl

lemma Primary.putPrimary {s : CowState} (hs : Primary s) (offsetAddr iovOffset : ℕ) (qiov : Qiov) :
    Primary (s.putPrimary offsetAddr iovOffset qiov) := by
  refine ⟨hs.fuzz, hs.secondary, hs.notFull, hs.slots.put _ _ _, fun i hi => ?_⟩
  have hnext : (s.cache.primary.put CHUNK_SIZE offsetAddr qiov.byte iovOffset).next ≤ i := hi
  show (s.cache.primary.put CHUNK_SIZE offsetAddr qiov.byte iovOffset).data i = 0
  cases hlookup : s.cache.primary.lookup offsetAddr with
  | none =>
    rw [SlotTable.put_of_none hlookup] at hnext ⊢
    rw [SlotTable.next_fill] at hnext
    rw [fill_unused (hs.slots.alloc offsetAddr) _ _ _ hnext]
    exact hs.unused i ((Nat.le_add_right _ _).trans hnext)
  | some o =>
    rw [SlotTable.put_of_some hlookup] at hnext ⊢
    rw [SlotTable.next_fill] at hnext
    rw [fill_unused hs.slots _ _ _ hnext]
    exact hs.unused i hnext

lemma primary_writeRound (offsetAddr iovOffset : ℕ) (qiov : Qiov) :
    Triple Primary (writeRound offsetAddr iovOffset qiov) (fun _ => Primary)
      (fun e _ => e = .primaryFull) := by
  intro s hs
  rw [writeRound, run_gets_bind, if_neg (by simp [hs.fuzz]), run_writeToPrimaryBuffer]
  by_cases hfull : (s.cache.primary.lookup offsetAddr).isNone ∧
      COW_CACHE_SIZE ≤ s.cache.primary.next + CHUNK_SIZE
  · rw [if_pos hfull]
  · rw [if_neg hfull]
    exact hs.putPrimary _ _ _

lemma primary_cowCacheWrite (blk : BlockBackend) (offset : ℤ) (qiov : Qiov) :
    Triple Primary (cowCacheWrite blk offset qiov) (fun _ => Primary)
      (fun e _ => e = .primaryFull) := by
  unfold cowCacheWrite
  split
  · exact Triple.skip
  · split
    · exact Triple.skip
    next hsize =>
      intro s hs
      have hassert : (assert .size fun _ => qiov.size % CHUNK_SIZE = 0).run s = (.ok (), s) :=
        run_assert (decide_eq_true (not_not.mp hsize))
      have hloop := triple_writeLoop (fun a io => primary_writeRound a io qiov)
        (qiov.size / CHUNK_SIZE) offset.toNat 0
      rw [run_gets_bind, if_neg fun h => hsize h.1, run_bind_ok hassert]
      exact Triple.bind hloop (fun _ => Triple.skip) s hs

lemma primary_serve (blk : BlockBackend) (r : Request) :
    Triple Primary (serve blk r) (fun _ => Primary) (fun e _ => e = .primaryFull) := by
  cases r with
  | read offset qiov =>
    refine Triple.bind (Triple.gets (Q := fun _ => Primary) fun _ hs => hs) fun _ => ?_
    exact Triple.skip
  | write offset qiov =>
    exact Triple.bind (primary_cowCacheWrite blk offset qiov) fun _ => Triple.skip

lemma primary_serveAll (blk : BlockBackend) (rs : List Request) :
    Triple Primary (serveAll blk rs) (fun _ => Primary) (fun e _ => e = .primaryFull) := by
  induction rs with
  | nil => exact Triple.skip
  | cons r rs ih =>
    refine Triple.bind (primary_serve blk r) fun _ => ?_
    exact Triple.bind ih fun _ => Triple.skip

lemma Primary.read_switched {s : CowState} (hs : Primary s) (blk : BlockBackend) (offset : ℤ)
    (qiov : Qiov) :
    cowCacheReadEntry { s with cache := { s.cache with enabledFuzz := true } } blk offset qiov =
      cowCacheReadEntry s blk offset qiov := by
  have hloop : ∀ n a io q,
      readLoop { s.cache with enabledFuzz := true } n a io q = readLoop s.cache n a io q := by
    intro n
    induction n with
    | zero => intro a io q; rfl
    | succ n ih =>
      intro a io q
      rw [readLoop, readLoop, ih, if_pos rfl, if_neg (by simp [hs.fuzz]), readFromSecondaryBuffer,
        hs.secondary]
      rfl
  simp only [cowCacheReadEntry, cowCacheRead, hloop]
  rfl

end BlockCow

namespace CowKhash

open BlockCow (CHUNK_SIZE COW_CACHE_SIZE COW_CACHE_SECONDARY_SIZE Abort Qiov BlockBackend CowState
  Request Response)

def serve (blk : BlockBackend) : Request → CowM Response
  | .read offset qiov => do
    let r ← cowCacheReadEntry blk offset qiov
    pure (.read r.1 r.2)
  | .write offset qiov => do
    let ret ← cowCacheWrite blk offset qiov
    pure (.write ret)

def serveAll (blk : BlockBackend) : List Request → CowM (List Response)
  | [] => pure []
  | r :: rs => do
    let response ← serve blk r
    let responses ← serveAll blk rs
    pure (response :: responses)

def start (image : ℕ → UInt8) (filename : String) (inFuzzingMode : Bool) (m m' : Memory) : Process :=
  ⟨cowCacheNew m m' filename, image, false, inFuzzingMode⟩

abbrev FileSystem := String → Option File

def genFileName (c : CowCache) (filenamePrefix filenamePostfix : String) : String :=
  filenamePrefix ++ "_" ++ c.filename.map (fun ch => if ch = '/' then '_' else ch) ++ "." ++
    filenamePostfix

/-- Writes a table to its file. -/
def khWrite (h : Khash UInt64 UInt64) : Exec Fault File Unit := do
  File.write .file (toLeBytes 8 h.nBuckets)
  File.write .file (toLeBytes 8 h.nOccupied)
  File.write .file (toLeBytes 8 h.size)
  File.write .file (toLeBytes 8 h.upperBound)
  File.write .file (leWords 4 ((List.range (acFsize h.nBuckets)).map fun i => (h.flags.word i).toNat))
  File.write .file (leWords 8 ((List.range h.nBuckets).map fun i => (h.keys i).toNat))
  File.write .file (leWords 8 ((List.range h.nBuckets).map fun i => (h.vals i).toNat))

def freadAll (n : ℕ) : Exec Fault Cursor (List UInt8) := do
  let bytes ← Cursor.read n
  if bytes.length = n then pure bytes else Exec.panic .file

/-- Reads a table from its file. -/
def khashLoad (m : Memory) : Exec Fault Cursor (Khash UInt64 UInt64) := do
  let nBuckets ← freadAll 8
  let nOccupied ← freadAll 8
  let size ← freadAll 8
  let upperBound ← freadAll 8
  let n := fromLeBytes nBuckets
  let flags ← freadAll (4 * acFsize n)
  let keys ← freadAll (8 * n)
  let vals ← freadAll (8 * n)
  pure {
    nBuckets := n
    size := fromLeBytes size
    nOccupied := fromLeBytes nOccupied
    upperBound := fromLeBytes upperBound
    flags := ⟨fun i => BitVec.ofNat 32 (wordAt 4 flags (4 * i))⟩
    keys := fun i => if i < n then UInt64.ofNat (wordAt 8 keys (8 * i)) else m.keys i
    vals := fun i => if i < n then UInt64.ofNat (wordAt 8 vals (8 * i)) else m.vals i }

def liftExcept {α : Type} (x : Except Fault α) : CowM α := fun s => (x, s)

def dumpLookup (b : Buffer) : Except Fault File :=
  if b.offset ≠ 0 then File.create (khWrite b.lookup) else .ok File.empty

def dumpData (b : Buffer) : Except Fault File :=
  if b.offset ≠ 0 then
    File.create (File.write .file ((List.range (CHUNK_SIZE * (b.offset / CHUNK_SIZE))).map b.data))
  else .ok File.empty

def dumpPrimaryBuffer (filenamePrefix : String) (fs : FileSystem) : CowM FileSystem := do
  let c ← Exec.gets fun s => s.cache
  assert .enabledFuzz c.enabledFuzz
  let khash ← liftExcept (dumpLookup c.primary)
  let pcow ← liftExcept (dumpData c.primary)
  pure (update (update fs (genFileName c filenamePrefix "khash") (some khash))
    (genFileName c filenamePrefix "pcow") (some pcow))

def loadLookup (m : Memory) (khash : Option File) (stSize : ℕ) : CowM (Khash UInt64 UInt64) :=
  if stSize ≠ 0 then do
    let f ← Exec.unwrap .file khash
    liftExcept ((khashLoad m).run (Cursor.start f)).1
  else pure (khInit m.keys m.vals)

def readPrimaryBuffer (m : Memory) (filenamePrefix : String) (switchMode : Bool) (fs : FileSystem) :
    CowM Unit := do
  let c ← Exec.gets fun s => s.cache
  assert .enabledFuzz (!c.enabledFuzz)
  let pcow ← Exec.unwrap .file (fs (genFileName c filenamePrefix "pcow"))
  let lookup ← loadLookup m (fs (genFileName c filenamePrefix "khash")) pcow.bytes.length
  setPrimary {
    lookup := lookup
    data := if switchMode then fun i => pcow.bytes.getD i 0
      else blit c.primary.data 0 (fun i => pcow.bytes.getD i 0) 0 pcow.bytes.length
    offset := pcow.bytes.length }
  if switchMode then switchToFuzzMode else pure ()

lemma refines_serve (blk : BlockBackend) (r : Request) :
    Refines (serve blk r) (BlockCow.serve blk r) := by
  cases r with
  | read offset qiov =>
    exact Simulates.bind (refines_cowCacheReadEntry blk offset qiov) fun _ =>
      Simulates.pure _
  | write offset qiov =>
    exact Simulates.bind (refines_cowCacheWrite blk offset qiov) fun _ => Simulates.pure _

lemma refines_serveAll (blk : BlockBackend) (rs : List Request) :
    Refines (serveAll blk rs) (BlockCow.serveAll blk rs) := by
  induction rs with
  | nil => exact Simulates.pure []
  | cons r rs ih =>
    refine Simulates.bind (refines_serve blk r) fun response => ?_
    exact Simulates.bind ih fun responses => Simulates.pure _

lemma start_spec (image : ℕ → UInt8) (filename : String) (inFuzzingMode : Bool) (m m' : Memory) :
    (start image filename inFuzzingMode m m').state = ⟨BlockCow.cowCacheNew, image, false, false⟩ ∧
      (start image filename inFuzzingMode m m').Valid := by
  obtain ⟨hprimary, hvalid⟩ := newBuffer_spec m COW_CACHE_SIZE
  obtain ⟨hsecondary, hvalid'⟩ := newBuffer_spec m' COW_CACHE_SECONDARY_SIZE
  refine ⟨?_, hvalid, hvalid'⟩
  show CowState.mk ⟨(newBuffer m).table, (newBuffer m').table, false⟩ image false false = _
  rw [hprimary, hsecondary]
  rfl

section Constants

def Process.disk (s : Process) : (ℕ → UInt8) × String := (s.image, s.cache.filename)

lemma keeps_assert (e : Abort) (c : Bool) : Keeps Process.disk (assert e c) :=
  Keeps.ite (Keeps.pure ()) (Keeps.panic _)

lemma keeps_writeRound (offsetAddr iovOffset : ℕ) (qiov : Qiov) :
    Keeps Process.disk (writeRound offsetAddr iovOffset qiov) := by
  refine Keeps.bind (Keeps.gets _) fun enabledFuzz => Keeps.ite ?_ ?_
  · refine Keeps.bind (Keeps.gets _) fun c => ?_
    refine Keeps.bind (Keeps.unwrap _ _) fun kPrimary => ?_
    refine Keeps.bind (Keeps.unwrap _ _) fun kSecondary => ?_
    refine Keeps.ite (fun _ => rfl) (Keeps.ite ?_ fun _ => rfl)
    refine Keeps.bind (Keeps.unwrap _ _) fun page => ?_
    refine Keeps.bind (fun _ => rfl) fun _ => ?_
    exact Keeps.bind (keeps_assert _ _) fun _ _ => rfl
  · refine Keeps.bind (Keeps.gets _) fun b => ?_
    refine Keeps.bind (Keeps.unwrap _ _) fun k => Keeps.ite ?_ fun _ => rfl
    refine Keeps.bind (Keeps.unwrap _ _) fun page => ?_
    refine Keeps.bind (fun _ => rfl) fun _ => ?_
    exact Keeps.bind (keeps_assert _ _) fun _ _ => rfl

lemma keeps_writeLoop (qiov : Qiov) (n offsetAddr iovOffset : ℕ) :
    Keeps Process.disk (writeLoop qiov n offsetAddr iovOffset) := by
  induction n generalizing offsetAddr iovOffset with
  | zero => exact Keeps.pure ()
  | succ n ih => exact Keeps.bind (keeps_writeRound _ _ qiov) fun _ => ih _ _

lemma keeps_serve (blk : BlockBackend) (r : Request) : Keeps Process.disk (serve blk r) := by
  cases r with
  | read offset qiov =>
    refine Keeps.bind ?_ fun _ => Keeps.pure _
    refine Keeps.bind (Keeps.gets _) fun image => ?_
    refine Keeps.bind (Keeps.gets _) fun c => ?_
    exact Keeps.bind (Keeps.unwrap _ _) fun _ => Keeps.pure _
  | write offset qiov =>
    refine Keeps.bind ?_ fun _ => Keeps.pure _
    refine Keeps.ite (Keeps.pure _) (Keeps.ite (Keeps.pure _) ?_)
    refine Keeps.bind (Keeps.gets _) fun inFuzzingMode => Keeps.ite ?_ ?_
    · exact Keeps.bind (fun _ => rfl) fun _ => Keeps.pure _
    · refine Keeps.bind (keeps_assert _ _) fun _ => ?_
      exact Keeps.bind (keeps_writeLoop qiov _ _ _) fun _ => Keeps.pure _

lemma keeps_serveAll (blk : BlockBackend) (rs : List Request) :
    Keeps Process.disk (serveAll blk rs) := by
  induction rs with
  | nil => exact Keeps.pure []
  | cons r rs ih =>
    refine Keeps.bind (keeps_serve blk r) fun _ => ?_
    exact Keeps.bind ih fun _ => Keeps.pure _

end Constants

section TableFile

variable {h : Khash UInt64 UInt64} {m : Memory}

/-- The bytes of the file of a table. -/
def khFile (h : Khash UInt64 UInt64) : List UInt8 :=
  toLeBytes 8 h.nBuckets ++ (toLeBytes 8 h.nOccupied ++ (toLeBytes 8 h.size ++
    (toLeBytes 8 h.upperBound ++
    (leWords 4 ((List.range (acFsize h.nBuckets)).map fun i => (h.flags.word i).toNat) ++
    (leWords 8 ((List.range h.nBuckets).map fun i => (h.keys i).toNat) ++
    leWords 8 ((List.range h.nBuckets).map fun i => (h.vals i).toNat))))))

lemma writes_khWrite (h : Khash UInt64 UInt64) : File.Writes .file (khWrite h) (khFile h) :=
  (File.writes_write _ _).bind <| (File.writes_write _ _).bind <| (File.writes_write _ _).bind <|
    (File.writes_write _ _).bind <| (File.writes_write _ _).bind <|
    (File.writes_write _ _).bind (File.writes_write _ _)

lemma reads_freadAll {n : ℕ} {bytes : List UInt8} (hn : bytes.length = n) :
    Cursor.Reads (freadAll n) bytes bytes := by
  refine (Cursor.reads_read hn).map ?_
  rw [if_pos hn]
  exact Cursor.reads_pure bytes

def loaded (m : Memory) (h : Khash UInt64 UInt64) : Khash UInt64 UInt64 := { h with
  flags := ⟨fun i => BitVec.ofNat 32 (wordAt 4
    (leWords 4 ((List.range (acFsize h.nBuckets)).map fun i => (h.flags.word i).toNat)) (4 * i))⟩
  keys := fun i => if i < h.nBuckets then h.keys i else m.keys i
  vals := fun i => if i < h.nBuckets then h.vals i else m.vals i }

lemma wordAt_cells {w n i : ℕ} (hi : i < n) (f : ℕ → ℕ) (hf : f i < 256 ^ w) :
    wordAt w (leWords w ((List.range n).map f)) (w * i) = f i := by
  have hget : ((List.range n).map f)[i]? = some (f i) := by
    rw [List.getElem?_map, List.getElem?_range hi]
    rfl
  have hword := wordAt_leWords hget hf []
  rwa [List.append_nil] at hword

lemma loaded_cells {n : ℕ} (f g : ℕ → UInt64) :
    (fun i => if i < n then
      UInt64.ofNat (wordAt 8 (leWords 8 ((List.range n).map fun i => (f i).toNat)) (8 * i)) else g i) =
    fun i => if i < n then f i else g i := by
  funext i
  by_cases hi : i < n
  · rw [if_pos hi, if_pos hi, wordAt_cells hi _ (f i).toNat_lt, UInt64.ofNat_toNat]
  · rw [if_neg hi, if_neg hi]

/-- The table fits into the format of its file. -/
structure Fits (h : Khash UInt64 UInt64) : Prop where
  nBuckets : h.nBuckets < 256 ^ 8
  nOccupied : h.nOccupied < 256 ^ 8
  size : h.size < 256 ^ 8
  upperBound : h.upperBound < 256 ^ 8
  file : (khFile h).length < 2 ^ 63

lemma fits_of_valid (hv : h.Valid khInt64HashFunc) (hbuckets : h.nBuckets ≤ 2 ^ 22) : Fits h := by
  have hupper : h.upperBound ≤ h.nBuckets := by
    rw [hv.upper, hashUpper, AC_HASH_UPPER]
    omega
  have hroom := hv.room
  have hcard := hv.search.card_le_load
  rw [← hv.size, ← hv.occupied] at hcard
  have hfsize : acFsize h.nBuckets ≤ 2 ^ 22 := by
    unfold acFsize
    split
    · decide
    · omega
  refine ⟨by omega, by omega, by omega, by omega, ?_⟩
  simp only [khFile, List.length_append, length_toLeBytes, length_leWords, List.length_map,
    List.length_range]
  omega

lemma reads_khashLoad (hf : Fits h) (m : Memory) : Cursor.Reads (khashLoad m) (khFile h) (loaded m h) := by
  have hn : fromLeBytes (toLeBytes 8 h.nBuckets) = h.nBuckets := fromLeBytes_toLeBytes_of_lt hf.nBuckets
  refine (reads_freadAll (length_toLeBytes 8 _)).bind ?_
  refine (reads_freadAll (length_toLeBytes 8 _)).bind ?_
  refine (reads_freadAll (length_toLeBytes 8 _)).bind ?_
  refine (reads_freadAll (length_toLeBytes 8 _)).bind ?_
  rw [hn]
  refine (reads_freadAll (by simp)).bind ?_
  refine (reads_freadAll (by simp)).bind ?_
  refine (reads_freadAll (by simp)).map ?_
  rw [loaded_cells, loaded_cells, fromLeBytes_toLeBytes_of_lt hf.nOccupied,
    fromLeBytes_toLeBytes_of_lt hf.size, fromLeBytes_toLeBytes_of_lt hf.upperBound]
  exact Cursor.reads_pure _

lemma khashLoad_khWrite (hf : Fits h) (m : Memory) :
    ∃ f, File.create (khWrite h) = .ok f ∧ ((khashLoad m).run (Cursor.start f)).1 = .ok (loaded m h) := by
  refine ⟨_, (writes_khWrite h).create_eq hf.file, ?_⟩
  rw [reads_khashLoad hf m (Cursor.start ⟨khFile h, hf.file⟩) [] (List.append_nil _).symm]

lemma word_lt_acFsize {n i : ℕ} (hn : n = 0 ∨ ∃ m, 2 ≤ m ∧ n = 2 ^ m) (hi : i < n) :
    i / 16 < acFsize n := by
  unfold acFsize
  split
  next => omega
  next hbig =>
    rcases hn with rfl | ⟨m, -, rfl⟩
    · omega
    · have hm : 4 ≤ m := by
        by_contra hlt
        have hle : 2 ^ m ≤ 2 ^ 3 := Nat.pow_le_pow_right (by decide) (by omega)
        omega
      obtain ⟨l, rfl⟩ := Nat.exists_eq_add_of_le' hm
      rw [Nat.shiftRight_eq_div_pow, pow_add, Nat.mul_div_cancel _ (by decide)]
      rw [pow_add] at hi
      omega

lemma loaded_agree (hv : h.Valid khInt64HashFunc) (m : Memory) :
    Table.Agree h.table (loaded m h).table := by
  have hbit : ∀ i < h.nBuckets, ∀ b, flagBit (loaded m h).flags i b = flagBit h.flags i b := by
    intro i hi b
    have hword : (loaded m h).flags.word (i / 16) = h.flags.word (i / 16) := by
      show BitVec.ofNat 32 (wordAt 4 _ _) = _
      rw [wordAt_cells (word_lt_acFsize hv.buckets hi) _ (h.flags.word (i / 16)).isLt,
        BitVec.ofNat_toNat, BitVec.setWidth_eq]
    rw [flagBit, flagBit, hword]
  have hempty : ∀ i < h.nBuckets, acIsEmpty (loaded m h).flags i = acIsEmpty h.flags i := by
    intro i hi
    rw [acIsEmpty_eq, acIsEmpty_eq, hbit i hi]
  have hdel : ∀ i < h.nBuckets, acIsDel (loaded m h).flags i = acIsDel h.flags i := by
    intro i hi
    rw [acIsDel_eq, acIsDel_eq, hbit i hi]
  refine ⟨rfl, fun i hi => ?_, fun i hi => ?_, fun i hi => ?_⟩
  · exact congrArg (!·) (hempty i hi)
  · show (!acIsEither _ i) = !acIsEither _ i
    rw [acIsEither_eq, acIsEither_eq, hempty i hi, hdel i hi]
  · have hi' : i < h.nBuckets := hi
    show (if i < h.nBuckets then _ else _, if i < h.nBuckets then _ else _) = _
    rw [if_pos hi', if_pos hi']
    rfl

end TableFile

section Snapshot

variable {c : Process} {m : Memory}

lemma genFileName_ne (c : CowCache) (filenamePrefix : String) :
    genFileName c filenamePrefix "khash" ≠ genFileName c filenamePrefix "pcow" := by
  intro h
  have hlist := congrArg String.toList h
  simp only [genFileName, String.toList_append] at hlist
  exact absurd (List.append_cancel_left hlist) (by decide)

lemma Buffer.Valid.whole {b : Buffer} {limit : ℕ} (hb : b.Valid limit) :
    CHUNK_SIZE * (b.offset / CHUNK_SIZE) = b.offset := by
  rw [← hb.chunks, Nat.mul_div_cancel _ (by decide), Nat.mul_comm]

lemma dumpData_spec {b : Buffer} (hb : b.Valid COW_CACHE_SIZE) :
    ∃ f, dumpData b = .ok f ∧ f.bytes = (List.range b.offset).map b.data := by
  have hle : b.offset ≤ 0xC0000000 := hb.le
  unfold dumpData
  split
  · rw [hb.whole]
    have hlen : ((List.range b.offset).map b.data).length < 2 ^ 63 := by
      rw [List.length_map, List.length_range]
      omega
    exact ⟨_, (File.writes_write _ _).create_eq hlen, rfl⟩
  next hzero =>
    rw [not_not.mp hzero]
    exact ⟨_, rfl, rfl⟩

lemma getD_range_map {β : Type} (n : ℕ) (f : ℕ → β) (i : ℕ) (d : β) :
    ((List.range n).map f).getD i d = if i < n then f i else d := by
  by_cases hi : i < n
  · rw [if_pos hi, List.getD_eq_getElem?_getD, List.getElem?_map, List.getElem?_range hi]
    rfl
  · rw [if_neg hi, List.getD_eq_getElem?_getD, List.getElem?_eq_none (by simpa using hi)]
    rfl

lemma loadLookup_spec {b : Buffer} (hb : b.Valid COW_CACHE_SIZE) (m : Memory) :
    ∃ khash h, dumpLookup b = .ok khash ∧
      (∀ s, (loadLookup m (some khash) b.offset).run s = (.ok h, s)) ∧
      h.table.find = b.lookup.table.find ∧
      ∀ data, (⟨h, data, b.offset⟩ : Buffer).Valid COW_CACHE_SIZE := by
  by_cases hzero : b.offset = 0
  · obtain ⟨hvalid, hfind⟩ := khInit_spec khInt64HashFunc m.keys m.vals
    have hsize : b.lookup.table.entries.card = 0 := by
      have hchunks := hb.chunks
      rw [hzero, Nat.mul_eq_zero] at hchunks
      rw [← hb.lookup.size]
      exact hchunks.resolve_right (by decide)
    have hnone : b.lookup.table.find = fun _ => none := by
      funext k
      rw [Table.find_eq_none hb.lookup.keys, Multiset.card_eq_zero.mp hsize]
      exact fun v => Multiset.notMem_zero _
    refine ⟨File.empty, khInit m.keys m.vals, if_neg (not_not.mpr hzero), fun s => ?_, ?_, fun data => ?_⟩
    · rw [loadLookup, if_neg (not_not.mpr hzero)]
      rfl
    · rw [hfind, hnone]
    · refine ⟨hvalid, ?_, hb.le, Nat.zero_le _⟩
      show 0 * CHUNK_SIZE = b.offset
      rw [hzero, Nat.zero_mul]
  · obtain ⟨f, hcreate, hload⟩ := khashLoad_khWrite (fits_of_valid hb.lookup hb.buckets) m
    have hagree := loaded_agree hb.lookup m
    have hvalid := hb.lookup.congr hagree rfl rfl rfl
    refine ⟨f, loaded m b.lookup, ?_, fun s => ?_, ?_, fun data => ⟨hvalid, hb.chunks, hb.le, hb.buckets⟩⟩
    · rw [dumpLookup, if_pos hzero, hcreate]
    · rw [loadLookup, if_pos hzero]
      show (liftExcept ((khashLoad m).run (Cursor.start f)).1).run s = _
      rw [hload]
      rfl
    · exact Table.find_congr hagree.entries hvalid.keys

def savedFiles (c : CowCache) (filenamePrefix : String) (khash pcow : File) (fs : FileSystem) :
    FileSystem :=
  update (update fs (genFileName c filenamePrefix "khash") (some khash))
    (genFileName c filenamePrefix "pcow") (some pcow)

lemma run_dumpPrimaryBuffer {khash pcow : File} (hfuzz : c.cache.enabledFuzz)
    (hlookup : dumpLookup c.cache.primary = .ok khash) (hdata : dumpData c.cache.primary = .ok pcow)
    (filenamePrefix : String) (fs : FileSystem) :
    (dumpPrimaryBuffer filenamePrefix fs).run c =
      (.ok (savedFiles c.cache filenamePrefix khash pcow fs), c) := by
  rw [dumpPrimaryBuffer, run_gets_bind, run_bind_ok (run_assert hfuzz c), hlookup, hdata]
  rfl

lemma loaded_data {b : Buffer} {bytes : List UInt8} (hbytes : bytes = (List.range b.offset).map b.data)
    (hunused : ∀ i, b.offset ≤ i → b.data i = 0) (switchMode : Bool) :
    (if switchMode then fun i => bytes.getD i 0
      else blit (fun _ => 0) 0 (fun i => bytes.getD i 0) 0 bytes.length) = b.data := by
  have hget : ∀ i, bytes.getD i 0 = b.data i := by
    intro i
    rw [hbytes, getD_range_map]
    split
    · rfl
    next hi => exact (hunused i (Nat.le_of_not_lt hi)).symm
  have hlen : bytes.length = b.offset := by rw [hbytes, List.length_map, List.length_range]
  funext i
  cases switchMode with
  | true => exact hget i
  | false =>
    rw [if_neg Bool.false_ne_true, hlen]
    by_cases hi : i < b.offset
    · have hin : blit (fun _ => (0 : UInt8)) 0 (fun i => bytes.getD i 0) 0 b.offset (0 + i) =
          bytes.getD (0 + i) 0 := blit_inside _ _ _ _ hi
      rw [Nat.zero_add] at hin
      rw [hin, hget]
    · rw [blit_outside _ _ _ (.inr (by omega)), hunused i (Nat.le_of_not_lt hi)]

lemma readPrimaryBuffer_spec (hc : c.Valid) (hprimary : BlockCow.Primary c.state) {p : Process}
    (hp : p.Valid) (hstate : p.state = ⟨BlockCow.cowCacheNew, c.image, false, false⟩)
    (hname : p.cache.filename = c.cache.filename) (m : Memory) (filenamePrefix : String)
    (fs : FileSystem) :
    ∃ fs' c', (do switchToFuzzMode; dumpPrimaryBuffer filenamePrefix fs).run c = (.ok fs', c') ∧
      ∀ switchMode, ∃ p', (readPrimaryBuffer m filenamePrefix switchMode fs').run p = (.ok (), p') ∧
        p'.Valid ∧ p'.state = { c.state with cache := { c.state.cache with enabledFuzz := switchMode } } := by
  obtain ⟨khash, h, hdump, hload, hfind, hvalid⟩ := loadLookup_spec hc.primary m
  obtain ⟨pcow, hdata, hbytes⟩ := dumpData_spec hc.primary
  refine ⟨_, _, run_dumpPrimaryBuffer (c := { c with cache := { c.cache with enabledFuzz := true } })
    rfl hdump hdata filenamePrefix fs, fun switchMode => ?_⟩
  -- the new process asks for the same two files
  set fs' := savedFiles c.cache filenamePrefix khash pcow fs with hfs
  have hgen : ∀ ext, genFileName p.cache filenamePrefix ext = genFileName c.cache filenamePrefix ext := by
    intro ext
    rw [genFileName, genFileName, hname]
  have hpcow : fs' (genFileName p.cache filenamePrefix "pcow") = some pcow := by
    rw [hgen, hfs, savedFiles, update_self]
  have hkhash : fs' (genFileName p.cache filenamePrefix "khash") = some khash := by
    rw [hgen, hfs, savedFiles, update_of_ne (genFileName_ne c.cache filenamePrefix),
      update_self]
  have hlen : pcow.bytes.length = c.cache.primary.offset := by
    rw [hbytes, List.length_map, List.length_range]
  have hfuzz : p.cache.enabledFuzz = false := congrArg (fun s => s.cache.enabledFuzz) hstate
  have hnew : p.cache.primary.data = fun _ => 0 := congrArg (fun s => s.cache.primary.data) hstate
  have hsame := loaded_data hbytes hprimary.unused switchMode
  rw [hlen] at hsame
  have hrun : (readPrimaryBuffer m filenamePrefix switchMode fs').run p = (.ok (),
      { p with cache := { p.cache with
        primary := ⟨h, c.cache.primary.data, c.cache.primary.offset⟩, enabledFuzz := switchMode } }) := by
    rw [readPrimaryBuffer, run_gets_bind,
      run_bind_ok (run_assert (by rw [hfuzz]; rfl) p), Exec.run_unwrap_bind hpcow, hkhash]
    simp only [hnew, hlen, hsame]
    rw [run_bind_ok (hload p), setPrimary, Exec.run_modify_bind]
    cases switchMode with
    | true => rfl
    | false =>
      have hcache : { p.cache with primary := ⟨h, c.cache.primary.data, c.cache.primary.offset⟩ } =
          { p.cache with
            primary := ⟨h, c.cache.primary.data, c.cache.primary.offset⟩, enabledFuzz := false } := by
        rw [← hfuzz]
      rw [← hcache]
      rfl
  refine ⟨_, hrun, ⟨hvalid _, hp.secondary⟩, ?_⟩
  have htable : (⟨h, c.cache.primary.data, c.cache.primary.offset⟩ : Buffer).table =
      c.cache.primary.table := by
    simp only [Buffer.table, hfind]
  have himage : p.image = c.image := congrArg (fun s => s.image) hstate
  have hfull : p.cowCacheFull = c.state.cowCacheFull :=
    (congrArg (fun s => s.cowCacheFull) hstate).trans hprimary.notFull.symm
  have hsecondary : p.cache.secondary.table = c.state.cache.secondary :=
    (congrArg (fun s => s.cache.secondary) hstate).trans hprimary.secondary.symm
  show CowState.mk ⟨(⟨h, _, _⟩ : Buffer).table, p.cache.secondary.table, switchMode⟩ p.image
    p.cowCacheFull false = _
  rw [htable, himage, hfull, hsecondary]
  rfl

/-- A snapshot of the disk in primary mode shows the same disk in a new process, in fuzz mode and in
primary mode, where every later request has the result that it would have had in the old process. -/
theorem readPrimaryBuffer_dumpPrimaryBuffer (blk : BlockBackend) (image : ℕ → UInt8)
    (filename filenamePrefix : String) (fs : FileSystem) (inFuzzingMode inFuzzingMode' : Bool)
    (m m' n n' n'' : Memory) (rs : List Request) {responses : List Response} {c : Process}
    (hrun : (serveAll blk rs).run (start image filename inFuzzingMode m m') = (.ok responses, c)) :
    ∃ fs' c', (do switchToFuzzMode; dumpPrimaryBuffer filenamePrefix fs).run c = (.ok fs', c') ∧
      ∀ switchMode, ∃ p, (readPrimaryBuffer n filenamePrefix switchMode fs').run
          (start image filename inFuzzingMode' n' n'') = (.ok (), p) ∧
        (∀ offset qiov, ∃ r, ((cowCacheReadEntry blk offset qiov).run c).1 = .ok r ∧
          ((cowCacheReadEntry blk offset qiov).run p).1 = .ok r) ∧
        (switchMode = false → ∀ rs', ((serveAll blk rs').run p).1 = ((serveAll blk rs').run c).1 ∧
          ∀ e, ((serveAll blk rs').run c).1 = .error e → e = .abort .primaryFull) := by
  obtain ⟨hstart, hvalid⟩ := start_spec image filename inFuzzingMode m m'
  obtain ⟨hstart', hvalid'⟩ := start_spec image filename inFuzzingMode' n' n''
  obtain ⟨habs, hc⟩ := (refines_serveAll blk rs).of_ok hvalid hrun
  rw [hstart] at habs
  have hprimary := (BlockCow.primary_serveAll blk rs).ok (BlockCow.primary_cowCacheNew image) habs
  have hdisk : c.disk = (image, filename) := by
    have hkeeps := keeps_serveAll blk rs (start image filename inFuzzingMode m m')
    rwa [hrun] at hkeeps
  have himage : c.image = image := congrArg Prod.fst hdisk
  have hname : c.cache.filename = filename := congrArg Prod.snd hdisk
  obtain ⟨fs', c', hdump, hload⟩ := readPrimaryBuffer_spec hc hprimary hvalid'
    (hstart'.trans (by rw [himage])) hname.symm n filenamePrefix fs
  refine ⟨fs', c', hdump, fun switchMode => ?_⟩
  obtain ⟨p, hread, hp, hstate⟩ := hload switchMode
  refine ⟨p, hread, fun offset qiov => ?_, fun hmode rs' => ?_⟩
  · have hleft := (refines_cowCacheReadEntry blk offset qiov).outcome hc
    have hright := (refines_cowCacheReadEntry blk offset qiov).outcome hp
    have hsame : BlockCow.cowCacheReadEntry p.state blk offset qiov =
        BlockCow.cowCacheReadEntry c.state blk offset qiov := by
      cases switchMode with
      | true => rw [hstate, hprimary.read_switched]
      | false => rw [hstate, ← hprimary.fuzz]
    refine ⟨_, hleft, hright.trans ?_⟩
    show Except.ok (BlockCow.cowCacheReadEntry p.state blk offset qiov) = Except.ok _
    rw [hsame]
  · have hsame : p.state = c.state := by
      rw [hstate, hmode, ← hprimary.fuzz]
    have hleft := (refines_serveAll blk rs').outcome hc
    have hright := (refines_serveAll blk rs').outcome hp
    refine ⟨by rw [hleft, hright, hsame], fun e he => ?_⟩
    rw [hleft] at he
    rcases hout : (BlockCow.serveAll blk rs').run c.state with ⟨_ | _, t⟩
    next e' =>
      rw [hout] at he
      cases he
      rw [(BlockCow.primary_serveAll blk rs').error hprimary hout]
    next =>
      rw [hout] at he
      cases he

def savedProcess : Process :=
  ((serveAll BlockCow.smallDisk [.write 0 (BlockCow.oneChunk 1)]).run
    (start (fun _ => 0) "disk.img" false ⟨fun _ => 7, fun _ => 7⟩ ⟨fun _ => 8, fun _ => 8⟩)).2

theorem readPrimaryBuffer_oneChunk :
    ∃ fs' p, (readPrimaryBuffer ⟨fun _ => 5, fun _ => 5⟩ "/snap/fast" true fs').run
        (start (fun _ => 0) "disk.img" true ⟨fun _ => 1, fun _ => 1⟩ ⟨fun _ => 2, fun _ => 2⟩) =
          (.ok (), p) ∧
      (((cowCacheReadEntry BlockCow.smallDisk 0 (BlockCow.oneChunk 0)).run p).1.toOption.map
        fun r => r.2.byte 5) = some 1 := by
  have hok : ((serveAll BlockCow.smallDisk [.write 0 (BlockCow.oneChunk 1)]).run
      (start (fun _ => 0) "disk.img" false ⟨fun _ => 7, fun _ => 7⟩ ⟨fun _ => 8, fun _ => 8⟩)).1 =
        .ok [.write 4096] := rfl
  have hbyte : (((cowCacheReadEntry BlockCow.smallDisk 0 (BlockCow.oneChunk 0)).run
      savedProcess).1.toOption.map fun r => r.2.byte 5) = some 1 := by decide +kernel
  obtain ⟨fs', -, -, hload⟩ := readPrimaryBuffer_dumpPrimaryBuffer BlockCow.smallDisk (fun _ => 0)
    "disk.img" "/snap/fast" (fun _ => none) false true ⟨fun _ => 7, fun _ => 7⟩
    ⟨fun _ => 8, fun _ => 8⟩ ⟨fun _ => 5, fun _ => 5⟩ ⟨fun _ => 1, fun _ => 1⟩
    ⟨fun _ => 2, fun _ => 2⟩ [.write 0 (BlockCow.oneChunk 1)] (c := savedProcess) (Prod.ext hok rfl)
  obtain ⟨p, hread, hreads, -⟩ := hload true
  obtain ⟨r, hold, hnew⟩ := hreads 0 (BlockCow.oneChunk 0)
  refine ⟨fs', p, hread, ?_⟩
  rw [hnew, ← hold]
  exact hbyte

end Snapshot

end CowKhash

end Nyx
