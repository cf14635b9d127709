import Nyx.Graph.Storage
import Nyx.SpecLib.GraphBuilder

/-!
# Graph files

A header of five words with the checksum of the specification, the lengths and the offsets, then the
ops and the data. The fuzzer and the Python builder write this format, and `new_from_bin_file` reads
it.
-/

namespace Nyx

/-- The bytes of a graph file. Lengths are counted in ops and in bytes, offsets in bytes. -/
def graphFile (checksum : ℕ) (ops : List ℕ) (data : List UInt8) : List UInt8 :=
  leWords 8 [checksum, ops.length, data.length, 5 * 8, 5 * 8 + 2 * ops.length] ++
    (leWords 2 ops ++ data)

lemma length_graphFile (checksum : ℕ) (ops : List ℕ) (data : List UInt8) :
    (graphFile checksum ops data).length = 40 + 2 * ops.length + data.length := by
  simp only [graphFile, List.length_append, length_leWords, List.length_cons, List.length_nil]
  omega

namespace GraphStorage

variable {S : Type} [GraphStorage S]

/-- The body of `write_to_file`. A length is at most `isize::MAX`, so no word of the header
overflows. -/
def writeGraph (s : S) (spec : GraphSpec) : Exec Panic File Unit := do
  File.write .unwrapErr (toLeBytes 8 spec.checksum.toNat)
  File.write .unwrapErr (toLeBytes 8 (opsAsSlice s).length)
  File.write .unwrapErr (toLeBytes 8 (dataAsSlice s).length)
  File.write .unwrapErr (toLeBytes 8 (5 * 8))
  File.write .unwrapErr (toLeBytes 8 (5 * 8 + (opsAsSlice s).length * 2))
  Exec.forEach (opsAsSlice s) fun b => File.write .unwrapErr (toLeBytes 2 b.toNat)
  File.write .unwrapErr (dataAsSlice s)

def writeToFile (s : S) (spec : GraphSpec) : Except Panic File := File.create (writeGraph s spec)

def fileBytes (s : S) (spec : GraphSpec) : List UInt8 :=
  graphFile spec.checksum.toNat ((opsAsSlice s).map UInt16.toNat) (dataAsSlice s)

lemma writes_writeGraph (s : S) (spec : GraphSpec) :
    File.Writes .unwrapErr (writeGraph s spec) (fileBytes s spec) := by
  have hword (n : ℕ) : File.Writes Panic.unwrapErr (File.write .unwrapErr (toLeBytes 8 n))
      (toLeBytes 8 n) := File.writes_write _ _
  have hops : (opsAsSlice s).flatMap (fun b => toLeBytes 2 b.toNat) =
      leWords 2 ((opsAsSlice s).map UInt16.toNat) := by rw [leWords, List.flatMap_map]
  have hbody := (File.writes_forEach Panic.unwrapErr (fun b : UInt16 => toLeBytes 2 b.toNat)
    (opsAsSlice s)).bind (File.writes_write Panic.unwrapErr (dataAsSlice s))
  have hall := (hword spec.checksum.toNat).bind ((hword (opsAsSlice s).length).bind
    ((hword (dataAsSlice s).length).bind ((hword (5 * 8)).bind
      ((hword (5 * 8 + (opsAsSlice s).length * 2)).bind hbody))))
  rw [hops] at hall
  simp only [fileBytes, graphFile, leWords_cons, leWords_nil, List.length_map, List.append_nil,
    List.append_assoc, Nat.mul_comm 2]
  exact hall

lemma writeToFile_isOk_iff (s : S) (spec : GraphSpec) :
    (∃ file, writeToFile s spec = .ok file) ↔ (fileBytes s spec).length < 2 ^ 63 := by
  constructor
  · rintro ⟨file, h⟩
    rw [← (writes_writeGraph s spec).bytes_create h]
    exact file.size_lt
  · intro h
    exact ⟨_, (writes_writeGraph s spec).create_eq h⟩

end GraphStorage

namespace SpecLib.Builder

def fileBytes (b : Builder) : List UInt8 := graphFile b.spec.getChecksum b.ops b.data

lemma pack_eq_ok {w : ℕ} {ns : List ℕ} {bs : List UInt8} (h : pack w ns = .ok bs) :
    (∀ n ∈ ns, n < 256 ^ w) ∧ bs = leWords w ns := by
  unfold pack at h
  split at h
  · next hlt =>
    cases h
    exact ⟨hlt, rfl⟩
  · cases h

lemma pack_of_lt {w : ℕ} {ns : List ℕ} (h : ∀ n ∈ ns, n < 256 ^ w) :
    pack w ns = .ok (leWords w ns) := if_pos h

lemma writes_packed (b : Builder) : File.Writes PyError.osError (do
      File.write .osError (leWords 8 [b.spec.getChecksum, b.ops.length, b.data.length, 5 * 8,
        5 * 8 + 2 * b.ops.length])
      File.write .osError (leWords 2 b.ops)
      File.write .osError b.data) b.fileBytes :=
  (File.writes_write _ _).bind ((File.writes_write _ _).bind (File.writes_write _ _))

lemma writeToFile_eq_ok {b : Builder} {file : File} (h : b.writeToFile = .ok file) :
    (∀ op ∈ b.ops, op < 2 ^ 16) ∧ file.bytes = b.fileBytes := by
  obtain ⟨header, hheader, h⟩ := except_bind_eq_ok.mp h
  obtain ⟨graphData, hgraph, h⟩ := except_bind_eq_ok.mp h
  obtain ⟨-, rfl⟩ := pack_eq_ok hheader
  obtain ⟨hlt, rfl⟩ := pack_eq_ok hgraph
  exact ⟨hlt, b.writes_packed.bytes_create h⟩

lemma writeToFile_isOk_iff (b : Builder) : (∃ file, b.writeToFile = .ok file) ↔
    (∀ op ∈ b.ops, op < 2 ^ 16) ∧ b.fileBytes.length < 2 ^ 63 := by
  constructor
  · rintro ⟨file, h⟩
    obtain ⟨hlt, hbytes⟩ := writeToFile_eq_ok h
    rw [← hbytes]
    exact ⟨hlt, file.size_lt⟩
  · rintro ⟨hlt, hsize⟩
    have hlen := hsize
    rw [fileBytes, length_graphFile] at hlen
    have hheader : ∀ n ∈ [b.spec.getChecksum, b.ops.length, b.data.length, 5 * 8,
        5 * 8 + 2 * b.ops.length], n < 256 ^ 8 := by
      have hsum := b.spec.getChecksum_lt
      simp only [List.mem_cons, List.not_mem_nil, or_false]
      rintro n (rfl | rfl | rfl | rfl | rfl) <;> omega
    refine ⟨⟨b.fileBytes, hsize⟩, ?_⟩
    unfold writeToFile
    dsimp only
    rw [pack_of_lt hheader, pack_of_lt hlt]
    exact b.writes_packed.create_eq hsize

end SpecLib.Builder

namespace VecGraph

def readWord (w : ℕ) : Exec Panic Cursor ℕ := do
  let buffer ← Cursor.read w
  if buffer.length = w then pure (fromLeBytes buffer) else Exec.panic .assertFailed

def readOp : Exec Panic Cursor UInt16 := do
  let op ← readWord 2
  pure (UInt16.ofNat op)

def readHeader (spec : GraphSpec) : Exec Panic Cursor (ℕ × ℕ × ℕ × ℕ) := do
  let checksum ← readWord 8
  if checksum = spec.checksum.toNat then
    let numOps ← readWord 8
    let numData ← readWord 8
    let opOffset ← readWord 8
    let dataOffset ← readWord 8
    pure (numOps, numData, opOffset, dataOffset)
  else Exec.panic .assertFailed

def readGraph (spec : GraphSpec) : Exec Panic Cursor VecGraph := do
  let (numOps, numData, opOffset, dataOffset) ← readHeader spec
  Cursor.seek .unwrapErr opOffset
  let ops ← Cursor.times readOp numOps
  Cursor.seek .unwrapErr dataOffset
  let data ← Cursor.read numData
  if data.length = numData then pure ⟨ops, data⟩ else Exec.panic .unwrapErr

def newFromBinFile (file : File) (spec : GraphSpec) : Except Panic VecGraph :=
  ((readGraph spec).run (Cursor.start file)).1

lemma reads_readWord {w n : ℕ} (h : n < 256 ^ w) : Cursor.Reads (readWord w) (toLeBytes w n) n := by
  apply (Cursor.reads_read (length_toLeBytes w n)).map
  rw [if_pos (length_toLeBytes w n), fromLeBytes_toLeBytes_of_lt h]
  exact Cursor.reads_pure n

lemma reads_readOp (op : UInt16) : Cursor.Reads readOp (toLeBytes 2 op.toNat) op := by
  apply (reads_readWord op.toNat_lt).map
  rw [UInt16.ofNat_toNat]
  exact Cursor.reads_pure op

lemma reads_readHeader {spec : GraphSpec} {numOps numData opOffset dataOffset : ℕ}
    (hops : numOps < 2 ^ 64) (hdata : numData < 2 ^ 64) (hopOffset : opOffset < 2 ^ 64)
    (hdataOffset : dataOffset < 2 ^ 64) :
    Cursor.Reads (readHeader spec)
      (leWords 8 [spec.checksum.toNat, numOps, numData, opOffset, dataOffset])
      (numOps, numData, opOffset, dataOffset) := by
  apply (reads_readWord spec.checksum.toNat_lt).bind
  rw [if_pos rfl]
  apply (reads_readWord hops).bind
  apply (reads_readWord hdata).bind
  apply (reads_readWord hopOffset).bind
  apply (reads_readWord hdataOffset).bind
  exact Cursor.reads_pure _

lemma reads_ops (ops : List UInt16) : Cursor.Reads (Cursor.times readOp ops.length)
    (leWords 2 (ops.map UInt16.toNat)) ops := by
  rw [leWords, List.flatMap_map]
  exact Cursor.reads_times fun op _ => reads_readOp op

lemma newFromBinFile_graphFile {file : File} {spec : GraphSpec} {ops : List UInt16}
    {data : List UInt8} (h : file.bytes = graphFile spec.checksum.toNat (ops.map UInt16.toNat) data) :
    newFromBinFile file spec = .ok ⟨ops, data⟩ := by
  have hsize := file.size_lt
  rw [h, length_graphFile, List.length_map] at hsize
  rw [graphFile, List.length_map] at h
  have hheader : Cursor.Reads (readHeader spec) (leWords 8 [spec.checksum.toNat, ops.length,
      data.length, 5 * 8, 5 * 8 + 2 * ops.length])
      (ops.length, data.length, 5 * 8, 5 * 8 + 2 * ops.length) :=
    reads_readHeader (by omega) (by omega) (by decide) (by omega)
  -- both offsets are where the ops and the data start
  have hops : (⟨file, 5 * 8⟩ : Cursor).rest = leWords 2 (ops.map UInt16.toNat) ++ data :=
    Cursor.rest_at h (by simp)
  have hdata : (⟨file, 5 * 8 + 2 * ops.length⟩ : Cursor).rest = data ++ [] := by
    rw [← List.append_assoc] at h
    rw [List.append_nil]
    apply Cursor.rest_at h
    simp only [List.length_append, length_leWords, List.length_cons, List.length_nil,
      List.length_map]
  have hseek (c : Cursor) (hc : c.file = file) {p : ℕ} (hp : p < 2 ^ 63) :
      (Cursor.seek Panic.unwrapErr p).run c = (.ok (), ⟨file, p⟩) := by
    rw [Cursor.run_seek c hp, hc]
  unfold newFromBinFile readGraph
  rw [Exec.run_bind_ok (hheader (Cursor.start file) _ h)]
  rw [Exec.run_bind_ok (hseek _ rfl (by decide)), Exec.run_bind_ok (reads_ops ops _ data hops),
    Exec.run_bind_ok (hseek _ rfl (by omega)),
    Exec.run_bind_ok (Cursor.reads_read rfl _ [] hdata), if_pos rfl]
  rfl

end VecGraph

open SpecLib (Spec BuilderValue Builder)

theorem newFromBinFile_writeToFile {S : Type} [GraphStorage S] (s : S) (b : Builder)
    (spec : GraphSpec) :
    (∀ file, GraphStorage.writeToFile s spec = .ok file →
      VecGraph.newFromBinFile file spec =
        .ok ⟨GraphStorage.opsAsSlice s, GraphStorage.dataAsSlice s⟩) ∧
    ((∃ file, GraphStorage.writeToFile s spec = .ok file) ↔
      40 + 2 * GraphStorage.opLen s + GraphStorage.dataLen s < 2 ^ 63) ∧
    (∀ file, b.writeToFile = .ok file → b.spec.getChecksum = spec.checksum.toNat →
      ∃ g, VecGraph.newFromBinFile file spec = .ok g ∧ g.ops.map UInt16.toNat = b.ops ∧
        g.data = b.data) ∧
    ((∃ file, b.writeToFile = .ok file) ↔
      (∀ op ∈ b.ops, op < 2 ^ 16) ∧ 40 + 2 * b.ops.length + b.data.length < 2 ^ 63) := by
  refine ⟨?_, ?_, ?_, ?_⟩
  · intro file h
    exact VecGraph.newFromBinFile_graphFile ((GraphStorage.writes_writeGraph s spec).bytes_create h)
  · rw [GraphStorage.writeToFile_isOk_iff, GraphStorage.fileBytes, length_graphFile,
      List.length_map]
    rfl
  · intro file h hsum
    obtain ⟨hlt, hbytes⟩ := Builder.writeToFile_eq_ok h
    have hops : (b.ops.map UInt16.ofNat).map UInt16.toNat = b.ops := map_toNat_map_ofNat hlt
    refine ⟨⟨b.ops.map UInt16.ofNat, b.data⟩, VecGraph.newFromBinFile_graphFile ?_, hops, rfl⟩
    rw [hops, ← hsum]
    exact hbytes
  · rw [Builder.writeToFile_isOk_iff, Builder.fileBytes, length_graphFile]

def seed : Builder :=
  (Builder.new ⟨[⟨0, "open", [], [], [0], none⟩, ⟨1, "write", [], [0], [], some (.vec [1, 3])⟩], 0,
    by decide⟩ [] fun i => i).buildAll [("open", []), ("write", [0])]

def seedGraph : VecGraph := ⟨[0, 0, 1, 0], [1, 0, 66]⟩

def seedSpec : GraphSpec := { GraphSpec.new with checksum := 0x474e534b }

theorem newFromBinFile_seed :
    seed.ops = [0, 0, 1, 0] ∧ seed.data = [1, 0, 66] ∧
    (∃ file, GraphStorage.writeToFile seedGraph seedSpec = .ok file ∧
      VecGraph.newFromBinFile file seedSpec = .ok seedGraph) ∧
    (∃ file, seed.writeToFile = .ok file ∧ ∃ g, VecGraph.newFromBinFile file seedSpec = .ok g ∧
      g.ops.map UInt16.toNat = seed.ops ∧ g.data = seed.data) := by
  have hops : seed.ops = [0, 0, 1, 0] := by decide +kernel
  have hdata : seed.data = [1, 0, 66] := by decide +kernel
  obtain ⟨hgraph, hmade, hseed, hbuilt⟩ := newFromBinFile_writeToFile seedGraph seed seedSpec
  obtain ⟨file, hfile⟩ := hmade.mpr (by decide)
  obtain ⟨file', hfile'⟩ := hbuilt.mpr (by rw [hops, hdata]; decide)
  exact ⟨hops, hdata, ⟨file, hfile, hgraph file hfile⟩,
    file', hfile', hseed file' hfile' (by decide +kernel)⟩

end Nyx
