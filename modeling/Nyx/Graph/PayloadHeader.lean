import Mathlib.Order.Interval.Finset.Nat
import Nyx.Graph.Interpreter

/-!
# The payload between fuzzer and guest

The payload that is shared with the guest. Every append changes its header, from which the guest
takes the areas and their sizes; it is always the `layout` of a `RefGraph`.
-/

namespace Nyx

/-- A `RefGraph` as `new_from_slice` makes it: the payload with the slices of the ops and of the
data. The positions `ops_i` and `data_i` are words of the payload. -/
structure SliceGraph where
  payload : List UInt8
  opsOffset : ℕ
  opsLen : ℕ
  dataOffset : ℕ
  dataLen : ℕ

def headerWord (payload : List UInt8) (i : ℕ) : ℕ := wordAt 8 payload (8 * i)

def setHeaderWord (payload : List UInt8) (i v : ℕ) : List UInt8 :=
  overwrite payload (8 * i) (toLeBytes 8 v)

/-- A change of bytes in place. -/
structure Edit where
  apply : List UInt8 → List UInt8
  length_apply : ∀ bs, (apply bs).length = bs.length

namespace SliceGraph

abbrev SliceM := Exec Panic SliceGraph

/-- `new_from_slice` on a payload at the address `ptr`. -/
def newFromSlice (ptr : ℕ) (payload : List UInt8) (checksum : UInt64) : Except Panic SliceGraph :=
  let headerLen := 8 * 5
  if payload.length < headerLen then .error .assertFailed
  else
    let dataLen := payload.length - headerLen
    let buffSize := dataLen / 2
    if dataLen % 8 ≠ 0 then .error .assertFailed
    else if ptr % 8 ≠ 0 then .error .assertFailed
    else
      let payload := setHeaderWord payload 0 checksum.toNat
      let payload := setHeaderWord payload 3 headerLen
      let payload := setHeaderWord payload 4 (headerLen + buffSize)
      if headerWord payload 4 + buffSize ≠ payload.length then .error .assertFailed
      else .ok {
        payload
        opsOffset := headerWord payload 3
        opsLen := buffSize / 2
        dataOffset := headerWord payload 4
        dataLen := buffSize }

def opsI (g : SliceGraph) : ℕ := headerWord g.payload 1

def dataI (g : SliceGraph) : ℕ := headerWord g.payload 2

def clear : SliceM Unit := Exec.modify fun g =>
  { g with payload := setHeaderWord (setHeaderWord g.payload 1 0) 2 0 }

/-- `append_op`. The position is read again after the op was written. -/
def appendOp (op : UInt16) : SliceM (Option Unit) := fun g =>
  if g.opsI < g.opsLen then
    let payload := overwrite g.payload (g.opsOffset + 2 * g.opsI) (toLeBytes 2 op.toNat)
    (.ok (some ()), { g with payload := setHeaderWord payload 1 (headerWord payload 1 + 1) })
  else (.ok none, g)

/-- `get_data`. The sum wraps around, and then the range is refused. -/
def getData (size : ℕ) : SliceM (Option Range) := fun g =>
  let stop := (g.dataI + size) % 2 ^ 64
  if stop ≤ g.dataLen then
    let start := g.dataI
    let g := { g with payload := setHeaderWord g.payload 2 stop }
    if start ≤ stop then (.ok (some ⟨start, stop⟩), g) else (.error .indexOutOfBounds, g)
  else (.ok none, g)

def fill (r : Range) (bs : List UInt8) : SliceM Unit := Exec.modify fun g =>
  { g with payload := overwrite g.payload (g.dataOffset + r.start) bs }

def appendData (bs : List UInt8) : SliceM (Option Range) := do
  match ← getData bs.length with
  | none => pure none
  | some r =>
    fill r bs
    pure (some r)

def slice (g : SliceGraph) (r : Range) : List UInt8 :=
  (g.payload.drop (g.dataOffset + r.start)).take r.len

end SliceGraph

inductive GraphCall where
  | clear
  | appendOp (op : UInt16)
  | appendData (bs : List UInt8) (edit : Edit)
  | getData (size : ℕ) (edit : Edit)

inductive GraphAnswer where
  | done
  | full
  | slice (bs : List UInt8)

namespace GraphCall

def requestSize : GraphCall → ℕ
  | clear | appendOp _ => 0
  | appendData bs _ => bs.length
  | getData size _ => size

def handOut (edit : Edit) : Option Range → SliceGraph.SliceM GraphAnswer
  | none => pure .full
  | some r => do
    let bs ← Exec.gets fun g => g.slice r
    SliceGraph.fill r (edit.apply bs)
    pure (.slice bs)

def perform : GraphCall → SliceGraph.SliceM GraphAnswer
  | clear => do
    SliceGraph.clear
    pure .done
  | appendOp op => do
    match ← SliceGraph.appendOp op with
    | some () => pure .done
    | none => pure .full
  | appendData bs edit => do
    let r ← SliceGraph.appendData bs
    handOut edit r
  | getData size edit => do
    let r ← SliceGraph.getData size
    handOut edit r

end GraphCall

/-- The ops and data that were appended. -/
structure AppendLog where
  ops : List UInt16
  data : List UInt8
  deriving DecidableEq, Repr

namespace AppendLog

def record (log : AppendLog) : GraphCall → GraphAnswer → AppendLog
  | .clear, _ => ⟨[], []⟩
  | _, .full => log
  | .appendOp op, _ => { log with ops := log.ops ++ [op] }
  | .appendData bs edit, _ => { log with data := log.data ++ edit.apply bs }
  | .getData _ edit, .slice bs => { log with data := log.data ++ edit.apply bs }
  | .getData _ _, .done => log

end AppendLog

def serveAll : List GraphCall → AppendLog → SliceGraph → Except Panic (AppendLog × SliceGraph)
  | [], log, g => .ok (log, g)
  | c :: calls, log, g =>
    match c.perform.run g with
    | (.ok answer, g) => serveAll calls (log.record c answer) g
    | (.error e, _) => .error e

def assert2 (c : Prop) [Decidable c] (text : String) : Except String Unit :=
  if c then .ok () else .error text

def opsAt (payload : List UInt8) (offset size : ℕ) : List UInt16 :=
  (List.range size).map fun i => UInt16.ofNat (wordAt 2 payload (offset + 2 * i))

/-- One round of `start_fuzzing` up to the interpreter, which is returned as it is set up. -/
def startFuzzing (payloadBuffer : List UInt8) (payloadSize : ℕ) (interpreterChecksum : UInt64) :
    Except String Interpreter := do
  let offsets := headerWord payloadBuffer
  assert2 (offsets 0 % 2 ^ 32 = interpreterChecksum.toNat % 2 ^ 32) "checksum"
  assert2 (offsets 1 < 0xffffff) "offset1"
  assert2 (offsets 2 < 0xffffff) "offset2"
  assert2 (offsets 3 < 0xffffff) "offset3"
  assert2 (offsets 4 < 0xffffff) "offset4"
  let graphSize := offsets 1
  let dataSize := offsets 2
  assert2 (offsets 3 + graphSize * 2 ≤ payloadSize) "graph_size"
  assert2 (offsets 4 + dataSize ≤ payloadSize) "data_size"
  pure (Interpreter.init (opsAt payloadBuffer (offsets 3) graphSize)
    ((payloadBuffer.drop (offsets 4)).take dataSize))

def opArea (payload : List UInt8) : Finset ℕ :=
  Finset.Ico (headerWord payload 3) (headerWord payload 3 + 2 * headerWord payload 1)

def dataArea (payload : List UInt8) : Finset ℕ :=
  Finset.Ico (headerWord payload 4) (headerWord payload 4 + headerWord payload 2)

/-! ### The payload as a graph -/

def layout (checksum opsI dataI : ℕ) (ops : List UInt16) (data : List UInt8) : List UInt8 :=
  leWords 8 [checksum, opsI, dataI, 40, 40 + data.length] ++
    (leWords 2 (ops.map UInt16.toNat) ++ data)

lemma headerWord_leWords {ns : List ℕ} {i n : ℕ} (hi : ns[i]? = some n) (hn : n < 2 ^ 64)
    (r : List UInt8) : headerWord (leWords 8 ns ++ r) i = n := wordAt_leWords hi hn r

lemma setHeaderWord_leWords {ns : List ℕ} {i : ℕ} (hi : i < ns.length) (v : ℕ) (r : List UInt8) :
    setHeaderWord (leWords 8 ns ++ r) i v = leWords 8 (ns.set i v) ++ r :=
  overwrite_leWords hi v r

section Layout

variable {checksum : ℕ} {ops : List UInt16} {data : List UInt8}

lemma layout_setOp {k : ℕ} (hk : k < ops.length) (op : UInt16) (i j : ℕ) :
    overwrite (layout checksum i j ops data) (40 + 2 * k) (toLeBytes 2 op.toNat) =
      layout checksum i j (ops.set k op) data := by
  have hlen : k < (ops.map UInt16.toNat).length := by rwa [List.length_map]
  rw [layout, overwrite_append_right (q := 2 * k) _ (by simp), overwrite_leWords hlen,
    ← List.map_set, layout]

lemma layout_setOpsI (i j v : ℕ) :
    setHeaderWord (layout checksum i j ops data) 1 v = layout checksum v j ops data :=
  setHeaderWord_leWords (by simp) v _

lemma layout_setDataI (i j v : ℕ) :
    setHeaderWord (layout checksum i j ops data) 2 v = layout checksum i v ops data :=
  setHeaderWord_leWords (by simp) v _

lemma layout_opsI {i : ℕ} (hi : i < 2 ^ 64) (j : ℕ) :
    headerWord (layout checksum i j ops data) 1 = i := headerWord_leWords rfl hi _

lemma layout_setData (hsame : 2 * ops.length = data.length) {k : ℕ} {bs : List UInt8}
    (hk : k + bs.length ≤ data.length) (i j : ℕ) :
    overwrite (layout checksum i j ops data) (40 + data.length + k) bs =
      layout checksum i j ops (overwrite data k bs) := by
  rw [layout, overwrite_append_right (q := data.length + k) _ (by simp; omega),
    overwrite_append_right (q := k) _ (by simp; omega), layout, length_overwrite hk]

lemma layout_slice (hsame : 2 * ops.length = data.length) (k i j : ℕ) :
    (layout checksum i j ops data).drop (40 + data.length + k) = data.drop k := by
  have hpos : 40 + data.length + k = (leWords 8 [checksum, i, j, 40, 40 + data.length] ++
      leWords 2 (ops.map UInt16.toNat)).length + k := by
    simp
    omega
  rw [layout, ← List.append_assoc, hpos, List.drop_length_add_append]

end Layout

/-! ### Calls on the graph -/

def GraphCall.onStorage {S : Type} [GraphStorage S] : GraphCall → S → GraphAnswer × S
  | .clear, s => (.done, GraphStorage.clear s)
  | .appendOp op, s =>
    match GraphStorage.appendOp s op with
    | some t => (.done, t)
    | none => (.full, s)
  | .appendData bs edit, s =>
    match GraphStorage.appendData s bs with
    | some t => (.slice bs, GraphStorage.setTail t (edit.apply bs))
    | none => (.full, s)
  | .getData size edit, s =>
    match GraphStorage.getData s size with
    | some t =>
      (.slice (GraphStorage.tail t size),
        GraphStorage.setTail t (edit.apply (GraphStorage.tail t size)))
    | none => (.full, s)

def AppendLog.Held {S : Type} [GraphStorage S] (log : AppendLog) (s : S) : Prop :=
  GraphStorage.opsAsSlice s = log.ops ∧ GraphStorage.dataAsSlice s = log.data

lemma GraphStorage.data_edit {S : Type} [GraphStorage S] {t : S} {d bs : List UInt8} (edit : Edit)
    (h : dataAsSlice t = d ++ bs) : dataAsSlice (setTail t (edit.apply bs)) = d ++ edit.apply bs := by
  have hlen : (edit.apply bs).length = bs.length := edit.length_apply bs
  rw [data_setTail t (edit.apply bs) (by rw [h, hlen, List.length_append]; omega), h, hlen,
    List.length_append, Nat.add_sub_cancel, List.take_left]

lemma GraphStorage.tail_eq {S : Type} [GraphStorage S] {t : S} {d bs : List UInt8}
    (h : dataAsSlice t = d ++ bs) : tail t bs.length = bs := by
  rw [tail, dataLen, h, List.length_append, Nat.add_sub_cancel, List.drop_left]

lemma AppendLog.Held.onStorage {S : Type} [GraphStorage S] {log : AppendLog} {s : S}
    (h : log.Held s) (c : GraphCall) : (log.record c (c.onStorage s).1).Held (c.onStorage s).2 := by
  obtain ⟨ops, data⟩ := log
  obtain ⟨rfl, rfl⟩ := h
  cases c with
  | clear => exact ⟨GraphStorage.ops_clear s, GraphStorage.data_clear s⟩
  | appendOp op =>
    cases ht : GraphStorage.appendOp s op with
    | none =>
      simp only [GraphCall.onStorage, ht]
      exact ⟨rfl, rfl⟩
    | some t =>
      simp only [GraphCall.onStorage, ht]
      exact ⟨GraphStorage.ops_appendOp s op t ht, GraphStorage.data_appendOp s op t ht⟩
  | appendData bs edit =>
    cases ht : GraphStorage.appendData s bs with
    | none =>
      simp only [GraphCall.onStorage, ht]
      exact ⟨rfl, rfl⟩
    | some t =>
      have hdata := GraphStorage.data_appendData s bs t ht
      simp only [GraphCall.onStorage, ht]
      exact ⟨(GraphStorage.ops_setTail t _).trans (GraphStorage.ops_appendData s bs t ht),
        GraphStorage.data_edit edit hdata⟩
  | getData size edit =>
    cases ht : GraphStorage.getData s size with
    | none =>
      simp only [GraphCall.onStorage, ht]
      exact ⟨rfl, rfl⟩
    | some t =>
      have hops := GraphStorage.ops_getData s size t ht
      obtain ⟨bs, rfl, hdata⟩ := GraphStorage.data_getData s size t ht
      simp only [GraphCall.onStorage, ht, GraphStorage.tail_eq hdata]
      exact ⟨(GraphStorage.ops_setTail t _).trans hops, GraphStorage.data_edit edit hdata⟩

/-- The slice graph is the graph `r` in a payload with this checksum and room for `cap` bytes. -/
structure Placed (checksum : UInt64) (cap : ℕ) (g : SliceGraph) (r : RefGraph) : Prop where
  payload : g.payload = layout checksum.toNat r.opsI r.dataI r.ops r.data
  opsOffset : g.opsOffset = 40
  opsLen : g.opsLen = r.ops.length
  dataOffset : g.dataOffset = 40 + r.data.length
  dataLen : g.dataLen = r.data.length
  same : 2 * r.ops.length = r.data.length
  cap_eq : r.data.length = cap
  small : 40 + 2 * r.data.length < 0xffffff

namespace Placed

variable {checksum : UInt64} {cap : ℕ} {g : SliceGraph} {r : RefGraph}

variable (h : Placed checksum cap g r)
include h

lemma headerWord_eq :
    headerWord g.payload 0 = checksum.toNat ∧ headerWord g.payload 1 = r.opsI ∧
      headerWord g.payload 2 = r.dataI ∧ headerWord g.payload 3 = 40 ∧
      headerWord g.payload 4 = 40 + r.data.length := by
  have hsmall := h.small
  have hopsI := r.opsI_le
  have hdataI := r.dataI_le
  have hsame := h.same
  rw [h.payload, layout]
  exact ⟨headerWord_leWords rfl checksum.toNat_lt _, headerWord_leWords rfl (by omega) _,
    headerWord_leWords rfl (by omega) _, headerWord_leWords rfl (by omega) _,
    headerWord_leWords rfl (by omega) _⟩

lemma opsI_eq : g.opsI = r.opsI := h.headerWord_eq.2.1

lemma dataI_eq : g.dataI = r.dataI := h.headerWord_eq.2.2.1

lemma of_payload {r' : RefGraph} {payload : List UInt8}
    (hops : r'.ops.length = r.ops.length) (hdata : r'.data.length = r.data.length)
    (hp : payload = layout checksum.toNat r'.opsI r'.dataI r'.ops r'.data) :
    Placed checksum cap { g with payload } r' where
  payload := hp
  opsOffset := h.opsOffset
  opsLen := h.opsLen.trans hops.symm
  dataOffset := by rw [hdata]; exact h.dataOffset
  dataLen := h.dataLen.trans hdata.symm
  same := by rw [hops, hdata]; exact h.same
  cap_eq := hdata.trans h.cap_eq
  small := by rw [hdata]; exact h.small

lemma clear : ∃ g', SliceGraph.clear.run g = (.ok (), g') ∧ Placed checksum cap g' r.clear := by
  refine ⟨_, rfl, h.of_payload rfl rfl ?_⟩
  rw [h.payload, layout_setOpsI, layout_setDataI]
  rfl

lemma appendOp_some (op : UInt16) {r' : RefGraph} (hr : r.appendOp op = some r') :
    ∃ g', (SliceGraph.appendOp op).run g = (.ok (some ()), g') ∧ Placed checksum cap g' r' := by
  unfold RefGraph.appendOp at hr
  split at hr
  · next hlt =>
    have hroom : g.opsI < g.opsLen := by rwa [h.opsI_eq, h.opsLen]
    have hbound : r.opsI < 2 ^ 64 := by
      have hsmall := h.small
      have hsame := h.same
      omega
    cases hr
    refine ⟨_, if_pos hroom, h.of_payload List.length_set rfl ?_⟩
    rw [h.opsI_eq, h.opsOffset, h.payload, layout_setOp hlt, layout_opsI hbound, layout_setOpsI]
  · cases hr

lemma appendOp_none (op : UInt16) (hr : r.appendOp op = none) :
    (SliceGraph.appendOp op).run g = (.ok none, g) := by
  unfold RefGraph.appendOp at hr
  split at hr
  · cases hr
  · next hfull =>
    apply if_neg
    rwa [h.opsI_eq, h.opsLen]

lemma stop_eq {size : ℕ} (hsize : size < 2 ^ 63) : (g.dataI + size) % 2 ^ 64 = r.dataI + size := by
  have hsmall := h.small
  have hle := r.dataI_le
  rw [h.dataI_eq, Nat.mod_eq_of_lt]
  omega

lemma getData_some {size : ℕ} (hsize : size < 2 ^ 63) {r' : RefGraph}
    (hr : r.getData size = some r') :
    r'.dataI = r.dataI + size ∧ ∃ g', (SliceGraph.getData size).run g =
      (.ok (some ⟨r.dataI, r.dataI + size⟩), g') ∧ Placed checksum cap g' r' := by
  unfold RefGraph.getData at hr
  split at hr
  · next hfits =>
    cases hr
    have hrun : (SliceGraph.getData size).run g = (.ok (some ⟨r.dataI, r.dataI + size⟩),
        { g with payload := setHeaderWord g.payload 2 (r.dataI + size) }) := by
      have hroom : r.dataI + size ≤ g.dataLen := by rwa [h.dataLen]
      simp only [Exec.run, SliceGraph.getData]
      rw [h.stop_eq hsize, h.dataI_eq, if_pos hroom, if_pos (Nat.le_add_right _ _)]
    refine ⟨rfl, _, hrun, h.of_payload rfl rfl ?_⟩
    rw [h.payload, layout_setDataI]
  · cases hr

lemma getData_none {size : ℕ} (hsize : size < 2 ^ 63)
    (hr : r.getData size = none) : (SliceGraph.getData size).run g = (.ok none, g) := by
  unfold RefGraph.getData at hr
  split at hr
  · cases hr
  · next hfull =>
    have hfull' : ¬(g.dataI + size) % 2 ^ 64 ≤ g.dataLen := by rwa [h.stop_eq hsize, h.dataLen]
    exact if_neg hfull'

lemma fill {start : ℕ} (stop : ℕ) {bs : List UInt8}
    (hfits : start + bs.length ≤ r.data.length) {r' : RefGraph} (hr : r' = { r with
      data := overwrite r.data start bs
      dataI_le := by rw [length_overwrite hfits]; exact r.dataI_le }) :
    ∃ g', (SliceGraph.fill ⟨start, stop⟩ bs).run g = (.ok (), g') ∧ Placed checksum cap g' r' := by
  subst hr
  refine ⟨_, rfl, h.of_payload rfl (length_overwrite hfits) ?_⟩
  rw [h.payload, h.dataOffset, layout_setData h.same hfits]

lemma appendData_some {bs : List UInt8} (hsize : bs.length < 2 ^ 63)
    {r' : RefGraph} (hr : r.appendData bs = some r') :
    r'.dataI = r.dataI + bs.length ∧ ∃ g', (SliceGraph.appendData bs).run g =
      (.ok (some ⟨r.dataI, r.dataI + bs.length⟩), g') ∧ Placed checksum cap g' r' := by
  unfold RefGraph.appendData at hr
  split at hr
  · next hfits =>
    cases hr
    obtain ⟨-, g₁, hget, hg₁⟩ := h.getData_some hsize (dif_pos hfits)
    obtain ⟨g₂, hfill, hg₂⟩ := hg₁.fill (r.dataI + bs.length) hfits rfl
    refine ⟨rfl, g₂, ?_, hg₂⟩
    rw [SliceGraph.appendData, Exec.run_bind_ok hget, Exec.run_bind_ok hfill]
    rfl
  · cases hr

lemma appendData_none {bs : List UInt8} (hsize : bs.length < 2 ^ 63)
    (hr : r.appendData bs = none) : (SliceGraph.appendData bs).run g = (.ok none, g) := by
  have hget : r.getData bs.length = none := by
    unfold RefGraph.appendData at hr
    split at hr
    · cases hr
    · next hfull => exact dif_neg hfull
  rw [SliceGraph.appendData, Exec.run_bind_ok (h.getData_none hsize hget)]
  rfl

lemma handOut {start n : ℕ} (hn : start + n = r.dataI) (edit : Edit) :
    ∃ g', (GraphCall.handOut edit (some ⟨start, start + n⟩)).run g =
        (.ok (.slice (GraphStorage.tail r n)), g') ∧
      Placed checksum cap g' (GraphStorage.setTail r (edit.apply (GraphStorage.tail r n))) := by
  have hle := r.dataI_le
  have hslice : g.slice ⟨start, start + n⟩ = GraphStorage.tail r n := by
    have hlen : (r.data.take r.dataI).length = r.dataI := by simp [hle]
    show (g.payload.drop (g.dataOffset + start)).take (start + n - start) =
      (r.data.take r.dataI).drop ((r.data.take r.dataI).length - n)
    rw [h.payload, h.dataOffset, layout_slice h.same, hlen, List.drop_take, ← hn]
    simp only [Nat.add_sub_cancel, Nat.add_sub_cancel_left]
  have hlen : (edit.apply (GraphStorage.tail r n)).length = n := by
    rw [edit.length_apply, ← hslice, SliceGraph.slice, h.payload, h.dataOffset,
      layout_slice h.same, List.length_take, List.length_drop]
    show min (start + n - start) (r.data.length - start) = n
    omega
  have hset : GraphStorage.setTail r (edit.apply (GraphStorage.tail r n)) = { r with
      data := overwrite r.data start (edit.apply (GraphStorage.tail r n))
      dataI_le := by rw [length_overwrite (by omega)]; exact r.dataI_le } := by
    show RefGraph.setTail r _ = _
    have hstart : r.dataI - (edit.apply (GraphStorage.tail r n)).length = start := by omega
    have hstop : r.dataI = start + (edit.apply (GraphStorage.tail r n)).length := by omega
    rw [RefGraph.setTail, dif_pos (by omega)]
    simp only [overwrite, hstart, ← hstop]
  obtain ⟨g', hfill, hg'⟩ := h.fill (start + n) (by omega) hset
  refine ⟨g', ?_, hg'⟩
  rw [GraphCall.handOut, Exec.run_gets_bind, hslice, Exec.run_bind_ok hfill]
  rfl

lemma perform {c : GraphCall} (hc : c.requestSize < 2 ^ 63) :
    ∃ g', c.perform.run g = (.ok (c.onStorage r).1, g') ∧ Placed checksum cap g' (c.onStorage r).2 := by
  cases c with
  | clear =>
    obtain ⟨g', hrun, hg'⟩ := h.clear
    exact ⟨g', Exec.run_bind_ok hrun, hg'⟩
  | appendOp op =>
    cases hr : r.appendOp op with
    | none =>
      simp only [GraphCall.onStorage, GraphStorage.appendOp, hr]
      exact ⟨g, Exec.run_bind_ok (h.appendOp_none op hr), h⟩
    | some r' =>
      simp only [GraphCall.onStorage, GraphStorage.appendOp, hr]
      obtain ⟨g', hrun, hg'⟩ := h.appendOp_some op hr
      exact ⟨g', Exec.run_bind_ok hrun, hg'⟩
  | appendData bs edit =>
    cases hr : r.appendData bs with
    | none =>
      simp only [GraphCall.onStorage, GraphStorage.appendData, hr]
      exact ⟨g, Exec.run_bind_ok (h.appendData_none hc hr), h⟩
    | some r' =>
      have htail : GraphStorage.tail r' bs.length = bs :=
        GraphStorage.tail_eq (GraphStorage.data_appendData r bs r' hr)
      simp only [GraphCall.onStorage, GraphStorage.appendData, hr]
      obtain ⟨hpos, g₁, hrun, hg₁⟩ := h.appendData_some hc hr
      obtain ⟨g₂, hedit, hg₂⟩ := hg₁.handOut hpos.symm edit
      rw [htail] at hedit hg₂
      refine ⟨g₂, ?_, hg₂⟩
      rw [GraphCall.perform, Exec.run_bind_ok hrun]
      exact hedit
  | getData size edit =>
    cases hr : r.getData size with
    | none =>
      simp only [GraphCall.onStorage, GraphStorage.getData, hr]
      exact ⟨g, Exec.run_bind_ok (h.getData_none hc hr), h⟩
    | some r' =>
      simp only [GraphCall.onStorage, GraphStorage.getData, hr]
      have hsize : size < 2 ^ 63 := hc
      obtain ⟨hpos, g₁, hrun, hg₁⟩ := h.getData_some hsize hr
      obtain ⟨g₂, hedit, hg₂⟩ := hg₁.handOut hpos.symm edit
      refine ⟨g₂, ?_, hg₂⟩
      rw [GraphCall.perform, Exec.run_bind_ok hrun]
      exact hedit

lemma serveAll {log : AppendLog} (hlog : log.Held r)
    {calls : List GraphCall} (hcalls : ∀ c ∈ calls, c.requestSize < 2 ^ 63) :
    ∃ log' g' r', Nyx.serveAll calls log g = .ok (log', g') ∧ Placed checksum cap g' r' ∧
      log'.Held r' := by
  induction calls generalizing log g r with
  | nil => exact ⟨log, g, r, rfl, h, hlog⟩
  | cons c calls ih =>
    obtain ⟨g', hrun, hg'⟩ := h.perform (hcalls c List.mem_cons_self)
    obtain ⟨log'', g'', r'', hall, hg'', hlog''⟩ :=
      ih hg' (hlog.onStorage c) fun d hd => hcalls d (List.mem_cons_of_mem c hd)
    refine ⟨log'', g'', r'', ?_, hg'', hlog''⟩
    rw [Nyx.serveAll, hrun]
    exact hall

end Placed

lemma exists_layout {payload : List UInt8} {k : ℕ} (h : payload.length = 40 + 4 * k) :
    ∃ (ws : List ℕ) (ops : List UInt16) (data : List UInt8), ws.length = 5 ∧ ops.length = k ∧
      data.length = 2 * k ∧ payload = leWords 8 ws ++ (leWords 2 (ops.map UInt16.toNat) ++ data) := by
  have hhead : (payload.take 40).length = 8 * 5 := by
    rw [List.length_take]
    omega
  have hops : ((payload.drop 40).take (2 * k)).length = 2 * k := by
    rw [List.length_take, List.length_drop]
    omega
  obtain ⟨ws, hws, -, hhead⟩ := exists_leWords hhead
  obtain ⟨ns, hns, hlt, hops⟩ := exists_leWords hops
  refine ⟨ws, ns.map UInt16.ofNat, (payload.drop 40).drop (2 * k), hws, ?_, ?_, ?_⟩
  · rw [List.length_map, hns]
  · rw [List.length_drop, List.length_drop]
    omega
  · rw [map_toNat_map_ofNat hlt, ← hhead, ← hops, List.take_append_drop, List.take_append_drop]

lemma newFromSlice_eq {ptr k : ℕ} {payload : List UInt8} (checksum : UInt64) (hptr : ptr % 8 = 0)
    (h : payload.length = 40 + 8 * k) (hsmall : payload.length < 0xffffff) :
    ∃ (i j : ℕ) (ops : List UInt16) (data : List UInt8), ops.length = 2 * k ∧
      data.length = 4 * k ∧ SliceGraph.newFromSlice ptr payload checksum =
        .ok ⟨layout checksum.toNat i j ops data, 40, 2 * k, 40 + 4 * k, 4 * k⟩ := by
  obtain ⟨ws, ops, data, hws, hops, hdata, rfl⟩ :=
    exists_layout (show payload.length = 40 + 4 * (2 * k) by omega)
  obtain ⟨a, i, j, b, c, rfl⟩ : ∃ a i j b c, ws = [a, i, j, b, c] := by
    match ws, hws with
    | [a, i, j, b, c], _ => exact ⟨a, i, j, b, c, rfl⟩
  refine ⟨i, j, ops, data, hops, by omega, ?_⟩
  have hset : setHeaderWord (setHeaderWord (setHeaderWord (leWords 8 [a, i, j, b, c] ++
      (leWords 2 (ops.map UInt16.toNat) ++ data)) 0 checksum.toNat) 3 (8 * 5)) 4 (8 * 5 + 4 * k) =
      layout checksum.toNat i j ops data := by
    have hend : 8 * 5 + 4 * k = 40 + data.length := by omega
    rw [hend, setHeaderWord_leWords (by simp), setHeaderWord_leWords (by simp),
      setHeaderWord_leWords (by simp)]
    rfl
  have hlen : (layout checksum.toNat i j ops data).length = 40 + 8 * k := by
    simp only [layout, List.length_append, length_leWords, List.length_cons, List.length_nil,
      List.length_map]
    omega
  have hoffset : headerWord (layout checksum.toNat i j ops data) 3 = 40 :=
    headerWord_leWords rfl (by decide) _
  have hdataOffset : headerWord (layout checksum.toNat i j ops data) 4 = 40 + 4 * k := by
    rw [show 40 + 4 * k = 40 + data.length by omega]
    exact headerWord_leWords rfl (by omega) _
  have hhalf : (40 + 8 * k - 8 * 5) / 2 = 4 * k := by omega
  unfold SliceGraph.newFromSlice
  simp only [h, hhalf, hset, hlen, hoffset, hdataOffset]
  rw [if_neg (by omega), if_neg (by omega), if_neg (by omega), if_neg (by omega)]
  have hquarter : 4 * k / 2 = 2 * k := by omega
  rw [hquarter]

lemma placed_clear {checksum : UInt64} {i j k : ℕ} {ops : List UInt16} {data : List UInt8}
    (hops : ops.length = 2 * k) (hdata : data.length = 4 * k) (hsmall : 40 + 8 * k < 0xffffff) :
    ∃ g, SliceGraph.clear.run ⟨layout checksum.toNat i j ops data, 40, 2 * k, 40 + 4 * k, 4 * k⟩ =
      (.ok (), g) ∧
      Placed checksum (4 * k) g ⟨ops, 0, data, 0, Nat.zero_le _, Nat.zero_le _⟩ := by
  refine ⟨_, rfl, ?_, rfl, hops.symm, ?_, hdata.symm, ?_, hdata, ?_⟩
  · show setHeaderWord (setHeaderWord (layout checksum.toNat i j ops data) 1 0) 2 0 =
      layout checksum.toNat 0 0 ops data
    rw [layout_setOpsI, layout_setDataI]
  · rw [hdata]
  · show 2 * ops.length = data.length
    omega
  · show 40 + 2 * data.length < 0xffffff
    omega

/-! ### The guest -/

lemma assert2_of {c : Prop} [Decidable c] (h : c) (text : String) : assert2 c text = .ok () :=
  if_pos h

lemma opsAt_layout {checksum i j n : ℕ} {ops : List UInt16} {data : List UInt8}
    (hn : n ≤ ops.length) : opsAt (layout checksum i j ops data) 40 n = ops.take n := by
  apply List.ext_getElem
  · simp only [opsAt, List.length_map, List.length_range, List.length_take]
    omega
  · intro m hm _
    have hm' : m < ops.length := by
      simp only [opsAt, List.length_map, List.length_range] at hm
      omega
    have hop : (ops.map UInt16.toNat)[m]? = some ops[m].toNat := by simp [hm']
    simp only [opsAt, List.getElem_map, List.getElem_range, List.getElem_take]
    rw [layout, wordAt_append_right (q := 2 * m) _ _ (by simp),
      wordAt_leWords hop ops[m].toNat_lt, UInt16.ofNat_toNat]

namespace Placed

variable {checksum : UInt64} {cap : ℕ} {g : SliceGraph} {r : RefGraph}

lemma startFuzzing (h : Placed checksum cap g r) :
    Nyx.startFuzzing g.payload (40 + 2 * cap) checksum =
      .ok (Interpreter.init (GraphStorage.opsAsSlice r) (GraphStorage.dataAsSlice r)) := by
  obtain ⟨hsum, hopsI, hdataI, hopsOffset, hdataOffset⟩ := h.headerWord_eq
  have hsmall := h.small
  have hsame := h.same
  have hcap := h.cap_eq
  have hople := r.opsI_le
  have hdatale := r.dataI_le
  unfold Nyx.startFuzzing
  simp only [hsum, hopsI, hdataI, hopsOffset, hdataOffset]
  rw [assert2_of trivial, assert2_of (by omega), assert2_of (by omega), assert2_of (by decide),
    assert2_of (by omega), assert2_of (by omega), assert2_of (by omega)]
  have hdata : (g.payload.drop (40 + r.data.length)) = r.data := by
    rw [h.payload]
    exact layout_slice h.same 0 r.opsI r.dataI
  rw [hdata, h.payload, opsAt_layout hople]
  rfl

lemma areas (h : Placed checksum cap g r) :
    Disjoint (opArea g.payload) (dataArea g.payload) ∧
      opArea g.payload ⊆ Finset.Ico 40 (40 + 2 * cap) ∧
      dataArea g.payload ⊆ Finset.Ico 40 (40 + 2 * cap) := by
  obtain ⟨-, hopsI, hdataI, hopsOffset, hdataOffset⟩ := h.headerWord_eq
  have hsame := h.same
  have hcap := h.cap_eq
  have hople := r.opsI_le
  have hdatale := r.dataI_le
  rw [opArea, dataArea, hopsI, hdataI, hopsOffset, hdataOffset]
  refine ⟨Finset.disjoint_left.mpr ?_, Finset.Ico_subset_Ico le_rfl (by omega),
    Finset.Ico_subset_Ico (by omega) (by omega)⟩
  intro x hx hx'
  rw [Finset.mem_Ico] at hx hx'
  omega

end Placed

/-- Whatever is called after a `clear`, the guest accepts the payload and sees what was appended. -/
theorem startFuzzing_serveAll (payload : List UInt8) (ptr : ℕ) (checksum : UInt64)
    (calls : List GraphCall) (hmin : 40 ≤ payload.length) (hmax : payload.length < 0xffffff)
    (hdiv : (payload.length - 40) % 8 = 0) (hptr : ptr % 8 = 0)
    (hcalls : ∀ c ∈ calls, c.requestSize ≤ payload.length) :
    ∃ g log g', SliceGraph.newFromSlice ptr payload checksum = .ok g ∧
      serveAll (.clear :: calls) ⟨[], []⟩ g = .ok (log, g') ∧
      startFuzzing g'.payload payload.length checksum = .ok (Interpreter.init log.ops log.data) ∧
      (Disjoint (opArea g'.payload) (dataArea g'.payload) ∧
        opArea g'.payload ⊆ Finset.Ico 40 payload.length ∧
        dataArea g'.payload ⊆ Finset.Ico 40 payload.length) ∧
      ∀ i ∈ [0, 3, 4], headerWord g'.payload i = headerWord g.payload i := by
  obtain ⟨k, hk⟩ : ∃ k, payload.length = 40 + 8 * k := ⟨(payload.length - 40) / 8, by omega⟩
  have hsize : payload.length = 40 + 2 * (4 * k) := by omega
  obtain ⟨i, j, ops, data, hops, hdata, hnew⟩ := newFromSlice_eq checksum hptr hk hmax
  obtain ⟨g₁, hclear, hg₁⟩ := placed_clear hops hdata (hk ▸ hmax)
  have hbound : ∀ c ∈ calls, c.requestSize < 2 ^ 63 := by
    intro c hc
    have := hcalls c hc
    omega
  have hempty : (⟨[], []⟩ : AppendLog).Held
      (⟨ops, 0, data, 0, Nat.zero_le _, Nat.zero_le _⟩ : RefGraph) := ⟨rfl, rfl⟩
  obtain ⟨log, g', r, hrun, hg', hops', hdata'⟩ := hg₁.serveAll hempty hbound
  refine ⟨_, log, g', hnew, ?_, ?_, ?_, ?_⟩
  · have hfirst : GraphCall.clear.perform.run _ = (.ok GraphAnswer.done, g₁) :=
      Exec.run_bind_ok hclear
    rw [serveAll, hfirst]
    exact hrun
  · rw [hsize, hg'.startFuzzing, hops', hdata']
  · rw [hsize]
    exact hg'.areas
  · -- every layout has the same words there
    obtain ⟨hsum, -, -, hopsOffset, hdataOffset⟩ := hg'.headerWord_eq
    have hcap := hg'.cap_eq
    intro m hm
    simp only [List.mem_cons, List.not_mem_nil, or_false] at hm
    rcases hm with rfl | rfl | rfl
    · rw [hsum]
      exact (headerWord_leWords rfl checksum.toNat_lt _).symm
    · rw [hopsOffset]
      exact (headerWord_leWords rfl (by decide) _).symm
    · rw [hdataOffset, hcap, ← hdata]
      exact (headerWord_leWords rfl (by omega) _).symm

def stalePayload : List UInt8 := List.replicate 56 0xff

def exampleCalls : List GraphCall :=
  [.appendOp 7, .getData 3 ⟨fun bs => List.replicate bs.length 9, by simp⟩,
    .appendData [1, 2] ⟨id, fun _ => rfl⟩, .appendOp 300, .appendData [1, 2, 3, 4] ⟨id, fun _ => rfl⟩]

theorem startFuzzing_stalePayload :
    ∃ g g', SliceGraph.newFromSlice 0x1000 stalePayload 0x474e534b = .ok g ∧
      serveAll (.clear :: exampleCalls) ⟨[], []⟩ g = .ok (⟨[7, 300], [9, 9, 9, 1, 2]⟩, g') ∧
      startFuzzing g'.payload 56 0x474e534b = .ok (Interpreter.init [7, 300] [9, 9, 9, 1, 2]) := by
  obtain ⟨g, log, g', hnew, hrun, hguest, -, -⟩ :=
    startFuzzing_serveAll stalePayload 0x1000 0x474e534b exampleCalls (by decide) (by decide)
      (by decide) (by decide) (by decide)
  have hlog : log = ⟨[7, 300], [9, 9, 9, 1, 2]⟩ := by
    have hcompute : ((SliceGraph.newFromSlice 0x1000 stalePayload 0x474e534b).toOption.bind fun g =>
        (serveAll (.clear :: exampleCalls) ⟨[], []⟩ g).toOption.map Prod.fst) =
          some ⟨[7, 300], [9, 9, 9, 1, 2]⟩ := by decide +kernel
    rw [hnew] at hcompute
    simp only [Except.toOption, Option.bind_some, hrun, Option.map_some, Option.some.injEq]
      at hcompute
    exact hcompute
  subst hlog
  exact ⟨g, g', hnew, hrun, hguest⟩

end Nyx
