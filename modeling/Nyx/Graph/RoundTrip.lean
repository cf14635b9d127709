import Mathlib.Data.List.Induction
import Nyx.Graph.Affine

/-!
# Reading back what the builder stores

The node iterator finds the data from the specification and the size in front of a vector, which
does not fit its two bytes from `2 ^ 16` bytes on.
-/

namespace Nyx

open Exec (Triple Keeps run_bind_ok run_gets_bind)

open GraphStorage

lemma lengthPrefix_sizePrefix (size : ℕ) :
    lengthPrefix (UInt8.ofNat (size &&& 0xff)) (UInt8.ofNat ((size >>> 8) &&& 0xff)) =
      size % 65536 := by
  have hmask : ∀ k : ℕ, (UInt8.ofNat (k &&& 0xff)).toNat = k % 256 := by
    intro k
    have hand : k &&& 0xff = k % 2 ^ 8 := Nat.and_two_pow_sub_one_eq_mod k 8
    rw [hand, UInt8.toNat_ofNat']
    omega
  rw [lengthPrefix, hmask, hmask, Nat.or_comm,
    ← Nat.shiftLeft_add_eq_or_of_lt (Nat.mod_lt _ (by decide) : size % 256 < 2 ^ 8),
    Nat.shiftLeft_eq, Nat.shiftRight_eq_div_pow]
  omega

def DataVec.maxElems (sizeRange : ℕ × ℕ) (primitiveSize available : ℕ) : ℕ :=
  if sizeRange.1 < usizeSub available 2 / primitiveSize then
    min sizeRange.2 (usizeSub available 2 / primitiveSize) - 1
  else usizeSub available 2 / primitiveSize

lemma DataVec.NumElems.le_maxElems {sizeRange : ℕ × ℕ} {primitiveSize available num : ℕ}
    (h : DataVec.NumElems sizeRange primitiveSize available num) :
    num ≤ DataVec.maxElems sizeRange primitiveSize available := by
  obtain ⟨-, h⟩ := h
  unfold DataVec.maxElems
  split at h
  · rename_i hlt
    rw [if_pos hlt]
    omega
  · rename_i hlt
    rw [if_neg hlt]
    exact h.le

/-- The size of a vector generated with `available` bytes of room fits in two bytes. -/
def AtomicDataType.SizeFits (available : ℕ) : AtomicDataType → Prop
  | dataInt _ _ | dataStruct _ _ => True
  | dataVec sizeRange primitiveSize _ =>
    DataVec.maxElems sizeRange primitiveSize available * primitiveSize < 65536

section Fits

variable {g : GraphSpec} {d : AtomicTypeID} {spec : AtomicSpec} {bytes : List UInt8}

lemma dataFits_of_generated {available : ℕ} (hd : g.getData d = .ok spec)
    (h : spec.atomicType.Generated available bytes) (hfits : spec.atomicType.SizeFits available) :
    DataFits g (some d) bytes := by
  refine ⟨spec, hd, ?_⟩
  cases hs : spec.atomicType with
  | dataInt size generators => exact h.length (by rw [hs]; rfl)
  | dataStruct size fields => exact h.length (by rw [hs]; rfl)
  | dataVec sizeRange primitiveSize dtype =>
    rw [hs] at h hfits
    obtain ⟨num, rest, hnum, -, hrest, rfl⟩ := h
    have hle : num * primitiveSize ≤ DataVec.maxElems sizeRange primitiveSize available * primitiveSize :=
      Nat.mul_le_mul_right _ hnum.le_maxElems
    have hlt : num * primitiveSize < 65536 := Nat.lt_of_le_of_lt hle hfits
    refine ⟨_, _, rest, rfl, ?_⟩
    rw [lengthPrefix_sizePrefix, Nat.mod_eq_of_lt hlt, hrest]

lemma dataFits_of_mutated {data : List UInt8} (hd : g.getData d = .ok spec)
    (h : DataFits g (some d) data) (hlen : bytes.length = data.length)
    (hlead : spec.atomicType.size = .dynamic → bytes.take 2 = data.take 2) :
    DataFits g (some d) bytes := by
  obtain ⟨spec', hd', h⟩ := h
  obtain rfl : spec = spec' := Except.ok.inj (hd.symm.trans hd')
  refine ⟨spec, hd, ?_⟩
  cases hs : spec.atomicType.size with
  | fixed n =>
    rw [hs] at h
    exact hlen.trans h
  | dynamic =>
    rw [hs] at h
    obtain ⟨lo, hi, rest, rfl, hrest⟩ := h
    have htake := hlead hs
    rcases bytes with _ | ⟨lo', _ | ⟨hi', rest'⟩⟩
    · simp at hlen
    · simp at hlen
    · simp only [List.take_succ_cons, List.take_zero, List.cons.injEq, and_true] at htake
      obtain ⟨rfl, rfl⟩ := htake
      refine ⟨lo', hi', rest', rfl, ?_⟩
      have hlen' : rest'.length = rest.length := by simpa using hlen
      rw [hlen', hrest]

end Fits

variable {S : Type} [GraphStorage S]

/-- The ops `xs` were appended, and nothing else. -/
structure Wrote (s : S) (xs : List UInt16) (t : S) : Prop where
  ops : opsAsSlice t = opsAsSlice s ++ xs
  data : dataAsSlice t = dataAsSlice s
  opsRoom : opsAvailable s ≤ opsAvailable t + xs.length
  dataRoom : dataAvailable t = dataAvailable s

def put (s : S) (x : UInt16) : S := (GraphStorage.appendOp s x).getD s

lemma wrote_foldl {s : S} {xs : List UInt16} (hroom : xs.length ≤ opsAvailable s) :
    Wrote s xs (xs.foldl put s) := by
  induction xs using List.reverseRecOn with
  | nil => exact ⟨(List.append_nil _).symm, rfl, le_rfl, rfl⟩
  | append_singleton xs x ih =>
    rw [List.length_append, List.length_singleton] at hroom
    have h := ih (by omega)
    rw [List.foldl_append]
    set t := xs.foldl put s
    have hpos : 0 < opsAvailable t := by
      have := h.opsRoom
      omega
    obtain ⟨t', ht'⟩ := exists_appendOp t x hpos
    have hput : [x].foldl put t = t' := by simp [put, ht']
    rw [hput]
    refine ⟨?_, ?_, ?_, ?_⟩
    · rw [ops_appendOp _ _ _ ht', h.ops, List.append_assoc]
    · rw [data_appendOp _ _ _ ht', h.data]
    · have hone := opsAvailable_appendOp _ _ _ ht'
      have hroom' := h.opsRoom
      rw [List.length_append, List.length_singleton]
      omega
    · rw [dataAvailable_appendOp _ _ _ ht', h.dataRoom]

def PutNode (s : S) (id : NodeTypeID) (k : ℕ) (t : S) : Prop :=
  ∃ cs : List ConnectorID, cs.length = k ∧ t = (id :: cs).foldl put s

namespace GraphBuilder

variable {g : GraphSpec} {s : S} {id : NodeTypeID} {k : ℕ}

omit [GraphStorage S] in
lemma keeps_onValue {α : Type} (v : ValueTypeID) (m : ValM α) :
    Keeps BuildState.graph (onValue v m : BuildM S α) :=
  Keeps.zoom_frame m fun _ _ => rfl

omit [GraphStorage S] in
lemma keeps_renameAndRelinkOpVal (op : GraphOp) :
    Keeps BuildState.graph (renameAndRelinkOpVal op : BuildM S UInt16) := by
  cases op with
  | node n => exact Keeps.pure n
  | get v c | pass v c | set v c => exact keeps_onValue v _

lemma putConnector_spec {m : BuildM S UInt16} (hm : Keeps BuildState.graph m) :
    Triple (fun st => PutNode s id k st.graph) (m >>= appendOp)
      (fun _ st => PutNode s id (k + 1) st.graph) (fun _ _ => True) := by
  rintro st ⟨cs, hcs, hput⟩
  have hgraph := hm st
  rw [Exec.run_bind]
  rcases hr : m.run st with ⟨r, st'⟩
  rw [hr] at hgraph
  cases r with
  | error e => trivial
  | ok x =>
    refine ⟨cs ++ [x], by simp [hcs], ?_⟩
    show put st'.graph x = _
    rw [show st'.graph = st.graph from hgraph, hput, ← List.cons_append, List.foldl_append]
    rfl

lemma putConnectors_spec {α : Type} {m : α → BuildM S UInt16}
    (hm : ∀ a, Keeps BuildState.graph (m a)) (as : List α) :
    Triple (fun st => PutNode s id k st.graph) (Exec.forEach as fun a => m a >>= appendOp)
      (fun _ st => PutNode s id (k + as.length) st.graph) (fun _ _ => True) := by
  induction as generalizing k with
  | nil => exact Triple.skip
  | cons a as ih =>
    have hrest := @ih (k + 1)
    rw [show k + 1 + as.length = k + (a :: as).length by rw [List.length_cons]; omega] at hrest
    exact Triple.bind (putConnector_spec (hm a)) fun _ => hrest

lemma putId_spec (id : NodeTypeID) :
    Triple (fun st => st.graph = s) (appendOp id : BuildM S Unit)
      (fun _ st => PutNode s id 0 st.graph) (fun _ _ => True) := by
  rintro st rfl
  exact ⟨[], rfl, rfl⟩

lemma putSlice_spec (n : Node g) :
    Triple (fun st => st.graph = s) (appendSlice g n.ops : BuildM S Unit)
      (fun _ st => PutNode s n.id n.spec.size st.graph) (fun _ _ => True) := by
  have hlen : (List.zipWith Port.op n.spec.ports n.connectors).length = n.spec.size := by
    simp [n.length_connectors]
  have hopen : Triple (fun st => st.graph = s)
      (renameAndRelinkOpVal (.node n.id) >>= appendOp : BuildM S Unit)
      (fun _ st => PutNode s n.id 0 st.graph) (fun _ _ => True) := putId_spec n.id
  have hrest := @putConnectors_spec S _ s n.id 0 _ _ (keeps_renameAndRelinkOpVal (S := S))
    (List.zipWith Port.op n.spec.ports n.connectors)
  rw [hlen, Nat.zero_add] at hrest
  unfold appendSlice forItems
  rw [opIter_node]
  exact Triple.bind (Triple.bind hopen fun _ => hrest) fun _ => Triple.skip

/-- The storage `t` is `s` with one more node whose data satisfies `F`. -/
def StoredNode (g : GraphSpec) (F : Option AtomicTypeID → List UInt8 → Prop) (s : S)
    (id : NodeTypeID) (t : S) : Prop :=
  ∃ spec cs bytes, g.getNode id = .ok spec ∧ cs.length = spec.size ∧ F spec.data bytes ∧
    opsAsSlice t = opsAsSlice s ++ id :: cs ∧ dataAsSlice t = dataAsSlice s ++ bytes

variable {F : Option AtomicTypeID → List UInt8 → Prop}

lemma storedNode_of_appends {spec : NodeSpec} {m : GenM S Unit} {P : S → List UInt8 → Prop}
    (hspec : g.getNode id = .ok spec) (hroom : spec.size + 1 ≤ opsAvailable s) (hm : Appends m P)
    (hP : ∀ t bytes, dataAvailable t = dataAvailable s → P t bytes → F spec.data bytes) :
    Triple (fun st => PutNode s id spec.size st.graph) (onGraph m : BuildM S Unit)
      (fun _ st => StoredNode g F s id st.graph) (fun _ _ => True) := by
  rintro st ⟨cs, hcs, hput⟩
  have hw : Wrote s (id :: cs) st.graph := hput ▸ wrote_foldl (by simpa [hcs] using hroom)
  obtain ⟨hops, bytes, hdata, hbytes⟩ := hm (st.graph, st.dist)
  rw [run_onGraph]
  rcases hr : m.run (st.graph, st.dist) with ⟨r, s', d⟩
  rw [hr] at hops hdata hbytes
  cases r with
  | error e => trivial
  | ok u =>
    have hF := hP _ _ hw.dataRoom (hbytes rfl)
    refine ⟨spec, cs, bytes, hspec, hcs, hF, hops.trans hw.ops, ?_⟩
    rw [hdata, hw.data]

lemma storedNode_of_none {spec : NodeSpec} {t : S} (hspec : g.getNode id = .ok spec)
    (hroom : spec.size + 1 ≤ opsAvailable s) (hF : F spec.data [])
    (h : PutNode s id spec.size t) : StoredNode g F s id t := by
  obtain ⟨cs, hcs, rfl⟩ := h
  have hw : Wrote s (id :: cs) _ := wrote_foldl (by simpa [hcs] using hroom)
  exact ⟨spec, cs, [], hspec, hcs, hF, hw.ops, by rw [hw.data, List.append_nil]⟩

def NodeFits (g : GraphSpec) (available : ℕ) (id : NodeTypeID) : Prop :=
  ∀ spec d dat, g.getNode id = .ok spec → spec.data = some d → g.getData d = .ok dat →
    dat.atomicType.SizeFits available

lemma canGenerateNode_room (n : NodeSpec) :
    Triple (fun st => st.graph = s) (canGenerateNode g n : BuildM S Bool)
      (fun can st => st.graph = s ∧ (can → n.size + 1 ≤ opsAvailable s))
      (fun _ _ => True) := by
  rintro st rfl
  rw [canGenerateNode, run_gets_bind]
  by_cases hops : opsAvailable st.graph < n.size + 1
  · rw [if_pos hops]
    exact ⟨rfl, fun h => by cases h⟩
  · rw [if_neg hops]
    cases n.minDataSize g with
    | error e => trivial
    | ok k => exact ⟨rfl, fun _ => by omega⟩

lemma storeRandomNode_spec (hnone : F none []) (hgen : ∀ spec d dat bytes, g.getNode id = .ok spec →
      spec.data = some d → g.getData d = .ok dat →
        dat.atomicType.Generated (dataAvailable s) bytes → F (some d) bytes) :
    Triple (fun st => st.graph = s)
      (appendRandomNode g id : BuildM S (Except GraphError Unit))
      (fun _ st => st.graph = s ∨ StoredNode g F s id st.graph) (fun _ _ => True) := by
  unfold appendRandomNode
  cases hn : g.getNode id with
  | error e => exact Triple.pure fun _ h => .inl h
  | ok n =>
    refine Triple.bind (canGenerateNode_room n) fun can => ?_
    cases can with
    | false => exact Triple.pure fun _ h => .inl h.1
    | true =>
      rintro st ⟨hst, hroom⟩
      have hsize : n.size + 1 ≤ opsAvailable s := hroom rfl
      have hports : n.size = 0 + n.inputs.length + n.passthroughs.length + n.outputs.length := by
        rw [NodeSpec.size, Nat.zero_add]
      refine Triple.bind (putId_spec id) (fun _ =>
        Triple.bind (putConnectors_spec (keeps_onValue · _) n.inputs) fun _ =>
        Triple.bind (putConnectors_spec (keeps_onValue · _) n.passthroughs) fun _ =>
        Triple.bind (putConnectors_spec (keeps_onValue · _) n.outputs) fun _ => ?_) st hst
      rw [← hports]
      cases hdata : n.data with
      | none =>
        exact Triple.pure fun _ h => .inr (storedNode_of_none hn hsize (hdata.symm ▸ hnone) h)
      | some d =>
        cases hd : g.getData d with
        | error e =>
          simp only [hd]
          exact fun _ _ => trivial
        | ok dat =>
          have hwf := g.data_wf _ _ (GraphSpec.getData_eq_ok.mp hd)
          have hstore := storedNode_of_appends (s := s) (F := F) hn hsize
            (AtomicDataType.appends_appendGenerate (S := S) g g.dataSpecs.length _ _ hwf) (by
              intro t bytes ht hbytes
              rw [ht] at hbytes
              rw [hdata]
              exact hgen n d dat bytes hn hdata hd hbytes)
          simp only [hd]
          exact Triple.bind hstore fun _ => Triple.pure fun _ h => .inr h

lemma maxOps_lt_of_not_full {st : BuildState S} (h : isFull g st = false) :
    g.maxOps < opsAvailable st.graph :=
  Nat.lt_of_not_le (of_decide_eq_false (Bool.or_eq_false_iff.mp h).2)

lemma room_of_maxOps_lt (h : g.maxOps < opsAvailable s) (n : Node g) :
    n.spec.size + 1 ≤ opsAvailable s := by
  have hn : n.spec ∈ g.nodeSpecs := List.mem_of_getElem? (GraphSpec.getNode_eq_ok.mp n.get)
  have hbound := g.ops_bound n.spec hn
  omega

lemma storeMutated_spec (n : Node g) (opI : ℕ) (dict : CustomDict)
    (hroom : n.spec.size + 1 ≤ opsAvailable s) :
    Triple (fun st => st.graph = s) (appendNodeMutated g (n.place opI) dict : BuildM S Unit)
      (fun _ st => st.graph = s ∨ StoredNode g (DataFits g) s n.id st.graph) (fun _ _ => True) := by
  intro st hst
  rw [appendNodeMutated, run_gets_bind]
  cases canAppendNode g (n.place opI) st with
  | false => exact .inl hst
  | true =>
    refine Triple.bind (putSlice_spec n) (fun _ => ?_) st hst
    have hget : g.getNode (n.place opI).id = .ok n.spec := n.get
    simp only [hget]
    cases hdata : n.spec.data with
    | none =>
      exact Triple.pure fun _ h => .inr (storedNode_of_none n.get hroom (hdata.symm ▸ rfl) h)
    | some d =>
      cases hd : g.getData d with
      | error e =>
        simp only [hd]
        exact fun _ _ => trivial
      | ok dat =>
        simp only [hd]
        have hold : DataFits g (some d) n.data := hdata ▸ n.fits
        refine (storedNode_of_appends n.get hroom
          (AtomicDataType.appends_appendMutated dat.atomicType n.data dict) ?_).post (fun _ _ h => .inr h)
        rintro t bytes - ⟨hlen, hlead⟩
        rw [hdata]
        exact dataFits_of_mutated hd hold hlen hlead

end GraphBuilder

inductive AppendStep (g : GraphSpec) where
  | appendRandomNode (id : NodeTypeID)
  | appendNodeMutated (n : TakenNode g) (dict : CustomDict)

namespace AppendStep

variable {g : GraphSpec}

def nodeId : AppendStep g → NodeTypeID
  | appendRandomNode id => id
  | appendNodeMutated n _ => n.node.id

def perform : AppendStep g → BuildM S Unit
  | appendRandomNode id => do
    let _ ← GraphBuilder.appendRandomNode g id
  | appendNodeMutated n dict => GraphBuilder.appendNodeMutated g n.node dict

/-- What is known of the state before the call so that the node can be read back. -/
def SizeFits (st : BuildState S) : AppendStep g → Prop
  | appendRandomNode id => GraphBuilder.NodeFits g (dataAvailable st.graph) id
  | appendNodeMutated _ _ => True

lemma perform_spec (a : AppendStep g) (st : BuildState S) (hfull : GraphBuilder.isFull g st = false)
    (hfits : a.SizeFits st) (hok : (a.perform.run st).1 = .ok ()) :
    (a.perform.run st).2.graph = st.graph ∨
      GraphBuilder.StoredNode g (DataFits g) st.graph a.nodeId (a.perform.run st).2.graph := by
  have hspec : Triple (fun st' => st'.graph = st.graph) (a.perform : BuildM S Unit)
      (fun _ st' => st'.graph = st.graph ∨
        GraphBuilder.StoredNode g (DataFits g) st.graph a.nodeId st'.graph)
      (fun _ _ => True) := by
    cases a with
    | appendRandomNode id =>
      refine Triple.bind (GraphBuilder.storeRandomNode_spec rfl ?_) fun _ => Triple.skip
      intro spec d dat bytes hn hdata hd hgen
      exact dataFits_of_generated hd hgen (hfits spec d dat hn hdata hd)
    | appendNodeMutated n dict =>
      obtain ⟨m, i, hm⟩ := GraphBuilder.node_of_mem_nodeIter n.mem
      have hroom := GraphBuilder.maxOps_lt_of_not_full hfull
      have hstore := GraphBuilder.storeMutated_spec m i dict (GraphBuilder.room_of_maxOps_lt hroom m)
      rw [← hm] at hstore
      have hid : m.id = n.node.id := by rw [hm]; rfl
      rw [hid] at hstore
      exact hstore
  exact hspec.ok rfl (Prod.ext hok rfl)

end AppendStep

abbrev StoredParts := NodeTypeID × List UInt16 × List UInt8

def GraphNode.parts (n : GraphNode) : StoredParts := (n.id, n.ops, n.data)

def storedBy (id : NodeTypeID) (s t : S) : List StoredParts :=
  if opLen t = opLen s then []
  else [(id, (opsAsSlice t).drop (opLen s), (dataAsSlice t).drop (dataLen s))]

/-- The runs that append nodes while the storage is not full, each call under the condition `C`,
with what the calls have stored. -/
inductive AppendRun (g : GraphSpec) (C : BuildState S → AppendStep g → Prop) :
    List StoredParts → BuildState S → Prop
  | start (st : BuildState S) :
    AppendRun g C [] ((GraphBuilder.start : BuildM S Unit).run st).2
  | step {log : List StoredParts} {st : BuildState S} (a : AppendStep g)
    (run : AppendRun g C log st) (full : GraphBuilder.isFull g st = false) (cond : C st a)
    (ok : (a.perform.run st).1 = .ok ()) :
    AppendRun g C (log ++ storedBy a.nodeId st.graph (a.perform.run st).2.graph) (a.perform.run st).2

/-- The iterators give back what was appended. -/
structure ReadsBack (g : GraphSpec) (log : List StoredParts) (s : S) : Prop where
  stop : (GraphStorage.nodeIter g s).stop = none
  nodes : (GraphStorage.nodeIter g s).items.map GraphNode.parts = log
  data : (GraphStorage.nodeIter g s).items.flatMap GraphNode.data = dataAsSlice s

lemma layout_parts {g : GraphSpec} (ns : List (Node g)) (opI : ℕ) :
    (Node.layout opI ns).map GraphNode.parts = ns.map fun n => (n.id, n.ops, n.data) := by
  induction ns generalizing opI with
  | nil => rfl
  | cons n ns ih =>
    rw [Node.layout, List.map_cons, List.map_cons, ih]
    rfl

lemma readsBack_encode {g : GraphSpec} {s : S} (ns : List (Node g))
    (hops : opsAsSlice s = Node.encodeOps ns) (hdata : dataAsSlice s = Node.encodeData ns) :
    ReadsBack g (ns.map fun n => (n.id, n.ops, n.data)) s := by
  have hiter : GraphStorage.nodeIter g s = ⟨Node.layout 0 ns, none⟩ := by
    have hencode := nodeIter_encode ns []
    rw [List.append_nil, ← hops, ← hdata] at hencode
    exact hencode
  have hparts := layout_parts ns 0
  refine ⟨by rw [hiter], by rw [hiter]; exact hparts, ?_⟩
  rw [hiter, hdata]
  have hflat := congrArg (List.flatMap fun p : StoredParts => p.2.2) hparts
  rw [List.flatMap_map, List.flatMap_map] at hflat
  exact hflat

lemma storedBy_of_stored {g : GraphSpec} {s t : S} {id : NodeTypeID} {ns : List (Node g)}
    (hops : opsAsSlice s = Node.encodeOps ns) (hdata : dataAsSlice s = Node.encodeData ns)
    (h : t = s ∨ GraphBuilder.StoredNode g (DataFits g) s id t) :
    ∃ ns' : List (Node g), opsAsSlice t = Node.encodeOps (ns ++ ns') ∧
      dataAsSlice t = Node.encodeData (ns ++ ns') ∧
      storedBy id s t = ns'.map fun n => (n.id, n.ops, n.data) := by
  rcases h with rfl | ⟨spec, cs, bytes, hspec, hcs, hfits, hops', hdata'⟩
  · refine ⟨[], by rw [List.append_nil, hops], by rw [List.append_nil, hdata], ?_⟩
    simp [storedBy]
  · refine ⟨[⟨id, spec, cs, bytes, hspec, hcs, hfits⟩], ?_, ?_, ?_⟩
    · simp [hops', hops, Node.encodeOps, Node.ops]
    · simp [hdata', hdata, Node.encodeData]
    · have hlen : opLen t ≠ opLen s := by simp [opLen, hops']
      rw [storedBy, if_neg hlen]
      simp [hops', hdata', opLen, dataLen, Node.ops]

/-- In every run in which the vectors fit the size in front of them, reading gives back exactly the
nodes that were appended. -/
theorem appendRun_readsBack {g : GraphSpec} {log : List StoredParts} {st : BuildState S}
    (h : AppendRun g AppendStep.SizeFits log st) : ReadsBack g log st.graph := by
  have hnodes : ∃ ns : List (Node g), opsAsSlice st.graph = Node.encodeOps ns ∧
      dataAsSlice st.graph = Node.encodeData ns ∧ log = ns.map fun n => (n.id, n.ops, n.data) := by
    induction h with
    | start st => exact ⟨[], ops_clear _, data_clear _, rfl⟩
    | step a run full cond ok ih =>
      obtain ⟨ns, hops, hdata, rfl⟩ := ih
      obtain ⟨ns', hops', hdata', hlog⟩ :=
        storedBy_of_stored hops hdata (a.perform_spec _ full cond ok)
      exact ⟨ns ++ ns', hops', hdata', by rw [hlog, List.map_append]⟩
  obtain ⟨ns, hops, hdata, rfl⟩ := hnodes
  exact readsBack_encode ns hops hdata

def vecLoader (sizeRange : ℕ × ℕ) : SpecLoader where
  checksum := 0
  nodes := [⟨"data", some 1, [], [], []⟩]
  edges := []
  atomics := [.int "u8" 1 [], .vec "vec_u8" sizeRange 0]

def vecSpec (sizeRange : ℕ × ℕ) : GraphSpec :=
  match (vecLoader sizeRange).toGraphSpec with
  | .ok g => g
  | .error _ => GraphSpec.new

def vecState : BuildState VecGraph := ⟨fun _ => none, VecGraph.empty, ⟨[0, 0, 0, 0]⟩⟩

theorem appendRun_readsBack_vec : ∃ st : BuildState VecGraph,
    AppendRun (vecSpec (2, 3)) AppendStep.SizeFits [(0, [0], [2, 0, 1, 0])] st ∧
      ReadsBack (vecSpec (2, 3)) [(0, [0], [2, 0, 1, 0])] st.graph := by
  set started := ((GraphBuilder.start : BuildM VecGraph Unit).run vecState).2
  have hfits : (AppendStep.appendRandomNode (g := vecSpec (2, 3)) 0).SizeFits started := by
    intro spec d dat hn hd hdat
    cases hn
    cases hd
    cases hdat
    show DataVec.maxElems (2, 3) 1 0xffffffff * 1 < 65536
    decide
  have hrun : AppendRun (vecSpec (2, 3)) AppendStep.SizeFits [(0, [0], [2, 0, 1, 0])] _ :=
    AppendRun.step (.appendRandomNode 0) (.start vecState) (by decide +kernel) hfits
      (by decide +kernel)
  exact ⟨_, hrun, appendRun_readsBack hrun⟩

section LargeVector

lemma run_mutate_zeros {data : List UInt8} (h : data ≠ []) :
    ((PrimitiveMutator.mutate none).run (⟨data, data.length⟩, ⟨[0, 0, 0]⟩)).1 = .ok () := by
  cases data with
  | nil => exact absurd rfl h
  | cons b rest => rfl

lemma VecGraph.length_tail {s : VecGraph} {n : ℕ} (h : n ≤ s.data.length) :
    (tail s n).length = n := by
  show (s.data.drop (s.data.length - n)).length = n
  rw [List.length_drop]
  omega

lemma DataVec.run_appendElems_zeros {size : ℕ} (hpos : 0 < size) (hle : size + 2 ≤ 0xffffffff)
    (s : VecGraph) :
    ((DataVec.appendElems size : GenM VecGraph Unit).run (s, ⟨[0, 0, 0]⟩)).1 = .ok () := by
  have hcheck : (GenM.check (fun s : VecGraph => size + 2 ≤ dataAvailable s)).run
      (s, ⟨[0, 0, 0]⟩) = (.ok (), (s, ⟨[0, 0, 0]⟩)) := if_pos (decide_eq_true hle)
  rw [DataVec.appendElems, run_bind_ok hcheck, if_pos hpos]
  set grown : VecGraph := ⟨s.ops, s.data ++ List.replicate (size + 2) 0⟩
  have hgrown : (tail grown size).length = size := by
    refine VecGraph.length_tail ?_
    simp [grown]
    omega
  set prefixed : VecGraph := setTail grown (DataVec.sizePrefix size ++ tail grown size)
  have hpreed : (tail prefixed size).length = size := by
    have hnew : (DataVec.sizePrefix size ++ tail grown size).length = size + 2 := by
      simp [DataVec.sizePrefix, hgrown]
    refine VecGraph.length_tail ?_
    show size ≤ (_ ++ (DataVec.sizePrefix size ++ tail grown size)).length
    rw [List.length_append, hnew]
    omega
  have hmutate := run_mutate_zeros (List.ne_nil_of_length_pos (hpreed.symm ▸ hpos))
  rw [hpreed] at hmutate
  exact hmutate

lemma DataVec.run_appendGenerate_large :
    (DataVec.appendGenerate (65536, 65537) 1 : GenM VecGraph Unit).run (⟨[0], []⟩, ⟨[0, 0, 0, 0]⟩) =
      (DataVec.appendElems 65536).run (⟨[0], []⟩, ⟨[0, 0, 0]⟩) := by
  have hdraw : (GenM.draw (PrimitiveMutator.genNumArrayElems 1 65536 65537
      (usizeSub (dataAvailable (VecGraph.mk [0] [])) 2)) : GenM VecGraph ℕ).run
        (⟨[0], []⟩, ⟨[0, 0, 0, 0]⟩) = (.ok 65536, (⟨[0], []⟩, ⟨[0, 0, 0]⟩)) := rfl
  rw [DataVec.appendGenerate, run_gets_bind, run_bind_ok hdraw, Nat.mul_one]

/-- The first node type takes a vector of bytes and no value. -/
structure HasVecNode (g : GraphSpec) (sizeRange : ℕ × ℕ) (n : NodeSpec) (dat : AtomicSpec) :
    Prop where
  node : g.getNode 0 = .ok n
  data : n.data = some 1
  inputs : n.inputs = []
  passthroughs : n.passthroughs = []
  outputs : n.outputs = []
  getData : g.getData 1 = .ok dat
  type : dat.atomicType = .dataVec sizeRange 1 0

lemma vecSpec_hasVecNode (sizeRange : ℕ × ℕ) :
    ∃ n dat, HasVecNode (vecSpec sizeRange) sizeRange n dat :=
  ⟨_, _, rfl, rfl, rfl, rfl, rfl, rfl, rfl⟩

lemma HasVecNode.size {g : GraphSpec} {sizeRange : ℕ × ℕ} {n : NodeSpec} {dat : AtomicSpec}
    (h : HasVecNode g sizeRange n dat) : n.size = 0 := by
  simp [NodeSpec.size, h.inputs, h.passthroughs, h.outputs]

lemma run_appendRandomNode_large {g : GraphSpec} {n : NodeSpec} {dat : AtomicSpec}
    (hg : HasVecNode g (65536, 65537) n dat) {s : VecGraph} {d : Distributions}
    (h : (DataVec.appendElems 65536 : GenM VecGraph Unit).run (⟨[0], []⟩, ⟨[0, 0, 0]⟩) =
      (.ok (), (s, d))) :
    (GraphBuilder.appendRandomNode g 0).run vecState =
      (.ok (.ok ()), ⟨vecState.state, s, d⟩) := by
  set opened : BuildState VecGraph := ⟨vecState.state, ⟨[0], []⟩, vecState.dist⟩
  have hgen : (GraphBuilder.onGraph (dat.atomicType.appendGenerate g g.dataSpecs.length)).run
      opened = (.ok (), ⟨vecState.state, s, d⟩) := by
    have hdepth : 0 < g.dataSpecs.length :=
      Nat.zero_lt_of_lt (List.getElem?_eq_some_iff.mp (GraphSpec.getData_eq_ok.mp hg.getData)).1
    have hrun : (dat.atomicType.appendGenerate g g.dataSpecs.length).run
        (opened.graph, opened.dist) = (.ok (), (s, d)) := by
      obtain ⟨depth, hdepth⟩ := Nat.exists_eq_succ_of_ne_zero hdepth.ne'
      rw [hg.type, hdepth]
      exact DataVec.run_appendGenerate_large.trans h
    rw [GraphBuilder.run_onGraph, hrun]
    rfl
  have hcan : (GraphBuilder.canGenerateNode g n).run vecState = (.ok true, vecState) := by
    have hmin : n.minDataSize g = .ok 2 := by
      simp only [NodeSpec.minDataSize, hg.data, hg.getData, hg.type]
      rfl
    rw [GraphBuilder.canGenerateNode, run_gets_bind, hg.size, hmin]
    rfl
  have hopen : (GraphBuilder.appendOp 0).run vecState = (.ok (), opened) := rfl
  have hnil : ∀ m, (GraphBuilder.appendPorts [] m).run opened = (.ok (), opened) := fun _ => rfl
  unfold GraphBuilder.appendRandomNode
  rw [hg.node]
  rw [run_bind_ok hcan, if_pos rfl, run_bind_ok hopen, hg.inputs, hg.passthroughs,
    hg.outputs, hg.data, run_bind_ok (hnil _), run_bind_ok (hnil _),
    run_bind_ok (hnil _)]
  simp only [hg.getData]
  exact run_bind_ok hgen

theorem appendRun_not_readsBack_large : ∃ (log : List StoredParts) (st : BuildState VecGraph),
    AppendRun (vecSpec (65536, 65537)) (fun _ _ => True) log st ∧
      ¬ReadsBack (vecSpec (65536, 65537)) log st.graph := by
  set g := vecSpec (65536, 65537)
  have hok := @DataVec.run_appendElems_zeros 65536 (by decide) (by decide) ⟨[0], []⟩
  obtain ⟨hops, bytes, hdata, hbytes⟩ := DataVec.appends_appendElems 65536
    ((⟨[0], []⟩, ⟨[0, 0, 0]⟩) : VecGraph × Distributions)
  rcases hr : (DataVec.appendElems 65536 : GenM VecGraph Unit).run (⟨[0], []⟩, ⟨[0, 0, 0]⟩)
    with ⟨r, s, d⟩
  rw [hr] at hok hops hdata hbytes
  obtain rfl : r = .ok () := hok
  obtain ⟨-, rest, rfl, hrest⟩ := hbytes rfl
  obtain ⟨n, dat, hg⟩ := vecSpec_hasVecNode (65536, 65537)
  set a : AppendStep g := .appendRandomNode 0
  have hrun : a.perform.run vecState = (.ok (), ⟨vecState.state, s, d⟩) :=
    run_bind_ok (run_appendRandomNode_large hg hr)
  have hstep : AppendRun g (fun _ _ => True) _ (a.perform.run vecState).2 :=
    AppendRun.step a (.start vecState) (by decide +kernel) trivial (by rw [hrun])
  rw [hrun] at hstep
  refine ⟨_, _, hstep, fun hback => ?_⟩
  have hfits : DataFits g n.data [0, 0] := by
    rw [hg.data]
    refine ⟨dat, hg.getData, ?_⟩
    rw [hg.type]
    exact ⟨0, 0, [], rfl, rfl⟩
  set node : Node g := ⟨0, n, [], [0, 0], hg.node, hg.size.symm, hfits⟩
  have hiter : GraphStorage.nodeIter g s = ⟨Node.layout 0 [node], none⟩ := by
    have hencode := nodeIter_encode [node] rest
    show nodeIter g s.ops s.data = _
    rw [show s.ops = [0] from hops, show s.data = [0, 0] ++ rest from hdata]
    exact hencode
  have hall := hback.data
  rw [hiter] at hall
  have hlen : ([0, 0] : List UInt8).length = ([0, 0] ++ rest).length := by
    rw [← show s.data = [0, 0] ++ rest from hdata]
    exact congrArg List.length hall
  rw [List.length_append, hrest] at hlen
  omega

end LargeVector

end Nyx
