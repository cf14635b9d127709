import Nyx.Graph.Spec

/-!
# Iterating over a stored graph

`OpIter` walks the op list one number at a time and `NodeIter` walks ops and data one node at a
time. `opsFrom` says what `OpIter` yields by recursion on the op list.
-/

namespace Nyx

def index {α : Type} (l : List α) (i : ℕ) : Except Panic α :=
  match l[i]? with
  | some a => .ok a
  | none => .error .indexOutOfBounds

def slice {α : Type} (l : List α) (start stop : ℕ) : Except Panic (List α) :=
  if start ≤ stop ∧ stop ≤ l.length then .ok ((l.drop start).take (stop - start))
  else .error .indexOutOfBounds

/-- `unwrap` and `expect` on a lookup in the specification. -/
def expect {α : Type} (e : Panic) : Except GraphError α → Except Panic α
  | .ok a => .ok a
  | .error _ => .error e

lemma index_eq_ok {α : Type} {l : List α} {i : ℕ} {a : α} : index l i = .ok a ↔ l[i]? = some a := by
  unfold index
  split <;> simp_all

lemma expect_eq_ok {α : Type} {e : Panic} {r : Except GraphError α} {a : α} :
    expect e r = .ok a ↔ r = .ok a := by
  cases r <;> simp [expect]

inductive GraphOp where
  | get (v : ValueTypeID) (c : ConnectorID)
  | pass (v : ValueTypeID) (c : ConnectorID)
  | set (v : ValueTypeID) (c : ConnectorID)
  | node (n : NodeTypeID)
  deriving DecidableEq, Repr

/-- A position in the ops, and the ports of the node that are left. -/
structure OpIter where
  frag : List UInt16
  i : ℕ
  nodeSpec : Option NodeTypeID
  inputs : ℕ
  passthroughs : ℕ
  outputs : ℕ

namespace OpIter

def new (frag : List UInt16) : OpIter := ⟨frag, 0, none, 0, 0, 0⟩

def getNode (g : GraphSpec) (it : OpIter) : Except Panic NodeSpec :=
  match it.nodeSpec with
  | none => .error .unwrapNone
  | some n => expect .unwrapErr (g.getNode n)

def nextOp (g : GraphSpec) (it : OpIter) : Except Panic (GraphOp × OpIter) :=
  if 0 < it.inputs then do
    let node ← it.getNode g
    let v ← index node.inputs (node.inputs.length - it.inputs)
    let c ← index it.frag it.i
    pure (.get v c, { it with inputs := it.inputs - 1 })
  else if 0 < it.passthroughs then do
    let node ← it.getNode g
    let v ← index node.passthroughs (node.passthroughs.length - it.passthroughs)
    let c ← index it.frag it.i
    pure (.pass v c, { it with passthroughs := it.passthroughs - 1 })
  else if 0 < it.outputs then do
    let node ← it.getNode g
    let v ← index node.outputs (node.outputs.length - it.outputs)
    let c ← index it.frag it.i
    pure (.set v c, { it with outputs := it.outputs - 1 })
  else do
    let n ← index it.frag it.i
    pure (.node n, it)

def setNode (g : GraphSpec) (it : OpIter) (n : NodeTypeID) : Except Panic OpIter := do
  let node ← expect .unwrapErr (g.getNode n)
  pure { it with
    nodeSpec := some n
    inputs := node.inputs.length
    passthroughs := node.passthroughs.length
    outputs := node.outputs.length }

def next (g : GraphSpec) (it : OpIter) : Except Panic (Option (GraphOp × OpIter)) :=
  if it.i < it.frag.length then do
    let (op, it) ← it.nextOp g
    let it ← match op with
      | .node nt => do
        let node ← expect .unwrapErr (g.getNode nt)
        it.setNode g node.id
      | _ => pure it
    pure (some (op, { it with i := it.i + 1 }))
  else .ok none

end OpIter

def opIter (g : GraphSpec) (frag : List UInt16) : Iter Panic GraphOp :=
  Iter.unroll (OpIter.next g) (frag.length + 1) (OpIter.new frag)

/-- A node of a graph with its ops and data. -/
structure GraphNode where
  id : NodeTypeID
  opI : ℕ
  ops : List UInt16
  data : List UInt8
  deriving DecidableEq, Repr

/-- A position in the ops and one in the data. -/
structure NodeIter where
  opI : ℕ
  dataI : ℕ
  opFrag : List UInt16
  dataFrag : List UInt8

namespace NodeIter

def new (opFrag : List UInt16) (dataFrag : List UInt8) : NodeIter := ⟨0, 0, opFrag, dataFrag⟩

def dataLen (g : GraphSpec) (it : NodeIter) (node : NodeSpec) : Except Panic ℕ :=
  match node.data with
  | none => .ok 0
  | some did => do
    let d ← expect (.invalidSpec did) (g.getData did)
    match d.atomicType.size with
    | .fixed x => .ok x
    | .dynamic => do
      let lo ← index it.dataFrag it.dataI
      let hi ← index it.dataFrag (it.dataI + 1)
      .ok ((lo.toNat ||| hi.toNat <<< 8) + 2)

def next (g : GraphSpec) (it : NodeIter) : Except Panic (Option (GraphNode × NodeIter)) :=
  if it.opFrag.length ≤ it.opI then .ok none
  else do
    let id ← index it.opFrag it.opI
    let node ← expect (.invalidGraph id) (g.getNode id)
    let opsLen := 1 + node.size
    let ops ← slice it.opFrag it.opI (it.opI + opsLen)
    let dataLen ← it.dataLen g node
    if it.dataI + dataLen ≤ it.dataFrag.length then do
      let data ← slice it.dataFrag it.dataI (it.dataI + dataLen)
      pure (some (⟨id, it.opI, ops, data⟩,
        { it with opI := it.opI + opsLen, dataI := it.dataI + dataLen }))
    else .error .assertFailed

end NodeIter

def nodeIter (g : GraphSpec) (ops : List UInt16) (data : List UInt8) : Iter Panic GraphNode :=
  Iter.unroll (NodeIter.next g) (ops.length + 1) (NodeIter.new ops data)

def NodeIter.last (g : GraphSpec) : ℕ → NodeIter → NodeIter
  | 0, it => it
  | fuel + 1, it =>
    match it.next g with
    | .ok (some (_, it')) => last g fuel it'
    | _ => it

/-- `NodeIter` gets to the end of the ops without a panic and has used all the data then. -/
def Consumes (g : GraphSpec) (ops : List UInt16) (data : List UInt8) : Prop :=
  (nodeIter g ops data).stop = none ∧
    ((NodeIter.new ops data).last g (ops.length + 1)).dataI = data.length

inductive Port where
  | get (v : ValueTypeID)
  | pass (v : ValueTypeID)
  | set (v : ValueTypeID)
  deriving DecidableEq, Repr

def Port.op : Port → ConnectorID → GraphOp
  | get v => .get v
  | pass v => .pass v
  | set v => .set v

/-- What a node waits for after its id: inputs, then borrows, then outputs. -/
def NodeSpec.ports (n : NodeSpec) : List Port :=
  n.inputs.map Port.get ++ n.passthroughs.map Port.pass ++ n.outputs.map Port.set

@[simp] lemma NodeSpec.length_ports (n : NodeSpec) : n.ports.length = n.size := by
  simp [NodeSpec.ports, NodeSpec.size, Nat.add_assoc]

/-- The ops of a fragment, read against the ports still to be filled. -/
def opsFrom (g : GraphSpec) : List Port → List UInt16 → Iter Panic GraphOp
  | _, [] => ⟨[], none⟩
  | p :: ps, x :: xs => ⟨p.op x :: (opsFrom g ps xs).items, (opsFrom g ps xs).stop⟩
  | [], x :: xs =>
    match g.getNode x with
    | .ok n => ⟨.node x :: (opsFrom g n.ports xs).items, (opsFrom g n.ports xs).stop⟩
    | .error _ => ⟨[], some .unwrapErr⟩

def openPorts (g : GraphSpec) : List Port → List UInt16 → List Port
  | ps, [] => ps
  | _ :: ps, _ :: xs => openPorts g ps xs
  | [], x :: xs =>
    match g.getNode x with
    | .ok n => openPorts g n.ports xs
    | .error _ => []

lemma opsFrom_append {g : GraphSpec} {ps : List Port} {xs ys : List UInt16}
    (h : (opsFrom g ps xs).stop = none) :
    opsFrom g ps (xs ++ ys) =
      ⟨(opsFrom g ps xs).items ++ (opsFrom g (openPorts g ps xs) ys).items,
        (opsFrom g (openPorts g ps xs) ys).stop⟩ := by
  induction xs generalizing ps with
  | nil => simp [opsFrom, openPorts]
  | cons x xs ih =>
    cases ps with
    | cons p ps =>
      have hxs : (opsFrom g ps xs).stop = none := h
      simp only [List.cons_append, opsFrom, openPorts, ih hxs]
    | nil =>
      cases hn : g.getNode x with
      | error e => simp [opsFrom, hn] at h
      | ok n =>
        have hxs : (opsFrom g n.ports xs).stop = none := by simpa [opsFrom, hn] using h
        simp only [List.cons_append, opsFrom, openPorts, hn, ih hxs]

lemma openPorts_append {g : GraphSpec} {ps : List Port} {xs ys : List UInt16}
    (h : (opsFrom g ps xs).stop = none) :
    openPorts g ps (xs ++ ys) = openPorts g (openPorts g ps xs) ys := by
  induction xs generalizing ps with
  | nil => simp [openPorts]
  | cons x xs ih =>
    cases ps with
    | cons p ps => exact ih h
    | nil =>
      cases hn : g.getNode x with
      | error e => simp [opsFrom, hn] at h
      | ok n =>
        have hxs : (opsFrom g n.ports xs).stop = none := by simpa [opsFrom, hn] using h
        simp only [List.cons_append, openPorts, hn, ih hxs]

lemma items_append_isPrefix (g : GraphSpec) (ps : List Port) (xs ys : List UInt16) :
    (opsFrom g ps xs).items <+: (opsFrom g ps (xs ++ ys)).items := by
  induction xs generalizing ps with
  | nil => simp [opsFrom]
  | cons x xs ih =>
    cases ps with
    | cons p ps =>
      exact (List.prefix_cons_inj _).mpr (ih ps)
    | nil =>
      cases hn : g.getNode x with
      | error e => simp [opsFrom, hn]
      | ok n =>
        simp only [List.cons_append, opsFrom, hn]
        exact (List.prefix_cons_inj _).mpr (ih n.ports)

lemma drop_sub_eq_cons {α : Type} {l : List α} {k : ℕ} (hk : 0 < k) (hl : k ≤ l.length) :
    ∃ a, l[l.length - k]? = some a ∧ l.drop (l.length - k) = a :: l.drop (l.length - (k - 1)) := by
  have hlt : l.length - k < l.length := by omega
  refine ⟨l[l.length - k], List.getElem?_eq_getElem hlt, ?_⟩
  rw [List.drop_eq_getElem_cons hlt, show l.length - k + 1 = l.length - (k - 1) by omega]

namespace OpIter

/-- The iterator stands in a node and waits for the ports `ps`. -/
def Waits (g : GraphSpec) (it : OpIter) (ps : List Port) : Prop :=
  (it.inputs = 0 ∧ it.passthroughs = 0 ∧ it.outputs = 0 ∧ ps = []) ∨
  ∃ n, it.getNode g = .ok n ∧ it.inputs ≤ n.inputs.length ∧
    it.passthroughs ≤ n.passthroughs.length ∧ it.outputs ≤ n.outputs.length ∧
    ps = (n.inputs.drop (n.inputs.length - it.inputs)).map Port.get ++
      (n.passthroughs.drop (n.passthroughs.length - it.passthroughs)).map Port.pass ++
      (n.outputs.drop (n.outputs.length - it.outputs)).map Port.set

variable {g : GraphSpec} {it : OpIter} {p : Port}
  {ps : List Port} {x : UInt16}

lemma Waits.counts (h : Waits g it ps) : ps.length = it.inputs + it.passthroughs + it.outputs := by
  rcases h with ⟨hi, hp, ho, rfl⟩ | ⟨n, -, hi, hp, ho, rfl⟩
  · simp [hi, hp, ho]
  · simp only [List.length_append, List.length_map, List.length_drop]
    omega

lemma nextOp_of_waits_cons (h : Waits g it (p :: ps)) (hx : it.frag[it.i]? = some x) :
    ∃ it', it.nextOp g = .ok (p.op x, it') ∧ Waits g it' ps ∧ it'.frag = it.frag ∧ it'.i = it.i ∧
      ∀ n, p.op x ≠ .node n := by
  rcases h with ⟨-, -, -, h⟩ | ⟨n, hn, hi, hp, ho, h⟩
  · cases h
  have hx' : index it.frag it.i = .ok x := index_eq_ok.mpr hx
  -- the first kind of port that is still open decides the branch
  by_cases h1 : 0 < it.inputs
  · obtain ⟨v, hv, hd⟩ := drop_sub_eq_cons h1 hi
    rw [hd, List.map_cons, List.cons_append, List.cons_append, List.cons.injEq] at h
    obtain ⟨rfl, rfl⟩ := h
    refine ⟨{ it with inputs := it.inputs - 1 }, ?_, .inr ⟨n, hn, by simp; omega, hp, ho, rfl⟩,
      rfl, rfl, by simp [Port.op]⟩
    simp only [nextOp, if_pos h1, hn, except_ok_bind, index_eq_ok.mpr hv, hx']
    rfl
  have h1' : it.inputs = 0 := by omega
  rw [h1', Nat.sub_zero, List.drop_length, List.map_nil, List.nil_append] at h
  by_cases h2 : 0 < it.passthroughs
  · obtain ⟨v, hv, hd⟩ := drop_sub_eq_cons h2 hp
    rw [hd, List.map_cons, List.cons_append, List.cons.injEq] at h
    obtain ⟨rfl, rfl⟩ := h
    refine ⟨{ it with passthroughs := it.passthroughs - 1 }, ?_,
      .inr ⟨n, hn, hi, by simp; omega, ho, by simp [h1']⟩, rfl, rfl, by simp [Port.op]⟩
    simp only [nextOp, if_neg h1, if_pos h2, hn, except_ok_bind, index_eq_ok.mpr hv, hx']
    rfl
  have h2' : it.passthroughs = 0 := by omega
  rw [h2', Nat.sub_zero, List.drop_length, List.map_nil, List.nil_append] at h
  by_cases h3 : 0 < it.outputs
  · obtain ⟨v, hv, hd⟩ := drop_sub_eq_cons h3 ho
    rw [hd, List.map_cons, List.cons.injEq] at h
    obtain ⟨rfl, rfl⟩ := h
    refine ⟨{ it with outputs := it.outputs - 1 }, ?_,
      .inr ⟨n, hn, hi, hp, by simp; omega, by simp [h1', h2']⟩, rfl, rfl, by simp [Port.op]⟩
    simp only [nextOp, if_neg h1, if_neg h2, if_pos h3, hn, except_ok_bind, index_eq_ok.mpr hv, hx']
    rfl
  · have h3' : it.outputs = 0 := by omega
    rw [h3', Nat.sub_zero, List.drop_length] at h
    cases h

lemma next_of_waits_cons (h : Waits g it (p :: ps)) (hx : it.frag[it.i]? = some x) :
    ∃ it', it.next g = .ok (some (p.op x, it')) ∧ Waits g it' ps ∧ it'.frag = it.frag ∧
      it'.i = it.i + 1 := by
  obtain ⟨it', hop, hw, hf, hi, hnode⟩ := nextOp_of_waits_cons h hx
  have hlt : it.i < it.frag.length := (List.getElem?_eq_some_iff.mp hx).1
  refine ⟨{ it' with i := it'.i + 1 }, ?_, hw, hf, by simp [hi]⟩
  simp only [next, if_pos hlt, hop]
  cases hp : p.op x with
  | node n => exact absurd hp (hnode n)
  | get | pass | set => rfl

lemma nextOp_of_waits_nil (h : Waits g it []) (hx : it.frag[it.i]? = some x) :
    it.nextOp g = .ok (.node x, it) := by
  have hc := h.counts
  simp only [List.length_nil] at hc
  rw [nextOp, if_neg (by omega), if_neg (by omega), if_neg (by omega), index_eq_ok.mpr hx]
  rfl

lemma next_of_waits_nil_ok {n : NodeSpec} (h : Waits g it []) (hx : it.frag[it.i]? = some x)
    (hn : g.getNode x = .ok n) :
    ∃ it', it.next g = .ok (some (.node x, it')) ∧ Waits g it' n.ports ∧ it'.frag = it.frag ∧
      it'.i = it.i + 1 := by
  have hlt : it.i < it.frag.length := (List.getElem?_eq_some_iff.mp hx).1
  refine ⟨{ it with
    i := it.i + 1
    nodeSpec := some x
    inputs := n.inputs.length
    passthroughs := n.passthroughs.length
    outputs := n.outputs.length }, ?_, .inr ⟨n, ?_, le_rfl, le_rfl, le_rfl, ?_⟩, rfl, rfl⟩
  · simp only [next, if_pos hlt, nextOp_of_waits_nil h hx]
    simp only [bind, Except.bind, pure, Except.pure, setNode, hn, expect, GraphSpec.id_of_getNode hn]
  · simp only [getNode, hn, expect]
  · simp [NodeSpec.ports]

lemma next_of_waits_nil_error {e : GraphError} (h : Waits g it []) (hx : it.frag[it.i]? = some x)
    (hn : g.getNode x = .error e) : it.next g = .error .unwrapErr := by
  have hlt : it.i < it.frag.length := (List.getElem?_eq_some_iff.mp hx).1
  simp only [next, if_pos hlt, nextOp_of_waits_nil h hx]
  simp only [bind, Except.bind, hn, expect]

lemma unroll_eq_opsFrom (h : Waits g it ps) {fuel : ℕ} (hf : it.frag.length < it.i + fuel) :
    Iter.unroll (next g) fuel it = opsFrom g ps (it.frag.drop it.i) := by
  induction fuel generalizing it ps with
  | zero =>
    rw [List.drop_eq_nil_of_le (by omega)]
    simp [Iter.unroll, opsFrom]
  | succ fuel ih =>
    by_cases hlt : it.i < it.frag.length
    · have hx : it.frag[it.i]? = some it.frag[it.i] := List.getElem?_eq_getElem hlt
      rw [List.drop_eq_getElem_cons hlt]
      cases ps with
      | cons p ps =>
        obtain ⟨it', hnext, hw, hfr, hi⟩ := next_of_waits_cons h hx
        simp only [Iter.unroll, hnext, opsFrom]
        rw [ih hw (by rw [hfr, hi]; omega), hfr, hi]
      | nil =>
        cases hn : g.getNode it.frag[it.i] with
        | error e => simp only [Iter.unroll, next_of_waits_nil_error h hx hn, opsFrom, hn]
        | ok n =>
          obtain ⟨it', hnext, hw, hfr, hi⟩ := next_of_waits_nil_ok h hx hn
          simp only [Iter.unroll, hnext, opsFrom, hn]
          rw [ih hw (by rw [hfr, hi]; omega), hfr, hi]
    · rw [List.drop_eq_nil_of_le (by omega)]
      have hnext : next g it = .ok none := if_neg hlt
      simp [Iter.unroll, hnext, opsFrom]

end OpIter

theorem opIter_eq_opsFrom (g : GraphSpec) (frag : List UInt16) :
    opIter g frag = opsFrom g [] frag :=
  OpIter.unroll_eq_opsFrom (.inl ⟨rfl, rfl, rfl, rfl⟩) (by simp [OpIter.new])

def lengthPrefix (lo hi : UInt8) : ℕ := lo.toNat ||| hi.toNat <<< 8

def DataFits (g : GraphSpec) (data : Option AtomicTypeID) (bytes : List UInt8) : Prop :=
  match data with
  | none => bytes = []
  | some d => ∃ spec, g.getData d = .ok spec ∧ match spec.atomicType.size with
    | .fixed x => bytes.length = x
    | .dynamic => ∃ lo hi rest, bytes = lo :: hi :: rest ∧ rest.length = lengthPrefix lo hi

/-- A complete node: all its ports are filled and its data is complete. -/
structure Node (g : GraphSpec) where
  id : NodeTypeID
  spec : NodeSpec
  connectors : List ConnectorID
  data : List UInt8
  get : g.getNode id = .ok spec
  length_connectors : connectors.length = spec.size
  fits : DataFits g spec.data data

namespace Node

variable {g : GraphSpec}

def ops (n : Node g) : List UInt16 := n.id :: n.connectors

def place (n : Node g) (opI : ℕ) : GraphNode := ⟨n.id, opI, n.ops, n.data⟩

lemma length_connectors_ports (n : Node g) : n.connectors.length = n.spec.ports.length := by
  rw [n.length_connectors, NodeSpec.length_ports]

lemma length_ops (n : Node g) : n.ops.length = 1 + n.spec.size := by
  simp [ops, n.length_connectors]; omega

def encodeOps (ns : List (Node g)) : List UInt16 := ns.flatMap ops

def encodeData (ns : List (Node g)) : List UInt8 := ns.flatMap data

def layout : ℕ → List (Node g) → List GraphNode
  | _, [] => []
  | opI, n :: ns => n.place opI :: layout (opI + n.ops.length) ns

end Node

namespace NodeIter

variable {g : GraphSpec} {it it' : NodeIter} {a : GraphNode}

lemma dataLen_of_fits {spec : NodeSpec} {data rest : List UInt8} (h : DataFits g spec.data data)
    (hd : it.dataFrag.drop it.dataI = data ++ rest) : it.dataLen g spec = .ok data.length := by
  unfold dataLen
  unfold DataFits at h
  cases hs : spec.data with
  | none => simp_all
  | some d =>
    rw [hs] at h
    obtain ⟨ds, hds, h⟩ := h
    simp only [hds, expect, except_ok_bind]
    cases hsize : ds.atomicType.size with
    | fixed x => rw [hsize] at h; simp only at h; rw [h]
    | dynamic =>
      rw [hsize] at h
      obtain ⟨lo, hi, bytes, rfl, hlen⟩ := h
      have h0 : it.dataFrag[it.dataI]? = some lo := by
        have := congrArg (fun l => l[0]?) hd
        simpa [List.getElem?_drop] using this
      have h1 : it.dataFrag[it.dataI + 1]? = some hi := by
        have := congrArg (fun l => l[1]?) hd
        simpa [List.getElem?_drop] using this
      simp only [index_eq_ok.mpr h0, index_eq_ok.mpr h1, except_ok_bind]
      simp [hlen, lengthPrefix]

lemma fits_of_dataLen {spec : NodeSpec} {k : ℕ} (h : it.dataLen g spec = .ok k)
    (hk : it.dataI + k ≤ it.dataFrag.length) :
    DataFits g spec.data ((it.dataFrag.drop it.dataI).take k) := by
  have hlen : ((it.dataFrag.drop it.dataI).take k).length = k := by simp; omega
  unfold dataLen at h
  unfold DataFits
  cases hs : spec.data with
  | none => simp_all
  | some d =>
    rw [hs] at h
    obtain ⟨ds, hds, h⟩ := except_bind_eq_ok.mp h
    refine ⟨ds, expect_eq_ok.mp hds, ?_⟩
    cases hsize : ds.atomicType.size with
    | fixed x =>
      rw [hsize] at h
      cases h
      exact hlen
    | dynamic =>
      rw [hsize] at h
      obtain ⟨lo, hlo, h⟩ := except_bind_eq_ok.mp h
      obtain ⟨hi, hhi, h⟩ := except_bind_eq_ok.mp h
      cases h
      rw [index_eq_ok] at hlo hhi
      obtain ⟨hlt, hlo⟩ := List.getElem?_eq_some_iff.mp hlo
      obtain ⟨hlt', hhi⟩ := List.getElem?_eq_some_iff.mp hhi
      refine ⟨lo, hi, (it.dataFrag.drop (it.dataI + 1 + 1)).take (lengthPrefix lo hi), ?_, ?_⟩
      · rw [List.drop_eq_getElem_cons hlt, List.take_succ_cons, List.drop_eq_getElem_cons hlt',
          List.take_succ_cons, hlo, hhi]
        rfl
      · simp only [List.length_take, List.length_drop, lengthPrefix]
        omega

lemma next_of_node (n : Node g) {opsRest : List UInt16} {dataRest : List UInt8}
    (hle : it.dataI ≤ it.dataFrag.length) (hops : it.opFrag.drop it.opI = n.ops ++ opsRest)
    (hdata : it.dataFrag.drop it.dataI = n.data ++ dataRest) :
    it.next g = .ok (some (n.place it.opI,
      { it with opI := it.opI + n.ops.length, dataI := it.dataI + n.data.length })) := by
  have hlen := congrArg List.length hops
  have hlen' := congrArg List.length hdata
  simp only [List.length_drop, List.length_append] at hlen hlen'
  have hpos : 0 < n.ops.length := by simp [Node.ops]
  have hid : it.opFrag[it.opI]? = some n.id := by
    have := congrArg (fun l => l[0]?) hops
    simpa [List.getElem?_drop, Node.ops] using this
  have hslice : slice it.opFrag it.opI (it.opI + n.ops.length) = .ok n.ops := by
    rw [slice, if_pos ⟨by omega, by omega⟩, hops]
    simp
  have hdslice : slice it.dataFrag it.dataI (it.dataI + n.data.length) = .ok n.data := by
    rw [slice, if_pos ⟨by omega, by omega⟩, hdata]
    simp
  rw [next, if_neg (by omega), index_eq_ok.mpr hid]
  simp only [except_ok_bind, n.get, expect, ← n.length_ops, hslice, dataLen_of_fits n.fits hdata]
  rw [if_pos (by omega), hdslice]
  rfl

lemma node_of_next (h : it.next g = .ok (some (a, it'))) :
    ∃ n : Node g, a = n.place it.opI ∧ it.opFrag.drop it.opI = n.ops ++ it.opFrag.drop it'.opI ∧
      it.dataFrag.drop it.dataI = n.data ++ it.dataFrag.drop it'.dataI ∧
      it' = { it with opI := it.opI + n.ops.length, dataI := it.dataI + n.data.length } ∧
      it'.opI ≤ it.opFrag.length ∧ it'.dataI ≤ it.dataFrag.length := by
  unfold next at h
  split at h
  · cases h
  obtain ⟨id, hid, h⟩ := except_bind_eq_ok.mp h
  obtain ⟨spec, hspec, h⟩ := except_bind_eq_ok.mp h
  obtain ⟨ops, hops, h⟩ := except_bind_eq_ok.mp h
  obtain ⟨k, hk, h⟩ := except_bind_eq_ok.mp h
  split at h
  case isFalse => cases h
  rename_i hle
  obtain ⟨data, hdata, h⟩ := except_bind_eq_ok.mp h
  cases h
  unfold slice at hops hdata
  split at hops
  case isFalse => cases hops
  rename_i hol
  rw [if_pos ⟨by omega, hle⟩] at hdata
  cases hops
  cases hdata
  rw [index_eq_ok] at hid
  obtain ⟨hlt, hid⟩ := List.getElem?_eq_some_iff.mp hid
  have hcons : (it.opFrag.drop it.opI).take (1 + spec.size) =
      id :: (it.opFrag.drop (it.opI + 1)).take spec.size := by
    rw [List.drop_eq_getElem_cons hlt, Nat.add_comm, List.take_succ_cons, hid]
  refine ⟨⟨id, spec, (it.opFrag.drop (it.opI + 1)).take spec.size,
    (it.dataFrag.drop it.dataI).take k, expect_eq_ok.mp hspec, by simp; omega,
    fits_of_dataLen hk hle⟩, ?_, ?_, ?_, ?_, hol.2, hle⟩
  · simp [Node.place, Node.ops, hcons]
  · simp only [Node.ops]
    rw [← hcons, ← List.drop_drop]
    exact (List.take_append_drop _ _).symm
  · simp only [← List.drop_drop]
    exact (List.take_append_drop _ _).symm
  · simp only [Node.ops, ← hcons, List.length_take, List.length_drop]
    rw [show min (1 + spec.size) (it.opFrag.length - it.opI) = 1 + spec.size by omega,
      show min k (it.dataFrag.length - it.dataI) = k by omega]

lemma drop_of_next_none (h : it.next g = .ok none) : it.opFrag.drop it.opI = [] := by
  unfold next at h
  split at h
  · exact List.drop_eq_nil_of_le ‹_›
  obtain ⟨_, _, h⟩ := except_bind_eq_ok.mp h
  obtain ⟨_, _, h⟩ := except_bind_eq_ok.mp h
  obtain ⟨_, _, h⟩ := except_bind_eq_ok.mp h
  obtain ⟨_, _, h⟩ := except_bind_eq_ok.mp h
  split at h
  · obtain ⟨_, _, h⟩ := except_bind_eq_ok.mp h
    cases h
  · cases h

lemma unroll_of_nodes (ns : List (Node g)) {rest : List UInt8} {fuel : ℕ}
    (hle : it.dataI ≤ it.dataFrag.length) (hops : it.opFrag.drop it.opI = Node.encodeOps ns)
    (hdata : it.dataFrag.drop it.dataI = Node.encodeData ns ++ rest) (hf : ns.length < fuel) :
    Iter.unroll (next g) fuel it = ⟨Node.layout it.opI ns, none⟩ := by
  induction ns generalizing it fuel with
  | nil =>
    obtain ⟨fuel, rfl⟩ := Nat.exists_eq_succ_of_ne_zero (by omega : fuel ≠ 0)
    have hnext : it.next g = .ok none := if_pos (List.drop_eq_nil_iff.mp hops)
    simp only [Iter.unroll, hnext, Node.layout]
  | cons n ns ih =>
    obtain ⟨fuel, rfl⟩ := Nat.exists_eq_succ_of_ne_zero (by omega : fuel ≠ 0)
    rw [Node.encodeData, List.flatMap_cons, List.append_assoc] at hdata
    have hlen := congrArg List.length hdata
    simp only [List.length_drop, List.length_append] at hlen
    have hrec := @ih
      { it with opI := it.opI + n.ops.length, dataI := it.dataI + n.data.length } fuel
      (by simp only; omega)
      (by rw [← List.drop_drop, hops]; simp [Node.encodeOps])
      (by rw [← List.drop_drop, hdata]; simp [Node.encodeData])
      (by simp only [List.length_cons] at hf; omega)
    simp only [Iter.unroll, next_of_node n hle hops hdata, hrec, Node.layout]

lemma nodes_of_unroll {fuel : ℕ} (hf : it.opFrag.length < it.opI + fuel) :
    ∃ ns : List (Node g), ∃ opsRest dataRest,
      (Iter.unroll (next g) fuel it).items = Node.layout it.opI ns ∧
      it.opFrag.drop it.opI = Node.encodeOps ns ++ opsRest ∧
      it.dataFrag.drop it.dataI = Node.encodeData ns ++ dataRest ∧
      ((Iter.unroll (next g) fuel it).stop = none → opsRest = []) := by
  induction fuel generalizing it with
  | zero =>
    exact ⟨[], [], it.dataFrag.drop it.dataI, rfl, List.drop_eq_nil_of_le (by omega), rfl,
      fun _ => rfl⟩
  | succ fuel ih =>
    rw [Iter.unroll]
    split
    · exact ⟨[], _, _, rfl, rfl, rfl, by simp⟩
    · rename_i hnext
      exact ⟨[], [], _, rfl, drop_of_next_none hnext, rfl, fun _ => rfl⟩
    · rename_i a it' hnext
      obtain ⟨n, rfl, hops, hdata, rfl, -, -⟩ := node_of_next hnext
      have hpos : 0 < n.ops.length := by simp [Node.ops]
      obtain ⟨ns, opsRest, dataRest, hitems, hops', hdata', hstop⟩ := @ih
        { it with opI := it.opI + n.ops.length, dataI := it.dataI + n.data.length }
        (by simp only; omega)
      refine ⟨n :: ns, opsRest, dataRest, ?_, ?_, ?_, hstop⟩
      · rw [hitems]; rfl
      · rw [hops, hops']; simp [Node.encodeOps]
      · rw [hdata, hdata']; simp [Node.encodeData]

lemma dataI_last (fuel : ℕ) (it : NodeIter) : (it.last g fuel).dataI =
    it.dataI + ((Iter.unroll (next g) fuel it).items.flatMap GraphNode.data).length := by
  induction fuel generalizing it with
  | zero => rfl
  | succ fuel ih =>
    rw [last, Iter.unroll]
    cases hnext : it.next g with
    | error e => rfl
    | ok o =>
      cases o with
      | none => rfl
      | some p =>
        obtain ⟨n, hn, -, -, hit, -, -⟩ := node_of_next hnext
        dsimp only
        rw [ih, hit, hn, List.flatMap_cons, List.length_append, Nat.add_assoc]
        rfl

end NodeIter

lemma Node.length_le_encodeOps {g : GraphSpec} (ns : List (Node g)) :
    ns.length ≤ (Node.encodeOps ns).length := by
  induction ns with
  | nil => simp
  | cons n ns ih =>
    simp only [Node.encodeOps, List.flatMap_cons, List.length_append, List.length_cons] at ih ⊢
    have : 0 < n.ops.length := by simp [Node.ops]
    omega

theorem nodeIter_encode {g : GraphSpec} (ns : List (Node g)) (rest : List UInt8) :
    nodeIter g (Node.encodeOps ns) (Node.encodeData ns ++ rest) = ⟨Node.layout 0 ns, none⟩ :=
  NodeIter.unroll_of_nodes ns (Nat.zero_le _) rfl rfl
    (Nat.lt_succ_of_le (Node.length_le_encodeOps ns))

/-- The nodes of any op list and data are complete, also when the iteration ends in a panic. -/
theorem nodes_of_nodeIter (g : GraphSpec) (ops : List UInt16) (data : List UInt8) :
    ∃ ns : List (Node g), ∃ opsRest dataRest, (nodeIter g ops data).items = Node.layout 0 ns ∧
      ops = Node.encodeOps ns ++ opsRest ∧ data = Node.encodeData ns ++ dataRest ∧
      ((nodeIter g ops data).stop = none → opsRest = []) :=
  @NodeIter.nodes_of_unroll g (NodeIter.new ops data) _ (by simp [NodeIter.new])

end Nyx
