import Mathlib.Algebra.GroupWithZero.Nat
import Mathlib.Data.List.AList
import Nyx.Graph.Random

/-!
# Graph specifications

The node types with the values they take, borrow and give, and the atomic data types of their
payloads. `GraphSpec` carries what holds of every specification put together by `dataType`,
`valueType` and `nodeType`.
-/

namespace Nyx

inductive GraphError where
  | unknownNodeType (n : NodeTypeID)
  | unknownValueType (v : ValueTypeID)
  | unknownDataType (d : AtomicTypeID)
  | unknownID (c : ConnectorID)
  | missingInput
  | invalidSpecs
  deriving DecidableEq, Repr

inductive IntGenerator where
  | options (opts : List UInt64)
  | flags (opts : List UInt64)
  | limits (range : UInt64 × UInt64) (align : UInt64)
  deriving DecidableEq, Repr

inductive AtomicSize where
  | fixed (size : ℕ)
  | dynamic
  deriving DecidableEq, Repr

namespace AtomicSize

def isFixed : AtomicSize → Bool
  | fixed _ => true
  | dynamic => false

def asUsize : AtomicSize → Except Panic ℕ
  | fixed n => .ok n
  | dynamic => .error .dynamicSize

def minDataSize : AtomicSize → ℕ
  | fixed n => n
  | dynamic => 2

end AtomicSize

inductive AtomicDataType where
  | dataInt (size : ℕ) (generators : List IntGenerator)
  | dataVec (sizeRange : ℕ × ℕ) (primitiveSize : ℕ) (dtype : AtomicTypeID)
  | dataStruct (size : ℕ) (fields : List (String × AtomicTypeID))
  deriving DecidableEq, Repr

namespace AtomicDataType

def size : AtomicDataType → AtomicSize
  | dataInt size _ => .fixed size
  | dataVec _ _ _ => .dynamic
  | dataStruct size _ => .fixed size

def minDataSize (a : AtomicDataType) : ℕ := a.size.minDataSize

end AtomicDataType

/-- A type of data. -/
structure AtomicSpec where
  name : String
  id : AtomicTypeID
  atomicType : AtomicDataType
  deriving DecidableEq, Repr

def dataSize (specs : List AtomicSpec) (unknown : Panic) (d : AtomicTypeID) : Except Panic ℕ :=
  match specs[d]? with
  | some spec => spec.atomicType.size.asUsize
  | none => .error unknown

def fieldSizes (specs : List AtomicSpec) (fields : List (String × AtomicTypeID)) :
    Except Panic (List ℕ) :=
  fields.mapM fun f => dataSize specs (.invalidFieldType f.2) f.2

/-- What the constructors of the three data types establish over the table built so far. -/
def AtomicDataType.WellFormed (specs : List AtomicSpec) : AtomicDataType → Prop
  | dataInt size _ => size = 1 ∨ size = 2 ∨ size = 4 ∨ size = 8
  | dataVec _ primitiveSize dtype => dataSize specs .unwrapErr dtype = .ok primitiveSize
  | dataStruct size fields => ∃ sizes, fieldSizes specs fields = .ok sizes ∧ size = sizes.sum

/-- A type of values. -/
structure ValueSpec where
  id : ValueTypeID
  name : String
  deriving DecidableEq, Repr

abbrev RequiredValues := AList fun _ : ValueTypeID => ℕ

def RequiredValues.pass (m : RequiredValues) (v : ValueTypeID) : RequiredValues :=
  if (m.lookup v).getD 0 = 0 then m.insert v 1 else m

def RequiredValues.input (m : RequiredValues) (v : ValueTypeID) : RequiredValues :=
  m.insert v ((m.lookup v).getD 0 + 1)

/-- How many values a node needs of each type. -/
def requiredValuesOf (passthroughs inputs : List ValueTypeID) : RequiredValues :=
  inputs.foldl RequiredValues.input (passthroughs.foldl RequiredValues.pass ∅)

lemma lookup_foldl_pass (ps : List ValueTypeID) (m : RequiredValues) (v : ValueTypeID) :
    (ps.foldl RequiredValues.pass m).lookup v =
      if v ∈ ps ∧ (m.lookup v).getD 0 = 0 then some 1 else m.lookup v := by
  induction ps generalizing m with
  | nil => simp
  | cons p ps ih =>
    rw [List.foldl_cons, ih]
    unfold RequiredValues.pass
    by_cases hp : v = p
    · subst hp
      by_cases h0 : (m.lookup v).getD 0 = 0 <;> simp [h0]
    · by_cases h0 : (m.lookup p).getD 0 = 0 <;> simp [h0, hp, AList.lookup_insert_ne]

lemma lookup_foldl_input (is : List ValueTypeID) (m : RequiredValues) (v : ValueTypeID) :
    (is.foldl RequiredValues.input m).lookup v =
      if v ∈ is then some ((m.lookup v).getD 0 + is.count v) else m.lookup v := by
  induction is generalizing m with
  | nil => simp
  | cons i is ih =>
    rw [List.foldl_cons, ih]
    unfold RequiredValues.input
    by_cases hi : v = i
    · subst hi
      by_cases hv : v ∈ is
      · simp [hv]; omega
      · simp [hv, List.count_eq_zero_of_not_mem hv]
    · have hne : ¬i = v := fun h => hi h.symm
      simp [hi, hne, AList.lookup_insert_ne]

lemma lookup_requiredValuesOf (ps is : List ValueTypeID) (v : ValueTypeID) :
    (requiredValuesOf ps is).lookup v =
      if v ∈ ps ∨ v ∈ is then some (is.count v + if v ∈ ps then 1 else 0) else none := by
  unfold requiredValuesOf
  rw [lookup_foldl_input, lookup_foldl_pass]
  by_cases hi : v ∈ is <;> by_cases hp : v ∈ ps <;> simp [hi, hp]
  · omega
  · exact List.count_eq_zero_of_not_mem hi

/-- A type of nodes with its ports and data. -/
structure NodeSpec where
  name : String
  id : NodeTypeID
  inputs : List ValueTypeID
  outputs : List ValueTypeID
  passthroughs : List ValueTypeID
  requiredValues : RequiredValues
  data : Option AtomicTypeID
  requiredValues_eq : requiredValues = requiredValuesOf passthroughs inputs

namespace NodeSpec

def new (name : String) (id : NodeTypeID) (data : Option AtomicTypeID)
    (inputs passthroughs outputs : List ValueTypeID) : NodeSpec :=
  ⟨name, id, inputs, outputs, passthroughs, requiredValuesOf passthroughs inputs, data, rfl⟩

def size (n : NodeSpec) : ℕ := n.inputs.length + n.passthroughs.length + n.outputs.length

end NodeSpec

/-- The types of which graphs are built, and their limits. -/
structure GraphSpec where
  checksum : UInt64
  nodeSpecs : List NodeSpec
  valueSpecs : List ValueSpec
  dataSpecs : List AtomicSpec
  maxData : ℕ
  maxOps : ℕ
  nodes_le : nodeSpecs.length ≤ 65535
  node_id : ∀ i (n : NodeSpec), nodeSpecs[i]? = some n → n.id = UInt16.ofNat i
  ops_bound : ∀ n ∈ nodeSpecs, n.size + 1 ≤ maxOps
  data_bound : ∀ d ∈ dataSpecs, d.atomicType.minDataSize ≤ maxData
  data_wf : ∀ i (d : AtomicSpec), dataSpecs[i]? = some d → d.atomicType.WellFormed (dataSpecs.take i)

namespace GraphSpec

def new : GraphSpec where
  checksum := 0
  nodeSpecs := []
  valueSpecs := []
  dataSpecs := []
  maxData := 0
  maxOps := 0
  nodes_le := by simp
  node_id := by simp
  ops_bound := by simp
  data_bound := by simp
  data_wf := by simp

def biggestData (g : GraphSpec) : ℕ := g.maxData

def biggestOps (g : GraphSpec) : ℕ := g.maxOps

def getNode (g : GraphSpec) (n : NodeTypeID) : Except GraphError NodeSpec :=
  match g.nodeSpecs[n.toNat]? with
  | some spec => .ok spec
  | none => .error (.unknownNodeType n)

def getData (g : GraphSpec) (d : AtomicTypeID) : Except GraphError AtomicSpec :=
  match g.dataSpecs[d]? with
  | some spec => .ok spec
  | none => .error (.unknownDataType d)

lemma getNode_eq_ok {g : GraphSpec} {n : NodeTypeID} {spec : NodeSpec} :
    g.getNode n = .ok spec ↔ g.nodeSpecs[n.toNat]? = some spec := by
  unfold getNode
  split <;> simp_all

lemma getData_eq_ok {g : GraphSpec} {d : AtomicTypeID} {spec : AtomicSpec} :
    g.getData d = .ok spec ↔ g.dataSpecs[d]? = some spec := by
  unfold getData
  split <;> simp_all

lemma id_of_getNode {g : GraphSpec} {n : NodeTypeID} {spec : NodeSpec}
    (h : g.getNode n = .ok spec) : spec.id = n := by
  rw [g.node_id _ _ (getNode_eq_ok.mp h), UInt16.ofNat_toNat]

end GraphSpec

/-- Panics on a data id that is not in the table. -/
def NodeSpec.minDataSize (n : NodeSpec) (g : GraphSpec) : Except Panic ℕ :=
  match n.data with
  | none => .ok 0
  | some d => match g.getData d with
    | .ok spec => .ok spec.atomicType.minDataSize
    | .error _ => .error .unwrapErr

namespace GraphSpec

def valueType (g : GraphSpec) (name : String) : Except Panic (ValueTypeID × GraphSpec) :=
  if g.valueSpecs.length < 65535 then
    .ok (UInt16.ofNat g.valueSpecs.length,
      { g with valueSpecs := g.valueSpecs ++ [⟨UInt16.ofNat g.valueSpecs.length, name⟩] })
  else .error .assertFailed

lemma le_grow_left (a b : ℕ) : a ≤ if a < b then b else a := by split <;> omega

lemma le_grow_right (a b : ℕ) : b ≤ if a < b then b else a := by split <;> omega

def dataType (g : GraphSpec) (name : String) (atom : AtomicDataType)
    (h : atom.WellFormed g.dataSpecs) : AtomicTypeID × GraphSpec :=
  (g.dataSpecs.length,
    { g with
      dataSpecs := g.dataSpecs ++ [⟨name, g.dataSpecs.length, atom⟩]
      maxData := if g.maxData < atom.minDataSize then atom.minDataSize else g.maxData
      data_bound := by
        intro d hd
        rcases List.mem_append.mp hd with hd | hd
        · exact Nat.le_trans (g.data_bound d hd) (le_grow_left _ _)
        · rw [List.mem_singleton.mp hd]
          exact le_grow_right _ _
      data_wf := by
        intro i d hd
        rcases Nat.lt_trichotomy i g.dataSpecs.length with hi | hi | hi
        · rw [List.getElem?_append_left hi] at hd
          rw [List.take_append_of_le_length (Nat.le_of_lt hi)]
          exact g.data_wf i d hd
        · subst hi
          simp only [List.getElem?_concat_length, Option.some.injEq] at hd
          subst hd
          simpa using h
        · rw [List.getElem?_eq_none (by rw [List.length_append]; exact hi)] at hd
          cases hd })

def nodeType (g : GraphSpec) (name : String) (data : Option AtomicTypeID)
    (inputs passthrough outputs : List ValueTypeID) : Except Panic (NodeTypeID × GraphSpec) :=
  if hlen : g.nodeSpecs.length < 65535 then
    let id := UInt16.ofNat g.nodeSpecs.length
    let opsLen := inputs.length + passthrough.length + outputs.length + 1
    .ok (id,
      { g with
        nodeSpecs := g.nodeSpecs ++ [NodeSpec.new name id data inputs passthrough outputs]
        maxOps := if g.maxOps < opsLen then opsLen else g.maxOps
        nodes_le := by rw [List.length_append]; exact hlen
        node_id := by
          intro i n hn
          rcases Nat.lt_trichotomy i g.nodeSpecs.length with hi | hi | hi
          · rw [List.getElem?_append_left hi] at hn
            exact g.node_id i n hn
          · subst hi
            simp only [List.getElem?_concat_length, Option.some.injEq] at hn
            subst hn
            rfl
          · rw [List.getElem?_eq_none (by rw [List.length_append]; exact hi)] at hn
            cases hn
        ops_bound := by
          intro n hn
          rcases List.mem_append.mp hn with hn | hn
          · exact Nat.le_trans (g.ops_bound n hn) (le_grow_left _ _)
          · rw [List.mem_singleton.mp hn]
            exact le_grow_right _ _ })
  else .error .assertFailed

end GraphSpec

abbrev WfAtomic (g : GraphSpec) := { atom : AtomicDataType // atom.WellFormed g.dataSpecs }

def DataInt.new (g : GraphSpec) (size : ℕ) (generators : List IntGenerator) :
    Except Panic (WfAtomic g) :=
  if h : size = 1 ∨ size = 2 ∨ size = 4 ∨ size = 8 then .ok ⟨.dataInt size generators, h⟩
  else .error (.invalidIntegerSize size)

def DataVec.new (g : GraphSpec) (sizeRange : ℕ × ℕ) (dtype : AtomicTypeID) :
    Except Panic (WfAtomic g) :=
  match h : dataSize g.dataSpecs .unwrapErr dtype with
  | .ok primitiveSize => .ok ⟨.dataVec sizeRange primitiveSize dtype, h⟩
  | .error e => .error e

def DataStruct.new (g : GraphSpec) (fields : List (String × AtomicTypeID)) :
    Except Panic (WfAtomic g) :=
  match h : fieldSizes g.dataSpecs fields with
  | .ok sizes => .ok ⟨.dataStruct sizes.sum fields, sizes, h, rfl⟩
  | .error e => .error e

/-- A value type in the file. -/
structure EdgeLoader where
  name : String

/-- A node type in the file. -/
structure NodeLoader where
  name : String
  atomId : Option ℕ
  inputs : List UInt16
  borrows : List UInt16
  outputs : List UInt16

inductive AtomLoader where
  | struct (name : String) (fields : List (String × ℕ))
  | int (name : String) (size : ℕ) (generators : List IntGenerator)
  | vec (name : String) (sizeRange : ℕ × ℕ) (dtype : ℕ)

/-- The specification file. -/
structure SpecLoader where
  checksum : UInt64
  nodes : List NodeLoader
  edges : List EdgeLoader
  atomics : List AtomLoader

namespace SpecLoader

def checkId (id i : ℕ) (g : GraphSpec) : Except Panic GraphSpec :=
  if id = i then .ok g else .error .assertFailed

def addAtom (g : GraphSpec) : AtomLoader × ℕ → Except Panic GraphSpec
  | (.struct name fields, i) => do
    let atom ← DataStruct.new g fields
    let (id, g) := g.dataType name atom.1 atom.2
    checkId id i g
  | (.int name size generators, i) => do
    let atom ← DataInt.new g size generators
    let (id, g) := g.dataType name atom.1 atom.2
    checkId id i g
  | (.vec name rng dtype, i) =>
    match g.getData dtype with
    | .error _ => .error (.invalidVecType dtype)
    | .ok dspec =>
      if dspec.atomicType.size.isFixed then do
        let atom ← DataVec.new g rng dtype
        let (id, g) := g.dataType name atom.1 atom.2
        checkId id i g
      else .error .assertFailed

def addEdge (g : GraphSpec) : EdgeLoader × ℕ → Except Panic GraphSpec
  | (edge, i) => do
    let (id, g) ← g.valueType edge.name
    checkId id.toNat i g

def addNode (g : GraphSpec) : NodeLoader × ℕ → Except Panic GraphSpec
  | (node, i) => do
    let (id, g) ← g.nodeType node.name node.atomId node.inputs node.borrows node.outputs
    checkId id.toNat i g

/-- The specification in the file. -/
def toGraphSpec (l : SpecLoader) : Except Panic GraphSpec := do
  let g := { GraphSpec.new with checksum := l.checksum }
  let g ← l.atomics.zipIdx.foldlM addAtom g
  let g ← l.edges.zipIdx.foldlM addEdge g
  l.nodes.zipIdx.foldlM addNode g

end SpecLoader

end Nyx
