import Nyx.Lib.BinaryFile

/-!
# The builder of `spec_lib`

A `Builder` collects the ops and the data of the nodes that a Python script asks for. The values
that `build_node` hands out are objects, here named by their position. A call that raises leaves
behind what it did up to then.
-/

namespace Nyx.SpecLib

inductive PyError where
  /-- `name_to_node[name]` of an unknown name -/
  | keyError
  | assertionError
  /-- an argument that is not a value of the builder -/
  | attributeError
  /-- `randrange` of an empty range -/
  | valueError
  /-- `struct.pack` of a number that does not fit its format -/
  | structError
  | osError
  deriving DecidableEq, Repr

/-- `fixed_size` with `size`, or a vector with its `size_range`. -/
inductive DataType where
  | fixed (size : ℕ)
  | vec (sizeRange : List ℕ)
  deriving DecidableEq, Repr

/-- A node type of the specification. -/
structure NodeType where
  id : ℕ
  name : String
  inputs : List ℕ
  borrows : List ℕ
  outputs : List ℕ
  data : Option DataType
  deriving DecidableEq, Repr

/-- A specification with the `md5` of its serialised form. Nodes are numbered in order. -/
structure Spec where
  nodes : List NodeType
  md5 : ℕ
  node_id : nodes.map (·.id) = List.range nodes.length

namespace Spec

def getChecksum (spec : Spec) : ℕ := 0x474e534b ||| (spec.md5 &&& 0xffffffff) <<< 32

def nameToNode (spec : Spec) (name : String) : Option NodeType :=
  spec.nodes.reverse.find? fun n => n.name = name

lemma getChecksum_lt (spec : Spec) : spec.getChecksum < 2 ^ 64 := by
  have hmask : spec.md5 &&& 0xffffffff < 2 ^ 32 :=
    Nat.and_lt_two_pow spec.md5 (by decide)
  have hshift : (spec.md5 &&& 0xffffffff) <<< 32 < 2 ^ 64 := by
    omega
  exact Nat.or_lt_two_pow (by decide) hshift

end Spec

/-- A value in the script. -/
structure BuilderValue where
  valueType : ℕ
  id : ℕ
  unused : Bool
  deriving DecidableEq, Repr

/-- A builder with the values it knows and the numbers that `random` is going to draw. -/
structure Builder where
  spec : Spec
  ops : List ℕ
  data : List UInt8
  valueToId : ℕ → ℕ
  values : List BuilderValue
  random : ℕ → ℕ

def pack (w : ℕ) (ns : List ℕ) : Except PyError (List UInt8) :=
  if ∀ n ∈ ns, n < 256 ^ w then .ok (leWords w ns) else .error .structError

namespace Builder

abbrev BuilderM := Exec PyError Builder

/-- A fresh builder. The script may already hold values of other builders. -/
def new (spec : Spec) (values : List BuilderValue) (random : ℕ → ℕ) : Builder :=
  { spec, values, random, ops := [], data := [], valueToId := fun _ => 0 }

def assert (c : Bool) : BuilderM Unit := if c then pure () else Exec.panic .assertionError

def appendOp (op : ℕ) : BuilderM Unit := Exec.modify fun b => { b with ops := b.ops ++ [op] }

def addData (bs : List UInt8) : BuilderM Unit :=
  Exec.modify fun b => { b with data := b.data ++ bs }

def addPacked : Except PyError (List UInt8) → BuilderM Unit
  | .ok bs => addData bs
  | .error e => Exec.panic e

def draw : BuilderM ℕ := fun b =>
  (.ok (b.random 0), { b with random := fun i => b.random (i + 1) })

def randrange (low high : ℕ) : BuilderM ℕ :=
  if low < high then do
    let r ← draw
    pure (low + r % (high - low))
  else Exec.panic .valueError

def alphabet : List UInt8 := (List.range 26).map (UInt8.ofNat <| 65 + ·) ++
  (List.range 10).map (UInt8.ofNat <| 48 + ·)

def choice : BuilderM UInt8 := do
  let r ← draw
  pure (alphabet.getD (r % 36) 0)

def randomData : ℕ → BuilderM (List UInt8)
  | 0 => pure []
  | n + 1 => do
    let c ← choice
    let cs ← randomData n
    pure (c :: cs)

def buildData : Option DataType → BuilderM Unit
  | none => pure ()
  | some (.vec [low, high]) => do
    let n ← randrange low high
    addPacked (pack 2 [n])
    addData (← randomData n)
  | some (.vec _) => Exec.panic .assertionError
  | some (.fixed n) => do addData (← randomData n)

/-- A new value of the given type. The result is its position among the values. -/
def buildValue (val : ℕ) : BuilderM ℕ := fun b =>
  (.ok b.values.length,
    { b with
      valueToId := Function.update b.valueToId val (b.valueToId val + 1)
      values := b.values ++ [⟨val, b.valueToId val, true⟩] })

def value (ref : ℕ) : BuilderM BuilderValue := do
  match ← Exec.gets (·.values[ref]?) with
  | some v => pure v
  | none => Exec.panic .attributeError

/-- Check an argument against the type `val` and append its id. -/
def passArg (val ref : ℕ) : BuilderM Unit := do
  let v ← value ref
  assert (v.valueType == val)
  assert v.unused
  appendOp v.id

def markUsed (ref : ℕ) : BuilderM Unit :=
  Exec.modify fun b => { b with values := b.values.modify ref ({ · with unused := false }) }

def buildOutput (val : ℕ) : BuilderM Unit := do
  let ref ← buildValue val
  let v ← value ref
  appendOp v.id

def buildNode (name : String) (args : List ℕ) : BuilderM Unit := do
  match ← Exec.gets (·.spec.nameToNode name) with
  | none => Exec.panic .keyError
  | some node =>
    assert (args.length == node.inputs.length + node.borrows.length)
    appendOp node.id
    Exec.forEach (node.inputs.zip args) fun (val, ref) => do
      passArg val ref
      markUsed ref
    Exec.forEach (node.borrows.zip (args.drop node.inputs.length)) fun (val, ref) =>
      passArg val ref
    buildData node.data
    Exec.forEach node.outputs buildOutput

/-- A script: the calls in order. A call that raises may be caught. -/
def buildAll (b : Builder) (calls : List (String × List ℕ)) : Builder :=
  calls.foldl (fun b call => ((buildNode call.1 call.2).run b).2) b

def writeToFile (b : Builder) : Except PyError File := do
  let graphSize := b.ops.length
  let dataSize := b.data.length
  let base := 5 * 8
  let graphOffset := base
  let dataOffset := graphOffset + 2 * graphSize
  let header ← pack 8 [b.spec.getChecksum, graphSize, dataSize, graphOffset, dataOffset]
  let graphData ← pack 2 b.ops
  File.create do
    File.write .osError header
    File.write .osError graphData
    File.write .osError b.data

end Builder

end Nyx.SpecLib
