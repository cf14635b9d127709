import Nyx.Lib.IndexedList
import Nyx.Graph.AtomicData
import Nyx.Graph.Edges

/-!
# The graph builder

`ValueState` is the set of available values of one type, with the renaming of the ids of copied
graphs. The builder takes the inputs of a node from it and adds its outputs.
-/

namespace Nyx

open GraphStorage Function

inductive BuildPanic where
  /-- `unknown new id: {:?}` -/
  | unknownNewId (id : ConnectorID)
  /-- `couldn get random input` -/
  | couldnGetRandomInput
  | other (e : Panic)
  deriving DecidableEq, Repr

/-- The values of one type: those to sample from, and how ids were renamed. -/
structure ValueState where
  curId : ConnectorID
  newIdsForSampling : List ConnectorID
  newIdToIdsIndex : ConnectorID → Option ℕ
  newIdToOldId : ConnectorID → Option ConnectorID
  oldIdToNewId : ConnectorID → Option ConnectorID

abbrev ValM := Exec BuildPanic (ValueState × Distributions)

namespace ValueState

def new : ValueState := ⟨0, [], fun _ => none, fun _ => none, fun _ => none⟩

def numAvailable (vs : ValueState) : ℕ := vs.newIdsForSampling.length

/-- `new_id_to_old_id` is not cleared. -/
def clear (vs : ValueState) : ValueState :=
  { vs with
    curId := 0
    newIdsForSampling := []
    newIdToIdsIndex := fun _ => none
    oldIdToNewId := fun _ => none }

/-- The next id is given to a value. -/
def insertNewId (vs : ValueState) : ConnectorID × ValueState :=
  let newId := vs.curId + 1
  let ids := vs.newIdsForSampling ++ [newId]
  (newId, { vs with
    curId := newId
    newIdsForSampling := ids
    newIdToIdsIndex := update vs.newIdToIdsIndex newId (some (ids.length - 1)) })

def insertOldId (vs : ValueState) (oldId : ConnectorID) : ConnectorID × ValueState :=
  let (newId, vs) := vs.insertNewId
  (newId, { vs with
    newIdToOldId := update vs.newIdToOldId newId (some oldId)
    oldIdToNewId := update vs.oldIdToNewId oldId (some newId) })

def forget (vs : ValueState) (newId : ConnectorID) : ValueState :=
  match vs.newIdToOldId newId with
  | some old => { vs with
      newIdToOldId := update vs.newIdToOldId newId none
      oldIdToNewId := update vs.oldIdToNewId old none }
  | none => vs

/-- The value is consumed. -/
def takeNewInput (newId : ConnectorID) : ValM ConnectorID := fun (vs, d) =>
  match vs.newIdToIdsIndex newId with
  | none => (.error (.unknownNewId newId), (vs, d))
  | some i =>
    if i < vs.newIdsForSampling.length then
      (.ok newId, (ValueState.forget { vs with
        newIdsForSampling := swapRemove vs.newIdsForSampling i
        newIdToIdsIndex :=
          indexAfterRemove vs.newIdsForSampling vs.newIdToIdsIndex newId i } newId, d))
    else
      (.error (.other .indexOutOfBounds),
        ({ vs with newIdToIdsIndex := update vs.newIdToIdsIndex newId none }, d))

def getRenamedOldInput (vs : ValueState) (oldId : ConnectorID) : Option ConnectorID :=
  vs.oldIdToNewId oldId

def draw {α : Type} (m : Exec Panic Distributions α) : ValM α :=
  Exec.mapError BuildPanic.other (Exec.zoom Prod.snd (fun d s => (s.1, d)) m)

def getRandomInput : ValM ConnectorID := do
  let ids ← Exec.gets fun s => s.1.newIdsForSampling
  if ids.isEmpty then Exec.panic .couldnGetRandomInput
  else do
    let index ← draw (Distributions.genRange 0 ids.length)
    Exec.unwrap (.other .indexOutOfBounds) ids[index]?

def takeRandomInput : ValM ConnectorID := do
  let id ← getRandomInput
  takeNewInput id

def getOldAvailableInput (oldId : ConnectorID) : ValM ConnectorID := do
  let renamed ← Exec.gets fun s => s.1.getRenamedOldInput oldId
  match renamed with
  | some id => pure id
  | none => getRandomInput

def takeOldAvailableInput (oldId : ConnectorID) : ValM ConnectorID := do
  let id ← getOldAvailableInput oldId
  takeNewInput id

def insert (f : ValueState → ConnectorID × ValueState) : ValM ConnectorID := fun s =>
  (.ok (f s.1).1, ((f s.1).2, s.2))

end ValueState

abbrev GraphState := ValueTypeID → Option ValueState

namespace GraphState

def getState (st : GraphState) (v : ValueTypeID) : ValueState := (st v).getD ValueState.new

def clear (st : GraphState) : GraphState := fun v => (st v).map ValueState.clear

def isAvailable (g : GraphSpec) (st : GraphState) (n : NodeTypeID) : Bool :=
  match g.getNode n with
  | .ok node => node.requiredValues.entries.all fun e =>
    match st e.1 with
    | some vs => e.2 ≤ vs.numAvailable
    | none => false
  | .error _ => false

end GraphState

/-- The builder, the graph it fills and the draws that are left. -/
structure BuildState (S : Type) where
  state : GraphState
  graph : S
  dist : Distributions

abbrev BuildM (S : Type) := Exec BuildPanic (BuildState S)

namespace GraphBuilder

variable {S : Type} [GraphStorage S]

/-- `state.get_state_mut(&v)` and a method of it. -/
def onValue {α : Type} (v : ValueTypeID) (m : ValM α) : BuildM S α :=
  Exec.zoom (fun st => (st.state.getState v, st.dist))
    (fun r st => { st with state := update st.state v (some r.1), dist := r.2 }) m

def onGraph {α : Type} (m : GenM S α) : BuildM S α :=
  Exec.mapError BuildPanic.other (Exec.zoom (fun st => (st.graph, st.dist))
    (fun r st => { st with graph := r.1, dist := r.2 }) m)

def draw {α : Type} (m : Exec Panic Distributions α) : BuildM S α := onGraph (GenM.draw m)

def start : BuildM S Unit :=
  Exec.modify fun st => { st with graph := GraphStorage.clear st.graph, state := st.state.clear }

def appendOp (op : UInt16) : BuildM S Unit :=
  Exec.modify fun st => { st with graph := (GraphStorage.appendOp st.graph op).getD st.graph }

def renameAndRelinkOpVal : GraphOp → BuildM S UInt16
  | .get v inputId => onValue v (ValueState.takeOldAvailableInput inputId)
  | .set v con => onValue v (ValueState.insert fun vs => vs.insertOldId con)
  | .pass v inputId => onValue v (ValueState.getOldAvailableInput inputId)
  | .node nt => pure nt

def forItems {α : Type} (it : Iter Panic α) (body : α → BuildM S Unit) : BuildM S Unit := do
  Exec.forEach it.items body
  match it.stop with
  | none => pure ()
  | some e => Exec.panic (.other e)

def appendSlice (g : GraphSpec) (frag : List UInt16) : BuildM S Unit :=
  forItems (opIter g frag) fun op => do
    let newVal ← renameAndRelinkOpVal op
    appendOp newVal

def canAppendNode (g : GraphSpec) (node : GraphNode) (st : BuildState S) : Bool :=
  st.state.isAvailable g node.id && GraphStorage.canAppend st.graph node

/-- The result says whether the node was appended; its data is then the end of the data. -/
def appendNode (g : GraphSpec) (node : GraphNode) : BuildM S Bool := do
  let can ← Exec.gets (canAppendNode g node)
  if can then do
    appendSlice g node.ops
    onGraph (GenM.appendData node.data)
    pure true
  else pure false

def appendNodeMutated (g : GraphSpec) (node : GraphNode) (dict : CustomDict) : BuildM S Unit := do
  let can ← Exec.gets (canAppendNode g node)
  if can then do
    appendSlice g node.ops
    match g.getNode node.id with
    | .error _ => Exec.panic (.other .unwrapErr)
    | .ok ntype => match ntype.data with
      | none => pure ()
      | some dtype => match g.getData dtype with
        | .ok dat => onGraph (dat.atomicType.appendMutated node.data dict)
        | .error _ => Exec.panic (.other (.invalidDataType ntype.name dtype))
  else pure ()

/-- The body of the loop of `drop_node_at`; here the result of `append_data` is ignored. -/
def copyNode (g : GraphSpec) (node : GraphNode) : BuildM S Unit := do
  let can ← Exec.gets (canAppendNode g node)
  if can then do
    appendSlice g node.ops
    Exec.modify fun st =>
      { st with graph := (GraphStorage.appendData st.graph node.data).getD st.graph }
  else pure ()

/-- Copies all nodes but one. -/
def dropNodeAt (g : GraphSpec) (frag : VecGraph) (index : ℕ) : BuildM S Unit := do
  start
  forItems (GraphStorage.nodeIter g frag).enumerate fun (i, node) =>
    if i ≠ index then copyNode g node else pure ()

/-- The biggest node may not fit. -/
def isFull (g : GraphSpec) (st : BuildState S) : Bool :=
  dataAvailable st.graph ≤ g.biggestData || opsAvailable st.graph ≤ g.biggestOps

def canGenerateNode (g : GraphSpec) (ntype : NodeSpec) : BuildM S Bool := do
  let ops ← Exec.gets fun st => opsAvailable st.graph
  if ops < ntype.size + 1 then pure false
  else match ntype.minDataSize g with
    | .error e => Exec.panic (.other e)
    | .ok n => do
      let data ← Exec.gets fun st => dataAvailable st.graph
      pure (n ≤ data)

def pickAvailableType (g : GraphSpec) : BuildM S (Except GraphError NodeTypeID) := do
  let ids ← Exec.gets fun st =>
    (g.nodeSpecs.filter fun n => st.state.isAvailable g n.id).map NodeSpec.id
  let picked ← draw (Distributions.chooseFromIter ids)
  match picked with
  | some id => pure (.ok id)
  | none => pure (.error .invalidSpecs)

def appendPorts (vtypes : List ValueTypeID) (m : ValM ConnectorID) : BuildM S Unit :=
  Exec.forEach vtypes fun v => do
    let id ← onValue v m
    appendOp id

def appendRandomNode (g : GraphSpec) (node : NodeTypeID) : BuildM S (Except GraphError Unit) :=
  match g.getNode node with
  | .error e => pure (.error e)
  | .ok ntype => do
    let can ← canGenerateNode g ntype
    if can then do
      appendOp node
      appendPorts ntype.inputs ValueState.takeRandomInput
      appendPorts ntype.passthroughs ValueState.getRandomInput
      appendPorts ntype.outputs (ValueState.insert ValueState.insertNewId)
      match ntype.data with
      | none => pure (.ok ())
      | some dtype => match g.getData dtype with
        | .ok dat => do
          onGraph (dat.atomicType.appendGenerate g g.dataSpecs.length)
          pure (.ok ())
        | .error _ => Exec.panic (.other (.invalidDataType ntype.name dtype))
    else pure (.ok ())

def appendRandom (g : GraphSpec) : ℕ → BuildM S (Except GraphError Unit)
  | 0 => pure (.ok ())
  | n + 1 => do
    let full ← Exec.gets (isFull g)
    if full then pure (.ok ())
    else do
      let picked ← pickAvailableType g
      match picked with
      | .error e => pure (.error e)
      | .ok nType => do
        let r ← appendRandomNode g nType
        match r with
        | .error e => pure (.error e)
        | .ok () => appendRandom g n

end GraphBuilder

end Nyx
