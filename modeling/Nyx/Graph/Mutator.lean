import Nyx.Graph.RoundTrip

/-!
# Mutation strategies

A strategy fills the storage from an original graph, the queue and random choices. Its state also
records, for each call of `append_node`, the node and the state before the call.
-/

namespace Nyx

open GraphStorage

/-- How many nodes to drop, and how many to generate. -/
structure GenerateTail where
  dropLast : ℕ
  generate : ℕ
  deriving DecidableEq, Repr

inductive MutationStrategy where
  | generateTail (args : GenerateTail)
  | spliceRandom | splice | dataOnly | generate | repeat | minimize | minimizeSplit
  deriving DecidableEq, Repr

inductive NodeMutationType where
  | copyNode | mutateNodeData | dropNode | skipAndGenerate
  deriving DecidableEq, Repr

namespace Distributions

def genChangePercentage : Exec Panic Distributions ℕ := do
  let x ← genRange 0 6
  pure (1 <<< x)

def graphMutations : List NodeMutationType :=
  [.copyNode, .mutateNodeData, .dropNode, .skipAndGenerate]

def genGraphMutationType : Exec Panic Distributions NodeMutationType := do
  let o ← chooseFromIter graphMutations
  Exec.unwrap .indexOutOfBounds o

def genTailGenerationStrategy (oldSize : ℕ) : Exec Panic Distributions GenerateTail := do
  let percentage ← genChangePercentage
  let dropLast := percentage * oldSize / 100
  let genSizeRange ← genBlockSize
  let generate ← genRange genSizeRange.1 genSizeRange.2
  let dropLast := if oldSize ≤ dropLast then 0 else dropLast
  if generate + oldSize - dropLast < 16 then do
    let x ← genRange 0 100
    pure ⟨dropLast, if x < 98 then generate + 16 else generate⟩
  else pure ⟨dropLast, generate⟩

def genMutationStrategy (oldSize : ℕ) : Exec Panic Distributions MutationStrategy := do
  let x ← genRange 0 9
  match x with
  | 0 => do
    let args ← genTailGenerationStrategy oldSize
    pure (.generateTail args)
  | 1 | 2 => pure .splice
  | 3 => pure .spliceRandom
  | 4 | 5 | 6 => pure .dataOnly
  | 7 | 8 => pure .repeat
  | _ => Exec.panic .enteredUnreachable

def genRanges (len : ℕ) : ℕ → Exec Panic Distributions (List ℕ)
  | 0 => pure []
  | n + 1 => do
    let x ← genRange 0 len
    let xs ← genRanges len n
    pure (x :: xs)

end Distributions

/-- `sample_for_splicing`: the queue picks a graph. -/
abbrev InputQueue := Exec Panic Distributions VecGraph

def InputQueue.ofList (graphs : List VecGraph) : InputQueue :=
  if 0 < graphs.length then do
    let i ← Distributions.genRange 0 graphs.length
    Exec.unwrap .indexOutOfBounds graphs[i]?
  else Exec.panic .assertFailed

/-- The builder, and the `append_node` calls so far. -/
structure MutatorState (S : Type) where
  build : BuildState S
  calls : List (GraphNode × BuildState S)

abbrev MutatorM (S : Type) := Exec BuildPanic (MutatorState S)

namespace Mutator

variable {S : Type} [GraphStorage S]

def builder {α : Type} (m : BuildM S α) : MutatorM S α :=
  Exec.zoom MutatorState.build (fun b s => { s with build := b }) m

def draw {α : Type} (m : Exec Panic Distributions α) : MutatorM S α :=
  builder (GraphBuilder.draw m)

def isFull (g : GraphSpec) : MutatorM S Bool := Exec.gets fun s => GraphBuilder.isFull g s.build

def appendNode (g : GraphSpec) (n : GraphNode) : MutatorM S Unit := do
  Exec.modify fun s => { s with calls := s.calls ++ [(n, s.build)] }
  let _ ← builder (GraphBuilder.appendNode g n)

def appendNodeMutated (g : GraphSpec) (n : GraphNode) (dict : CustomDict) : MutatorM S Unit :=
  builder (GraphBuilder.appendNodeMutated g n dict)

def appendRandom (g : GraphSpec) (n : ℕ) : MutatorM S Unit := do
  let r ← builder (GraphBuilder.appendRandom g n)
  match r with
  | .ok () => pure ()
  | .error _ => Exec.panic (.other .unwrapErr)

def finish (stop : Option Panic) : MutatorM S Unit :=
  match stop with
  | none => pure ()
  | some e => Exec.panic (.other e)

/-- The body runs on the nodes until the storage is full, which leaves the strategy: the result says
whether the strategy goes on. -/
def forNodes {α : Type} (g : GraphSpec) (it : Iter Panic α) (body : α → MutatorM S Unit) :
    MutatorM S Bool := do
  let go ← Exec.forWhile it.items fun n => do
    let full ← isFull g
    if full then pure false
    else do
      body n
      pure true
  if go then do
    finish it.stop
    pure true
  else pure false

def nodeLen (g : GraphSpec) (orig : VecGraph) : MutatorM S ℕ := do
  finish (GraphStorage.nodeIter g orig).stop
  pure (GraphStorage.nodeIter g orig).items.length

def repeatNodes (g : GraphSpec) (orig : VecGraph) (dict : CustomDict) : MutatorM S Unit := do
  builder GraphBuilder.start
  let repeatNodes ← draw (Distributions.genRange 0 4)
  let len ← nodeLen g orig
  let insertPos ← draw (Distributions.genRange 0 len)
  let nodes := GraphStorage.nodeIter g orig
  let go ← forNodes g (nodes.take insertPos) (appendNode g)
  if go then do
    let origs := (nodes.skip insertPos).take repeatNodes
    finish origs.stop
    let repeated := (List.replicate repeatNodes origs.items).flatten
    let go ← forNodes g ⟨repeated, none⟩ fun n => appendNodeMutated g n dict
    if go then do
      let _ ← forNodes g (nodes.skip insertPos) (appendNode g)
    else pure ()
  else pure ()

def generateTail (g : GraphSpec) (orig : VecGraph) (args : GenerateTail) : MutatorM S Unit := do
  let origLen ← nodeLen g orig
  builder GraphBuilder.start
  let go ← forNodes g ((GraphStorage.nodeIter g orig).take (usizeSub origLen args.dropLast))
    (appendNode g)
  if go then appendRandom g args.generate else pure ()

def mutateData (g : GraphSpec) (orig : VecGraph) (dict : CustomDict) : MutatorM S Unit := do
  builder GraphBuilder.start
  let _ ← forNodes g (GraphStorage.nodeIter g orig) fun n => do
    let should ← draw Distributions.shouldMutateData
    if should then appendNodeMutated g n dict else appendNode g n

def applyGraphNode (g : GraphSpec) (op : NodeMutationType) (n : GraphNode) (dict : CustomDict) :
    MutatorM S Unit :=
  match op with
  | .copyNode => appendNode g n
  | .mutateNodeData => appendNodeMutated g n dict
  | .dropNode => pure ()
  | .skipAndGenerate => do
    let len ← draw Distributions.genNumberOfRandomNodes
    appendRandom g len

def spliceRandom (g : GraphSpec) (orig : VecGraph) (dict : CustomDict) : MutatorM S Unit := do
  builder GraphBuilder.start
  let _ ← forNodes g (GraphStorage.nodeIter g orig) fun n => do
    let mutation ← draw Distributions.genGraphMutationType
    applyGraphNode g mutation n dict

def numSplicePoints (len : ℕ) : MutatorM S ℕ :=
  if len = 0 then Exec.panic (.other .enteredUnreachable)
  else if len ≤ 3 then draw (Distributions.genRange 1 3)
  else if len ≤ 15 then draw (Distributions.genRange 1 5)
  else draw (Distributions.genRange 4 16)

/-- Both sorts are ascending: the second key `(x, Reverse(x))` orders by `x` first. -/
def pickSplicePoints (len : ℕ) : MutatorM S (List ℕ) := do
  let num ← numSplicePoints len
  let res ← draw (Distributions.genRanges len num)
  pure (res.mergeSort (· ≤ ·)).eraseReps

/-- The fragment of another graph that is spliced in. Its nodes are appended with no regard to
whether the storage is full. -/
def spliceFragment (g : GraphSpec) (queue : InputQueue) : MutatorM S Unit := do
  let other ← draw queue
  let otherLen ← nodeLen g other
  let start ← draw (Distributions.genRange 0 otherLen)
  let len ← draw (Distributions.genRange 1 16)
  let len := if otherLen - start < len then otherLen - start else len
  let fragment := ((GraphStorage.nodeIter g other).skip start).take len
  Exec.forEach fragment.items (appendNode g)
  finish fragment.stop

/-- The loop of `splice` over the nodes from position `i` on, with the splice points left. -/
def spliceLoop (g : GraphSpec) (queue : InputQueue) (stop : Option Panic) :
    ℕ → List ℕ → List GraphNode → MutatorM S Unit
  | _, _, [] => finish stop
  | i, points, n :: nodes => do
    let full ← isFull g
    if full then pure ()
    else if points.getLast? = some i then do
      spliceFragment g queue
      appendNode g n
      spliceLoop g queue stop (i + 1) points.dropLast nodes
    else do
      appendNode g n
      spliceLoop g queue stop (i + 1) points nodes

def splice (g : GraphSpec) (orig : VecGraph) (queue : InputQueue) : MutatorM S Unit := do
  let origLen ← nodeLen g orig
  let points ← pickSplicePoints origLen
  builder GraphBuilder.start
  let nodes := GraphStorage.nodeIter g orig
  spliceLoop g queue nodes.stop 0 points nodes.items

def generate (g : GraphSpec) (n : ℕ) : MutatorM S Unit := do
  builder GraphBuilder.start
  appendRandom g n

def dropRange (g : GraphSpec) (orig : VecGraph) (range : Range) : MutatorM S Unit := do
  builder GraphBuilder.start
  let nodes := (GraphStorage.nodeIter g orig).enumerate
  Exec.forEach nodes.items fun (i, n) =>
    if range.start ≤ i ∧ i < range.stop then pure () else appendNode g n
  finish nodes.stop

def mutate (g : GraphSpec) (orig : VecGraph) (dict : CustomDict) (queue : InputQueue) :
    MutatorM S MutationStrategy :=
  if opLen orig = 0 then do
    generate g 50
    pure .generate
  else do
    let origLen ← nodeLen g orig
    let strategy ← draw (Distributions.genMutationStrategy origLen)
    match strategy with
    | .generateTail args => generateTail g orig args
    | .spliceRandom => spliceRandom g orig dict
    | .splice => splice g orig queue
    | .dataOnly => mutateData g orig dict
    | .generate => generate g 50
    | .repeat => repeatNodes g orig dict
    | .minimize | .minimizeSplit => Exec.panic (.other .enteredUnreachable)
    pure strategy

end Mutator

end Nyx
