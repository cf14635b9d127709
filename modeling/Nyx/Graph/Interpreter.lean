import Nyx.Graph.RoundTrip

/-!
# The generated interpreter

The C interpreter that the template generates walks over the same ops and data as the node iterator.
The pointer it hands out for a vector is two bytes behind the elements.
-/

namespace Nyx

open Node (encodeOps encodeData layout)

inductive InterpFault where
  | assert
  /-- The size of an empty struct is zero in C. -/
  | divideByZero
  deriving DecidableEq, Repr

/-- The elements of a vector, their size and where they start. -/
structure Payload where
  count : ℕ
  size : ℕ
  start : ℕ
  deriving DecidableEq, Repr

def Payload.positions (p : Payload) : List ℕ := List.range' p.start (p.count * p.size)

/-- A call of the handler of a node. -/
structure HandlerCall where
  node : NodeTypeID
  args : List ConnectorID
  payload : Option Payload
  opsI : ℕ
  dataI : ℕ
  deriving DecidableEq, Repr

/-- `interpreter_t`, with the handlers called so far. -/
structure Interpreter where
  ops : List UInt16
  opsI : ℕ
  data : List UInt8
  dataI : ℕ
  calls : List HandlerCall
  deriving DecidableEq, Repr

abbrev InterpM := Exec InterpFault Interpreter

namespace Interpreter

def init (ops : List UInt16) (data : List UInt8) : Interpreter := ⟨ops, 0, data, 0, []⟩

def check (c : Interpreter → Bool) : InterpM Unit := fun vm =>
  if c vm then (.ok (), vm) else (.error .assert, vm)

def advance (n : ℕ) : InterpM Unit := Exec.modify fun vm => { vm with dataI := vm.dataI + n }

def uint16At (data : List UInt8) (i : ℕ) : ℕ := lengthPrefix (data.getD i 0) (data.getD (i + 1) 0)

def readFixed (size : ℕ) : InterpM Payload := do
  check fun vm => vm.dataI + size ≤ vm.data.length
  let start ← Exec.gets Interpreter.dataI
  advance size
  pure ⟨1, size, start⟩

/-- The reader of a vector: `vals` is taken two behind `data_i`, which is already past the size. -/
def readVec (size : ℕ) : InterpM Payload := do
  check fun vm => vm.dataI + 2 ≤ vm.data.length
  let byteSize ← Exec.gets fun vm => uint16At vm.data vm.dataI
  advance 2
  check fun vm => vm.dataI + byteSize ≤ vm.data.length
  if size = 0 then Exec.panic .divideByZero
  else do
    let start ← Exec.gets fun vm => vm.dataI + 2
    advance byteSize
    pure ⟨byteSize / size, size, start⟩

def readData : AtomicDataType → InterpM Payload
  | .dataInt size _ | .dataStruct size _ => readFixed size
  | .dataVec _ primitiveSize _ => readVec primitiveSize

def nodeData (g : GraphSpec) (spec : NodeSpec) : Option AtomicDataType :=
  match spec.data with
  | none => none
  | some d => match g.getData d with
    | .ok dat => some dat.atomicType
    | .error _ => none

def readPayload : Option AtomicDataType → InterpM (Option Payload)
  | none => pure none
  | some dtype => do
    let payload ← readData dtype
    pure (some payload)

def runNode (g : GraphSpec) (op : NodeTypeID) (ntype : NodeSpec) : InterpM Unit := do
  check fun vm => vm.opsI + (ntype.size + 1) ≤ vm.ops.length
  let payload ← readPayload (nodeData g ntype)
  Exec.modify fun vm => { vm with
    calls := vm.calls ++
      [⟨op, (vm.ops.drop (vm.opsI + 1)).take ntype.size, payload, vm.opsI, vm.dataI⟩]
    opsI := vm.opsI + (ntype.size + 1) }

/-- The loop of `interpreter_run`. Every round advances `ops_i`, so the number of ops bounds it. -/
def run (g : GraphSpec) : ℕ → InterpM Unit
  | 0 => pure ()
  | fuel + 1 => do
    let op ← Exec.gets fun vm => vm.ops[vm.opsI]?
    match op with
    | none => pure ()
    | some op => match g.getNode op with
      | .error _ => Exec.panic .assert
      | .ok ntype => do
        runNode g op ntype
        run g fuel

def interpret (g : GraphSpec) (s : VecGraph) : Except InterpFault Unit × Interpreter :=
  (run g (s.ops.length + 1)).run (init s.ops s.data)

end Interpreter

namespace AtomicDataType

/-- The part of `len` bytes of data at position `start` that belongs to the value: all of it, or what
follows the size of a vector. -/
def attributed (start len : ℕ) : AtomicDataType → Payload
  | dataInt size _ | dataStruct size _ => ⟨1, size, start⟩
  | dataVec _ primitiveSize _ => ⟨(len - 2) / primitiveSize, primitiveSize, start + 2⟩

def handed (start len : ℕ) : AtomicDataType → Payload
  | dataInt size _ | dataStruct size _ => ⟨1, size, start⟩
  | dataVec _ primitiveSize _ => ⟨(len - 2) / primitiveSize, primitiveSize, start + 4⟩

def HasSize : AtomicDataType → Prop
  | dataInt _ _ | dataStruct _ _ => True
  | dataVec _ primitiveSize _ => primitiveSize ≠ 0

end AtomicDataType

namespace Interpreter

variable {g : GraphSpec} {vm : Interpreter}

lemma run_check {c : Interpreter → Bool} (h : c vm) : (check c).run vm = (.ok (), vm) :=
  if_pos h

lemma run_advance (n : ℕ) (vm : Interpreter) :
    (advance n).run vm = (.ok (), { vm with dataI := vm.dataI + n }) := rfl

lemma run_readFixed {size : ℕ} (h : vm.dataI + size ≤ vm.data.length) :
    (readFixed size).run vm = (.ok ⟨1, size, vm.dataI⟩, { vm with dataI := vm.dataI + size }) := by
  rw [readFixed, Exec.run_bind_ok (run_check (decide_eq_true h)), Exec.run_gets_bind]
  rfl

section ReadVec

variable {lo hi : UInt8} {elems rest : List UInt8} {size : ℕ}
  (hdrop : vm.data.drop vm.dataI = lo :: hi :: elems ++ rest)
  (hlen : elems.length = lengthPrefix lo hi)

include hdrop in
lemma uint16At_of_drop : uint16At vm.data vm.dataI = lengthPrefix lo hi := by
  have hget : ∀ k, vm.data.getD (vm.dataI + k) 0 = (vm.data.drop vm.dataI).getD k 0 := by
    intro k
    simp only [List.getD_eq_getElem?_getD, List.getElem?_drop]
  rw [uint16At, ← Nat.add_zero vm.dataI, hget 0, Nat.add_zero, hget 1, hdrop]
  rfl

include hdrop hlen in
lemma run_readVec : (readVec size).run vm =
    if size = 0 then (.error .divideByZero, { vm with dataI := vm.dataI + 2 })
    else (.ok ⟨elems.length / size, size, vm.dataI + 4⟩,
      { vm with dataI := vm.dataI + (elems.length + 2) }) := by
  have hall := congrArg List.length hdrop
  simp only [List.length_drop, List.length_append, List.length_cons] at hall
  have hsize := uint16At_of_drop hdrop
  rw [← hlen] at hsize
  have hcheck : (check fun vm => vm.dataI + 2 ≤ vm.data.length).run vm = (.ok (), vm) :=
    run_check (decide_eq_true (by omega))
  set past : Interpreter := { vm with dataI := vm.dataI + 2 }
  have hcheck' : (check fun vm' => vm'.dataI + uint16At vm.data vm.dataI ≤ vm'.data.length).run past =
      (.ok (), past) := by
    refine run_check (decide_eq_true ?_)
    show vm.dataI + 2 + uint16At vm.data vm.dataI ≤ vm.data.length
    omega
  rw [readVec, Exec.run_bind_ok hcheck, Exec.run_gets_bind, Exec.run_bind_ok (run_advance 2 vm),
    Exec.run_bind_ok hcheck', hsize]
  split
  · rfl
  · show (Except.ok _, _) = (Except.ok _, _)
    simp only [past, Nat.add_assoc, Nat.add_comm 2]

end ReadVec

lemma run_readData {d : AtomicTypeID} {dat : AtomicSpec} {bytes rest : List UInt8}
    (hd : g.getData d = .ok dat) (hfits : DataFits g (some d) bytes)
    (hdrop : vm.data.drop vm.dataI = bytes ++ rest) (hle : vm.dataI ≤ vm.data.length)
    (hsize : dat.atomicType.HasSize) :
    (readData dat.atomicType).run vm = (.ok (dat.atomicType.handed vm.dataI bytes.length),
      { vm with dataI := vm.dataI + bytes.length }) := by
  obtain ⟨dat', hd', hfits⟩ := hfits
  obtain rfl : dat = dat' := Except.ok.inj (hd.symm.trans hd')
  have hfixed : vm.dataI + bytes.length ≤ vm.data.length := by
    have hlen := congrArg List.length hdrop
    rw [List.length_drop, List.length_append] at hlen
    omega
  cases ha : dat.atomicType with
  | dataInt size generators =>
    rw [ha] at hfits
    obtain rfl : bytes.length = size := hfits
    exact run_readFixed hfixed
  | dataStruct size fields =>
    rw [ha] at hfits
    obtain rfl : bytes.length = size := hfits
    exact run_readFixed hfixed
  | dataVec sizeRange primitiveSize dtype =>
    rw [ha] at hfits hsize
    obtain ⟨lo, hi, elems, rfl, hlen⟩ := hfits
    rw [readData, run_readVec hdrop hlen, if_neg hsize]
    rfl

/-- The interpreter is in front of `ops` and `data`. -/
structure At (vm : Interpreter) (ops : List UInt16) (data : List UInt8) : Prop where
  ops : vm.ops.drop vm.opsI = ops
  data : vm.data.drop vm.dataI = data
  opsI_le : vm.opsI ≤ vm.ops.length
  dataI_le : vm.dataI ≤ vm.data.length

def callOf (g : GraphSpec) (payload : ℕ → ℕ → AtomicDataType → Payload) (opI start : ℕ)
    (n : Node g) : HandlerCall :=
  ⟨n.id, n.connectors, (nodeData g n.spec).map (payload start n.data.length), opI,
    start + n.data.length⟩

def after (vm : Interpreter) (n : Node g) : Interpreter := { vm with
  opsI := vm.opsI + (n.spec.size + 1)
  dataI := vm.dataI + n.data.length
  calls := vm.calls ++ [callOf g AtomicDataType.handed vm.opsI vm.dataI n] }

variable {n : Node g} {opsRest : List UInt16} {dataRest : List UInt8}

lemma At.after (h : At vm (n.ops ++ opsRest) (n.data ++ dataRest)) :
    At (vm.after n) opsRest dataRest := by
  have hops := congrArg List.length h.ops
  have hdata := congrArg List.length h.data
  rw [List.length_drop, List.length_append, n.length_ops] at hops
  rw [List.length_drop, List.length_append] at hdata
  have hdataI := h.dataI_le
  refine ⟨?_, ?_, ?_, ?_⟩
  · show vm.ops.drop (vm.opsI + (n.spec.size + 1)) = opsRest
    rw [← List.drop_drop, h.ops, ← Nat.add_comm 1, ← n.length_ops, List.drop_left]
  · show vm.data.drop (vm.dataI + n.data.length) = dataRest
    rw [← List.drop_drop, h.data, List.drop_left]
  · show vm.opsI + (n.spec.size + 1) ≤ vm.ops.length
    omega
  · show vm.dataI + n.data.length ≤ vm.data.length
    omega

lemma At.connectors (h : At vm (n.ops ++ opsRest) (n.data ++ dataRest)) :
    (vm.ops.drop (vm.opsI + 1)).take n.spec.size = n.connectors := by
  rw [← List.drop_drop, h.ops, Node.ops, List.cons_append, List.drop_one, List.tail_cons,
    ← n.length_connectors, List.take_left]

lemma nodeData_cases (n : Node g) : nodeData g n.spec = none ∧ n.data = [] ∨
    ∃ d dat, g.getData d = .ok dat ∧ DataFits g (some d) n.data ∧
      nodeData g n.spec = some dat.atomicType := by
  have hfits := n.fits
  unfold nodeData
  cases hdata : n.spec.data with
  | none =>
    rw [hdata] at hfits
    exact .inl ⟨rfl, hfits⟩
  | some d =>
    rw [hdata] at hfits
    obtain ⟨dat, hd, hdat⟩ := hfits
    exact .inr ⟨d, dat, hd, ⟨dat, hd, hdat⟩, by simp only [hd]⟩

section

variable (h : At vm (n.ops ++ opsRest) (n.data ++ dataRest))
include h

lemma At.run_readPayload (hsize : ∀ a ∈ nodeData g n.spec, a.HasSize) :
    (readPayload (nodeData g n.spec)).run vm =
      (.ok ((nodeData g n.spec).map (AtomicDataType.handed vm.dataI n.data.length)),
        { vm with dataI := vm.dataI + n.data.length }) := by
  rcases nodeData_cases n with ⟨hnone, hnil⟩ | ⟨d, dat, hd, hfits, hsome⟩
  · rw [hnone, hnil]
    rfl
  · rw [hsome] at hsize ⊢
    exact Exec.run_bind_ok (run_readData hd hfits h.data h.dataI_le (hsize _ rfl))

lemma At.check_ops :
    (check fun vm => vm.opsI + (n.spec.size + 1) ≤ vm.ops.length).run vm = (.ok (), vm) := by
  have hlen := congrArg List.length h.ops
  rw [List.length_drop, List.length_append, n.length_ops] at hlen
  exact run_check (decide_eq_true (by omega))

lemma At.run_runNode (hsize : ∀ a ∈ nodeData g n.spec, a.HasSize) :
    (runNode g n.id n.spec).run vm = (.ok (), vm.after n) := by
  rw [runNode, Exec.run_bind_ok h.check_ops, Exec.run_bind_ok (h.run_readPayload hsize),
    Exec.run_modify]
  simp only [h.connectors, Interpreter.after, callOf]

lemma At.run_runNode_error (hsize : ¬∀ a ∈ nodeData g n.spec, a.HasSize) :
    ((runNode g n.id n.spec).run vm).1 = .error .divideByZero := by
  rcases nodeData_cases n with ⟨hnone, -⟩ | ⟨d, dat, hd, ⟨dat', hd', hfits⟩, hsome⟩
  · rw [hnone] at hsize
    exact absurd (by simp) hsize
  obtain rfl : dat = dat' := Except.ok.inj (hd.symm.trans hd')
  have hsize' : ¬dat.atomicType.HasSize := by simpa [hsome] using hsize
  cases ha : dat.atomicType with
  | dataInt | dataStruct =>
    rw [ha] at hsize'
    exact absurd trivial hsize'
  | dataVec sizeRange primitiveSize dtype =>
    rw [ha] at hfits hsize'
    obtain ⟨lo, hi, elems, hdata, hlen⟩ := hfits
    have hzero : primitiveSize = 0 := not_not.mp hsize'
    have hdrop := h.data
    rw [hdata] at hdrop
    have hread : (readPayload (some (.dataVec sizeRange primitiveSize dtype))).run vm =
        (.error .divideByZero, { vm with dataI := vm.dataI + 2 }) :=
      Exec.run_bind_error ((run_readVec hdrop hlen).trans (if_pos hzero))
    rw [runNode, Exec.run_bind_ok h.check_ops, hsome, ha, Exec.run_bind_error hread]

end

def callsOf (payload : ℕ → ℕ → AtomicDataType → Payload) :
    ℕ → ℕ → List (Node g) → List HandlerCall
  | _, _, [] => []
  | opI, start, n :: ns => callOf g payload opI start n ::
    callsOf payload (opI + n.ops.length) (start + n.data.length) ns

lemma At.run_succ (h : At vm (n.ops ++ opsRest) (n.data ++ dataRest)) (fuel : ℕ) :
    (run g (fuel + 1)).run vm = (runNode g n.id n.spec >>= fun _ => run g fuel).run vm := by
  have hop : vm.ops[vm.opsI]? = some n.id := by
    have hget := congrArg (·[0]?) h.ops
    simpa [Node.ops] using hget
  rw [run, Exec.run_gets_bind, hop]
  simp only [n.get]

lemma At.run_nodes (ns : List (Node g)) {fuel : ℕ} {rest : List UInt8}
    (h : At vm (encodeOps ns) (encodeData ns ++ rest)) (hfuel : ns.length < fuel)
    (hsize : ∀ n ∈ ns, ∀ a ∈ nodeData g n.spec, a.HasSize) :
    ∃ vm', (run g fuel).run vm = (.ok (), vm') ∧
      vm'.calls = vm.calls ++ callsOf AtomicDataType.handed vm.opsI vm.dataI ns := by
  induction ns generalizing vm fuel with
  | nil =>
    obtain ⟨fuel, rfl⟩ := Nat.exists_eq_succ_of_ne_zero (Nat.ne_zero_of_lt hfuel)
    have hop : vm.ops[vm.opsI]? = none := by
      have hops : vm.ops.drop vm.opsI = [] := h.ops
      exact List.getElem?_eq_none (List.drop_eq_nil_iff.mp hops)
    refine ⟨vm, ?_, by simp [callsOf]⟩
    rw [run, Exec.run_gets_bind, hop]
    rfl
  | cons n ns ih =>
    obtain ⟨fuel, rfl⟩ := Nat.exists_eq_succ_of_ne_zero (Nat.ne_zero_of_lt hfuel)
    have hn : At vm (n.ops ++ encodeOps ns) (n.data ++ (encodeData ns ++ rest)) := by
      simpa [encodeOps, encodeData] using h
    have hfuel' : ns.length < fuel := by simpa using hfuel
    obtain ⟨vm', hrun, hcalls⟩ := ih hn.after hfuel' fun n' hn' => hsize n' (List.mem_cons_of_mem n hn')
    have hnode := hn.run_runNode (hsize n List.mem_cons_self)
    refine ⟨vm', ?_, ?_⟩
    · rw [hn.run_succ, Exec.run_bind_ok hnode, hrun]
    · rw [hcalls, callsOf, n.length_ops, Nat.add_comm 1]
      simp [Interpreter.after]

lemma At.run_nodes_error (ns : List (Node g)) {fuel : ℕ} {rest : List UInt8}
    (h : At vm (encodeOps ns) (encodeData ns ++ rest)) (hfuel : ns.length < fuel)
    (hsize : ¬∀ n ∈ ns, ∀ a ∈ nodeData g n.spec, a.HasSize) :
    ((run g fuel).run vm).1 = .error .divideByZero := by
  induction ns generalizing vm fuel with
  | nil => exact absurd (by simp) hsize
  | cons n ns ih =>
    obtain ⟨fuel, rfl⟩ := Nat.exists_eq_succ_of_ne_zero (Nat.ne_zero_of_lt hfuel)
    have hn : At vm (n.ops ++ encodeOps ns) (n.data ++ (encodeData ns ++ rest)) := by
      simpa [encodeOps, encodeData] using h
    rw [hn.run_succ]
    by_cases hfirst : ∀ a ∈ nodeData g n.spec, a.HasSize
    · have hrest : ¬∀ n' ∈ ns, ∀ a ∈ nodeData g n'.spec, a.HasSize := by
        intro hall
        apply hsize
        intro n' hn'
        rcases List.mem_cons.mp hn' with rfl | hn'
        · exact hfirst
        · exact hall n' hn'
      rw [Exec.run_bind_ok (hn.run_runNode hfirst)]
      exact ih hn.after (by simpa using hfuel) hrest
    · have herror := hn.run_runNode_error hfirst
      rcases hr : (runNode g n.id n.spec).run vm with ⟨r, vm'⟩
      rw [hr] at herror
      obtain rfl : r = .error .divideByZero := herror
      rw [Exec.run_bind_error hr]

end Interpreter

/-- What a handler can tell about its data. A pointer that covers no bytes tells nothing. -/
def Payload.view (p : Payload) : ℕ × List ℕ := (p.count, p.positions)

def HandlerCall.view (c : HandlerCall) :
    NodeTypeID × List ConnectorID × Option (ℕ × List ℕ) × ℕ × ℕ :=
  (c.node, c.args, c.payload.map Payload.view, c.opsI, c.dataI)

def dataOf (g : GraphSpec) (id : NodeTypeID) : Option AtomicDataType :=
  match g.getNode id with
  | .ok spec => Interpreter.nodeData g spec
  | .error _ => none

/-- The calls that the nodes of the iterator stand for, the data of the first at `start`. -/
def attributedCalls (g : GraphSpec) : ℕ → List GraphNode → List HandlerCall
  | _, [] => []
  | start, n :: ns =>
    ⟨n.id, n.ops.tail, (dataOf g n.id).map (AtomicDataType.attributed start n.data.length), n.opI,
      start + n.data.length⟩ :: attributedCalls g (start + n.data.length) ns

/-- The interpreter calls what the iterators list. -/
structure Agrees (g : GraphSpec) (s : VecGraph) : Prop where
  ok : (Interpreter.interpret g s).1 = .ok ()
  calls : (Interpreter.interpret g s).2.calls.map HandlerCall.view =
    (attributedCalls g 0 (GraphStorage.nodeIter g s).items).map HandlerCall.view
  inside : ∀ c ∈ (Interpreter.interpret g s).2.calls, ∀ p ∈ c.payload, ∀ i ∈ p.positions,
    i < s.data.length

def NoElements (g : GraphSpec) (n : GraphNode) : Prop :=
  ∀ sizeRange primitiveSize dtype, dataOf g n.id = some (.dataVec sizeRange primitiveSize dtype) →
    n.data.length < primitiveSize + 2

section Agrees

open Interpreter

variable {g : GraphSpec}

lemma dataOf_node (n : Node g) : dataOf g n.id = nodeData g n.spec := by
  unfold dataOf
  rw [n.get]

lemma attributedCalls_layout (ns : List (Node g)) (opI start : ℕ) :
    attributedCalls g start (layout opI ns) = callsOf AtomicDataType.attributed opI start ns := by
  induction ns generalizing opI start with
  | nil => rfl
  | cons n ns ih =>
    rw [layout, attributedCalls, callsOf]
    simp only [Node.place, dataOf_node, ih]
    rfl

lemma noElements_place (n : Node g) (opI : ℕ) : NoElements g (n.place opI) ↔
    ∀ sizeRange primitiveSize dtype,
      nodeData g n.spec = some (.dataVec sizeRange primitiveSize dtype) →
        n.data.length < primitiveSize + 2 := by
  rw [← dataOf_node]
  rfl

lemma view_handed_iff (a : AtomicDataType) (start len : ℕ) (ha : a.HasSize) :
    (a.handed start len).view = (a.attributed start len).view ↔
      ∀ sizeRange primitiveSize dtype, a = .dataVec sizeRange primitiveSize dtype →
        len < primitiveSize + 2 := by
  cases a with
  | dataInt | dataStruct =>
    refine ⟨fun _ _ _ _ h => ?_, fun _ => rfl⟩
    cases h
  | dataVec sizeRange primitiveSize dtype =>
    have hpos : 0 < primitiveSize := Nat.pos_of_ne_zero ha
    have hcount : (len - 2) / primitiveSize = 0 ↔ len < primitiveSize + 2 := by
      rw [Nat.div_eq_zero_iff_lt hpos]
      omega
    constructor
    · intro h _ _ _ he
      cases he
      by_contra hlt
      have hne : (len - 2) / primitiveSize * primitiveSize ≠ 0 :=
        Nat.mul_ne_zero (fun h0 => hlt (hcount.mp h0)) ha
      have hranges : List.range' (start + 4) ((len - 2) / primitiveSize * primitiveSize) =
          List.range' (start + 2) ((len - 2) / primitiveSize * primitiveSize) := (Prod.ext_iff.mp h).2
      -- the first positions differ by two
      obtain ⟨k, hk⟩ := Nat.exists_eq_succ_of_ne_zero hne
      rw [hk, List.range'_succ, List.range'_succ] at hranges
      have hheads := (List.cons.inj hranges).1
      omega
    · intro h
      have hzero := hcount.mpr (h _ _ _ rfl)
      simp [AtomicDataType.handed, AtomicDataType.attributed, Payload.view, Payload.positions, hzero]

lemma view_callOf_iff (n : Node g) (opI start : ℕ) (hsize : ∀ a ∈ nodeData g n.spec, a.HasSize) :
    (callOf g AtomicDataType.handed opI start n).view =
        (callOf g AtomicDataType.attributed opI start n).view ↔ NoElements g (n.place opI) := by
  rw [noElements_place]
  cases hdata : nodeData g n.spec with
  | none => simp [HandlerCall.view, callOf, hdata]
  | some a =>
    have hview := view_handed_iff a start n.data.length (hsize a hdata)
    simp only [HandlerCall.view, callOf, hdata, Option.map_some, Prod.mk.injEq, true_and, and_true,
      Option.some.injEq, hview]

lemma views_callsOf_iff (ns : List (Node g)) (opI start : ℕ)
    (hsize : ∀ n ∈ ns, ∀ a ∈ nodeData g n.spec, a.HasSize) :
    (callsOf AtomicDataType.handed opI start ns).map HandlerCall.view =
        (callsOf AtomicDataType.attributed opI start ns).map HandlerCall.view ↔
      ∀ n ∈ layout opI ns, NoElements g n := by
  induction ns generalizing opI start with
  | nil => simp [callsOf, layout]
  | cons n ns ih =>
    have hn := view_callOf_iff n opI start (hsize n List.mem_cons_self)
    have hns := ih (opI + n.ops.length) (start + n.data.length)
      fun n' hn' => hsize n' (List.mem_cons_of_mem n hn')
    simp only [callsOf, layout, List.map_cons, List.cons.injEq, List.forall_mem_cons, hn, hns]

lemma hasSize_of_noElements {n : Node g} {opI : ℕ} (h : NoElements g (n.place opI)) :
    ∀ a ∈ nodeData g n.spec, a.HasSize := by
  rw [noElements_place] at h
  intro a ha
  rcases nodeData_cases n with ⟨hnone, -⟩ | ⟨d, dat, hd, ⟨dat', hd', hfits⟩, hsome⟩
  · rw [hnone] at ha
    cases ha
  obtain rfl : dat = dat' := Except.ok.inj (hd.symm.trans hd')
  obtain rfl : dat.atomicType = a := Option.some.inj (hsome.symm.trans ha)
  cases hdat : dat.atomicType with
  | dataInt | dataStruct => trivial
  | dataVec sizeRange primitiveSize dtype =>
    rw [hdat] at hfits ha
    obtain ⟨lo, hi, elems, hdata, -⟩ := hfits
    have hlt := h sizeRange primitiveSize dtype ha
    have hlen : n.data.length = elems.length + 2 := by simp [hdata]
    show primitiveSize ≠ 0
    omega

lemma mem_layout_of_mem {n : Node g} {ns : List (Node g)} (h : n ∈ ns) (opI : ℕ) :
    ∃ i, n.place i ∈ layout opI ns := by
  induction ns generalizing opI with
  | nil => cases h
  | cons m ns ih =>
    rcases List.mem_cons.mp h with rfl | h
    · exact ⟨opI, List.mem_cons_self⟩
    · obtain ⟨i, hi⟩ := ih h (opI + m.ops.length)
      exact ⟨i, List.mem_cons_of_mem _ hi⟩

lemma handed_inside {n : Node g} {opI : ℕ} (h : NoElements g (n.place opI)) (start : ℕ)
    {p : Payload} (hp : p ∈ (nodeData g n.spec).map (AtomicDataType.handed start n.data.length))
    {i : ℕ} (hi : i ∈ p.positions) : i < start + n.data.length := by
  have hsize := hasSize_of_noElements h
  rw [noElements_place] at h
  rcases nodeData_cases n with ⟨hnone, -⟩ | ⟨d, dat, hd, ⟨dat', hd', hfits⟩, hsome⟩
  · simp [hnone] at hp
  obtain rfl : dat = dat' := Except.ok.inj (hd.symm.trans hd')
  rw [hsome] at hp
  obtain rfl : dat.atomicType.handed start n.data.length = p := Option.some.inj hp
  cases hdat : dat.atomicType with
  | dataInt size generators =>
    rw [hdat] at hfits hi
    obtain rfl : n.data.length = size := hfits
    simpa [AtomicDataType.handed, Payload.positions] using (List.mem_range'_1.mp hi).2
  | dataStruct size fields =>
    rw [hdat] at hfits hi
    obtain rfl : n.data.length = size := hfits
    simpa [AtomicDataType.handed, Payload.positions] using (List.mem_range'_1.mp hi).2
  | dataVec sizeRange primitiveSize dtype =>
    rw [hdat] at hsome hi
    have hlt := h sizeRange primitiveSize dtype hsome
    have hne : primitiveSize ≠ 0 := hsize _ hsome
    have hzero : (n.data.length - 2) / primitiveSize = 0 := Nat.div_eq_of_lt (by omega)
    simp [AtomicDataType.handed, Payload.positions, hzero] at hi

lemma callsOf_inside (ns : List (Node g)) (opI start : ℕ)
    (h : ∀ n ∈ layout opI ns, NoElements g n) :
    ∀ c ∈ callsOf AtomicDataType.handed opI start ns, ∀ p ∈ c.payload, ∀ i ∈ p.positions,
      i < start + (encodeData ns).length := by
  induction ns generalizing opI start with
  | nil => simp [callsOf]
  | cons n ns ih =>
    intro c hc p hp i hi
    have hlen : (encodeData (n :: ns)).length = n.data.length + (encodeData ns).length := by
      simp [encodeData]
    rcases List.mem_cons.mp hc with rfl | hc
    · have hlt := handed_inside (h _ List.mem_cons_self) start hp hi
      omega
    · have hlt := ih _ _ (fun n' hn' => h n' (List.mem_cons_of_mem _ hn')) c hc p hp i hi
      omega

end Agrees

/-- Interpreter and iterator agree on a graph if and only if none of its vectors has elements. -/
theorem interpreter_agrees_iff (g : GraphSpec) (s : VecGraph)
    (hread : (GraphStorage.nodeIter g s).stop = none) :
    Agrees g s ↔ ∀ n ∈ (GraphStorage.nodeIter g s).items, NoElements g n := by
  obtain ⟨ns, opsRest, rest, hitems, hops, hdata, hstop⟩ := nodes_of_nodeIter g s.ops s.data
  obtain rfl : opsRest = [] := hstop hread
  rw [List.append_nil] at hops
  replace hitems : (GraphStorage.nodeIter g s).items = layout 0 ns := hitems
  have hat : Interpreter.At (Interpreter.init s.ops s.data) (encodeOps ns)
      (encodeData ns ++ rest) := ⟨hops, hdata, Nat.zero_le _, Nat.zero_le _⟩
  have hfuel : ns.length < s.ops.length + 1 := by
    have hle := Node.length_le_encodeOps ns
    rw [← hops] at hle
    omega
  rw [hitems]
  constructor
  · intro h
    have hsize : ∀ n ∈ ns, ∀ a ∈ Interpreter.nodeData g n.spec, a.HasSize := by
      by_contra hsize
      have herror := hat.run_nodes_error ns hfuel hsize
      have hok := h.ok
      rw [Interpreter.interpret, herror] at hok
      cases hok
    obtain ⟨vm', hrun, hcalls⟩ := hat.run_nodes ns hfuel hsize
    have hviews := h.calls
    rw [hitems, attributedCalls_layout, Interpreter.interpret, hrun, hcalls] at hviews
    exact (views_callsOf_iff ns 0 0 hsize).mp hviews
  · intro h
    have hsize : ∀ n ∈ ns, ∀ a ∈ Interpreter.nodeData g n.spec, a.HasSize := by
      intro n hn
      obtain ⟨opI, hmem⟩ := mem_layout_of_mem hn 0
      exact hasSize_of_noElements (h _ hmem)
    obtain ⟨vm', hrun, hcalls⟩ := hat.run_nodes ns hfuel hsize
    have hall : (Interpreter.interpret g s).2.calls =
        Interpreter.callsOf AtomicDataType.handed 0 0 ns := by
      rw [Interpreter.interpret, hrun, hcalls]
      rfl
    refine ⟨?_, ?_, ?_⟩
    · rw [Interpreter.interpret, hrun]
    · rw [hall, hitems, attributedCalls_layout]
      exact (views_callsOf_iff ns 0 0 hsize).mpr h
    · intro c hc p hp i hi
      rw [hall] at hc
      have hlt := callsOf_inside ns 0 0 h c hc p hp i hi
      rw [hdata, List.length_append]
      omega

theorem interpreter_agrees_emptyVectors : Agrees (vecSpec (2, 3)) ⟨[0, 0], [0, 0, 0, 0]⟩ := by
  have hread : (GraphStorage.nodeIter (vecSpec (2, 3)) (⟨[0, 0], [0, 0, 0, 0]⟩ : VecGraph)).stop =
      none := by decide +kernel
  have hitems : (GraphStorage.nodeIter (vecSpec (2, 3)) (⟨[0, 0], [0, 0, 0, 0]⟩ : VecGraph)).items =
      [⟨0, 0, [0], [0, 0]⟩, ⟨0, 1, [0], [0, 0]⟩] := by decide +kernel
  refine (interpreter_agrees_iff _ _ hread).mpr ?_
  rw [hitems]
  intro n hn sizeRange primitiveSize dtype hdata
  have hid : n.id = 0 ∧ n.data.length = 2 := by
    rcases List.mem_pair.mp hn with rfl | rfl <;> exact ⟨rfl, rfl⟩
  rw [hid.1] at hdata
  cases hdata
  rw [hid.2]
  decide

theorem interpreter_disagrees_twoBytes :
    (GraphStorage.nodeIter (vecSpec (2, 3)) (⟨[0], [2, 0, 1, 0]⟩ : VecGraph)).stop = none ∧
      ¬Agrees (vecSpec (2, 3)) ⟨[0], [2, 0, 1, 0]⟩ := by
  refine ⟨by decide +kernel, fun h => ?_⟩
  have hcalls : (Interpreter.interpret (vecSpec (2, 3)) ⟨[0], [2, 0, 1, 0]⟩).2.calls =
      [⟨0, [], some ⟨2, 1, 4⟩, 0, 4⟩] := by decide +kernel
  have hlt := h.inside _ (hcalls ▸ List.mem_cons_self) _ rfl 4 (by decide)
  exact absurd hlt (by decide)

end Nyx
