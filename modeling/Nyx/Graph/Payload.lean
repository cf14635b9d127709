import Nyx.Graph.Mutator

/-!
# Payloads hold whole nodes

`append_node` checks the room for the data of a node but not for its ops. Strategies that ask
`is_full` store whole nodes only; `splice` and `drop_range` may cut the last one.
-/

namespace Nyx

open Exec (Triple Keeps run_gets_bind run_bind)

open GraphStorage

/-- The data of a node is complete. The size in front of a vector is taken modulo `2 ^ 16`, as it is
stored. -/
def DataWhole (g : GraphSpec) (data : Option AtomicTypeID) (bytes : List UInt8) : Prop :=
  match data with
  | none => bytes = []
  | some d => ∃ spec, g.getData d = .ok spec ∧ match spec.atomicType.size with
    | .fixed x => bytes.length = x
    | .dynamic => ∃ lo hi rest, bytes = lo :: hi :: rest ∧ rest.length % 65536 = lengthPrefix lo hi

/-- Ops and data that are a concatenation of complete nodes with complete data. -/
inductive Whole (g : GraphSpec) : List UInt16 → List UInt8 → Prop
  | nil : Whole g [] []
  | node {ops : List UInt16} {data : List UInt8} {id : NodeTypeID} {spec : NodeSpec}
    {cs : List ConnectorID} {bytes : List UInt8} (init : Whole g ops data)
    (get : g.getNode id = .ok spec) (length : cs.length = spec.size)
    (whole : DataWhole g spec.data bytes) : Whole g (ops ++ id :: cs) (data ++ bytes)

/-- The stored ops are complete nodes and their data is stored. -/
def Intact (g : GraphSpec) (s : RefGraph) : Prop :=
  ∃ data rest, dataAsSlice s = data ++ rest ∧ Whole g (opsAsSlice s) data

section Whole

variable {g : GraphSpec}

lemma lengthPrefix_lt (lo hi : UInt8) : lengthPrefix lo hi < 65536 := by
  have hlo : lo.toNat < 2 ^ 16 := Nat.lt_trans lo.toNat_lt (by decide)
  have hhi : hi.toNat <<< 8 < 2 ^ 16 := by
    have := hi.toNat_lt
    omega
  exact Nat.or_lt_two_pow hlo hhi

lemma DataFits.whole {data : Option AtomicTypeID} {bytes : List UInt8}
    (h : DataFits g data bytes) : DataWhole g data bytes := by
  cases data with
  | none => exact h
  | some d =>
    obtain ⟨spec, hd, h⟩ := h
    refine ⟨spec, hd, ?_⟩
    cases hs : spec.atomicType.size with
    | fixed x =>
      rw [hs] at h
      exact h
    | dynamic =>
      rw [hs] at h
      obtain ⟨lo, hi, rest, hbytes, hrest⟩ := h
      refine ⟨lo, hi, rest, hbytes, ?_⟩
      rw [hrest, Nat.mod_eq_of_lt (lengthPrefix_lt lo hi)]

lemma dataWhole_of_generated {d : AtomicTypeID} {dat : AtomicSpec} {available : ℕ}
    {bytes : List UInt8} (hd : g.getData d = .ok dat)
    (h : dat.atomicType.Generated available bytes) : DataWhole g (some d) bytes := by
  refine ⟨dat, hd, ?_⟩
  cases hs : dat.atomicType with
  | dataInt size generators => exact h.length (by rw [hs]; rfl)
  | dataStruct size fields => exact h.length (by rw [hs]; rfl)
  | dataVec sizeRange primitiveSize dtype =>
    rw [hs] at h
    obtain ⟨num, rest, -, -, hrest, rfl⟩ := h
    refine ⟨_, _, rest, rfl, ?_⟩
    rw [lengthPrefix_sizePrefix, hrest]

lemma Whole.read {ops : List UInt16} {data : List UInt8} (h : Whole g ops data) :
    (opsFrom g [] ops).stop = none ∧ openPorts g [] ops = [] := by
  induction h with
  | nil => exact ⟨rfl, rfl⟩
  | @node ops data id spec cs bytes init get length whole ih =>
    have hlen : cs.length = spec.ports.length := by rw [length, NodeSpec.length_ports]
    obtain ⟨hports, hstop⟩ := GraphBuilder.openPorts_of_length_le (g := g) _ _ hlen.le
    rw [opsFrom_append ih.1, openPorts_append ih.1, ih.2]
    simp only [opsFrom, openPorts, get, hports, hstop, hlen, List.drop_length, and_self]

lemma Whole.openPorts_cut {ops : List UInt16} {data : List UInt8} (h : Whole g ops data)
    {id : NodeTypeID} {spec : NodeSpec} {cs : List ConnectorID} (hid : g.getNode id = .ok spec)
    (hcs : cs.length < spec.size) : openPorts g [] (ops ++ id :: cs) ≠ [] := by
  obtain ⟨hstop, hports⟩ := h.read
  have hlt : cs.length < spec.ports.length := by rwa [NodeSpec.length_ports]
  rw [openPorts_append hstop, hports]
  simp only [openPorts, hid, (GraphBuilder.openPorts_of_length_le spec.ports cs hlt.le).1]
  intro he
  have := List.drop_eq_nil_iff.mp he
  omega

end Whole

namespace RefGraph

lemma put_of_room {s : RefGraph} (h : 0 < opsAvailable s) (x : UInt16) :
    opsAsSlice (put s x) = opsAsSlice s ++ [x] ∧ dataAsSlice (put s x) = dataAsSlice s ∧
      opsAvailable (put s x) + 1 = opsAvailable s := by
  have hlt : s.opsI < s.ops.length := Nat.lt_of_sub_pos h
  have hput : GraphStorage.appendOp s x = some (put s x) := by
    obtain ⟨t, ht⟩ := exists_appendOp s x h
    rw [put, ht, Option.getD_some]
  refine ⟨ops_appendOp _ _ _ hput, data_appendOp _ _ _ hput, ?_⟩
  have hval : put s x = { s with
      ops := s.ops.set s.opsI x
      opsI := s.opsI + 1
      opsI_le := by simp; omega } := by
    show (appendOp s x).getD s = _
    rw [appendOp, dif_pos hlt, Option.getD_some]
  show (put s x).ops.length - (put s x).opsI + 1 = s.ops.length - s.opsI
  rw [hval]
  simp only [List.length_set]
  omega

lemma put_of_full {s : RefGraph} (h : opsAvailable s = 0) (x : UInt16) : put s x = s := by
  have hlt : ¬s.opsI < s.ops.length := by
    have : s.ops.length - s.opsI = 0 := h
    omega
  show (appendOp s x).getD s = s
  rw [appendOp, dif_neg hlt, Option.getD_none]

lemma foldl_put (xs : List UInt16) (s : RefGraph) :
    opsAsSlice (xs.foldl put s) = opsAsSlice s ++ xs.take (opsAvailable s) ∧
      dataAsSlice (xs.foldl put s) = dataAsSlice s ∧
      opsAvailable (xs.foldl put s) = opsAvailable s - xs.length := by
  induction xs generalizing s with
  | nil => simp
  | cons x xs ih =>
    obtain ⟨hops, hdata, havail⟩ := ih (put s x)
    rw [List.foldl_cons]
    rcases Nat.eq_zero_or_pos (opsAvailable s) with h0 | hpos
    · rw [put_of_full h0] at hops hdata havail ⊢
      simp [hops, hdata, havail, h0]
    · obtain ⟨hops', hdata', havail'⟩ := put_of_room hpos x
      rw [hops, hdata, havail, hops', hdata', ← havail', List.take_succ_cons, List.length_cons]
      exact ⟨by simp, rfl, by omega⟩

lemma opsAvailable_appendData {s t : RefGraph} {bs : List UInt8}
    (h : GraphStorage.appendData s bs = some t) : opsAvailable t = opsAvailable s := by
  have h' : appendData s bs = some t := h
  unfold appendData at h'
  split at h' <;> cases h'
  rfl

end RefGraph

/-- The stored nodes are whole. Data without a node follows only when there is no room for ops. -/
def Filled (g : GraphSpec) (s : RefGraph) : Prop :=
  ∃ data rest, dataAsSlice s = data ++ rest ∧ Whole g (opsAsSlice s) data ∧
    (rest = [] ∨ opsAvailable s = 0)

/-- The last node is cut, and there is no room for the rest of it. -/
def Cut (g : GraphSpec) (s : RefGraph) : Prop :=
  opsAvailable s = 0 ∧ openPorts g [] (opsAsSlice s) ≠ []

def Roomy (g : GraphSpec) (c : GraphNode × BuildState RefGraph) : Prop :=
  GraphBuilder.canAppendNode g c.1 c.2 = true →
    opsAvailable c.2.graph = 0 ∨ c.1.ops.length ≤ opsAvailable c.2.graph

instance (g : GraphSpec) (c : GraphNode × BuildState RefGraph) : Decidable (Roomy g c) :=
  inferInstanceAs (Decidable (_ → _))

section Filled

variable {g : GraphSpec} {s t : RefGraph}

lemma Filled.intact (h : Filled g s) : Intact g s := by
  obtain ⟨data, rest, hdata, hwhole, -⟩ := h
  exact ⟨data, rest, hdata, hwhole⟩

lemma Cut.not_intact (h : Cut g s) : ¬Intact g s := by
  rintro ⟨data, rest, -, hwhole⟩
  exact h.2 hwhole.read.2

lemma filled_clear (g : GraphSpec) (s : RefGraph) : Filled g (GraphStorage.clear s) := by
  refine ⟨[], [], data_clear s, ?_, .inl rfl⟩
  exact .nil

lemma Filled.stored (h : Filled g s) (hpos : 0 < opsAvailable s) {id : NodeTypeID}
    (hst : GraphBuilder.StoredNode g (DataWhole g) s id t) : Filled g t := by
  obtain ⟨data, rest, hdata, hwhole, hrest⟩ := h
  obtain rfl : rest = [] := hrest.resolve_right hpos.ne'
  obtain ⟨spec, cs, bytes, hspec, hcs, hbytes, hops', hdata'⟩ := hst
  refine ⟨data ++ bytes, [], ?_, ?_, .inl rfl⟩
  · rw [hdata', hdata, List.append_nil, List.append_nil]
  · rw [hops']
    exact .node hwhole hspec hcs hbytes

/-- The node was stored, its ops as far as there is room. -/
structure Accepted (n : Node g) (s t : RefGraph) : Prop where
  ops : ∃ cs : List ConnectorID, cs.length = n.spec.size ∧
    opsAsSlice t = opsAsSlice s ++ (n.id :: cs).take (opsAvailable s)
  data : dataAsSlice t = dataAsSlice s ++ n.data
  room : opsAvailable t = opsAvailable s - (n.spec.size + 1)

lemma accepted_of_put {n : Node g} {cs : List ConnectorID} (hcs : cs.length = n.spec.size)
    (h : GraphStorage.appendData ((n.id :: cs).foldl put s) n.data = some t) : Accepted n s t := by
  obtain ⟨hops, hdata, havail⟩ := RefGraph.foldl_put (n.id :: cs) s
  refine ⟨⟨cs, hcs, ?_⟩, ?_, ?_⟩
  · rw [ops_appendData _ _ _ h, hops]
  · rw [data_appendData _ _ _ h, hdata]
  · rw [RefGraph.opsAvailable_appendData h, havail, List.length_cons, hcs]

lemma Filled.accepted {n : Node g} (h : Filled g s) (ha : Accepted n s t)
    (hroom : opsAvailable s = 0 ∨ n.spec.size + 1 ≤ opsAvailable s) : Filled g t := by
  obtain ⟨cs, hcs, hops⟩ := ha.ops
  rcases hroom with h0 | hroom
  · obtain ⟨data, rest, hdata, hwhole, -⟩ := h
    refine ⟨data, rest ++ n.data, ?_, ?_, .inr ?_⟩
    · rw [ha.data, hdata, List.append_assoc]
    · rw [hops, h0, List.take_zero, List.append_nil]
      exact hwhole
    · rw [ha.room, h0, Nat.zero_sub]
  · refine h.stored (by omega) ⟨n.spec, cs, n.data, n.get, hcs, n.fits.whole, ?_, ha.data⟩
    rw [hops, List.take_of_length_le (by rw [List.length_cons, hcs]; exact hroom)]

lemma Filled.cut {n : Node g} (h : Filled g s) (ha : Accepted n s t) (hpos : 0 < opsAvailable s)
    (hroom : opsAvailable s < n.spec.size + 1) : Cut g t := by
  obtain ⟨cs, hcs, hops⟩ := ha.ops
  obtain ⟨data, rest, -, hwhole, -⟩ := h
  refine ⟨by rw [ha.room]; omega, ?_⟩
  obtain ⟨k, hk⟩ := Nat.exists_eq_succ_of_ne_zero hpos.ne'
  rw [hops, hk, List.take_succ_cons]
  exact hwhole.openPorts_cut n.get (by rw [List.length_take]; omega)

lemma Cut.accepted {n : Node g} (h : Cut g s) (ha : Accepted n s t) : Cut g t := by
  obtain ⟨cs, hcs, hops⟩ := ha.ops
  refine ⟨by rw [ha.room, h.1, Nat.zero_sub], ?_⟩
  rw [hops, h.1, List.take_zero, List.append_nil]
  exact h.2

end Filled

namespace GraphBuilder

variable {g : GraphSpec}

lemma appendNode_accepts (n : Node g) (opI : ℕ) (st : BuildState RefGraph) :
    Triple (fun st' => st' = st) (appendNode g (n.place opI))
      (fun _ st' => canAppendNode g (n.place opI) st = false ∧ st' = st ∨
        canAppendNode g (n.place opI) st = true ∧ Accepted n st.graph st'.graph)
      (fun _ _ => True) := by
  rintro st rfl
  rw [appendNode, run_gets_bind]
  cases hcan : canAppendNode g (n.place opI) st with
  | false => exact .inl ⟨rfl, rfl⟩
  | true =>
    refine Triple.bind (putSlice_spec n) (fun _ => ?_) st rfl
    rintro st' ⟨cs, hcs, hput⟩
    have hdata : (onGraph (GenM.appendData (n.place opI).data)).run st' = match
        GraphStorage.appendData st'.graph n.data with
        | some t => (.ok (), { st' with graph := t })
        | none => (.error (.other .unwrapNone), st') := by
      rw [run_onGraph]
      simp only [Exec.run, GenM.appendData, Node.place]
      cases GraphStorage.appendData st'.graph n.data <;> rfl
    rw [run_bind, hdata]
    cases happend : GraphStorage.appendData st'.graph n.data with
    | none => trivial
    | some t =>
      rw [hput] at happend
      exact .inr ⟨rfl, accepted_of_put hcs happend⟩

lemma fillMutated_spec (n : Node g) (opI : ℕ) (dict : CustomDict) :
    Triple (fun st => Filled g st.graph ∧ g.maxOps < opsAvailable st.graph)
      (appendNodeMutated g (n.place opI) dict : BuildM RefGraph Unit)
      (fun _ st => Filled g st.graph) (fun _ _ => True) := by
  rintro st ⟨hst, hroom⟩
  have hpos : 0 < opsAvailable st.graph := Nat.zero_lt_of_lt hroom
  refine (storeMutated_spec n opI dict (room_of_maxOps_lt hroom n)).post ?_ st rfl
  rintro _ st' (he | ⟨spec, cs, bytes, hspec, hcs, hfits, hops, hdata⟩)
  · rw [he]
    exact hst
  · exact hst.stored hpos ⟨spec, cs, bytes, hspec, hcs, hfits.whole, hops, hdata⟩

lemma fillRandomNode_spec (id : NodeTypeID) :
    Triple (fun st => Filled g st.graph ∧ g.maxOps < opsAvailable st.graph)
      (appendRandomNode g id : BuildM RefGraph (Except GraphError Unit))
      (fun _ st => Filled g st.graph) (fun _ _ => True) := by
  rintro st ⟨hst, hroom⟩
  have hpos : 0 < opsAvailable st.graph := Nat.zero_lt_of_lt hroom
  have hgen : ∀ spec d dat bytes, g.getNode id = .ok spec → spec.data = some d →
      g.getData d = .ok dat → dat.atomicType.Generated (dataAvailable st.graph) bytes →
        DataWhole g (some d) bytes :=
    fun _ _ _ _ _ _ hd h => dataWhole_of_generated hd h
  refine (storeRandomNode_spec (s := st.graph) (F := DataWhole g) rfl hgen).post ?_ st rfl
  rintro _ st' (he | hstored)
  · rw [he]
    exact hst
  · exact hst.stored hpos hstored

lemma keeps_pickAvailableType {S : Type} [GraphStorage S] :
    Keeps BuildState.graph (pickAvailableType g : BuildM S (Except GraphError NodeTypeID)) := by
  refine Keeps.bind (Keeps.gets _) fun ids => Keeps.bind (fun st => rfl) fun picked => ?_
  cases picked with
  | some id => exact Keeps.pure _
  | none => exact Keeps.pure _

lemma fillRandom_spec (n : ℕ) :
    Triple (fun st => Filled g st.graph)
      (appendRandom g n : BuildM RefGraph (Except GraphError Unit))
      (fun _ st => Filled g st.graph) (fun _ _ => True) := by
  induction n with
  | zero => exact Triple.skip
  | succ n ih =>
    intro st hst
    rw [appendRandom, run_gets_bind]
    cases hfull : isFull g st with
    | true => exact hst
    | false =>
      have hpick := (keeps_pickAvailableType (g := g)).triple (E := fun _ _ => True)
        (fun s : RefGraph => Filled g s ∧ g.maxOps < opsAvailable s) (fun _ _ _ => trivial)
      refine Triple.bind hpick (fun picked => ?_) st ⟨hst, maxOps_lt_of_not_full hfull⟩
      cases picked with
      | error e => exact Triple.pure fun _ h => h.1
      | ok id =>
        refine Triple.bind (fillRandomNode_spec id) fun r => ?_
        cases r with
        | error e => exact Triple.skip
        | ok u => exact ih

end GraphBuilder

/-- What the results below look at: the storage and the calls of `append_node`. -/
abbrev Shown := RefGraph × List (GraphNode × BuildState RefGraph)

def MutatorState.shown (m : MutatorState RefGraph) : Shown := (m.build.graph, m.calls)

/-- `x` leads from `P` to `Q` if it returns. -/
def Leads {α : Type} (P : Shown → Prop) (x : MutatorM RefGraph α) (Q : Shown → Prop) : Prop :=
  Triple (fun m => P m.shown) x (fun _ m => Q m.shown) (fun _ _ => True)

abbrev Unlogged (x : Shown) : Prop := x.2 = []

/-- All nodes are whole, and every call found room. -/
structure Good (g : GraphSpec) (x : Shown) : Prop where
  filled : Filled g x.1
  roomy : ∀ c ∈ x.2, Roomy g c

/-- Either that, or a call has cut a node. -/
def Tracked (g : GraphSpec) (x : Shown) : Prop :=
  Good g x ∨ Cut g x.1 ∧ ∃ c ∈ x.2, ¬Roomy g c

def Ready (g : GraphSpec) (x : Shown) : Prop :=
  Good g x ∧ g.maxOps < opsAvailable x.1

lemma Tracked.intact_iff {g : GraphSpec} {x : Shown} (h : Tracked g x) :
    Intact g x.1 ↔ ∀ c ∈ x.2, Roomy g c := by
  rcases h with h | ⟨hcut, c, hc, hroomy⟩
  · exact ⟨fun _ => h.roomy, fun _ => h.filled.intact⟩
  · exact ⟨fun hi => absurd hi hcut.not_intact, fun hall => absurd (hall c hc) hroomy⟩

namespace Mutator

variable {g : GraphSpec} {P : Shown → Prop}

def IsNode (g : GraphSpec) (n : GraphNode) : Prop := ∃ (m : Node g) (i : ℕ), n = m.place i

lemma draw_spec {α : Type} (d : Exec Panic Distributions α) : Leads P (draw d) P :=
  Keeps.triple (fun _ => rfl) P fun _ _ _ => trivial

lemma finish_spec (stop : Option Panic) : Leads P (finish stop) P := by
  cases stop with
  | none => exact Triple.skip
  | some e => exact fun _ _ => trivial

lemma nodeLen_spec (orig : VecGraph) : Leads P (nodeLen g orig) P :=
  Triple.bind (finish_spec _) fun _ => Triple.skip

lemma appendNode_effect (n : Node g) (i : ℕ) (m : MutatorState RefGraph) :
    Triple (fun m' => m' = m) (appendNode g (n.place i))
      (fun _ m' => m'.calls = m.calls ++ [(n.place i, m.build)] ∧
        (GraphBuilder.canAppendNode g (n.place i) m.build = false ∧ m'.build = m.build ∨
          GraphBuilder.canAppendNode g (n.place i) m.build ∧
            Accepted n m.build.graph m'.build.graph))
      (fun _ _ => True) := by
  rintro m rfl
  have hcall := GraphBuilder.appendNode_accepts n i m.build m.build rfl
  set called : MutatorState RefGraph := ⟨m.build, m.calls ++ [(n.place i, m.build)]⟩
  have hrun : (appendNode g (n.place i)).run m =
      (builder (GraphBuilder.appendNode g (n.place i)) >>= fun _ => pure ()).run called := rfl
  rcases hr : (GraphBuilder.appendNode g (n.place i)).run m.build with ⟨r, b⟩
  have hbuilder : (builder (GraphBuilder.appendNode g (n.place i))).run called =
      (r, ⟨b, called.calls⟩) := by
    rw [builder, Exec.run_zoom, hr]
  rw [hrun, run_bind, hbuilder]
  rw [hr] at hcall
  cases r with
  | error e => trivial
  | ok accepted => exact ⟨rfl, hcall⟩

lemma length_ops_place (n : Node g) (i : ℕ) : (n.place i).ops.length = n.spec.size + 1 := by
  show n.ops.length = _
  rw [n.length_ops, Nat.add_comm]

lemma good_concat {s t : RefGraph} {calls : List (GraphNode × BuildState RefGraph)}
    {c : GraphNode × BuildState RefGraph} (h : Good g (s, calls)) (ht : Filled g t)
    (hc : Roomy g c) : Good g (t, calls ++ [c]) := by
  refine ⟨ht, fun c' hc' => ?_⟩
  rcases List.mem_append.mp hc' with hc' | hc'
  · exact h.roomy c' hc'
  · rw [List.mem_singleton.mp hc']
    exact hc

variable {n : GraphNode}

lemma appendNode_good (hn : IsNode g n) (m : MutatorState RefGraph)
    (hm : Good g m.shown) (hroomy : Roomy g (n, m.build)) :
    Triple (fun m' => m' = m) (appendNode g n) (fun _ m' => Good g m'.shown)
      (fun _ _ => True) := by
  obtain ⟨n, i, rfl⟩ := hn
  refine (appendNode_effect n i m).post ?_
  rintro _ m' ⟨hcalls, ⟨-, hbuild⟩ | ⟨hcan, haccepted⟩⟩
  · rw [MutatorState.shown, hcalls, hbuild]
    exact good_concat hm hm.filled hroomy
  · rw [MutatorState.shown, hcalls]
    refine good_concat hm (hm.filled.accepted haccepted ?_) hroomy
    rw [← length_ops_place n i]
    exact hroomy hcan

lemma appendNode_ready (hn : IsNode g n) : Leads (Ready g) (appendNode g n) (Good g) := by
  rintro m ⟨hm, hroom⟩
  refine appendNode_good hn m hm (fun _ => .inr ?_) m rfl
  obtain ⟨n, i, rfl⟩ := hn
  rw [length_ops_place]
  exact GraphBuilder.room_of_maxOps_lt hroom n

lemma appendNode_tracked (hn : IsNode g n) : Leads (Tracked g) (appendNode g n) (Tracked g) := by
  intro m hm
  by_cases hgood : Good g m.shown ∧ Roomy g (n, m.build)
  · exact (appendNode_good hn m hgood.1 hgood.2).post (fun _ _ h => .inl h) m rfl
  obtain ⟨n, i, rfl⟩ := hn
  refine (appendNode_effect n i m).post ?_ m rfl
  rintro _ m' ⟨hcalls, hcall⟩
  rw [MutatorState.shown, hcalls]
  right
  rcases hm with hm | ⟨hcut, c, hc, hroomy⟩
  · -- the call is the first that cuts its node
    have hroomy : ¬Roomy g (n.place i, m.build) := fun h => hgood ⟨hm, h⟩
    refine ⟨?_, _, List.mem_append_right _ (List.mem_singleton_self _), hroomy⟩
    simp only [Roomy, length_ops_place, Classical.not_imp, not_or] at hroomy
    obtain ⟨hcan, hpos, hlt⟩ := hroomy
    rcases hcall with ⟨hcan', -⟩ | ⟨-, haccepted⟩
    · rw [hcan] at hcan'
      cases hcan'
    · exact hm.filled.cut haccepted (Nat.pos_of_ne_zero hpos) (Nat.lt_of_not_le hlt)
  · -- a node was cut before
    refine ⟨?_, c, List.mem_append_left _ hc, hroomy⟩
    rcases hcall with ⟨-, hbuild⟩ | ⟨-, haccepted⟩
    · rw [hbuild]
      exact hcut
    · exact hcut.accepted haccepted

lemma builder_spec {α : Type} {b : BuildM RefGraph α} {R : RefGraph → Prop}
    (hb : Triple (fun st => Filled g st.graph ∧ R st.graph) b (fun _ st => Filled g st.graph)
      (fun _ _ => True)) :
    Leads (fun x => Good g x ∧ R x.1) (builder b) (Good g) :=
  Triple.zoom hb (fun _ h => ⟨h.1.filled, h.2⟩) (fun _ _ _ h hst => ⟨hst, h.1.roomy⟩)
    (fun _ _ _ _ _ => trivial)

lemma start_good : Leads Unlogged (builder GraphBuilder.start) (Good g) := by
  intro m hm
  refine ⟨filled_clear g _, fun c hc => ?_⟩
  have hc' : c ∈ m.shown.2 := hc
  rw [hm] at hc'
  cases hc'

lemma appendNodeMutated_ready (hn : IsNode g n) (dict : CustomDict) :
    Leads (Ready g) (appendNodeMutated g n dict) (Good g) := by
  obtain ⟨n, i, rfl⟩ := hn
  exact builder_spec (R := fun s => g.maxOps < opsAvailable s)
    (GraphBuilder.fillMutated_spec n i dict)

lemma appendRandom_good (n : ℕ) : Leads (Good g) (appendRandom g n) (Good g) := by
  have hrandom := builder_spec (R := fun _ => True) ((GraphBuilder.fillRandom_spec (g := g) n).pre (fun _ h => h.1))
  refine Triple.bind (hrandom.pre (fun _ h => ⟨h, trivial⟩)) fun r => ?_
  cases r with
  | ok u => exact Triple.skip
  | error e => exact fun _ _ => trivial

lemma forNodes_spec {α : Type} {it : Iter Panic α} {body : α → MutatorM RefGraph Unit}
    (hbody : ∀ n ∈ it.items, Leads (Ready g) (body n) (Good g)) :
    Leads (Good g) (forNodes g it body) (Good g) := by
  refine Triple.bind (Triple.forWhile_const fun n hn => ?_) fun go => ?_
  · intro m hm
    rw [isFull, run_gets_bind]
    cases hfull : GraphBuilder.isFull g m.build with
    | true => exact hm
    | false =>
      have hready : Ready g m.shown := ⟨hm, GraphBuilder.maxOps_lt_of_not_full hfull⟩
      exact Triple.bind (hbody n hn) (fun _ => Triple.skip) m hready
  · split
    · exact Triple.bind (finish_spec _) fun _ => Triple.skip
    · exact Triple.skip

lemma isNode_of_mem {orig : VecGraph} (h : n ∈ (GraphStorage.nodeIter g orig).items) : IsNode g n :=
  GraphBuilder.node_of_mem_nodeIter h

lemma mem_of_mem_take {α : Type} {it : Iter Panic α} {k : ℕ} {a : α}
    (h : a ∈ (it.take k).items) : a ∈ it.items := by
  unfold Iter.take at h
  split at h
  · exact List.mem_of_mem_take h
  · exact h

lemma mem_of_mem_skip {α : Type} {it : Iter Panic α} {k : ℕ} {a : α}
    (h : a ∈ (it.skip k).items) : a ∈ it.items := List.mem_of_mem_drop h

lemma generate_good (n : ℕ) : Leads Unlogged (generate g n) (Good g) :=
  Triple.bind start_good fun _ => appendRandom_good n

lemma generateTail_good (orig : VecGraph) (args : GenerateTail) :
    Leads Unlogged (generateTail g orig args) (Good g) := by
  refine Triple.bind (nodeLen_spec (P := Unlogged) orig) fun len =>
    Triple.bind start_good fun _ => Triple.bind (forNodes_spec fun n hn => ?_) fun go => ?_
  · exact appendNode_ready (isNode_of_mem (mem_of_mem_take hn))
  · split
    · exact appendRandom_good _
    · exact Triple.skip

lemma mutateData_good (orig : VecGraph) (dict : CustomDict) :
    Leads Unlogged (mutateData g orig dict) (Good g) := by
  refine Triple.bind start_good fun _ => Triple.bind (forNodes_spec fun n hn => ?_) fun _ =>
    Triple.skip
  refine Triple.bind (draw_spec _) fun should => ?_
  split
  · exact appendNodeMutated_ready (isNode_of_mem hn) dict
  · exact appendNode_ready (isNode_of_mem hn)

lemma applyGraphNode_ready (hn : IsNode g n) (op : NodeMutationType) (dict : CustomDict) :
    Leads (Ready g) (applyGraphNode g op n dict) (Good g) := by
  cases op with
  | copyNode => exact appendNode_ready hn
  | mutateNodeData => exact appendNodeMutated_ready hn dict
  | dropNode => exact Triple.pure fun _ h => h.1
  | skipAndGenerate =>
    refine Triple.bind (draw_spec _) fun len => ?_
    exact (appendRandom_good len).pre (fun _ h => h.1)

lemma spliceRandom_good (orig : VecGraph) (dict : CustomDict) :
    Leads Unlogged (spliceRandom g orig dict) (Good g) :=
  Triple.bind start_good fun _ => Triple.bind (forNodes_spec fun _ hn =>
    Triple.bind (draw_spec _) fun op => applyGraphNode_ready (isNode_of_mem hn) op dict) fun _ =>
      Triple.skip

lemma repeatNodes_good (orig : VecGraph) (dict : CustomDict) :
    Leads Unlogged (repeatNodes g orig dict) (Good g) := by
  refine Triple.bind start_good fun _ => Triple.bind (draw_spec _) fun count =>
    Triple.bind (nodeLen_spec orig) fun len => Triple.bind (draw_spec _) fun insertPos =>
    Triple.bind (forNodes_spec fun n hn => ?_) fun go => ?_
  · exact appendNode_ready (isNode_of_mem (mem_of_mem_take hn))
  split
  · refine Triple.bind (finish_spec _) fun _ =>
      Triple.bind (forNodes_spec fun n hn => ?_) fun go => ?_
    · obtain ⟨l, hl, hn⟩ := List.mem_flatten.mp hn
      rw [List.eq_of_mem_replicate hl] at hn
      exact appendNodeMutated_ready (isNode_of_mem (mem_of_mem_skip (mem_of_mem_take hn))) dict
    · split
      · refine Triple.bind (forNodes_spec fun n hn => ?_) fun _ => Triple.skip
        exact appendNode_ready (isNode_of_mem (mem_of_mem_skip hn))
      · exact Triple.skip
  · exact Triple.skip

lemma spliceFragment_tracked (queue : InputQueue) :
    Leads (Tracked g) (spliceFragment g queue) (Tracked g) := by
  refine Triple.bind (draw_spec _) fun other => Triple.bind (nodeLen_spec other) fun len =>
    Triple.bind (draw_spec _) fun start => Triple.bind (draw_spec _) fun count =>
    Triple.bind (Triple.forEach_const fun n hn => ?_) fun _ => finish_spec _
  exact appendNode_tracked (isNode_of_mem (mem_of_mem_skip (mem_of_mem_take hn)))

lemma spliceLoop_tracked (queue : InputQueue) (stop : Option Panic) (nodes : List GraphNode)
    (hnodes : ∀ n ∈ nodes, IsNode g n) (i : ℕ) (points : List ℕ) :
    Leads (Tracked g) (spliceLoop g queue stop i points nodes) (Tracked g) := by
  induction nodes generalizing i points with
  | nil => exact finish_spec stop
  | cons n nodes ih =>
    have hn := appendNode_tracked (hnodes n List.mem_cons_self)
    have hrest := ih fun n' hn' => hnodes n' (List.mem_cons_of_mem n hn')
    have hfull : Leads (Tracked g) (isFull g) (Tracked g) := Triple.gets fun _ h => h
    refine Triple.bind hfull fun full => ?_
    split
    · exact Triple.skip
    split
    · exact Triple.bind (spliceFragment_tracked queue) fun _ =>
        Triple.bind hn fun _ => hrest _ _
    · exact Triple.bind hn fun _ => hrest _ _

lemma pickSplicePoints_spec (len : ℕ) : Leads P (pickSplicePoints len) P := by
  have hnum : Leads P (numSplicePoints len) P := by
    unfold numSplicePoints
    split
    · exact fun _ _ => trivial
    split
    · exact draw_spec _
    split
    · exact draw_spec _
    · exact draw_spec _
  refine Triple.bind hnum fun num => Triple.bind (draw_spec _) fun res => ?_
  exact fun _ h => h

lemma splice_tracked (orig : VecGraph) (queue : InputQueue) :
    Leads Unlogged (splice g orig queue) (Tracked g) := by
  refine Triple.bind (nodeLen_spec (P := Unlogged) orig) fun len =>
    Triple.bind (pickSplicePoints_spec (P := Unlogged) len) fun points =>
    Triple.bind (start_good (g := g)) fun _ => ?_
  exact (spliceLoop_tracked queue _ _ (fun _ => isNode_of_mem) 0 points).pre (fun _ h => .inl h)

lemma dropRange_tracked (orig : VecGraph) (range : Range) :
    Leads Unlogged (dropRange g orig range) (Tracked g) := by
  have hstart : Leads Unlogged (builder GraphBuilder.start) (Tracked g) :=
    start_good.post (fun _ _ h => .inl h)
  refine Triple.bind hstart fun _ =>
    Triple.bind (Triple.forEach_const ?_) fun _ => finish_spec _
  rintro ⟨i, n⟩ hn
  obtain ⟨⟨n', i'⟩, hmem, heq⟩ := List.mem_map.mp hn
  cases heq
  have hnode : IsNode g n' := isNode_of_mem (List.fst_mem_of_mem_zipIdx hmem)
  show Triple _ (if range.start ≤ i' ∧ i' < range.stop then pure () else appendNode g n') _ _
  split
  · exact Triple.skip
  · exact appendNode_tracked hnode

end Mutator

inductive StrategyCall where
  | generate (n : ℕ)
  | generateTail (orig : VecGraph) (args : GenerateTail)
  | mutateData (orig : VecGraph) (dict : CustomDict)
  | repeatNodes (orig : VecGraph) (dict : CustomDict)
  | spliceRandom (orig : VecGraph) (dict : CustomDict)
  | splice (orig : VecGraph) (queue : InputQueue)
  | dropRange (orig : VecGraph) (range : Range)

namespace StrategyCall

def perform {S : Type} [GraphStorage S] (g : GraphSpec) : StrategyCall → MutatorM S Unit
  | generate n => Mutator.generate g n
  | generateTail orig args => Mutator.generateTail g orig args
  | mutateData orig dict => Mutator.mutateData g orig dict
  | repeatNodes orig dict => Mutator.repeatNodes g orig dict
  | spliceRandom orig dict => Mutator.spliceRandom g orig dict
  | splice orig queue => Mutator.splice g orig queue
  | dropRange orig range => Mutator.dropRange g orig range

def asksIsFull : StrategyCall → Bool
  | splice _ _ | dropRange _ _ => false
  | _ => true

end StrategyCall

lemma StrategyCall.good_of_asks {g : GraphSpec} {a : StrategyCall} (hask : a.asksIsFull) :
    Leads Unlogged (a.perform g) (Good g) := by
  cases a with
  | generate n => exact Mutator.generate_good n
  | generateTail orig args => exact Mutator.generateTail_good orig args
  | mutateData orig dict => exact Mutator.mutateData_good orig dict
  | repeatNodes orig dict => exact Mutator.repeatNodes_good orig dict
  | spliceRandom orig dict => exact Mutator.spliceRandom_good orig dict
  | splice | dropRange => cases hask

/-- A strategy leaves whole nodes if and only if each of its calls of `append_node` that accepts its
node finds room for all ops of the node or for none. -/
theorem strategy_intact_iff (g : GraphSpec) (a : StrategyCall) (st : BuildState RefGraph)
    {m : MutatorState RefGraph} (hok : (a.perform g).run ⟨st, []⟩ = (.ok (), m)) :
    Intact g m.build.graph ↔ ∀ c ∈ m.calls, Roomy g c := by
  have hspec : Leads Unlogged (a.perform g) (Tracked g) := by
    cases hask : a.asksIsFull with
    | true =>
      exact (StrategyCall.good_of_asks hask).post (fun _ _ h => .inl h)
    | false =>
      cases a with
      | splice orig queue => exact Mutator.splice_tracked orig queue
      | dropRange orig range => exact Mutator.dropRange_tracked orig range
      | generate | generateTail | mutateData | repeatNodes | spliceRandom => cases hask
  exact (hspec.ok rfl hok).intact_iff

def spliceOpens : StrategyCall := .splice ⟨[0, 1], []⟩ (.ofList [⟨[0, 1, 0, 2], []⟩])

def emptyPayload (k : ℕ) : BuildState RefGraph where
  state := fun _ => none
  graph := ⟨List.replicate k 0, 0, [0], 0, Nat.zero_le _, Nat.zero_le _⟩
  dist := ⟨[0, 0, 0, 0, 1]⟩

theorem splice_intact_roomy : Intact fileSpec
    ((spliceOpens.perform fileSpec).run ⟨emptyPayload 6, []⟩).2.build.graph := by
  have hok : ((spliceOpens.perform fileSpec).run ⟨emptyPayload 6, []⟩).1 = .ok () := by
    decide +kernel
  exact (strategy_intact_iff fileSpec spliceOpens (emptyPayload 6) (Prod.ext hok rfl)).mpr
    (by decide +kernel)

/-- The payload has room for three ops. The fragment is not checked against it, so the second of its
two nodes is cut after its id. -/
theorem splice_cuts_node :
    ((spliceOpens.perform fileSpec).run ⟨emptyPayload 3, []⟩).1 = .ok () ∧
      ¬Intact fileSpec ((spliceOpens.perform fileSpec).run ⟨emptyPayload 3, []⟩).2.build.graph := by
  refine ⟨by decide +kernel, Cut.not_intact ⟨?_, ?_⟩⟩
  · decide +kernel
  · decide +kernel

/-- Only splicing can make `mutate` cut a node, and only where a call of `append_node` lacks room. -/
theorem mutate_intact (g : GraphSpec) (orig : VecGraph) (dict : CustomDict) (queue : InputQueue)
    (st : BuildState RefGraph) {strategy : MutationStrategy} {m : MutatorState RefGraph}
    (hok : (Mutator.mutate g orig dict queue).run ⟨st, []⟩ = (.ok strategy, m)) :
    (strategy ≠ .splice → Intact g m.build.graph) ∧
      (Intact g m.build.graph ↔ ∀ c ∈ m.calls, Roomy g c) := by
  let Q : MutationStrategy → MutatorState RefGraph → Prop := fun strategy m =>
    Tracked g m.shown ∧ (strategy ≠ .splice → Good g m.shown)
  have hgood {x : MutatorM RefGraph Unit} {s : MutationStrategy} (hx : Leads Unlogged x (Good g)) :
      Triple (fun m => Unlogged m.shown) (x >>= fun _ => pure s) Q fun _ _ => True :=
    Triple.bind hx fun _ _ h => ⟨.inl h, fun _ => h⟩
  have hspec : Triple (fun m => Unlogged m.shown) (Mutator.mutate g orig dict queue) Q
      fun _ _ => True := by
    unfold Mutator.mutate
    split
    · exact hgood (Mutator.generate_good 50)
    refine Triple.bind (Mutator.nodeLen_spec (P := Unlogged) orig) fun len =>
      Triple.bind (Mutator.draw_spec _) fun strategy => ?_
    cases strategy with
    | generateTail args => exact hgood (Mutator.generateTail_good orig args)
    | spliceRandom => exact hgood (Mutator.spliceRandom_good orig dict)
    | splice =>
      exact Triple.bind (Mutator.splice_tracked orig queue) fun _ _ h => ⟨h, fun hne => absurd rfl hne⟩
    | dataOnly => exact hgood (Mutator.mutateData_good orig dict)
    | generate => exact hgood (Mutator.generate_good 50)
    | «repeat» => exact hgood (Mutator.repeatNodes_good orig dict)
    | minimize | minimizeSplit => exact fun _ _ => trivial
  obtain ⟨htracked, hwhole⟩ := hspec.ok rfl hok
  exact ⟨fun hne => (hwhole hne).filled.intact, htracked.intact_iff⟩

theorem mutate_intact_generateTail : Intact fileSpec ((Mutator.mutate fileSpec ⟨[0, 1], []⟩
    (.newFromGroups []) (.ofList [])).run ⟨emptyPayload 4, []⟩).2.build.graph := by
  have hok : ((Mutator.mutate fileSpec ⟨[0, 1], []⟩ (.newFromGroups []) (.ofList [])).run
      ⟨emptyPayload 4, []⟩).1 = .ok (.generateTail ⟨0, 17⟩) := by decide +kernel
  exact (mutate_intact _ _ _ _ _ (Prod.ext hok rfl)).1 (by decide)

end Nyx
