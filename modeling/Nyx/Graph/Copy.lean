import Mathlib.Algebra.Order.BigOperators.Group.List
import Nyx.Graph.Rebuild
import Nyx.Graph.RoundTrip

/-!
# Copying nodes

A node that is copied into an unbounded graph is left out if its inputs are not available, and
appended with new connectors otherwise. With enough ids and draws the builder does not panic.
-/

namespace Nyx

namespace ValueState

variable {v : ValueTypeID} {ops : List GraphOp} {vs : ValueState}

lemma run_getRandomInput (hne : vs.newIdsForSampling ≠ []) {d : Distributions}
    (hd : 0 < d.draws.length) :
    ∃ id d', getRandomInput.run (vs, d) = (.ok id, (vs, d')) ∧ id ∈ vs.newIdsForSampling ∧
      d.draws.length ≤ d'.draws.length + 1 := by
  obtain ⟨_ | ⟨x, xs⟩⟩ := d
  · cases hd
  have hlen := List.length_pos_of_ne_nil hne
  have hempty : vs.newIdsForSampling.isEmpty = false := by simpa using hne
  have hlt : 0 + x % (vs.newIdsForSampling.length - 0) < vs.newIdsForSampling.length := by
    rw [Nat.zero_add, Nat.sub_zero]
    exact Nat.mod_lt _ hlen
  have hdraw : (draw (Distributions.genRange 0 vs.newIdsForSampling.length)).run (vs, ⟨x :: xs⟩) =
      (.ok (0 + x % (vs.newIdsForSampling.length - 0)), (vs, ⟨xs⟩)) := by
    unfold Distributions.genRange
    rw [if_pos hlen]
    rfl
  refine ⟨_, ⟨xs⟩, ?_, List.getElem_mem hlt, le_rfl⟩
  rw [getRandomInput, Exec.run_gets_bind]
  simp only [hempty, Bool.false_eq_true, if_false]
  rw [Exec.run_bind_ok hdraw, List.getElem?_eq_getElem hlt]
  rfl

lemma Tracks.run_getOldAvailableInput (h : Tracks v ops vs) (hne : vs.newIdsForSampling ≠ [])
    {d : Distributions} (hd : 0 < d.draws.length) (oldId : ConnectorID) :
    ∃ id d', (getOldAvailableInput oldId).run (vs, d) = (.ok id, (vs, d')) ∧
      id ∈ vs.newIdsForSampling ∧ d.draws.length ≤ d'.draws.length + 1 := by
  rw [getOldAvailableInput, Exec.run_gets_bind]
  simp only [getRenamedOldInput]
  cases hold : vs.oldIdToNewId oldId with
  | some id => exact ⟨id, d, rfl, (h.renamed oldId id hold).1, Nat.le_succ _⟩
  | none => exact run_getRandomInput hne hd

end ValueState

lemma created_concat_port (v : ValueTypeID) (ops : List GraphOp) (p : Port) (ps : List Port)
    (x : ConnectorID) :
    created v (ops ++ [p.op x]) + ps.count (.set v) = created v ops + (p :: ps).count (.set v) := by
  rw [created_concat, List.count_cons]
  cases p with
  | set v' =>
    by_cases he : v' = v
    · simp [Port.op]
      omega
    · simp [Port.op, he]
  | get v' | pass v' => simp [Port.op]

namespace GraphBuilder

variable {g : GraphSpec} {p : Port} {ps : List Port} {st : BuildState VecGraph}

lemma run_renameAndRelinkOpVal (hb : Building g (p :: ps) st)
    (hd : 0 < st.dist.draws.length) (c : ConnectorID) :
    ∃ x st', (renameAndRelinkOpVal (p.op c)).run st = (.ok x, st') ∧
      st.dist.draws.length ≤ st'.dist.draws.length + 1 := by
  have hvalue : ∀ {v : ValueTypeID} {m : ValM ConnectorID} {id vs' d'},
      m.run (st.state.getState v, st.dist) = (.ok id, (vs', d')) →
      st.dist.draws.length ≤ d'.draws.length + 1 →
      ∃ x st', (onValue v m).run st = (.ok x, st') ∧
        st.dist.draws.length ≤ st'.dist.draws.length + 1 := by
    intro v m id vs' d' hrun hdraws
    exact ⟨id, _, by rw [run_onValue, hrun], hdraws⟩
  have hne := hb.ne_nil
  cases p with
  | get v =>
    have htracks := hb.values v
    obtain ⟨id, d', hrun, hid, hdraws⟩ := htracks.run_getOldAvailableInput (hne trivial) hd c
    obtain ⟨vs', htake, -⟩ := htracks.takeNewInput d' hid
    exact hvalue ((Exec.run_bind_ok hrun).trans htake) hdraws
  | pass v =>
    obtain ⟨id, d', hrun, -, hdraws⟩ := (hb.values v).run_getOldAvailableInput (hne trivial) hd c
    exact hvalue hrun hdraws
  | set v => exact hvalue (m := ValueState.insert fun vs => vs.insertOldId c) rfl (Nat.le_succ _)

lemma run_relink_port (hb : Building g (p :: ps) st) (hd : 0 < st.dist.draws.length)
    (hroom : ∀ v, created v (written g st) + (p :: ps).count (.set v) ≤ 65536) (c : ConnectorID) :
    ∃ x st', (renameAndRelinkOpVal (p.op c) >>= appendOp).run st = (.ok (), st') ∧
      Building g ps st' ∧ st'.graph = ⟨st.graph.ops ++ [x], st.graph.data⟩ ∧
      written g st' = written g st ++ [p.op x] ∧
      st.dist.draws.length ≤ st'.dist.draws.length + 1 := by
  obtain ⟨x, st₁, hrun, hdraws⟩ := run_renameAndRelinkOpVal hb hd c
  have hgraph : st₁.graph = st.graph := by
    have hkeeps := keeps_renameAndRelinkOpVal (p.op c) st
    rwa [hrun] at hkeeps
  have hboth := (Exec.run_bind_ok hrun).trans (run_appendOp x st₁)
  set st' : BuildState VecGraph := { st₁ with graph := { st₁.graph with ops := st₁.graph.ops ++ [x] } }
  have hops : st'.graph = ⟨st.graph.ops ++ [x], st.graph.data⟩ := by
    show VecGraph.mk (st₁.graph.ops ++ [x]) st₁.graph.data = _
    rw [hgraph]
  obtain ⟨hw, -, -⟩ := written_concat hb.stop hb.ports (x := x) (by rw [hops])
  have hnot : ¬Over g st' := by
    rintro ⟨v, hv⟩
    have hlt := hroom v
    rw [← created_concat_port v _ p ps x, ← hw] at hlt
    omega
  have hsound := (relink_spec p ps c).ok (.inr hb) hboth
  exact ⟨x, st', hboth, hsound.resolve_left hnot, hops, hw, hdraws⟩

lemma run_relink_ports (ps : List Port) {cs : List ConnectorID} (hlen : cs.length = ps.length)
    {st : BuildState VecGraph} (hb : Building g ps st) (hd : ps.length ≤ st.dist.draws.length)
    (hroom : ∀ v, created v (written g st) + ps.count (.set v) ≤ 65536) :
    ∃ xs st', (Exec.forEach (List.zipWith Port.op ps cs) fun op =>
        (renameAndRelinkOpVal op >>= appendOp : BuildM VecGraph Unit)).run st = (.ok (), st') ∧
      Building g [] st' ∧ xs.length = ps.length ∧
      st'.graph = ⟨st.graph.ops ++ xs, st.graph.data⟩ ∧
      st.dist.draws.length ≤ st'.dist.draws.length + ps.length := by
  induction ps generalizing cs st with
  | nil => exact ⟨[], st, rfl, hb, rfl, by simp, le_rfl⟩
  | cons p ps ih =>
    cases cs with
    | nil => simp at hlen
    | cons c cs =>
      rw [List.length_cons] at hd
      obtain ⟨x, st₁, hrun, hb₁, hgraph, hw, hdraws⟩ := run_relink_port hb (by omega) hroom c
      have hroom₁ : ∀ v, created v (written g st₁) + ps.count (.set v) ≤ 65536 := by
        intro v
        rw [hw, created_concat_port]
        exact hroom v
      obtain ⟨xs, st', hrest, hb', hxs, hgraph', hdraws'⟩ :=
        ih (by simpa using hlen) hb₁ (by omega) hroom₁
      refine ⟨x :: xs, st', (Exec.run_bind_ok hrun).trans hrest, hb', by simp [hxs], ?_, ?_⟩
      · rw [hgraph', hgraph]
        simp
      · rw [List.length_cons]
        omega

end GraphBuilder

namespace Node

variable {g : GraphSpec}

lemma count_set_ports (n : NodeSpec) (v : ValueTypeID) :
    n.ports.count (.set v) = n.outputs.count v := by
  have hget : (n.inputs.map Port.get).count (.set v) = 0 := by
    rw [List.count_eq_zero]; simp
  have hpass : (n.passthroughs.map Port.pass).count (.set v) = 0 := by
    rw [List.count_eq_zero]; simp
  have hset : (n.outputs.map Port.set).count (.set v) = n.outputs.count v :=
    List.count_map_of_injective _ _ (fun _ _ h => Port.set.inj h) _
  rw [NodeSpec.ports, List.count_append, List.count_append, hget, hpass, hset, Nat.zero_add]

lemma created_zipWith (v : ValueTypeID) (ps : List Port) {cs : List ConnectorID}
    (h : cs.length = ps.length) : created v (List.zipWith Port.op ps cs) = ps.count (.set v) := by
  induction ps using List.reverseRecOn generalizing cs with
  | nil => simp [created]
  | append_singleton ps p ih =>
    obtain ⟨cs, c, rfl⟩ : ∃ cs' c, cs = cs' ++ [c] := by
      obtain rfl | ⟨cs', c, hcs⟩ := List.eq_nil_or_concat cs
      · simp at h
      · exact ⟨cs', c, by simpa using hcs⟩
    have hlen : cs.length = ps.length := by simpa using h
    have hstep := created_concat_port v (List.zipWith Port.op ps cs) p [] c
    rw [List.zipWith_append hlen.symm, List.count_append]
    rw [ih hlen] at hstep
    simpa using hstep

def total (f : NodeSpec → ℕ) (ns : List (Node g)) : ℕ := (ns.map fun n => f n.spec).sum

def makes (v : ValueTypeID) (ns : List (Node g)) : ℕ := total (fun spec => spec.outputs.count v) ns

@[simp] lemma total_nil (f : NodeSpec → ℕ) : total f ([] : List (Node g)) = 0 := rfl

@[simp] lemma total_cons (f : NodeSpec → ℕ) (n : Node g) (ns : List (Node g)) :
    total f (n :: ns) = f n.spec + total f ns := by
  simp [total]

@[simp] lemma total_append (f : NodeSpec → ℕ) (ms ns : List (Node g)) :
    total f (ms ++ ns) = total f ms + total f ns := by
  simp [total]

@[simp] lemma makes_nil (v : ValueTypeID) : makes v ([] : List (Node g)) = 0 := rfl

@[simp] lemma makes_cons (v : ValueTypeID) (n : Node g) (ns : List (Node g)) :
    makes v (n :: ns) = n.spec.outputs.count v + makes v ns := total_cons _ n ns

@[simp] lemma makes_append (v : ValueTypeID) (ms ns : List (Node g)) :
    makes v (ms ++ ns) = makes v ms + makes v ns := total_append _ ms ns

def kind (n : Node g) : NodeTypeID × List UInt8 := (n.id, n.data)

lemma total_le_of_sublist (f : NodeSpec → ℕ) {ms ns : List (Node g)}
    (h : (ms.map kind).Sublist (ns.map kind)) : total f ms ≤ total f ns := by
  let f' : NodeTypeID × List UInt8 → ℕ := fun k => ((g.getNode k.1).toOption.map f).getD 0
  have htotal : ∀ ns : List (Node g), total f ns = ((ns.map kind).map f').sum := by
    intro ns
    rw [total, List.map_map]
    congr 1
    refine List.map_congr_left fun n _ => ?_
    simp [f', kind, n.get, Except.toOption]
  rw [htotal, htotal]
  exact (h.map f').sum_le_sum (by simp)

lemma created_graphOps (n : Node g) (v : ValueTypeID) :
    created v n.graphOps = n.spec.outputs.count v := by
  rw [← count_set_ports, ← created_zipWith v n.spec.ports n.length_connectors_ports]
  simp [graphOps, created]

lemma created_flatMap (v : ValueTypeID) (ns : List (Node g)) :
    created v (ns.flatMap graphOps) = makes v ns := by
  induction ns with
  | nil => simp [created, makes]
  | cons n ns ih =>
    have hn := n.created_graphOps v
    unfold created at ih hn ⊢
    rw [List.flatMap_cons, List.countP_append, hn, ih, makes_cons]

lemma total_size_le (ns : List (Node g)) : total NodeSpec.size ns ≤ (encodeOps ns).length := by
  induction ns with
  | nil => simp
  | cons n ns ih =>
    have hlen := n.length_ops
    simp only [total_cons, encodeOps, List.flatMap_cons, List.length_append] at ih ⊢
    omega

lemma exists_of_readable {S : Type} [GraphStorage S] (frag : S)
    (h : (GraphStorage.nodeIter g frag).stop = none) :
    ∃ ns : List (Node g), GraphStorage.nodeIter g frag = ⟨layout 0 ns, none⟩ ∧
      (∀ v, created v (GraphStorage.opIter g frag).items = makes v ns) ∧
      total NodeSpec.size ns ≤ GraphStorage.opLen frag := by
  obtain ⟨ns, opsRest, dataRest, -, hops, hdata, hrest⟩ :=
    nodes_of_nodeIter g (GraphStorage.opsAsSlice frag) (GraphStorage.dataAsSlice frag)
  obtain rfl : opsRest = [] := hrest h
  rw [List.append_nil] at hops
  refine ⟨ns, ?_, fun v => ?_, ?_⟩
  · show nodeIter g (GraphStorage.opsAsSlice frag) (GraphStorage.dataAsSlice frag) = _
    rw [hops, hdata, nodeIter_encode]
  · show created v (opIter g (GraphStorage.opsAsSlice frag)).items = _
    rw [opIter_eq_opsFrom, hops, opsFrom_encodeOps, created_flatMap]
  · rw [GraphStorage.opLen, hops]
    exact total_size_le ns

end Node

/-- The builder has filled an empty graph with the nodes `ms`. -/
structure Copied (g : GraphSpec) (ms : List (Node g)) (st : BuildState VecGraph) : Prop where
  building : Building g [] st
  graph : st.graph = ⟨Node.encodeOps ms, Node.encodeData ms⟩

namespace Copied

variable {g : GraphSpec} {ms : List (Node g)} {st : BuildState VecGraph}

lemma written_eq (h : Copied g ms st) : written g st = ms.flatMap Node.graphOps := by
  rw [written, h.graph, Node.opsFrom_encodeOps]

lemma created_eq (h : Copied g ms st) (v : ValueTypeID) :
    created v (written g st) = Node.makes v ms := by
  rw [h.written_eq, Node.created_flatMap]

lemma start (st : BuildState VecGraph) :
    Copied g [] ⟨st.state.clear, VecGraph.empty, st.dist⟩ where
  building := by
    have hsound := GraphBuilder.start_spec (g := g) |>.ok (s := st) trivial rfl
    refine hsound.resolve_left ?_
    rintro ⟨v, hv⟩
    exact absurd hv (by simp [written, opsFrom, created, GraphStorage.clear, VecGraph.empty])
  graph := rfl

lemma run_appendSlice (h : Copied g ms st) (n : Node g)
    (havail : st.state.isAvailable g n.id) (hd : n.spec.size ≤ st.dist.draws.length)
    (hroom : ∀ v, Node.makes v ms + n.spec.outputs.count v ≤ 65536) :
    ∃ (m : Node g) (st' : BuildState VecGraph), (GraphBuilder.appendSlice g n.ops).run st =
        (.ok (), st') ∧ m.id = n.id ∧ m.data = n.data ∧ Building g [] st' ∧
      st'.graph = ⟨st.graph.ops ++ m.ops, st.graph.data⟩ ∧
      st.dist.draws.length ≤ st'.dist.draws.length + n.spec.size := by
  have hb := h.building
  -- the id of the node opens its ports
  set st₁ : BuildState VecGraph := ⟨st.state, ⟨st.graph.ops ++ [n.id], st.graph.data⟩, st.dist⟩
  have hopen : (GraphBuilder.renameAndRelinkOpVal (.node n.id) >>= GraphBuilder.appendOp).run st =
      (.ok (), st₁) := rfl
  have hw₁ : written g st₁ = written g st ++ [.node n.id] := by
    show (opsFrom g [] (st.graph.ops ++ [n.id])).items = _
    rw [opsFrom_append hb.stop, hb.ports]
    simp [opsFrom, n.get, written]
  have hcreated : ∀ v, created v (written g st₁) = Node.makes v ms := by
    intro v
    rw [hw₁, created_concat, h.created_eq v]
    exact Nat.add_zero _
  have hb₁ : Building g n.spec.ports st₁ := by
    refine ((GraphBuilder.open_spec n.get).ok ⟨.inr hb, havail⟩ hopen).resolve_left ?_
    rintro ⟨v, hv⟩
    have hlt := hroom v
    rw [hcreated v] at hv
    omega
  have hroom₁ : ∀ v, created v (written g st₁) + n.spec.ports.count (.set v) ≤ 65536 := by
    intro v
    rw [hcreated v, Node.count_set_ports]
    exact hroom v
  rw [← NodeSpec.length_ports] at hd
  obtain ⟨xs, st', hrun, hb', hxs, hgraph, hdraws⟩ :=
    GraphBuilder.run_relink_ports n.spec.ports n.length_connectors_ports hb₁ hd hroom₁
  have hslice : (GraphBuilder.appendSlice g n.ops).run st = (.ok (), st') := by
    unfold GraphBuilder.appendSlice GraphBuilder.forItems
    rw [GraphBuilder.opIter_node]
    exact (Exec.run_bind_ok ((Exec.run_bind_ok hopen).trans hrun)).trans rfl
  rw [NodeSpec.length_ports] at hxs hdraws
  refine ⟨{ n with connectors := xs, length_connectors := hxs }, st', hslice, rfl, rfl, hb', ?_,
    hdraws⟩
  rw [hgraph]
  simp [st₁, Node.ops]

/-- What copying the nodes `ns` does: some of them are appended, each with its data, and at most one
draw is used for each of their connectors. -/
def Extends (g : GraphSpec) (ms ns : List (Node g)) (st st' : BuildState VecGraph) : Prop :=
  ∃ ms', Copied g (ms ++ ms') st' ∧ (ms'.map Node.kind).Sublist (ns.map Node.kind) ∧
    st.dist.draws.length ≤ st'.dist.draws.length + Node.total NodeSpec.size ns

lemma extends_self (h : Copied g ms st) (ns : List (Node g)) : Extends g ms ns st st :=
  ⟨[], by simpa using h, List.nil_sublist _, Nat.le_add_right _ _⟩

lemma Extends.append {ns₁ ns₂ ms₁ : List (Node g)} {st₁ st₂ : BuildState VecGraph}
    (hsub : (ms₁.map Node.kind).Sublist (ns₁.map Node.kind))
    (hdraws : st.dist.draws.length ≤ st₁.dist.draws.length + Node.total NodeSpec.size ns₁)
    (h : Extends g (ms ++ ms₁) ns₂ st₁ st₂) : Extends g ms (ns₁ ++ ns₂) st st₂ := by
  obtain ⟨ms₂, hcopied, hsub₂, hdraws₂⟩ := h
  refine ⟨ms₁ ++ ms₂, by rwa [← List.append_assoc], ?_, ?_⟩
  · rw [List.map_append, List.map_append]
    exact hsub.append hsub₂
  · rw [Node.total_append]
    omega

def Room (ms ns : List (Node g)) : Prop := ∀ v, Node.makes v ms + Node.makes v ns ≤ 65536

lemma Room.append {ns₁ ns₂ ms₁ : List (Node g)} (h : Room ms (ns₁ ++ ns₂))
    (hsub : (ms₁.map Node.kind).Sublist (ns₁.map Node.kind)) : Room (ms ++ ms₁) ns₂ := by
  intro v
  have hlt := h v
  have hle : Node.makes v ms₁ ≤ Node.makes v ns₁ := Node.total_le_of_sublist _ hsub
  rw [Node.makes_append] at hlt ⊢
  omega

lemma Room.left {ns₁ ns₂ : List (Node g)} (h : Room ms (ns₁ ++ ns₂)) : Room ms ns₁ := by
  intro v
  have hlt := h v
  rw [Node.makes_append] at hlt
  omega

variable (h : Copied g ms st)
include h

lemma run_copy {α : Type} (n : Node g) (opI : ℕ)
    {rest : BuildM VecGraph α} {a b : α}
    (hrest : ∀ st : BuildState VecGraph, rest.run st =
      (.ok a, { st with graph := ⟨st.graph.ops, st.graph.data ++ n.data⟩ }))
    (hd : n.spec.size ≤ st.dist.draws.length) (hroom : Room ms [n]) :
    ∃ c st', (Exec.gets (GraphBuilder.canAppendNode g (n.place opI)) >>= fun can =>
        if can then GraphBuilder.appendSlice g (n.place opI).ops >>= fun _ => rest
        else pure b).run st = (.ok c, st') ∧ Extends g ms [n] st st' := by
  rw [Exec.run_gets_bind]
  cases hcan : GraphBuilder.canAppendNode g (n.place opI) st with
  | false => exact ⟨b, st, rfl, h.extends_self [n]⟩
  | true =>
    have havail : st.state.isAvailable g n.id = true := by
      simp only [GraphBuilder.canAppendNode, Bool.and_eq_true] at hcan
      exact hcan.1
    have hroom' : ∀ v, Node.makes v ms + n.spec.outputs.count v ≤ 65536 := by
      intro v
      simpa using hroom v
    obtain ⟨m, st', hrun, hid, hdata, hb, hgraph, hdraws⟩ := h.run_appendSlice n havail hd hroom'
    refine ⟨a, _, (Exec.run_bind_ok hrun).trans (hrest st'), [m], ⟨?_, ?_⟩, ?_, by simpa using hdraws⟩
    · exact hb.congr rfl fun _ => rfl
    · rw [hgraph, h.graph, ← hdata]
      simp [Node.encodeOps, Node.encodeData]
    · simp [Node.kind, hid, hdata]

lemma run_copyNode (n : Node g) (opI : ℕ)
    (hd : n.spec.size ≤ st.dist.draws.length) (hroom : Room ms [n]) :
    ∃ st', (GraphBuilder.copyNode g (n.place opI)).run st = (.ok (), st') ∧
      Extends g ms [n] st st' := by
  obtain ⟨_, st', hrun, hst'⟩ := h.run_copy n opI (b := ()) (a := ()) (fun _ => rfl) hd hroom
  exact ⟨st', hrun, hst'⟩

lemma run_appendNode (n : Node g) (opI : ℕ)
    (hd : n.spec.size ≤ st.dist.draws.length) (hroom : Room ms [n]) :
    ∃ appended st', (GraphBuilder.appendNode g (n.place opI)).run st = (.ok appended, st') ∧
      Extends g ms [n] st st' :=
  h.run_copy n opI (fun _ => rfl) hd hroom

end Copied

end Nyx
