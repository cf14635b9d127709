import Mathlib.Data.List.Induction
import Nyx.Graph.Affine

/-!
# Rebuilding a graph

Copying every node of a well-formed graph renames its values injectively: the new id of a value is
its rank among the values of its type.
-/

namespace Nyx

open Function

/-- The ids that the ops create. -/
def setIds (v : ValueTypeID) (ops : List GraphOp) : List ConnectorID :=
  ops.filterMap fun op => match op with
    | .set v' c => if v' = v then some c else none
    | _ => none

/-- The ids that the ops consume. -/
def getIds (v : ValueTypeID) (ops : List GraphOp) : List ConnectorID :=
  ops.filterMap fun op => match op with
    | .get v' c => if v' = v then some c else none
    | _ => none

def DistinctSets (ops : List GraphOp) : Prop := ∀ v, (setIds v ops).Nodup

/-- The id of a value in the copy. -/
def newIdOf (ops : List GraphOp) (v : ValueTypeID) (c : ConnectorID) : ConnectorID :=
  UInt16.ofNat ((setIds v ops).idxOf c + 1)

def newConnector (ops : List GraphOp) : GraphOp → UInt16
  | .get v c | .pass v c | .set v c => newIdOf ops v c
  | .node n => n

def renameOp (ops : List GraphOp) : GraphOp → GraphOp
  | .get v c => .get v (newIdOf ops v c)
  | .pass v c => .pass v (newIdOf ops v c)
  | .set v c => .set v (newIdOf ops v c)
  | .node n => .node n

section Ids

variable {v : ValueTypeID} {c c' : ConnectorID} {ops pre post : List GraphOp}

lemma setIds_append (v : ValueTypeID) (ops ops' : List GraphOp) :
    setIds v (ops ++ ops') = setIds v ops ++ setIds v ops' := List.filterMap_append

lemma getIds_append (v : ValueTypeID) (ops ops' : List GraphOp) :
    getIds v (ops ++ ops') = getIds v ops ++ getIds v ops' := List.filterMap_append

lemma mem_ids {f : GraphOp → Option ConnectorID} {mk : ConnectorID → GraphOp}
    (hf : ∀ op, f op = some c ↔ op = mk c) : c ∈ ops.filterMap f ↔ mk c ∈ ops := by
  simp only [List.mem_filterMap, hf, exists_eq_right]

@[simp] lemma mem_setIds : c ∈ setIds v ops ↔ .set v c ∈ ops :=
  mem_ids fun op => by cases op <;> simp

@[simp] lemma mem_getIds : c ∈ getIds v ops ↔ .get v c ∈ ops :=
  mem_ids fun op => by cases op <;> simp

lemma length_setIds (v : ValueTypeID) (ops : List GraphOp) :
    (setIds v ops).length = created v ops := by
  induction ops with
  | nil => rfl
  | cons op ops ih =>
    unfold setIds created at ih ⊢
    cases op with
    | set v' c => by_cases hv : v' = v <;> simp [hv, ih]
    | get | pass | node => simp [ih]

lemma DistinctSets.length_le (h : DistinctSets ops) (v : ValueTypeID) :
    (setIds v ops).length ≤ 65536 := by
  have hmap : ((setIds v ops).map UInt16.toNat).Nodup :=
    (h v).map fun _ _ he => UInt16.toNat_inj.mp he
  have hsub : (setIds v ops).map UInt16.toNat ⊆ List.range 65536 := by
    intro k hk
    obtain ⟨c, -, rfl⟩ := List.mem_map.mp hk
    exact List.mem_range.mpr c.toNat_lt
  have hle := (List.subperm_of_subset hmap hsub).length_le
  rwa [List.length_map, List.length_range] at hle

lemma newIdOf_inj (h : DistinctSets ops) (hc : .set v c ∈ ops) (hc' : .set v c' ∈ ops)
    (he : newIdOf ops v c = newIdOf ops v c') : c = c' := by
  have hmem : c ∈ setIds v ops := mem_setIds.mpr hc
  have hlt := List.idxOf_lt_length_of_mem hmem
  have hlt' := List.idxOf_lt_length_of_mem (mem_setIds.mpr hc')
  have hle := h.length_le v
  have hnat := congrArg UInt16.toNat he
  simp only [newIdOf, UInt16.toNat_ofNat'] at hnat
  -- the ranks are at most 65536 and positive, so they differ modulo 65536
  exact (List.idxOf_inj hmem).mp (by omega)

lemma DistinctSets.not_mem (h : DistinctSets (pre ++ .set v c :: post)) : .set v c ∉ pre := by
  intro hm
  have hnodup := h v
  rw [setIds_append] at hnodup
  refine List.disjoint_of_nodup_append hnodup (mem_setIds.mpr hm) (mem_setIds.mpr ?_)
  exact List.mem_cons_self

lemma newIdOf_next (h : DistinctSets (pre ++ .set v c :: post)) :
    newIdOf (pre ++ .set v c :: post) v c = UInt16.ofNat (created v pre + 1) := by
  have hnot : c ∉ setIds v pre := fun hm => h.not_mem (mem_setIds.mp hm)
  have hcons : setIds v (.set v c :: post) = c :: setIds v post := by simp [setIds]
  rw [newIdOf, setIds_append, List.idxOf_append_of_notMem hnot, hcons, List.idxOf_cons_self,
    length_setIds, Nat.add_zero]

lemma Affine.nodup_getIds (h : Affine ops) (v : ValueTypeID) : (getIds v ops).Nodup := by
  induction ops using List.reverseRecOn with
  | nil => exact List.nodup_nil
  | append_singleton ops op ih =>
    obtain ⟨haff, hop⟩ := affine_concat.mp h
    rw [getIds_append]
    refine List.Nodup.append (ih haff) ?_ ?_
    · cases op with
      | get v' c => by_cases hv : v' = v <;> simp [getIds, hv]
      | set | pass | node => simp [getIds]
    · intro c hc hc'
      have hop' : op = .get v c := (List.mem_singleton.mp (mem_getIds.mp hc')).symm
      rw [hop'] at hop
      exact hop.2 (mem_getIds.mp hc)

end Ids

section Usable

variable {v : ValueTypeID} {c o : ConnectorID} {pre seg : List GraphOp} {op : GraphOp}

lemma usable_concat_other (hs : ∀ c, op ≠ .set v c) (hg : ∀ c, op ≠ .get v c) :
    Usable (pre ++ [op]) (.get v o) ↔ Usable pre (.get v o) := by
  simp [Usable, (hs o).symm, (hg o).symm]

lemma usable_concat_get :
    Usable (pre ++ [.get v c]) (.get v o) ↔ Usable pre (.get v o) ∧ o ≠ c := by
  simp [Usable, and_assoc]

lemma usable_concat_set (haff : Affine pre) (hc : .set v c ∉ pre) :
    Usable (pre ++ [.set v c]) (.get v o) ↔ Usable pre (.get v o) ∨ o = c := by
  have hnotget : .get v c ∉ pre := fun hm => hc (haff.set_of_get hm)
  simp only [Usable, List.mem_append, List.mem_singleton, GraphOp.set.injEq, reduceCtorEq, or_false,
    true_and]
  constructor
  · rintro ⟨hs | ho, hg⟩
    · exact .inl ⟨hs, hg⟩
    · exact .inr ho
  · rintro (⟨hs, hg⟩ | rfl)
    · exact ⟨.inl hs, hg⟩
    · exact ⟨.inr rfl, hnotget⟩

lemma usable_of_append (hseg : ∀ c, .set v c ∉ seg) (h : Usable (pre ++ seg) (.get v o)) :
    Usable pre (.get v o) := by
  obtain ⟨hs, hg⟩ := h
  refine ⟨?_, fun hm => hg (List.mem_append_left _ hm)⟩
  exact (List.mem_append.mp hs).resolve_right (hseg o)

end Usable

/-- What the builder knows of a value type after the ops `pre`. -/
structure ValueState.Renames (all pre : List GraphOp) (v : ValueTypeID) (vs : ValueState) :
    Prop where
  indexed : Indexed vs.newIdsForSampling vs.newIdToIdsIndex
  mem : ∀ n, n ∈ vs.newIdsForSampling ↔ ∃ o, Usable pre (.get v o) ∧ n = newIdOf all v o
  forward : ∀ o, Usable pre (.get v o) → vs.oldIdToNewId o = some (newIdOf all v o)
  back : ∀ o, Usable pre (.get v o) → vs.newIdToOldId (newIdOf all v o) = some o
  curId : vs.curId = UInt16.ofNat (created v pre)

namespace ValueState

variable {all pre post : List GraphOp} {v : ValueTypeID} {c : ConnectorID} {vs : ValueState}

lemma not_usable_nil {o : ConnectorID} : ¬Usable [] (.get v o) := by simp [Usable]

lemma renames_clear (all : List GraphOp) (v : ValueTypeID) (vs : ValueState) :
    Renames all [] v vs.clear where
  indexed := indexed_nil
  mem := by simp [clear, not_usable_nil]
  forward := fun _ h => absurd h not_usable_nil
  back := fun _ h => absurd h not_usable_nil
  curId := rfl

lemma Renames.frame (h : Renames all pre v vs) {op : GraphOp} (hs : ∀ c, op ≠ .set v c)
    (hg : ∀ c, op ≠ .get v c) : Renames all (pre ++ [op]) v vs where
  indexed := h.indexed
  mem := by
    intro n
    simp only [h.mem n, usable_concat_other hs hg]
  forward := fun o ho => h.forward o ((usable_concat_other hs hg).mp ho)
  back := fun o ho => h.back o ((usable_concat_other hs hg).mp ho)
  curId := by
    rw [h.curId, created_concat]
    cases op with
    | set v' c =>
      have hne : v' ≠ v := fun he => hs c (by rw [he])
      simp [hne]
    | get | pass | node => rfl

lemma usable_set_mem {o : ConnectorID} (h : Usable pre (.get v o)) : .set v o ∈ pre ++ post :=
  List.mem_append_left _ h.1

lemma Renames.insertOldId (h : Renames (pre ++ .set v c :: post) pre v vs) (haff : Affine pre)
    (hsets : DistinctSets (pre ++ .set v c :: post)) :
    (vs.insertOldId c).1 = newIdOf (pre ++ .set v c :: post) v c ∧
      Renames (pre ++ .set v c :: post) (pre ++ [.set v c]) v (vs.insertOldId c).2 := by
  set all := pre ++ .set v c :: post with hall
  have hnew : newIdOf all v c = vs.curId + 1 := by
    rw [hall, newIdOf_next hsets, h.curId, UInt16.ofNat_add]
    rfl
  have hfresh : ∀ o, Usable pre (.get v o) → newIdOf all v o ≠ newIdOf all v c := by
    intro o ho he
    have hoc := newIdOf_inj hsets (usable_set_mem ho) (by simp [hall]) he
    exact hsets.not_mem (hoc ▸ ho.1)
  have husable := fun o => @usable_concat_set v c o pre haff hsets.not_mem
  refine ⟨hnew.symm, ?_, ?_, ?_, ?_, ?_⟩
  · have hnotin : vs.curId + 1 ∉ vs.newIdsForSampling := by
      rw [← hnew, h.mem]
      rintro ⟨o, ho, he⟩
      exact hfresh o ho he.symm
    simpa [ValueState.insertOldId, ValueState.insertNewId] using h.indexed.push hnotin
  · intro n
    simp only [ValueState.insertOldId, ValueState.insertNewId, List.mem_append, List.mem_singleton,
      h.mem n, husable, ← hnew]
    constructor
    · rintro (⟨o, ho, rfl⟩ | rfl)
      · exact ⟨o, .inl ho, rfl⟩
      · exact ⟨c, .inr rfl, rfl⟩
    · rintro ⟨o, ho | rfl, rfl⟩
      · exact .inl ⟨o, ho, rfl⟩
      · exact .inr rfl
  · intro o ho
    simp only [ValueState.insertOldId, ValueState.insertNewId, ← hnew]
    by_cases hoc : o = c
    · rw [hoc, update_self]
    · rw [update_of_ne hoc]
      exact h.forward o (((husable o).mp ho).resolve_right hoc)
  · intro o ho
    simp only [ValueState.insertOldId, ValueState.insertNewId, ← hnew]
    by_cases hoc : o = c
    · rw [hoc, update_self]
    · have ho' := ((husable o).mp ho).resolve_right hoc
      rw [update_of_ne (hfresh o ho')]
      exact h.back o ho'
  · rw [created_concat]
    simp only [ValueState.insertOldId, ValueState.insertNewId, if_true, h.curId, UInt16.ofNat_add]
    rfl

lemma Renames.getOldAvailableInput (h : Renames all pre v vs) (hc : Usable pre (.get v c))
    (d : Distributions) :
    (ValueState.getOldAvailableInput c).run (vs, d) = (.ok (newIdOf all v c), (vs, d)) := by
  rw [ValueState.getOldAvailableInput, Exec.run_gets_bind]
  simp only [getRenamedOldInput, h.forward c hc, Exec.run_pure]

lemma Renames.takeOldAvailableInput (h : Renames (pre ++ post) pre v vs)
    (hsets : DistinctSets (pre ++ post)) (hc : Usable pre (.get v c)) (d : Distributions) :
    ∃ vs', (ValueState.takeOldAvailableInput c).run (vs, d) =
        (.ok (newIdOf (pre ++ post) v c), (vs', d)) ∧
      Renames (pre ++ post) (pre ++ [.get v c]) v vs' := by
  set all := pre ++ post
  set n := newIdOf all v c with hn
  obtain ⟨i, hi, hrun⟩ := run_takeNewInput h.indexed d ((h.mem n).mpr ⟨c, hc, hn⟩)
  have hother : ∀ o, Usable pre (.get v o) → o ≠ c → newIdOf all v o ≠ n :=
    fun o ho hne he => hne (newIdOf_inj hsets (usable_set_mem ho) (usable_set_mem hc) he)
  have hback := h.back c hc
  rw [← hn] at hback
  -- the entry of the reverse map is the live one, so only the mapping of `c` is deleted
  simp only [ValueState.forget, hback] at hrun
  refine ⟨_, (Exec.run_bind_ok (h.getOldAvailableInput hc d)).trans hrun, ?_, ?_, ?_, ?_, ?_⟩
  · exact h.indexed.swapRemove hi
  · intro k
    simp only [h.indexed.mem_swapRemove hi, h.mem k, usable_concat_get]
    constructor
    · rintro ⟨⟨o, ho, rfl⟩, hne⟩
      exact ⟨o, ⟨ho, fun he => hne (by rw [he])⟩, rfl⟩
    · rintro ⟨o, ⟨ho, hne⟩, rfl⟩
      exact ⟨⟨o, ho, rfl⟩, hother o ho hne⟩
  · intro o ho
    obtain ⟨ho, hne⟩ := usable_concat_get.mp ho
    simp only [update_of_ne hne, h.forward o ho]
  · intro o ho
    obtain ⟨ho, hne⟩ := usable_concat_get.mp ho
    simp only [update_of_ne (hother o ho hne), h.back o ho]
  · rw [created_concat]
    exact h.curId

lemma Renames.length_le (h : Renames (pre ++ post) pre v vs) (hsets : DistinctSets (pre ++ post))
    {cs : List ConnectorID} (hnodup : cs.Nodup) (hcs : ∀ c ∈ cs, Usable pre (.get v c)) :
    cs.length ≤ vs.numAvailable := by
  have hmap : (cs.map (newIdOf (pre ++ post) v)).Nodup := by
    refine List.Nodup.map_on ?_ hnodup
    intro c hc c' hc' he
    exact newIdOf_inj hsets (usable_set_mem (hcs c hc)) (usable_set_mem (hcs c' hc')) he
  have hsub : cs.map (newIdOf (pre ++ post) v) ⊆ vs.newIdsForSampling := by
    intro n hn
    obtain ⟨c, hc, rfl⟩ := List.mem_map.mp hn
    exact (h.mem _).mpr ⟨c, hcs c hc, rfl⟩
  simpa [numAvailable] using (List.subperm_of_subset hmap hsub).length_le

end ValueState

namespace Node

variable {g : GraphSpec}

def graphOps (n : Node g) : List GraphOp :=
  .node n.id :: List.zipWith Port.op n.spec.ports n.connectors

def rename (all : List GraphOp) (n : Node g) : Node g :=
  { n with
    connectors := (List.zipWith Port.op n.spec.ports n.connectors).map (newConnector all)
    length_connectors := by simp [n.length_connectors] }

lemma ops_rename (all : List GraphOp) (n : Node g) :
    (n.rename all).ops = n.graphOps.map (newConnector all) := rfl

lemma length_layout (opI : ℕ) (ns : List (Node g)) : (layout opI ns).length = ns.length := by
  induction ns generalizing opI with
  | nil => rfl
  | cons n ns ih => simp [layout, ih]

lemma op_newConnector (all : List GraphOp) (p : Port) (c : ConnectorID) :
    p.op (newConnector all (p.op c)) = renameOp all (p.op c) := by
  cases p <;> rfl

lemma graphOps_rename (all : List GraphOp) (n : Node g) :
    (n.rename all).graphOps = n.graphOps.map (renameOp all) := by
  have hports : ∀ (ps : List Port) (cs : List ConnectorID),
      List.zipWith Port.op ps ((List.zipWith Port.op ps cs).map (newConnector all)) =
        (List.zipWith Port.op ps cs).map (renameOp all) := by
    intro ps
    induction ps with
    | nil => exact fun _ => rfl
    | cons p ps ih =>
      intro cs
      cases cs with
      | nil => rfl
      | cons c cs =>
        simp only [List.zipWith_cons_cons, List.map_cons, ih cs, op_newConnector]
  exact congrArg (GraphOp.node n.id :: ·) (hports _ _)

lemma opsFrom_encodeOps (ns : List (Node g)) :
    opsFrom g [] (encodeOps ns) = ⟨ns.flatMap graphOps, none⟩ := by
  induction ns with
  | nil => rfl
  | cons n ns ih =>
    have hlen := n.length_connectors_ports
    have hnode : opsFrom g [] n.ops = ⟨n.graphOps, none⟩ := by
      rw [← opIter_eq_opsFrom, GraphBuilder.opIter_node]
      rfl
    have hports : openPorts g [] n.ops = [] := by
      rw [ops, openPorts, n.get]
      simp only [(GraphBuilder.openPorts_of_length_le _ _ hlen.le).1, hlen, List.drop_length]
    show opsFrom g [] (n.ops ++ encodeOps ns) = _
    rw [opsFrom_append (by rw [hnode]), hports, hnode, ih]
    rfl

lemma flatMap_layout {β : Type} {f : GraphNode → List β} {f' : Node g → List β}
    (hf : ∀ n opI, f (place n opI) = f' n) (opI : ℕ) (ns : List (Node g)) :
    (layout opI ns).flatMap f = ns.flatMap f' := by
  induction ns generalizing opI with
  | nil => rfl
  | cons n ns ih => rw [layout, List.flatMap_cons, List.flatMap_cons, hf, ih]

lemma opI_layout {ns : List (Node g)} {opI i : ℕ} {n : GraphNode} (h : (layout opI ns)[i]? = some n) :
    n.opI = opI + (((layout opI ns).take i).flatMap GraphNode.ops).length := by
  induction ns generalizing opI i with
  | nil => cases h
  | cons m ns ih =>
    cases i with
    | zero =>
      cases h
      rfl
    | succ i =>
      rw [ih h, layout, List.take_succ_cons, List.flatMap_cons, List.length_append, Nat.add_assoc]
      rfl

/-- The nodes of a graph that `NodeIter` consumes cut its ops and its data into pieces, and `OpIter`
yields for the whole graph what it yields for the pieces. -/
theorem nodeIter_opIter_agree (g : GraphSpec) (ops : List UInt16) (data : List UInt8)
    (h : Consumes g ops data) :
    (nodeIter g ops data).items.flatMap GraphNode.ops = ops ∧
      (nodeIter g ops data).items.flatMap GraphNode.data = data ∧
      (∀ i n, (nodeIter g ops data).items[i]? = some n →
        n.opI = (((nodeIter g ops data).items.take i).flatMap GraphNode.ops).length) ∧
      opIter g ops =
        ⟨(nodeIter g ops data).items.flatMap fun n => (opIter g n.ops).items, none⟩ := by
  obtain ⟨hstop, hlast⟩ := h
  obtain ⟨ns, opsRest, dataRest, hitems, hops, hdata, hrest⟩ := nodes_of_nodeIter g ops data
  rw [NodeIter.dataI_last] at hlast
  replace hlast : 0 + ((nodeIter g ops data).items.flatMap GraphNode.data).length = data.length :=
    hlast
  rw [hrest hstop, List.append_nil] at hops
  have hdatas : (layout 0 ns).flatMap GraphNode.data = encodeData ns :=
    flatMap_layout (fun _ _ => rfl) 0 ns
  rw [hitems, hdatas] at hlast ⊢
  refine ⟨?_, ?_, fun i n hn => ?_, ?_⟩
  · rw [hops]
    exact flatMap_layout (fun _ _ => rfl) 0 ns
  · have hnil : dataRest = [] := by
      have hlen := congrArg List.length hdata
      rw [List.length_append] at hlen
      exact List.eq_nil_of_length_eq_zero (by omega)
    rw [hdata, hnil, List.append_nil]
  · rw [opI_layout hn, Nat.zero_add]
  · have hpieces : (layout 0 ns).flatMap (fun n => (opIter g n.ops).items) = ns.flatMap graphOps := by
      apply flatMap_layout
      intro n opI
      show (opIter g n.ops).items = _
      rw [GraphBuilder.opIter_node]
      rfl
    rw [hpieces, hops, opIter_eq_opsFrom, opsFrom_encodeOps]

def byteLoader : SpecLoader where
  checksum := 0
  nodes := [⟨"open", none, [], [], [0]⟩, ⟨"put", some 0, [], [0], []⟩]
  edges := [⟨"file"⟩]
  atomics := [.int "u8" 1 []]

/-- Files into which bytes are put, one by each node. -/
def byteSpec : GraphSpec :=
  match byteLoader.toGraphSpec with
  | .ok g => g
  | .error _ => GraphSpec.new

theorem nodeIter_opIter_agree_bytes :
    Consumes byteSpec [0, 7, 1, 7, 1, 7] [5, 6] ∧
      (nodeIter byteSpec [0, 7, 1, 7, 1, 7] [5, 6]).items.flatMap GraphNode.data = [5, 6] ∧
      opIter byteSpec [0, 7, 1, 7, 1, 7] =
        ⟨(nodeIter byteSpec [0, 7, 1, 7, 1, 7] [5, 6]).items.flatMap fun n =>
          (opIter byteSpec n.ops).items, none⟩ := by
  have hall : Consumes byteSpec [0, 7, 1, 7, 1, 7] [5, 6] := ⟨by decide +kernel, by decide +kernel⟩
  obtain ⟨-, hdata, -, hops⟩ := nodeIter_opIter_agree byteSpec _ _ hall
  exact ⟨hall, hdata, hops⟩

lemma graphOps_eq (n : Node g) : ∃ ins borrows outs : List ConnectorID,
    ins.length = n.spec.inputs.length ∧ borrows.length = n.spec.passthroughs.length ∧
      n.graphOps = .node n.id :: (List.zipWith .get n.spec.inputs ins ++
        (List.zipWith .pass n.spec.passthroughs borrows ++
          List.zipWith .set n.spec.outputs outs)) := by
  have hlen := n.length_connectors
  set a := n.spec.inputs.length with ha
  set b := n.spec.passthroughs.length with hb
  have hsize : n.spec.size = a + (b + n.spec.outputs.length) := by
    rw [NodeSpec.size, ha, hb, Nat.add_assoc]
  have hcs : n.connectors = n.connectors.take a ++
      ((n.connectors.drop a).take b ++ (n.connectors.drop a).drop b) := by
    rw [List.take_append_drop, List.take_append_drop]
  have hins : (n.connectors.take a).length = a := by
    rw [List.length_take]
    omega
  have hborrows : ((n.connectors.drop a).take b).length = b := by
    rw [List.length_take, List.length_drop]
    omega
  refine ⟨_, _, (n.connectors.drop a).drop b, hins, hborrows, ?_⟩
  rw [graphOps, NodeSpec.ports, List.append_assoc]
  nth_rewrite 1 [hcs]
  rw [List.zipWith_append (by rw [List.length_map, hins]),
    List.zipWith_append (by rw [List.length_map, hborrows])]
  simp only [List.zipWith_map_left, Port.op]

end Node

lemma length_getIds_zipWith (v : ValueTypeID) (vs : List ValueTypeID) (cs : List ConnectorID)
    (h : cs.length = vs.length) : (getIds v (List.zipWith .get vs cs)).length = vs.count v := by
  induction vs generalizing cs with
  | nil => rfl
  | cons v' vs ih =>
    cases cs with
    | nil => simp at h
    | cons c cs =>
      have hcs := ih cs (by simpa using h)
      unfold getIds at hcs ⊢
      by_cases hv : v' = v <;> simp [hv, hcs]

lemma exists_pass_of_mem {v : ValueTypeID} {vs : List ValueTypeID} {cs : List ConnectorID}
    (h : cs.length = vs.length) (hv : v ∈ vs) :
    ∃ pre c post, List.zipWith GraphOp.pass vs cs = pre ++ .pass v c :: post ∧
      ∀ op ∈ pre, ∃ v' c', op = .pass v' c' := by
  induction vs generalizing cs with
  | nil => simp at hv
  | cons v' vs ih =>
    cases cs with
    | nil => simp at h
    | cons c cs =>
      by_cases he : v = v'
      · exact ⟨[], c, List.zipWith .pass vs cs, by simp [he], by simp⟩
      · have hvs : v ∈ vs := (List.mem_cons.mp hv).resolve_left he
        obtain ⟨pre, c', post, hzip, hpre⟩ := ih (by simpa using h) hvs
        exact ⟨.pass v' c :: pre, c', post, by simp [hzip], by simpa using hpre⟩

lemma Affine.node_values {g : GraphSpec} {n : Node g} {pre post : List GraphOp}
    (h : Affine (pre ++ (n.graphOps ++ post))) (v : ValueTypeID) :
    ∃ cs : List ConnectorID, cs.Nodup ∧ (∀ c ∈ cs, Usable pre (.get v c)) ∧
      cs.length = n.spec.inputs.count v + if v ∈ n.spec.passthroughs then 1 else 0 := by
  obtain ⟨ins, borrows, outs, hins, hborrows, hops⟩ := n.graphOps_eq
  set gets := List.zipWith GraphOp.get n.spec.inputs ins with hgets
  set passes := List.zipWith GraphOp.pass n.spec.passthroughs borrows
  set sets := List.zipWith GraphOp.set n.spec.outputs outs
  have hnoset : ∀ c, GraphOp.set v c ∉ .node n.id :: gets := by
    intro c hm
    have hm' : GraphOp.set v c ∈ gets := by simpa using hm
    obtain ⟨i, hi, he⟩ := List.getElem_of_mem hm'
    simp [hgets] at he
  have hsplit : pre ++ (n.graphOps ++ post) =
      (pre ++ (.node n.id :: gets)) ++ (passes ++ (sets ++ post)) := by
    rw [hops]
    simp
  rw [hsplit] at h
  -- a value taken by the node was usable before it, as nothing is made in between
  have htaken : ∀ c ∈ getIds v (.node n.id :: gets), Usable pre (.get v c) := by
    intro c hc
    obtain ⟨a, b, hab⟩ := List.append_of_mem (mem_getIds.mp hc)
    have husable : Usable (pre ++ a) (.get v c) :=
      h (pre ++ a) _ (b ++ (passes ++ (sets ++ post))) (by rw [hab]; simp)
    refine usable_of_append (fun c' hm => hnoset c' ?_) husable
    rw [hab]
    exact List.mem_append_left _ hm
  have hnodup : (getIds v (.node n.id :: gets)).Nodup := by
    have hall := h.nodup_getIds v
    rw [getIds_append, getIds_append] at hall
    exact hall.of_append_left.of_append_right
  have hlength : (getIds v (.node n.id :: gets)).length = n.spec.inputs.count v :=
    length_getIds_zipWith v _ _ hins
  by_cases hv : v ∈ n.spec.passthroughs
  · obtain ⟨a, c, b, hab, ha⟩ := exists_pass_of_mem hborrows hv
    have husable : Usable (pre ++ (.node n.id :: gets) ++ a) (.get v c) :=
      h (pre ++ (.node n.id :: gets) ++ a) (.pass v c) (b ++ (sets ++ post)) (by
        rw [show passes = a ++ .pass v c :: b from hab]
        simp)
    have husable' : Usable (pre ++ (.node n.id :: gets)) (.get v c) := by
      refine usable_of_append (fun c' hm => ?_) husable
      obtain ⟨v', c'', he⟩ := ha _ hm
      cases he
    refine ⟨c :: getIds v (.node n.id :: gets), List.nodup_cons.mpr ⟨?_, hnodup⟩, ?_, ?_⟩
    · intro hm
      exact husable'.2 (List.mem_append_right _ (mem_getIds.mp hm))
    · intro c' hc'
      rcases List.mem_cons.mp hc' with rfl | hc'
      · exact usable_of_append hnoset husable'
      · exact htaken c' hc'
    · rw [List.length_cons, hlength, if_pos hv]
  · exact ⟨_, hnodup, htaken, by rw [hlength, if_neg hv, Nat.add_zero]⟩

def Rebuilding (all pre : List GraphOp) (st : GraphState) : Prop :=
  ∀ v, (st.getState v).Renames all pre v

lemma rebuilding_clear (all : List GraphOp) (st : GraphState) : Rebuilding all [] st.clear := by
  intro v
  unfold GraphState.getState GraphState.clear
  cases st v with
  | none => exact ValueState.renames_clear all v .new
  | some vs => exact ValueState.renames_clear all v vs

lemma Rebuilding.update {all pre : List GraphOp} {st : GraphState} (h : Rebuilding all pre st)
    {v : ValueTypeID} {op : GraphOp} {vs : ValueState}
    (hop : ∀ v' c, op = .set v' c ∨ op = .get v' c → v' = v) (hvs : vs.Renames all (pre ++ [op]) v) :
    Rebuilding all (pre ++ [op]) (update st v (some vs)) := by
  intro v'
  rw [getState_update]
  split
  · rename_i hv
    rw [hv]
    exact hvs
  · rename_i hv
    exact (h v').frame (fun c he => hv (hop v' c (.inl he))) (fun c he => hv (hop v' c (.inr he)))

namespace GraphBuilder

variable {g : GraphSpec} {pre post : List GraphOp}

lemma isAvailable_of_rebuilding {n : Node g} (haff : Affine (pre ++ (n.graphOps ++ post)))
    (hsets : DistinctSets (pre ++ (n.graphOps ++ post))) {st : GraphState}
    (h : Rebuilding (pre ++ (n.graphOps ++ post)) pre st) : st.isAvailable g n.id := by
  unfold GraphState.isAvailable
  rw [n.get]
  refine List.all_eq_true.mpr fun ⟨v, k⟩ hentry => ?_
  have hlookup : n.spec.requiredValues.lookup v = some k :=
    Option.mem_def.mp (AList.mem_lookup_iff.mpr hentry)
  rw [n.spec.requiredValues_eq, lookup_requiredValuesOf] at hlookup
  obtain ⟨cs, hnodup, husable, hlength⟩ := haff.node_values v
  have hle := (h v).length_le hsets hnodup husable
  split at hlookup
  · rename_i hv
    have hk : k = cs.length := by rw [hlength, ← Option.some.inj hlookup]
    have hpos : 0 < k := by
      rw [hk, hlength]
      rcases hv with hv | hv
      · simp [hv]
      · have := List.count_pos_iff.mpr hv
        omega
    unfold GraphState.getState at hle
    cases hst : st v with
    | none =>
      rw [hst] at hle
      have hzero : cs.length ≤ 0 := hle
      omega
    | some vs =>
      rw [hst] at hle
      simpa [hk] using hle
  · cases hlookup

variable {st : BuildState VecGraph}

lemma run_onValue_ok {α : Type} {v : ValueTypeID} {m : ValM α} {a : α}
    {vs : ValueState} (h : m.run (st.state.getState v, st.dist) = (.ok a, (vs, st.dist))) :
    (onValue v m).run st =
      (.ok a, { st with state := update st.state v (some vs) }) := by
  rw [run_onValue, h]

lemma run_relink {op : GraphOp} (haff : Affine (pre ++ op :: post))
    (hsets : DistinctSets (pre ++ op :: post)) (h : Rebuilding (pre ++ op :: post) pre st.state) :
    ∃ st', (renameAndRelinkOpVal op >>= appendOp).run st = (.ok (), st') ∧
      st'.graph = ⟨st.graph.ops ++ [newConnector (pre ++ op :: post) op], st.graph.data⟩ ∧
      Rebuilding (pre ++ op :: post) (pre ++ [op]) st'.state := by
  have husable : Usable pre op := haff pre op post rfl
  cases op with
  | node n =>
    refine ⟨_, rfl, rfl, fun v => ?_⟩
    exact (h v).frame (by simp) (by simp)
  | get v c =>
    obtain ⟨vs, hrun, hvs⟩ := (h v).takeOldAvailableInput hsets husable st.dist
    have hvalue := run_onValue_ok hrun
    refine ⟨_, Exec.run_bind_ok hvalue, rfl, h.update ?_ hvs⟩
    rintro v' c' (he | he) <;> cases he
    rfl
  | pass v c =>
    have hvalue := run_onValue_ok ((h v).getOldAvailableInput husable st.dist)
    refine ⟨_, Exec.run_bind_ok hvalue, rfl, h.update ?_ ((h v).frame (by simp) (by simp))⟩
    rintro v' c' (he | he) <;> cases he
  | set v c =>
    have hpre : Affine pre := by
      intro a o b hab
      exact haff a o (b ++ .set v c :: post) (by simp [hab])
    obtain ⟨hid, hvs⟩ := (h v).insertOldId hpre hsets
    have hvalue : (onValue v (ValueState.insert fun vs => vs.insertOldId c)).run st = _ :=
      run_onValue_ok rfl
    rw [hid] at hvalue
    refine ⟨_, Exec.run_bind_ok hvalue, rfl, h.update ?_ hvs⟩
    rintro v' c' (he | he) <;> cases he
    rfl

lemma run_relink_all (seg : List GraphOp) (haff : Affine (pre ++ (seg ++ post)))
    (hsets : DistinctSets (pre ++ (seg ++ post)))
    (h : Rebuilding (pre ++ (seg ++ post)) pre st.state) :
    ∃ st', (Exec.forEach seg fun op =>
        (renameAndRelinkOpVal op >>= appendOp : BuildM VecGraph Unit)).run st = (.ok (), st') ∧
      st'.graph = ⟨st.graph.ops ++ seg.map (newConnector (pre ++ (seg ++ post))),
        st.graph.data⟩ ∧
      Rebuilding (pre ++ (seg ++ post)) (pre ++ seg) st'.state := by
  induction seg generalizing pre st with
  | nil => exact ⟨st, rfl, by simp, by simpa using h⟩
  | cons op seg ih =>
    obtain ⟨st', hrun, hgraph, hst'⟩ := @run_relink pre (seg ++ post) st op haff hsets h
    have hassoc : pre ++ (op :: seg ++ post) = pre ++ [op] ++ (seg ++ post) := by simp
    have hst'' : Rebuilding (pre ++ (op :: seg ++ post)) (pre ++ [op]) st'.state := hst'
    rw [hassoc] at haff hsets hst''
    obtain ⟨st'', hrun', hgraph', hst''⟩ := ih haff hsets hst''
    refine ⟨st'', (Exec.run_bind_ok hrun).trans hrun', ?_, ?_⟩
    · rw [hgraph', hgraph, hassoc]
      simp
    · simpa using hst''

lemma run_copyNode {n : Node g} (opI : ℕ) (haff : Affine (pre ++ (n.graphOps ++ post)))
    (hsets : DistinctSets (pre ++ (n.graphOps ++ post)))
    (h : Rebuilding (pre ++ (n.graphOps ++ post)) pre st.state) :
    ∃ st', (copyNode g (n.place opI)).run st = (.ok (), st') ∧
      st'.graph = ⟨st.graph.ops ++ (n.rename (pre ++ (n.graphOps ++ post))).ops,
        st.graph.data ++ n.data⟩ ∧
      Rebuilding (pre ++ (n.graphOps ++ post)) (pre ++ n.graphOps) st'.state := by
  have hcan : canAppendNode g (n.place opI) st = true := by
    have havail := isAvailable_of_rebuilding haff hsets h
    simp only [canAppendNode, Node.place, havail, Bool.true_and]
    rfl
  obtain ⟨st', hrun, hgraph, hst'⟩ := run_relink_all n.graphOps haff hsets h
  have hslice : (appendSlice g n.ops).run st = (.ok (), st') := by
    unfold appendSlice forItems
    rw [opIter_node]
    exact (Exec.run_bind_ok hrun).trans rfl
  rw [copyNode, Exec.run_gets_bind, hcan, if_pos rfl]
  refine ⟨_, (Exec.run_bind_ok hslice).trans (Exec.run_modify _ _), ?_, hst'⟩
  show VecGraph.mk st'.graph.ops (st'.graph.data ++ n.data) = _
  rw [hgraph, Node.ops_rename]

lemma run_copyNodes (all : List GraphOp) (ns : List (Node g)) (index opI i : ℕ)
    (hall : all = pre ++ ns.flatMap Node.graphOps) (hi : i + ns.length ≤ index) (haff : Affine all)
    (hsets : DistinctSets all) (h : Rebuilding all pre st.state) :
    ∃ st', (Exec.forEach (((Node.layout opI ns).zipIdx i).map Prod.swap) fun (i, node) =>
        if i ≠ index then copyNode g node else pure ()).run st = (.ok (), st') ∧
      st'.graph = ⟨st.graph.ops ++ Node.encodeOps (ns.map (Node.rename all)),
        st.graph.data ++ Node.encodeData ns⟩ := by
  induction ns generalizing pre opI i st with
  | nil => exact ⟨st, rfl, by simp [Node.encodeOps, Node.encodeData]⟩
  | cons n ns ih =>
    rw [List.flatMap_cons] at hall
    subst hall
    obtain ⟨st', hrun, hgraph, hst'⟩ := run_copyNode opI haff hsets h
    have hi' : i + 1 + ns.length ≤ index := by
      rw [List.length_cons] at hi
      omega
    obtain ⟨st'', hrun', hgraph'⟩ := ih (opI + n.ops.length) (i + 1)
      (List.append_assoc _ _ _).symm hi' hst'
    have hne : i ≠ index := by omega
    have hbody : (if i ≠ index then copyNode g (n.place opI) else pure ()).run st =
        (.ok (), st') := by
      rw [if_pos hne]
      exact hrun
    refine ⟨st'', (Exec.run_bind_ok hbody).trans hrun', ?_⟩
    rw [hgraph', hgraph]
    simp [Node.encodeOps, Node.encodeData]

end GraphBuilder

/-- Both walks have the same edges, under other ids. -/
structure EdgeState.Renamed (all pre : List GraphOp) (st st' : EdgeState) : Prop where
  res : st'.res = st.res
  lastNode : st'.lastNode = st.lastNode
  lastOutPort : st'.lastOutPort = st.lastOutPort
  lastInPort : st'.lastInPort = st.lastInPort
  lastPassPort : st'.lastPassPort = st.lastPassPort
  src : ∀ v c, .set v c ∈ pre → st'.idToSrc (v, newIdOf all v c) = st.idToSrc (v, c)

namespace EdgeState

variable {pre post : List GraphOp} {st st' : EdgeState} {v : ValueTypeID} {c : ConnectorID}

lemma Renamed.src_update (h : Renamed (pre ++ post) pre st st') (hsets : DistinctSets (pre ++ post))
    (hc : .set v c ∈ pre ++ post) (x : Option SrcVal) {v' : ValueTypeID} {c' : ConnectorID}
    (hc' : .set v' c' ∈ pre ∨ (v', c') = (v, c)) :
    update st'.idToSrc (v, newIdOf (pre ++ post) v c) x (v', newIdOf (pre ++ post) v' c') =
      update st.idToSrc (v, c) x (v', c') := by
  by_cases he : (v', c') = (v, c)
  · cases he
    rw [update_self, update_self]
  · have hmem := hc'.resolve_right he
    have hne : (v', newIdOf (pre ++ post) v' c') ≠ (v, newIdOf (pre ++ post) v c) := by
      intro hne
      obtain ⟨rfl, hid⟩ := Prod.mk.inj hne
      exact he (by rw [newIdOf_inj hsets (List.mem_append_left _ hmem) hc hid])
    rw [update_of_ne hne, update_of_ne he, h.src v' c' hmem]

lemma Renamed.step {op : GraphOp} {i : ℕ} {s : EdgeState} (h : Renamed (pre ++ op :: post) pre st st')
    (hsets : DistinctSets (pre ++ op :: post)) (hop : Usable pre op)
    (hs : st.step (i, op) = .ok s) :
    ∃ s', st'.step (i, renameOp (pre ++ op :: post) op) = .ok s' ∧
      Renamed (pre ++ op :: post) (pre ++ [op]) s s' := by
  cases op with
  | node n =>
    cases hs
    exact ⟨_, rfl, h.res, rfl, rfl, rfl, rfl, fun v c hm => h.src v c (by simpa using hm)⟩
  | set v c =>
    simp only [EdgeState.step, except_bind_eq_ok, unwrapped_eq_ok] at hs
    obtain ⟨k, hk, hs⟩ := hs
    cases hs
    refine ⟨_, step_set (h.lastNode.trans hk), h.res, h.lastNode, ?_, h.lastInPort, h.lastPassPort, ?_⟩
    · exact congrArg (· + 1) h.lastOutPort
    · intro v' c' hm
      rw [h.lastOutPort]
      exact h.src_update hsets (by simp) _ (by simpa using hm)
  | get v c =>
    have hsrc := h.src v c hop.1
    simp only [EdgeState.step, except_bind_eq_ok, unwrapped_eq_ok] at hs
    obtain ⟨x, hx, k, hk, hs⟩ := hs
    cases hs
    refine ⟨_, step_get (hsrc.trans hx) (h.lastNode.trans hk), ?_, h.lastNode, h.lastOutPort, ?_,
      h.lastPassPort, ?_⟩
    · rw [h.res, h.lastInPort]
    · exact congrArg (· + 1) h.lastInPort
    · intro v' c' hm
      exact h.src_update hsets (List.mem_append_left _ hop.1) _ (.inl (by simpa using hm))
  | pass v c =>
    have hsrc := h.src v c hop.1
    simp only [EdgeState.step, except_bind_eq_ok, unwrapped_eq_ok] at hs
    obtain ⟨x, hx, k, hk, hs⟩ := hs
    cases hs
    refine ⟨_, step_pass (hsrc.trans hx) (h.lastNode.trans hk), ?_, h.lastNode, h.lastOutPort,
      h.lastInPort, ?_, fun v' c' hm => h.src v' c' (by simpa using hm)⟩
    · rw [h.res, h.lastPassPort]
    · exact congrArg (· + 1) h.lastPassPort

lemma Renamed.foldlM {i : ℕ} {s : EdgeState} (h : Renamed (pre ++ post) pre st st')
    (haff : Affine (pre ++ post)) (hsets : DistinctSets (pre ++ post))
    (hs : ((post.zipIdx i).map Prod.swap).foldlM EdgeState.step st = .ok s) :
    ∃ s', (((post.map (renameOp (pre ++ post))).zipIdx i).map Prod.swap).foldlM EdgeState.step st' =
      .ok s' ∧ s'.res = s.res := by
  induction post generalizing pre st st' i with
  | nil =>
    cases hs
    exact ⟨st', rfl, h.res⟩
  | cons op post ih =>
    simp only [List.zipIdx_cons, List.map_cons, Prod.swap_prod_mk, List.foldlM_cons,
      except_bind_eq_ok] at hs ⊢
    obtain ⟨s₁, hs₁, hs⟩ := hs
    obtain ⟨s₁', hs₁', h₁⟩ := h.step hsets (haff pre op post rfl) hs₁
    have hassoc : pre ++ op :: post = pre ++ [op] ++ post := by simp
    rw [hassoc] at h₁ haff hsets
    obtain ⟨s', hs', hres⟩ := ih h₁ haff hsets hs
    refine ⟨s', ⟨s₁', hs₁', ?_⟩, hres⟩
    rw [hassoc]
    exact hs'

end EdgeState

lemma calcEdges_rename {g : GraphSpec} {s s' : VecGraph} {ops : List GraphOp}
    (hs : opIter g s.ops = ⟨ops, none⟩) (hs' : opIter g s'.ops = ⟨ops.map (renameOp ops), none⟩)
    (haff : Affine ops) (hsets : DistinctSets ops) :
    ∃ edges, calcEdges g s = .ok edges ∧ calcEdges g s' = .ok edges := by
  have hops : GraphStorage.opIter g s = ⟨ops, none⟩ := hs
  have hops' : GraphStorage.opIter g s' = ⟨ops.map (renameOp ops), none⟩ := hs'
  obtain ⟨edges, hedges⟩ := calcEdges_of_affine (by rw [hops]) (by rw [hops]; exact haff)
  refine ⟨edges, hedges, ?_⟩
  simp only [calcEdges, Iter.foldlM, Iter.enumerate, hops, hops', except_bind_eq_ok] at hedges ⊢
  obtain ⟨st, ⟨st₁, hst, hst₁⟩, hres⟩ := hedges
  cases hst₁
  have hinit : EdgeState.Renamed ([] ++ ops) [] EdgeState.init EdgeState.init :=
    ⟨rfl, rfl, rfl, rfl, rfl, by simp⟩
  obtain ⟨st', hst', hres'⟩ := hinit.foldlM haff hsets hst
  exact ⟨st', ⟨st', hst', rfl⟩, by rw [hres', hres]⟩

def GraphNode.kept (n : GraphNode) : NodeTypeID × ℕ × List UInt8 := (n.id, n.opI, n.data)

lemma kept_layout_rename {g : GraphSpec} (all : List GraphOp) (ns : List (Node g)) (opI : ℕ) :
    (Node.layout opI (ns.map (Node.rename all))).map GraphNode.kept =
      (Node.layout opI ns).map GraphNode.kept := by
  induction ns generalizing opI with
  | nil => rfl
  | cons n ns ih =>
    have hlen : (n.rename all).ops.length = n.ops.length := by
      rw [Node.length_ops, Node.length_ops]
      rfl
    simp only [List.map_cons, Node.layout, hlen, ih]
    rfl

/-- Rebuilding a well-formed graph whose values have distinct ids, from any state of the builder,
keeps every node with its data and every edge, and draws nothing. -/
theorem rebuild_keeps_edges (g : GraphSpec) (frag : VecGraph) (index : ℕ) (st : BuildState VecGraph)
    (hread : (GraphStorage.nodeIter g frag).stop = none)
    (haff : Affine (GraphStorage.opIter g frag).items)
    (hsets : DistinctSets (GraphStorage.opIter g frag).items)
    (hindex : (GraphStorage.nodeIter g frag).items.length ≤ index) :
    ∃ st', (GraphBuilder.dropNodeAt g frag index).run st = (.ok (), st') ∧
      (GraphStorage.nodeIter g st'.graph).stop = none ∧
      (GraphStorage.nodeIter g st'.graph).items.map GraphNode.kept =
        (GraphStorage.nodeIter g frag).items.map GraphNode.kept ∧
      ∃ edges, calcEdges g frag = .ok edges ∧ calcEdges g st'.graph = .ok edges := by
  obtain ⟨ns, opsRest, dataRest, hitems, hops, hdata, hrest⟩ := nodes_of_nodeIter g frag.ops frag.data
  obtain rfl : opsRest = [] := hrest hread
  rw [List.append_nil] at hops
  have hiter : GraphStorage.nodeIter g frag = ⟨Node.layout 0 ns, none⟩ := by
    show nodeIter g frag.ops frag.data = _
    rw [hops, hdata, nodeIter_encode]
  set all := ns.flatMap Node.graphOps
  have hopIter : opIter g frag.ops = ⟨all, none⟩ := by
    rw [opIter_eq_opsFrom, hops, Node.opsFrom_encodeOps]
  have haff' : Affine all := by
    have : Affine (opIter g frag.ops).items := haff
    rwa [hopIter] at this
  have hsets' : DistinctSets all := by
    have : DistinctSets (opIter g frag.ops).items := hsets
    rwa [hopIter] at this
  have hindex' : 0 + ns.length ≤ index := by
    rw [hiter, Node.length_layout] at hindex
    omega
  set started : BuildState VecGraph := ⟨st.state.clear, VecGraph.empty, st.dist⟩
  have hstarted : Rebuilding all [] started.state := rebuilding_clear all st.state
  obtain ⟨st', hrun, hgraph⟩ :=
    GraphBuilder.run_copyNodes all ns index 0 0 rfl hindex' haff' hsets' hstarted
  have hgraph' : st'.graph =
      ⟨Node.encodeOps (ns.map (Node.rename all)), Node.encodeData (ns.map (Node.rename all))⟩ := by
    have hdata' : Node.encodeData (ns.map (Node.rename all)) = Node.encodeData ns := by
      simp [Node.encodeData, List.flatMap_map, Node.rename]
    rw [hgraph, hdata']
    rfl
  have hiter' : GraphStorage.nodeIter g st'.graph =
      ⟨Node.layout 0 (ns.map (Node.rename all)), none⟩ := by
    have hencode := nodeIter_encode (ns.map (Node.rename all)) []
    rw [List.append_nil] at hencode
    rw [hgraph']
    exact hencode
  have hopIter' : opIter g st'.graph.ops = ⟨all.map (renameOp all), none⟩ := by
    rw [opIter_eq_opsFrom, hgraph', Node.opsFrom_encodeOps]
    simp [all, List.flatMap_map, List.map_flatMap, Node.graphOps_rename]
  refine ⟨st', ?_, by rw [hiter'], ?_, calcEdges_rename hopIter hopIter' haff' hsets'⟩
  · have hloop : (GraphBuilder.forItems (GraphStorage.nodeIter g frag).enumerate fun (i, node) =>
        if i ≠ index then GraphBuilder.copyNode g node else pure ()).run started =
          (.ok (), st') := by
      rw [hiter, GraphBuilder.forItems]
      exact (Exec.run_bind_ok hrun).trans rfl
    exact hloop
  · rw [hiter', hiter]
    exact kept_layout_rename all ns 0

def fileGraph : VecGraph := ⟨[0, 7, 0, 3, 1, 7, 2, 7], []⟩

def staleState : BuildState VecGraph where
  state := fun _ => some ⟨2, [1], fun n => if n = 1 then some 0 else none, fun _ => some 3,
    fun o => if o = 3 then some 1 else none⟩
  graph := ⟨[0, 1], []⟩
  dist := ⟨[]⟩

theorem rebuild_keeps_edges_fileGraph :
    ∃ st', (GraphBuilder.dropNodeAt fileSpec fileGraph 4).run staleState = (.ok (), st') ∧
      ∃ edges, calcEdges fileSpec fileGraph = .ok edges ∧ calcEdges fileSpec st'.graph = .ok edges := by
  have hsets : DistinctSets (GraphStorage.opIter fileSpec fileGraph).items := by
    have hops : (GraphStorage.opIter fileSpec fileGraph).items =
        [.node 0, .set 0 7, .node 0, .set 0 3, .node 1, .pass 0 7, .node 2, .get 0 7] := by
      decide +kernel
    rw [hops]
    intro v
    by_cases hv : 0 = v
    · subst hv
      decide
    · simp [setIds, hv]
  obtain ⟨st', hrun, -, -, hedges⟩ := rebuild_keeps_edges fileSpec fileGraph 4 staleState
    (by decide +kernel) (by decide +kernel) hsets (by decide +kernel)
  exact ⟨st', hrun, hedges⟩

end Nyx
