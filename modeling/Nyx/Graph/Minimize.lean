import Nyx.Graph.Copy

/-!
# Minimisation

`minimize` drops the nodes of a graph from the last to the first, and keeps a smaller graph whenever
the tester accepts it. The state records the calls of the tester.
-/

namespace Nyx

open GraphStorage Function
open ValueState (takeOldAvailableInput insertOldId insertNewId getOldAvailableInput
  getRenamedOldInput takeNewInput numAvailable)

/-- The builder, the tester and its answers so far. -/
structure MinimizeState (S T : Type) where
  build : BuildState S
  tester : T
  calls : List (S × Bool)

abbrev MinimizeM (S T : Type) := Exec BuildPanic (MinimizeState S T)

namespace GraphBuilder

variable {S T : Type} [GraphStorage S]

def callTester (g : GraphSpec) (tester : S → GraphSpec → T → Bool × T) : MinimizeM S T Bool :=
  fun st =>
    let (answer, t) := tester st.build.graph g st.tester
    (.ok answer, { st with tester := t, calls := st.calls ++ [(st.build.graph, answer)] })

def minimizeLoop (g : GraphSpec) (tester : S → GraphSpec → T → Bool × T) :
    List ℕ → VecGraph → MinimizeM S T VecGraph
  | [], minGraph => pure minGraph
  | idx :: rest, minGraph => do
    Exec.zoom MinimizeState.build (fun b st => { st with build := b }) (dropNodeAt g minGraph idx)
    let accepted ← callTester g tester
    if accepted then do
      let storage ← Exec.gets fun st => st.build.graph
      minimizeLoop g tester rest (asVecGraph storage)
    else minimizeLoop g tester rest minGraph

def minimize {S₁ : Type} [GraphStorage S₁] (g : GraphSpec) (frag : S₁)
    (tester : S → GraphSpec → T → Bool × T) : MinimizeM S T VecGraph :=
  match (GraphStorage.nodeIter g frag).stop with
  | some e => Exec.panic (.other e)
  | none => minimizeLoop g tester (List.range (GraphStorage.nodeIter g frag).items.length).reverse
      (asVecGraph frag)

variable {g : GraphSpec}

/-- The nodes, the first of which has the index `i`, without the one at `index`. -/
def kept (index : ℕ) : ℕ → List (Node g) → List (Node g)
  | _, [] => []
  | i, n :: ns => if i ≠ index then n :: kept index (i + 1) ns else kept index (i + 1) ns

lemma kept_sublist (index i : ℕ) (ns : List (Node g)) : (kept index i ns).Sublist ns := by
  induction ns generalizing i with
  | nil => exact List.Sublist.refl _
  | cons n ns ih =>
    rw [kept]
    split
    · exact (ih (i + 1)).cons_cons n
    · exact (ih (i + 1)).cons n

lemma kept_of_lt {index i : ℕ} (h : index < i) (ns : List (Node g)) : kept index i ns = ns := by
  induction ns generalizing i with
  | nil => rfl
  | cons n ns ih => rw [kept, if_pos h.ne', ih (h.trans (Nat.lt_succ_self i))]

lemma makes_kept (v : ValueTypeID) {index : ℕ} (ns : List (Node g)) (i opI : ℕ) (hle : i ≤ index)
    (hlt : index < i + ns.length) : ∃ (n : Node g) (j : ℕ), n.place j ∈ Node.layout opI ns ∧
      Node.makes v ns = Node.makes v (kept index i ns) + n.spec.outputs.count v := by
  induction ns generalizing i opI with
  | nil => exact absurd hlt (Nat.not_lt.mpr hle)
  | cons m ns ih =>
    rw [kept, Node.layout]
    by_cases hi : i = index
    · refine ⟨m, opI, List.mem_cons_self, ?_⟩
      rw [if_neg (not_not.mpr hi), kept_of_lt (hi ▸ Nat.lt_succ_self i), Node.makes_cons, Nat.add_comm]
    · rw [List.length_cons] at hlt
      obtain ⟨n, j, hmem, hmakes⟩ := ih (i + 1) (opI + m.ops.length) (by omega) (by omega)
      refine ⟨n, j, List.mem_cons_of_mem _ hmem, ?_⟩
      rw [if_pos hi, Node.makes_cons, Node.makes_cons, hmakes, Nat.add_assoc]

lemma run_dropLoop (index : ℕ) (ns : List (Node g)) (i opI : ℕ) {ms : List (Node g)}
    {st : BuildState VecGraph} (h : Copied g ms st)
    (hd : Node.total NodeSpec.size ns ≤ st.dist.draws.length)
    (hroom : Copied.Room ms (kept index i ns)) :
    ∃ st', (Exec.forEach (((Node.layout opI ns).zipIdx i).map Prod.swap) fun (i, node) =>
        if i ≠ index then copyNode g node else pure ()).run st = (.ok (), st') ∧
      Copied.Extends g ms (kept index i ns) st st' := by
  induction ns generalizing ms st i opI with
  | nil => exact ⟨st, rfl, h.extends_self []⟩
  | cons n ns ih =>
    rw [Node.total_cons] at hd
    rw [kept] at hroom ⊢
    by_cases hi : i = index
    · rw [if_neg (not_not.mpr hi)] at hroom ⊢
      have hskip : (if i ≠ index then copyNode g (n.place opI) else pure ()).run st =
          (.ok (), st) := by
        rw [if_neg (not_not.mpr hi)]
        rfl
      obtain ⟨st', hrest, hextends⟩ := ih (i + 1) (opI + n.ops.length) h (by omega) hroom
      exact ⟨st', (Exec.run_bind_ok hskip).trans hrest, hextends⟩
    · rw [if_pos hi] at hroom ⊢
      change Copied.Room ms ([n] ++ _) at hroom
      obtain ⟨st₁, hrun, ms₁, hcopied, hsub, hdraws⟩ : ∃ st₁,
          (if i ≠ index then copyNode g (n.place opI) else pure ()).run st = (.ok (), st₁) ∧
            Copied.Extends g ms [n] st st₁ := by
        rw [if_pos hi]
        exact h.run_copyNode n opI (by omega) hroom.left
      have hdraws' : st.dist.draws.length ≤ st₁.dist.draws.length + n.spec.size := by
        simpa using hdraws
      obtain ⟨st', hrest, hextends⟩ := ih (i + 1) (opI + n.ops.length) hcopied (by omega)
        (hroom.append hsub)
      exact ⟨st', (Exec.run_bind_ok hrun).trans hrest, hextends.append hsub hdraws⟩

/-- The graph has some of the nodes `ns`. There are ids for its values if it is copied without the
node at one of the indices. -/
def Shrunk (g : GraphSpec) (idxs : List ℕ) (ns : List (Node g)) (graph : VecGraph) : Prop :=
  ∃ ms : List (Node g), GraphStorage.nodeIter g graph = ⟨Node.layout 0 ms, none⟩ ∧
    (ms.map Node.kind).Sublist (ns.map Node.kind) ∧
      ∀ index ∈ idxs, Copied.Room [] (kept index 0 ms)

lemma nodeIter_of_copied {ms : List (Node g)} {st : BuildState VecGraph} (h : Copied g ms st) :
    GraphStorage.nodeIter g st.graph = ⟨Node.layout 0 ms, none⟩ := by
  have hencode := nodeIter_encode ms []
  rw [List.append_nil] at hencode
  rw [h.graph]
  exact hencode

lemma run_dropNodeAt {ns : List (Node g)} {graph : VecGraph} {index : ℕ} {idxs : List ℕ}
    (h : Shrunk g (index :: idxs) ns graph) {st : BuildState VecGraph}
    (hd : Node.total NodeSpec.size ns ≤ st.dist.draws.length) :
    ∃ st', (dropNodeAt g graph index).run st = (.ok (), st') ∧ Shrunk g idxs ns st'.graph ∧
      Affine (GraphStorage.opIter g st'.graph).items ∧
      st.dist.draws.length ≤ st'.dist.draws.length + Node.total NodeSpec.size ns := by
  obtain ⟨ms, hread, hsub, hfits⟩ := h
  have hroom := hfits index List.mem_cons_self
  have hkept : ((kept index 0 ms).map Node.kind).Sublist (ns.map Node.kind) :=
    ((kept_sublist index 0 ms).map Node.kind).trans hsub
  obtain ⟨st', hrun, ms', hcopied, hsub', hdraws⟩ := run_dropLoop index ms 0 0
    (Copied.start (g := g) st) ((Node.total_le_of_sublist NodeSpec.size hsub).trans hd) hroom
  have hdrop : (dropNodeAt g graph index).run st = (.ok (), st') := by
    have hloop : (forItems (GraphStorage.nodeIter g graph).enumerate fun (i, node) =>
        if i ≠ index then copyNode g node else pure ()).run
          ⟨st.state.clear, VecGraph.empty, st.dist⟩ = (.ok (), st') := by
      rw [hread, forItems]
      exact (Exec.run_bind_ok hrun).trans rfl
    exact hloop
  have haffine : Affine (GraphStorage.opIter g st'.graph).items := by
    show Affine (Nyx.opIter g st'.graph.ops).items
    rw [opIter_eq_opsFrom]
    exact hcopied.building.affine
  -- a copy makes no more values than the nodes that were to be copied
  have hfits' : ∀ index' ∈ idxs, Copied.Room [] (kept index' 0 ms') := by
    intro index' _ v
    have hle : Node.makes v (kept index' 0 ms') ≤ Node.makes v ms' :=
      Node.total_le_of_sublist _ ((kept_sublist index' 0 ms').map _)
    have hle' : Node.makes v ms' ≤ Node.makes v (kept index 0 ms) :=
      Node.total_le_of_sublist _ hsub'
    exact (Nat.add_le_add_left (hle.trans hle') _).trans (hroom v)
  have hsize := Node.total_le_of_sublist NodeSpec.size hkept
  have hdraws' : st.dist.draws.length ≤
      st'.dist.draws.length + Node.total NodeSpec.size (kept index 0 ms) := hdraws
  exact ⟨st', hdrop, ⟨ms', nodeIter_of_copied hcopied, hsub'.trans hkept, hfits'⟩, haffine, by omega⟩

lemma run_minimizeLoop {T : Type} (tester : VecGraph → GraphSpec → T → Bool × T)
    {ns : List (Node g)} (idxs : List ℕ) {minGraph : VecGraph} (h : Shrunk g idxs ns minGraph)
    {st : MinimizeState VecGraph T}
    (hd : idxs.length * Node.total NodeSpec.size ns ≤ st.build.dist.draws.length) :
    ∃ result st' calls, (minimizeLoop g tester idxs minGraph).run st = (.ok result, st') ∧
      st'.calls = st.calls ++ calls ∧ calls.length = idxs.length ∧ Shrunk g [] ns result ∧
      (result = minGraph ∨ (result, true) ∈ calls ∧
        Affine (GraphStorage.opIter g result).items) := by
  induction idxs generalizing minGraph st with
  | nil => exact ⟨minGraph, st, [], rfl, by simp, rfl, h, .inl rfl⟩
  | cons idx idxs ih =>
    rw [List.length_cons, Nat.add_one_mul] at hd
    have hround : Node.total NodeSpec.size ns ≤ st.build.dist.draws.length := by omega
    obtain ⟨build, hdrop, hshrunk, haffine, hdraws⟩ := run_dropNodeAt h hround
    have hzoom : (Exec.zoom MinimizeState.build (fun b st => { st with build := b })
        (dropNodeAt g minGraph idx)).run st = (.ok (), { st with build := build }) := by
      rw [Exec.run_zoom, hdrop]
    rcases htest : tester build.graph g st.tester with ⟨answer, t⟩
    set st₁ : MinimizeState VecGraph T := ⟨build, t, st.calls ++ [(build.graph, answer)]⟩
    have hcall : (callTester g tester).run { st with build := build } = (.ok answer, st₁) := by
      simp only [Exec.run, callTester, htest]
      rfl
    have hd₁ : idxs.length * Node.total NodeSpec.size ns ≤ st₁.build.dist.draws.length := by
      show _ ≤ build.dist.draws.length
      omega
    cases answer with
    | true =>
      obtain ⟨result, st', calls, hrun, hcalls, hlen, hresult, hfrom⟩ := ih hshrunk hd₁
      refine ⟨result, st', (build.graph, true) :: calls, ?_, ?_, by simp [hlen], hresult, .inr ?_⟩
      · exact (Exec.run_bind_ok hzoom).trans ((Exec.run_bind_ok hcall).trans hrun)
      · rw [hcalls]
        simp [st₁]
      · obtain rfl | ⟨hmem, haff⟩ := hfrom
        · exact ⟨List.mem_cons_self, haffine⟩
        · exact ⟨List.mem_cons_of_mem _ hmem, haff⟩
    | false =>
      obtain ⟨ms, hread, hsub, hfits⟩ := h
      have hrest : Shrunk g idxs ns minGraph :=
        ⟨ms, hread, hsub, fun index hmem => hfits index (List.mem_cons_of_mem _ hmem)⟩
      obtain ⟨result, st', calls, hrun, hcalls, hlen, hresult, hfrom⟩ := ih hrest hd₁
      refine ⟨result, st', (build.graph, false) :: calls, ?_, ?_, by simp [hlen], hresult, ?_⟩
      · exact (Exec.run_bind_ok hzoom).trans ((Exec.run_bind_ok hcall).trans hrun)
      · rw [hcalls]
        simp [st₁]
      · exact hfrom.imp id fun hmem => ⟨List.mem_cons_of_mem _ hmem.1, hmem.2⟩

end GraphBuilder

def GraphNode.kind (n : GraphNode) : NodeTypeID × List UInt8 := (n.id, n.data)

lemma kind_layout {g : GraphSpec} (opI : ℕ) (ns : List (Node g)) :
    (Node.layout opI ns).map GraphNode.kind = ns.map Node.kind := by
  induction ns generalizing opI with
  | nil => rfl
  | cons n ns ih =>
    rw [Node.layout, List.map_cons, List.map_cons, ih]
    rfl

def atLeastTwo (graph : VecGraph) (_ : GraphSpec) (count : ℕ) : Bool × ℕ :=
  (4 ≤ graph.ops.length, count + 1)

section ManyFiles

open GraphBuilder

def fileNodeSpec (i : Fin 3) : NodeSpec :=
  fileSpec.nodeSpecs.get ⟨i, by
    have hlen : fileSpec.nodeSpecs.length = 3 := by decide +kernel
    omega⟩

def openedFile (c : ConnectorID) : Node fileSpec :=
  ⟨0, fileNodeSpec 0, [c], [], rfl, rfl, rfl⟩

def closedFile (c : ConnectorID) : Node fileSpec :=
  ⟨2, fileNodeSpec 2, [c], [], rfl, rfl, rfl⟩

def manyFiles (k : ℕ) : List (Node fileSpec) :=
  openedFile 9 :: (List.replicate k (openedFile 7) ++
    [openedFile 8, closedFile 8, closedFile 9, openedFile 7])

def manyFilesGraph (k : ℕ) : VecGraph :=
  ⟨Node.encodeOps (manyFiles k), Node.encodeData (manyFiles k)⟩

lemma nodeIter_manyFilesGraph (k : ℕ) :
    GraphStorage.nodeIter fileSpec (manyFilesGraph k) = ⟨Node.layout 0 (manyFiles k), none⟩ := by
  have hencode := nodeIter_encode (manyFiles k) []
  rw [List.append_nil] at hencode
  exact hencode

def dropLoop (index i opI : ℕ) (ns : List (Node fileSpec)) : BuildM VecGraph Unit :=
  Exec.forEach (((Node.layout opI ns).zipIdx i).map Prod.swap) fun (i, node) =>
    if i ≠ index then copyNode fileSpec node else pure ()

variable {st : BuildState VecGraph}

lemma run_dropLoop_cons {index i opI : ℕ} {n : Node fileSpec} {ns : List (Node fileSpec)}
    {st' : BuildState VecGraph} (hi : i ≠ index)
    (h : (copyNode fileSpec (n.place opI)).run st = (.ok (), st')) :
    (dropLoop index i opI (n :: ns)).run st =
      (dropLoop index (i + 1) (opI + n.ops.length) ns).run st' := by
  have hbody : (if i ≠ index then copyNode fileSpec (n.place opI) else pure ()).run st =
      (.ok (), st') := by
    rw [if_pos hi]
    exact h
  exact Exec.run_bind_ok hbody

lemma run_copyNode_openedFile (c : ConnectorID) (opI : ℕ) (st : BuildState VecGraph) :
    (copyNode fileSpec ((openedFile c).place opI)).run st =
      (.ok (), ⟨update st.state 0 (some ((st.state.getState 0).insertOldId c).2),
        ⟨st.graph.ops ++ [0] ++ [((st.state.getState 0).insertOldId c).1], st.graph.data ++ []⟩,
        st.dist⟩) := rfl

lemma run_copyNode_closedFile {c : ConnectorID} (opI : ℕ) {vs vs' : ValueState}
    (hst : st.state 0 = some vs) (hpos : 1 ≤ vs.numAvailable) {r : Except BuildPanic ConnectorID}
    {d : Distributions} (htake : (takeOldAvailableInput c).run (vs, st.dist) = (r, (vs', d))) :
    ∃ graph, (copyNode fileSpec ((closedFile c).place opI)).run st =
      (r.map fun _ => (), ⟨update st.state 0 (some vs'), graph, d⟩) := by
  have hcan : canAppendNode fileSpec ((closedFile c).place opI) st = true := by
    have hroom : st.state.isAvailable fileSpec 2 = true := by
      exact List.all_eq_true.mpr fun entry hentry => by
        obtain rfl := List.mem_singleton.mp hentry
        simp only [hst]
        exact decide_eq_true hpos
    rw [canAppendNode]
    simp only [Bool.and_eq_true]
    exact ⟨hroom, rfl⟩
  set st₁ : BuildState VecGraph := ⟨st.state, ⟨st.graph.ops ++ [2], st.graph.data⟩, st.dist⟩
  have hopen : (renameAndRelinkOpVal (.node 2) >>= appendOp).run st = (.ok (), st₁) := rfl
  have hvalue : (renameAndRelinkOpVal (.get 0 c)).run st₁ =
      (r, { st₁ with state := update st.state 0 (some vs'), dist := d }) := by
    rw [renameAndRelinkOpVal, run_onValue, GraphState.getState]
    simp only [st₁, hst, Option.getD_some, htake]
  have hslice : (appendSlice fileSpec (closedFile c).ops).run st =
      (renameAndRelinkOpVal (.get 0 c) >>= appendOp).run st₁ := by
    show (((renameAndRelinkOpVal (.node 2) >>= appendOp) >>= fun _ =>
      (renameAndRelinkOpVal (.get 0 c) >>= appendOp) >>= fun _ => pure ()) >>= fun _ => pure ()).run st = _
    rw [Exec.bind_unit, Exec.bind_unit, Exec.run_bind_ok hopen]
  rw [copyNode, Exec.run_gets_bind, hcan, if_pos rfl]
  cases r with
  | ok id => exact ⟨_, Exec.run_bind_ok (hslice.trans (Exec.run_bind_ok hvalue))⟩
  | error e => exact ⟨_, Exec.run_bind_error (hslice.trans (Exec.run_bind_error hvalue))⟩

/-- So many files were opened, and none was closed. -/
structure Opened (k : ℕ) (st : BuildState VecGraph) : Prop where
  curId : (st.state.getState 0).curId = UInt16.ofNat k
  length : (st.state.getState 0).newIdsForSampling.length = k
  renamed : (st.state.getState 0).oldIdToNewId 9 = some 1

lemma Opened.run_openedFile {k : ℕ} (h : Opened k st) {c : ConnectorID} (hc : c ≠ 9) (opI : ℕ) :
    ∃ st', (copyNode fileSpec ((openedFile c).place opI)).run st = (.ok (), st') ∧
      Opened (k + 1) st' := by
  refine ⟨_, run_copyNode_openedFile c opI st, ?_, ?_, ?_⟩
  · simp only [getState_update, if_true, insertOldId, insertNewId, h.curId]
    rw [UInt16.ofNat_add]
    rfl
  · simp [getState_update, insertOldId, insertNewId, h.length]
  · simp [getState_update, insertOldId, insertNewId, h.renamed, Ne.symm hc]

lemma Opened.run_dropLoop (k : ℕ) {j : ℕ} (h : Opened j st)
    {index i : ℕ} (hi : i + k ≤ index) (opI : ℕ) (ns : List (Node fileSpec)) :
    ∃ opI' st', (dropLoop index i opI (List.replicate k (openedFile 7) ++ ns)).run st =
        (dropLoop index (i + k) opI' ns).run st' ∧ Opened (j + k) st' := by
  induction k generalizing i j st opI with
  | zero => exact ⟨opI, st, rfl, h⟩
  | succ k ih =>
    obtain ⟨st₁, hrun, hopened⟩ := h.run_openedFile (c := 7) (by decide) opI
    obtain ⟨opI', st', hrest, hopened'⟩ := ih hopened (i := i + 1) (by omega)
      (opI + (openedFile 7).ops.length)
    refine ⟨opI', st', ?_, by rwa [show j + 1 + k = j + (k + 1) by omega] at hopened'⟩
    rw [List.replicate_succ, List.cons_append, run_dropLoop_cons (by omega) hrun, hrest]
    congr 2
    omega

lemma run_take_last {vs : ValueState} {d : Distributions} {c : ConnectorID}
    (hrenamed : vs.oldIdToNewId c = some 1)
    (hindex : vs.newIdToIdsIndex 1 = some (vs.newIdsForSampling.length - 1))
    (hlen : 1 < vs.newIdsForSampling.length) (hold : vs.newIdToOldId 1 = some c) :
    ∃ vs', (takeOldAvailableInput c).run (vs, d) = (.ok 1, (vs', d)) ∧
      1 ≤ vs'.numAvailable ∧ vs'.newIdToIdsIndex 1 = none ∧
      ∀ o, o ≠ c → vs'.oldIdToNewId o = vs.oldIdToNewId o := by
  have hne : vs.newIdsForSampling ≠ [] := List.ne_nil_of_length_pos (by omega)
  have hswap := length_swapRemove (i := vs.newIdsForSampling.length - 1) hne
  have hfind : (getOldAvailableInput c).run (vs, d) = (.ok 1, (vs, d)) := by
    rw [getOldAvailableInput, Exec.run_gets_bind]
    simp only [getRenamedOldInput, hrenamed]
    rfl
  have htake : (takeNewInput 1).run (vs, d) = (.ok 1, (ValueState.forget { vs with
      newIdsForSampling := swapRemove vs.newIdsForSampling (vs.newIdsForSampling.length - 1)
      newIdToIdsIndex := indexAfterRemove vs.newIdsForSampling vs.newIdToIdsIndex 1
        (vs.newIdsForSampling.length - 1) } 1, d)) := by
    simp only [Exec.run, takeNewInput, hindex]
    rw [if_pos (by omega)]
  refine ⟨_, (Exec.run_bind_ok hfind).trans htake, ?_, ?_, ?_⟩
  · simp only [numAvailable, ValueState.forget_ids]
    omega
  · rw [ValueState.forget_index]
    have hnone : (swapRemove vs.newIdsForSampling (vs.newIdsForSampling.length - 1))[
        vs.newIdsForSampling.length - 1]? = none := List.getElem?_eq_none (by omega)
    simp only [indexAfterRemove, hnone, update_self]
  · intro o ho
    simp only [ValueState.forget, hold]
    exact update_of_ne ho _ _

lemma Opened.run_last (h : Opened 65536 st) {index i : ℕ} (hi : i + 3 ≤ index) (opI : ℕ) :
    ∃ st', (dropLoop index i opI [openedFile 8, closedFile 8, closedFile 9, openedFile 7]).run st =
      (.error (.unknownNewId 1), st') := by
  -- the counter is at zero again, so that the next file gets the id of the first one
  set vs := st.state.getState 0 with hvs
  have hid : vs.curId + 1 = 1 := by
    rw [hvs, h.curId]
    rfl
  set vs₁ := (vs.insertOldId 8).2 with hvs₁
  simp only [insertOldId, insertNewId, hid] at hvs₁
  have hlen₁ : vs₁.newIdsForSampling.length = 65537 := by simp [hvs₁, hvs, h.length]
  have hindex₁ : vs₁.newIdToIdsIndex 1 = some (vs₁.newIdsForSampling.length - 1) := by simp [hvs₁]
  have hold₁ : vs₁.newIdToOldId 1 = some 8 := by simp [hvs₁]
  have hrenamed₁ : vs₁.oldIdToNewId 8 = some 1 := by simp [hvs₁]
  have hfirst₁ : vs₁.oldIdToNewId 9 = some 1 := by simp [hvs₁, hvs, h.renamed]
  obtain ⟨vs₂, htake, hpos₂, hindex₂, hother₂⟩ :=
    run_take_last (d := st.dist) hrenamed₁ hindex₁ (by omega) hold₁
  have hmissing : (takeOldAvailableInput 9).run (vs₂, st.dist) =
      (.error (.unknownNewId 1), (vs₂, st.dist)) := by
    have hfind : (getOldAvailableInput 9).run (vs₂, st.dist) =
        (.ok 1, (vs₂, st.dist)) := by
      rw [getOldAvailableInput, Exec.run_gets_bind]
      simp only [getRenamedOldInput, hother₂ 9 (by decide), hfirst₁]
      rfl
    refine (Exec.run_bind_ok hfind).trans ?_
    simp only [Exec.run, takeNewInput, hindex₂]
  obtain ⟨st₁, hopen, hst₁, hdist₁⟩ : ∃ st₁ : BuildState VecGraph,
      (copyNode fileSpec ((openedFile 8).place opI)).run st = (.ok (), st₁) ∧
        st₁.state 0 = some vs₁ ∧ st₁.dist = st.dist :=
    ⟨_, run_copyNode_openedFile 8 opI st, rfl, rfl⟩
  rw [← hdist₁] at htake hmissing
  rw [run_dropLoop_cons (by omega) hopen]
  have hpos₁ : 1 ≤ vs₁.numAvailable := by
    simp only [numAvailable]
    omega
  obtain ⟨graph, hclose⟩ := run_copyNode_closedFile (opI + (openedFile 8).ops.length) hst₁ hpos₁ htake
  rw [run_dropLoop_cons (by omega) hclose]
  set st₂ : BuildState VecGraph := ⟨update st₁.state 0 (some vs₂), graph, st₁.dist⟩
  have hst₂ : st₂.state 0 = some vs₂ := rfl
  obtain ⟨_, hpanic⟩ := run_copyNode_closedFile
    (opI + (openedFile 8).ops.length + (closedFile 8).ops.length) hst₂ hpos₂ hmissing
  refine ⟨_, Exec.run_bind_error ((congrArg (Exec.run · st₂) (if_pos ?_)).trans hpanic)⟩
  omega

lemma run_dropNodeAt_manyFiles {k : ℕ} (hk : k = 65535) (st : BuildState VecGraph) :
    ∃ st', (dropNodeAt fileSpec (manyFilesGraph k) (k + 4)).run st =
      (.error (.unknownNewId 1), st') := by
  set st₀ : BuildState VecGraph := ⟨st.state.clear, VecGraph.empty, st.dist⟩
  have hcleared : (st₀.state.getState 0).curId = 0 ∧
      (st₀.state.getState 0).newIdsForSampling = [] := by
    show ((st.state 0).map ValueState.clear |>.getD ValueState.new).curId = 0 ∧
      ((st.state 0).map ValueState.clear |>.getD ValueState.new).newIdsForSampling = []
    cases st.state 0 <;> exact ⟨rfl, rfl⟩
  obtain ⟨st₁, hfirst, hopened₁⟩ : ∃ st₁,
      (copyNode fileSpec ((openedFile 9).place 0)).run st₀ = (.ok (), st₁) ∧ Opened 1 st₁ := by
    refine ⟨_, run_copyNode_openedFile 9 0 st₀, ?_, ?_, ?_⟩
    · simp [getState_update, insertOldId, insertNewId, hcleared.1]
    · simp [getState_update, insertOldId, insertNewId, hcleared.2]
    · simp [getState_update, insertOldId, insertNewId, hcleared.1]
  obtain ⟨opI, st₂, hopens, hopened₂⟩ := hopened₁.run_dropLoop k
    (show 1 + k ≤ k + 4 by omega) (0 + (openedFile 9).ops.length)
    [openedFile 8, closedFile 8, closedFile 9, openedFile 7]
  rw [hk] at hopened₂
  obtain ⟨st', hpanic⟩ := hopened₂.run_last (show 1 + k + 3 ≤ k + 4 by omega) opI
  refine ⟨st', ?_⟩
  have hloop : (dropLoop (k + 4) 0 0 (manyFiles k)).run st₀ = (.error (.unknownNewId 1), st') := by
    rw [manyFiles, run_dropLoop_cons (by omega) hfirst, hopens, hpanic]
  have hitems : (forItems (GraphStorage.nodeIter fileSpec (manyFilesGraph k)).enumerate
      fun (i, node) => if i ≠ k + 4 then copyNode fileSpec node else pure ()).run st₀ =
        (.error (.unknownNewId 1), st') := by
    rw [nodeIter_manyFilesGraph, forItems]
    exact Exec.run_bind_error hloop
  exact hitems

lemma affine_of_makes {ops : List GraphOp} (h : ∀ op ∈ ops, ∀ pre, Usable pre op) : Affine ops := by
  rintro pre op post rfl
  exact h op (by simp) pre

lemma affine_manyFilesGraph (k : ℕ) :
    Affine (GraphStorage.opIter fileSpec (manyFilesGraph k)).items := by
  show Affine (opIter fileSpec (Node.encodeOps (manyFiles k))).items
  rw [opIter_eq_opsFrom, Node.opsFrom_encodeOps]
  set opens := openedFile 9 :: (List.replicate k (openedFile 7) ++ [openedFile 8]) with hopens
  have hops : ∀ op ∈ opens.flatMap Node.graphOps, op = .node 0 ∨ ∃ c, op = .set 0 c := by
    intro op hop
    obtain ⟨n, hn, hop⟩ := List.mem_flatMap.mp hop
    obtain ⟨c, rfl⟩ : ∃ c, n = openedFile c := by
      rw [hopens, List.mem_cons, List.mem_append, List.mem_singleton] at hn
      obtain rfl | hn | rfl := hn
      · exact ⟨9, rfl⟩
      · exact ⟨7, List.eq_of_mem_replicate hn⟩
      · exact ⟨8, rfl⟩
    obtain rfl | hop := List.mem_cons.mp hop
    · exact .inl rfl
    · exact .inr ⟨c, List.mem_singleton.mp hop⟩
  have hnot : ∀ c, GraphOp.get 0 c ∉ opens.flatMap Node.graphOps := by
    intro c hmem
    obtain h | ⟨c', h⟩ := hops _ hmem <;> cases h
  have hmade : ∀ c, openedFile c ∈ opens → GraphOp.set 0 c ∈ opens.flatMap Node.graphOps := by
    intro c hmem
    exact List.mem_flatMap.mpr ⟨_, hmem, List.mem_cons_of_mem _ List.mem_cons_self⟩
  have heq : (manyFiles k).flatMap Node.graphOps =
      opens.flatMap Node.graphOps ++ [.node 2] ++ [.get 0 8] ++ [.node 2] ++ [.get 0 9] ++
        [.node 0] ++ [.set 0 7] := by
    rw [manyFiles, hopens]
    simp only [List.flatMap_cons, List.flatMap_append, List.append_assoc, List.flatMap_nil]
    rfl
  have haff : Affine (opens.flatMap Node.graphOps) := by
    refine affine_of_makes fun op hop pre => ?_
    obtain rfl | ⟨c, rfl⟩ := hops op hop <;> trivial
  rw [heq]
  simp only [affine_concat]
  refine ⟨⟨⟨⟨⟨⟨haff, trivial⟩, ?_⟩, trivial⟩, ?_⟩, trivial⟩, trivial⟩
  · exact ⟨by simp [hmade 8 (by simp [hopens])], by simp [hnot 8]⟩
  · exact ⟨by simp [hmade 9 (by simp [hopens])], by simp [hnot 9]⟩

lemma run_minimize_manyFiles {T : Type} {k : ℕ} (hk : k = 65535)
    (tester : VecGraph → GraphSpec → T → Bool × T) (st : MinimizeState VecGraph T) :
    ((minimize fileSpec (manyFilesGraph k) tester).run st).1 = .error (.unknownNewId 1) := by
  obtain ⟨build, hdrop⟩ := run_dropNodeAt_manyFiles hk st.build
  have hlen : (GraphStorage.nodeIter fileSpec (manyFilesGraph k)).items.length = k + 4 + 1 := by
    rw [nodeIter_manyFilesGraph, Node.length_layout, manyFiles]
    simp
  have hzoom : (Exec.zoom MinimizeState.build (fun b st => { st with build := b })
      (dropNodeAt fileSpec (manyFilesGraph k) (k + 4))).run st =
        (.error (.unknownNewId 1), { st with build := build }) := by
    rw [Exec.run_zoom, hdrop]
  have hloop : ((minimizeLoop fileSpec tester (List.range (k + 4 + 1)).reverse
      (asVecGraph (manyFilesGraph k))).run st).1 = .error (.unknownNewId 1) := by
    rw [List.range_succ, List.reverse_append]
    exact congrArg Prod.fst (Exec.run_bind_error hzoom)
  unfold minimize
  rw [hlen, nodeIter_manyFilesGraph]
  exact hloop

end ManyFiles

end Nyx
