import Mathlib.Data.List.Sort
import Nyx.Graph.Copy
import Nyx.Graph.Mutator

/-!
# Splicing

`splice` compares each position with the last of the splice points, which are in ascending order. A
log of the walk says in front of which nodes a fragment was inserted.
-/

namespace Nyx

open Exec (run_bind_ok run_gets_bind run_bind_eq_ok bind_assoc)
open InputQueue (ofList)

open GraphStorage

namespace Mutator

/-! ### The walk with its log -/

section Log

variable {S : Type} [GraphStorage S] (g : GraphSpec) (queue : InputQueue)

/-- `spliceFragment`, which also returns the nodes that it tries to append. -/
def spliceFragmentLog : MutatorM S (List GraphNode) := do
  let other ← draw queue
  let otherLen ← nodeLen g other
  let start ← draw (Distributions.genRange 0 otherLen)
  let len ← draw (Distributions.genRange 1 16)
  let len := if otherLen - start < len then otherLen - start else len
  let fragment := ((GraphStorage.nodeIter g other).skip start).take len
  Exec.forEach fragment.items (appendNode g)
  finish fragment.stop
  pure fragment.items

/-- `spliceLoop`, which also returns for each node the fragment in front of it, if any. -/
def spliceLoopLog (stop : Option Panic) :
    ℕ → List ℕ → List GraphNode → MutatorM S (List (Option (List GraphNode) × GraphNode))
  | _, _, [] => do
    finish stop
    pure []
  | i, points, n :: nodes => do
    let full ← isFull g
    if full then pure []
    else if points.getLast? = some i then do
      let fragment ← spliceFragmentLog g queue
      appendNode g n
      let log ← spliceLoopLog stop (i + 1) points.dropLast nodes
      pure ((some fragment, n) :: log)
    else do
      appendNode g n
      let log ← spliceLoopLog stop (i + 1) points nodes
      pure ((none, n) :: log)

def spliceLog (orig : VecGraph) : MutatorM S (List (Option (List GraphNode) × GraphNode)) := do
  let origLen ← nodeLen g orig
  let points ← pickSplicePoints origLen
  builder GraphBuilder.start
  let nodes := GraphStorage.nodeIter g orig
  spliceLoopLog g queue nodes.stop 0 points nodes.items

lemma spliceFragment_eq :
    (spliceFragment g queue : MutatorM S Unit) = spliceFragmentLog g queue >>= fun _ => pure () := by
  simp only [spliceFragment, spliceFragmentLog, bind_assoc, Exec.pure_bind, Exec.bind_unit]

lemma spliceLoop_eq (stop : Option Panic) (i : ℕ) (points : List ℕ) (nodes : List GraphNode) :
    (spliceLoop g queue stop i points nodes : MutatorM S Unit) =
      spliceLoopLog g queue stop i points nodes >>= fun _ => pure () := by
  induction nodes generalizing i points with
  | nil => simp only [spliceLoop, spliceLoopLog, bind_assoc, Exec.pure_bind, Exec.bind_unit]
  | cons n nodes ih =>
    simp only [spliceLoop, spliceLoopLog, spliceFragment_eq, ih, bind_assoc, Exec.pure_bind]
    congr 1
    funext full
    split
    · rfl
    split <;> simp only [bind_assoc, Exec.pure_bind]

lemma splice_eq (orig : VecGraph) :
    (splice g orig queue : MutatorM S Unit) = spliceLog g queue orig >>= fun _ => pure () := by
  simp only [splice, spliceLog, spliceLoop_eq, bind_assoc]

end Log

/-! ### Where fragments are inserted -/

def inserted (log : List (Option (List GraphNode) × GraphNode)) : List (Bool × GraphNode) :=
  log.map fun x => (x.1.isSome, x.2)

/-- A fragment in front of the node at each of the points. -/
def insertedAt (points : List ℕ) (i : ℕ) (nodes : List GraphNode) : List (Bool × GraphNode) :=
  (nodes.zipIdx i).map fun x => (decide (x.2 ∈ points), x.1)

lemma insertedAt_cons (points : List ℕ) (i : ℕ) (n : GraphNode) (nodes : List GraphNode) :
    insertedAt points i (n :: nodes) = (decide (i ∈ points), n) :: insertedAt points (i + 1) nodes :=
  rfl

lemma insertedAt_eq_iff {points points' : List ℕ} {i : ℕ} {nodes : List GraphNode} :
    insertedAt points i nodes = insertedAt points' i nodes ↔
      ∀ j, i ≤ j → j < i + nodes.length → (j ∈ points ↔ j ∈ points') := by
  rw [insertedAt, insertedAt, List.map_inj_left]
  constructor
  · intro h j hj hlt
    have hnode : nodes[j - i]? = some nodes[j - i] := List.getElem?_eq_getElem (by omega)
    simpa using h (nodes[j - i], j) (List.mk_mem_zipIdx_iff_le_and_getElem?_sub.mpr ⟨hj, hnode⟩)
  · intro h x hx
    obtain ⟨hle, hlt, -⟩ := List.mem_zipIdx hx
    simp only [h x.2 hle hlt]

variable {g : GraphSpec} {queue : InputQueue}

lemma inserted_spliceLoopLog (hfull : ∀ b : BuildState VecGraph, GraphBuilder.isFull g b = false)
    {stop : Option Panic} {i : ℕ} {points : List ℕ} (hpoints : points.Pairwise (· < ·))
    {nodes : List GraphNode} {st st' : MutatorState VecGraph}
    {log : List (Option (List GraphNode) × GraphNode)}
    (h : (spliceLoopLog g queue stop i points nodes).run st = (.ok log, st')) :
    inserted log = insertedAt points.getLast?.toList i nodes := by
  induction nodes generalizing i points st log with
  | nil =>
    obtain ⟨_, _, -, hlog⟩ := run_bind_eq_ok h
    cases hlog
    rfl
  | cons n nodes ih =>
    rw [spliceLoopLog, isFull, run_gets_bind, hfull, if_neg (by decide)] at h
    by_cases hlast : points.getLast? = some i
    · rw [if_pos hlast] at h
      obtain ⟨fragment, _, -, h⟩ := run_bind_eq_ok h
      obtain ⟨_, _, -, h⟩ := run_bind_eq_ok h
      obtain ⟨log, _, hrest, hlog⟩ := run_bind_eq_ok h
      cases hlog
      have hrest := ih (hpoints.sublist (List.dropLast_sublist _)) hrest
      -- the points that are left are behind
      have hbehind : ∀ q ∈ points.dropLast, q < i := by
        obtain ⟨init, rfl⟩ := List.getLast?_eq_some_iff.mp hlast
        intro q hq
        rw [List.dropLast_concat] at hq
        exact (List.pairwise_append.mp hpoints).2.2 q hq i (by simp)
      have hnone : insertedAt points.dropLast.getLast?.toList (i + 1) nodes =
          insertedAt points.getLast?.toList (i + 1) nodes := by
        refine insertedAt_eq_iff.mpr fun j hj _ => iff_of_false ?_ ?_
        · intro hmem
          have := hbehind j (List.mem_of_getLast? (by simpa using hmem))
          omega
        · rw [hlast]
          simp
          omega
      have hcons : inserted ((some fragment, n) :: log) = (true, n) :: inserted log := rfl
      rw [hcons, insertedAt_cons, hrest, hnone]
      simp [hlast]
    · rw [if_neg hlast] at h
      obtain ⟨_, _, -, h⟩ := run_bind_eq_ok h
      obtain ⟨log, _, hrest, hlog⟩ := run_bind_eq_ok h
      cases hlog
      have hcons : inserted ((none, n) :: log) = (false, n) :: inserted log := rfl
      rw [hcons, insertedAt_cons, ih hpoints hrest]
      simp [hlast]

end Mutator

lemma pairwise_eraseReps {l : List ℕ} (h : l.Pairwise (· ≤ ·)) :
    l.eraseReps.Pairwise (· < ·) ∧ ∀ x, x ∈ l.eraseReps ↔ x ∈ l := by
  have hloop : ∀ (l acc : List ℕ) (a : ℕ), (a :: l).Pairwise (· ≤ ·) →
      (a :: acc).Pairwise (· > ·) →
      (List.eraseRepsBy.loop (· == ·) a l acc).Pairwise (· < ·) ∧
        ∀ x, x ∈ List.eraseRepsBy.loop (· == ·) a l acc ↔ x ∈ acc ∨ x ∈ a :: l := by
    intro l
    induction l with
    | nil =>
      intro acc a _ hacc
      exact ⟨List.pairwise_reverse.mpr hacc, fun x => by simp [List.eraseRepsBy.loop, or_comm]⟩
    | cons b l ih =>
      intro acc a hl hacc
      rw [List.eraseRepsBy.loop]
      by_cases hab : a = b
      · subst hab
        simp only [beq_self_eq_true]
        obtain ⟨hsorted, hmem⟩ := ih acc a hl.tail hacc
        exact ⟨hsorted, fun x => by simp [hmem]⟩
      · simp only [beq_eq_false_iff_ne.mpr hab]
        have hlt : a < b := lt_of_le_of_ne ((List.pairwise_cons.mp hl).1 b (by simp)) hab
        have hacc' : (b :: a :: acc).Pairwise (· > ·) := by
          refine hacc.cons fun x hx => ?_
          rcases List.mem_cons.mp hx with rfl | hx
          · exact hlt
          · exact ((List.pairwise_cons.mp hacc).1 x hx).trans hlt
        obtain ⟨hsorted, hmem⟩ := ih (a :: acc) b hl.tail hacc'
        exact ⟨hsorted, fun x => by simp [hmem, or_left_comm, or_assoc]⟩
  cases l with
  | nil => simp [List.eraseReps, List.eraseRepsBy]
  | cons a l =>
    obtain ⟨hsorted, hmem⟩ := hloop l [] a h (by simp)
    exact ⟨hsorted, fun x => by simp [List.eraseReps, List.eraseRepsBy, hmem]⟩

namespace Distributions

lemma run_genRange {low high : ℕ} (h : low < high) (x : ℕ) (xs : List ℕ) :
    (genRange low high).run ⟨x :: xs⟩ = (.ok (low + x % (high - low)), ⟨xs⟩) := by
  rw [genRange, if_pos h]
  rfl

lemma run_genRanges {len : ℕ} (h : 0 < len) (xs rest : List ℕ) :
    (genRanges len xs.length).run ⟨xs ++ rest⟩ = (.ok (xs.map (· % len)), ⟨rest⟩) := by
  induction xs with
  | nil => rfl
  | cons x xs ih =>
    have hx := run_genRange h x (xs ++ rest)
    rw [Nat.zero_add, Nat.sub_zero] at hx
    exact (run_bind_ok hx).trans (run_bind_ok ih)

end Distributions

namespace Mutator

def numDrawn (len x : ℕ) : ℕ :=
  if len ≤ 3 then 1 + x % 2 else if len ≤ 15 then 1 + x % 4 else 4 + x % 12

def drawnPositions (len : ℕ) : List ℕ → List ℕ
  | [] => []
  | x :: xs => (xs.take (numDrawn len x)).map (· % len)

lemma numDrawn_pos (len x : ℕ) : 0 < numDrawn len x ∧ numDrawn len x ≤ 15 := by
  unfold numDrawn
  split_ifs <;> omega

variable {st : MutatorState VecGraph}

lemma run_draw {α : Type} {m : Exec Panic Distributions α} {a : α} {d : Distributions}
    (h : m.run st.build.dist = (.ok a, d)) :
    (draw m).run st = (.ok a, { st with build := { st.build with dist := d } }) := by
  show ((m.run st.build.dist).1.mapError BuildPanic.other,
    { st with build := { st.build with dist := (m.run st.build.dist).2 } }) = _
  rw [h]
  rfl

lemma run_pickSplicePoints {len : ℕ} (hlen : 0 < len) (hd : 16 ≤ st.build.dist.draws.length) :
    ∃ points d, (pickSplicePoints len).run st =
        (.ok points, { st with build := { st.build with dist := d } }) ∧
      st.build.dist.draws.length ≤ d.draws.length + 16 ∧ points.length ≤ 15 ∧
      points.Pairwise (· < ·) ∧ ∀ p, p ∈ points ↔ p ∈ drawnPositions len st.build.dist.draws := by
  rcases hdraws : st.build.dist with ⟨_ | ⟨x, xs⟩⟩
  · rw [hdraws] at hd
    cases hd
  rw [hdraws, List.length_cons] at hd
  obtain ⟨hpos, hle⟩ := numDrawn_pos len x
  have hnum : (numSplicePoints len).run st =
      (.ok (numDrawn len x), { st with build := { st.build with dist := ⟨xs⟩ } }) := by
    unfold numSplicePoints numDrawn
    rw [if_neg (by omega)]
    split_ifs
    all_goals
      apply run_draw
      rw [hdraws]
      exact Distributions.run_genRange (by decide) x xs
  have htake : (xs.take (numDrawn len x)).length = numDrawn len x := by
    rw [List.length_take]
    omega
  have hranges := Distributions.run_genRanges hlen (xs.take (numDrawn len x)) (xs.drop (numDrawn len x))
  rw [htake, List.take_append_drop] at hranges
  have hsorted : (((xs.take (numDrawn len x)).map (· % len)).mergeSort (· ≤ ·)).Pairwise
      fun a b => decide (a ≤ b) = true :=
    List.pairwise_mergeSort (by simp; omega) (by simp; omega) _
  obtain ⟨hpairwise, hmem⟩ := pairwise_eraseReps (hsorted.imp fun h => of_decide_eq_true h)
  refine ⟨_, _, (run_bind_ok hnum).trans ((run_bind_ok (run_draw hranges)).trans rfl), ?_, ?_,
    hpairwise, fun p => ?_⟩
  · simp only [List.length_cons, List.length_drop]
    omega
  · have hle' := (List.subperm_of_subset (hpairwise.imp ne_of_lt) fun p hp => (hmem p).mp hp).length_le
    rw [List.length_mergeSort, List.length_map, htake] at hle'
    exact hle'.trans hle
  · rw [hmem, List.mem_mergeSort]
    rfl

/-! ### The walk returns -/

/-- The graph can be read and has a node. -/
structure Spliceable (g : GraphSpec) (graph : VecGraph) : Prop where
  stop : (GraphStorage.nodeIter g graph).stop = none
  ne_nil : (GraphStorage.nodeIter g graph).items ≠ []

def placed (p : Node g × ℕ) : GraphNode := p.1.place p.2

lemma exists_placed (opI : ℕ) (ns : List (Node g)) :
    ∃ ps : List (Node g × ℕ), Node.layout opI ns = ps.map placed ∧ ps.map Prod.fst = ns := by
  induction ns generalizing opI with
  | nil => exact ⟨[], rfl, rfl⟩
  | cons n ns ih =>
    obtain ⟨ps, hlayout, hfst⟩ := ih (opI + n.ops.length)
    exact ⟨(n, opI) :: ps, by rw [Node.layout, hlayout]; rfl, by rw [List.map_cons, hfst]⟩

lemma total_le {f : NodeSpec → ℕ} (hf : ∀ spec, f spec ≤ spec.size) (ns : List (Node g)) :
    Node.total f ns ≤ ns.length * g.maxOps := by
  have hbound : ∀ x ∈ ns.map fun n => f n.spec, x ≤ g.maxOps := by
    intro x hx
    obtain ⟨n, -, rfl⟩ := List.mem_map.mp hx
    have hspec : n.spec ∈ g.nodeSpecs := List.mem_of_getElem? (GraphSpec.getNode_eq_ok.mp n.get)
    have := g.ops_bound n.spec hspec
    have := hf n.spec
    omega
  simpa [Node.total] using List.sum_le_card_nsmul _ _ hbound

variable {ms : List (Node g)}

lemma run_appendNode (h : Copied g ms st.build) (p : Node g × ℕ)
    (hd : p.1.spec.size ≤ st.build.dist.draws.length) (hroom : Copied.Room ms [p.1]) :
    ∃ st', (appendNode g (placed p)).run st = (.ok (), st') ∧
      Copied.Extends g ms [p.1] st.build st'.build := by
  obtain ⟨appended, build, hrun, hextends⟩ := h.run_appendNode p.1 p.2 hd hroom
  refine ⟨⟨build, st.calls ++ [(placed p, st.build)]⟩, ?_, hextends⟩
  have hbuild : (builder (GraphBuilder.appendNode g (placed p))).run
      { st with calls := st.calls ++ [(placed p, st.build)] } =
      (.ok appended, ⟨build, st.calls ++ [(placed p, st.build)]⟩) := by
    show (((GraphBuilder.appendNode g (placed p)).run st.build).1, MutatorState.mk
      ((GraphBuilder.appendNode g (placed p)).run st.build).2 _) = _
    rw [placed, hrun]
  exact run_bind_ok hbuild

lemma run_appendNodes (ps : List (Node g × ℕ)) {ms : List (Node g)} {st : MutatorState VecGraph}
    (h : Copied g ms st.build)
    (hd : Node.total NodeSpec.size (ps.map Prod.fst) ≤ st.build.dist.draws.length)
    (hroom : Copied.Room ms (ps.map Prod.fst)) :
    ∃ st', (Exec.forEach (ps.map placed) (appendNode g)).run st = (.ok (), st') ∧
      Copied.Extends g ms (ps.map Prod.fst) st.build st'.build := by
  induction ps generalizing ms st with
  | nil => exact ⟨st, rfl, h.extends_self []⟩
  | cons p ps ih =>
    rw [List.map_cons, Node.total_cons] at hd
    obtain ⟨st₁, hrun, ms₁, hcopied, hsub, hdraws⟩ := run_appendNode h p (by omega) hroom.left
    have hdraws' : st.build.dist.draws.length ≤ st₁.build.dist.draws.length + p.1.spec.size := by
      simpa using hdraws
    obtain ⟨st', hrest, hextends⟩ := ih hcopied (by omega) (hroom.append hsub)
    exact ⟨st', (run_bind_ok hrun).trans hrest, hextends.append hsub hdraws⟩

variable {graphs : List VecGraph}

lemma run_spliceFragmentLog (hne : graphs ≠ []) (hgraphs : ∀ other ∈ graphs, Spliceable g other)
    (h : Copied g ms st.build) (hroom : ∀ v, Node.makes v ms + 15 * g.maxOps ≤ 65536)
    (hd : 3 + 15 * g.maxOps ≤ st.build.dist.draws.length) :
    ∃ fragment st' ms', (spliceFragmentLog g (ofList graphs)).run st = (.ok fragment, st') ∧
      Copied g (ms ++ ms') st'.build ∧ (∀ v, Node.makes v ms' ≤ 15 * g.maxOps) ∧
      st.build.dist.draws.length ≤ st'.build.dist.draws.length + (3 + 15 * g.maxOps) := by
  obtain ⟨x, y, z, rest, hdraws⟩ : ∃ x y z rest, st.build.dist = ⟨x :: y :: z :: rest⟩ := by
    rcases hdist : st.build.dist with ⟨_ | ⟨x, _ | ⟨y, _ | ⟨z, rest⟩⟩⟩⟩
    case cons.cons.cons => exact ⟨x, y, z, rest, rfl⟩
    all_goals
      simp only [hdist, List.length_cons, List.length_nil] at hd
      omega
  have hqueue : 0 < graphs.length := List.length_pos_of_ne_nil hne
  obtain ⟨other, hother⟩ : ∃ other, graphs[x % graphs.length]? = some other :=
    ⟨_, List.getElem?_eq_getElem (Nat.mod_lt x hqueue)⟩
  have hspliceable := hgraphs other (List.mem_of_getElem? hother)
  obtain ⟨os, hiter, -⟩ := Node.exists_of_readable other hspliceable.stop
  obtain ⟨ps, hlayout, -⟩ := exists_placed 0 os
  rw [hlayout] at hiter
  have hpos : 0 < ps.length := by
    have := List.length_pos_of_ne_nil hspliceable.ne_nil
    rwa [hiter, List.length_map] at this
  -- the three draws: the graph, where the fragment begins and its length
  let after (ds : List ℕ) : MutatorState VecGraph := { st with build := { st.build with dist := ⟨ds⟩ } }
  have hsample : (draw (ofList graphs)).run st = (.ok other, after (y :: z :: rest)) := by
    apply run_draw
    have hx := Distributions.run_genRange hqueue x (y :: z :: rest)
    rw [Nat.zero_add, Nat.sub_zero] at hx
    rw [hdraws, ofList, if_pos hqueue, run_bind_ok hx, hother]
    rfl
  have hlen : (nodeLen g other).run (after (y :: z :: rest)) = (.ok ps.length, after (y :: z :: rest)) := by
    rw [nodeLen, hiter, List.length_map]
    rfl
  have hstart : (draw (Distributions.genRange 0 ps.length)).run (after (y :: z :: rest)) =
      (.ok (0 + y % (ps.length - 0)), after (z :: rest)) :=
    run_draw (Distributions.run_genRange hpos y (z :: rest))
  have hcount : (draw (Distributions.genRange 1 16)).run (after (z :: rest)) =
      (.ok (1 + z % 15), after rest) :=
    run_draw (Distributions.run_genRange (by decide) z rest)
  generalize 0 + y % (ps.length - 0) = start at hstart
  set len := if ps.length - start < 1 + z % 15 then ps.length - start else 1 + z % 15 with hlendef
  have hlen15 : len ≤ 15 := by
    rw [hlendef]
    split_ifs <;> omega
  set qs := (ps.drop start).take len with hqs
  have hfragment : ((GraphStorage.nodeIter g other).skip start).take len = ⟨qs.map placed, none⟩ := by
    rw [hiter, hqs, List.map_take, List.map_drop, Iter.skip, Iter.take]
    split_ifs with hle
    · rfl
    · rw [List.take_of_length_le (by simpa using Nat.le_of_not_le hle)]
  have hqslen : (qs.map Prod.fst).length ≤ 15 := by
    rw [List.length_map, hqs, List.length_take]
    omega
  have hbound {f : NodeSpec → ℕ} (hf : ∀ spec, f spec ≤ spec.size) :
      Node.total f (qs.map Prod.fst) ≤ 15 * g.maxOps :=
    (total_le hf _).trans (Nat.mul_le_mul_right _ hqslen)
  have hmakes : ∀ v, Node.makes v (qs.map Prod.fst) ≤ 15 * g.maxOps := by
    intro v
    apply hbound
    intro spec
    exact List.count_le_length.trans (Nat.le_add_left _ _)
  rw [hdraws] at hd
  simp only [List.length_cons] at hd
  have hcopied : Copied g ms (after rest).build := ⟨h.building.congr rfl fun _ => rfl, h.graph⟩
  have hsize := hbound fun spec => le_refl spec.size
  obtain ⟨st', hrun, ms', hcopied', hsub, hdraws'⟩ := run_appendNodes qs hcopied
    (hsize.trans (by show _ ≤ rest.length; omega)) fun v => by have := hmakes v; have := hroom v; omega
  refine ⟨qs.map placed, st', ms', ?_, hcopied', fun v => ?_, ?_⟩
  · have hinsert : (Exec.forEach (((GraphStorage.nodeIter g other).skip start).take len).items
        (appendNode g) >>= fun _ => finish (((GraphStorage.nodeIter g other).skip start).take len).stop
        >>= fun _ => pure (((GraphStorage.nodeIter g other).skip start).take len).items).run
          (after rest) = (.ok (qs.map placed), st') := by
      rw [hfragment]
      exact (run_bind_ok hrun).trans rfl
    exact (run_bind_ok hsample).trans ((run_bind_ok hlen).trans
      ((run_bind_ok hstart).trans ((run_bind_ok hcount).trans hinsert)))
  · exact (Node.total_le_of_sublist _ hsub).trans (hmakes v)
  · have hrest : rest.length ≤ st'.build.dist.draws.length + Node.total NodeSpec.size (qs.map Prod.fst) :=
      hdraws'
    rw [hdraws]
    simp only [List.length_cons]
    omega

lemma run_spliceLoopLog (hne : graphs ≠ []) (hgraphs : ∀ other ∈ graphs, Spliceable g other)
    (hfull : ∀ b : BuildState VecGraph, GraphBuilder.isFull g b = false) (ps : List (Node g × ℕ))
    {ms : List (Node g)} {st : MutatorState VecGraph} (h : Copied g ms st.build) (i : ℕ)
    (points : List ℕ)
    (hroom : ∀ v, Node.makes v ms + Node.makes v (ps.map Prod.fst) +
      points.length * (15 * g.maxOps) ≤ 65536)
    (hd : Node.total NodeSpec.size (ps.map Prod.fst) + points.length * (3 + 15 * g.maxOps) ≤
      st.build.dist.draws.length) :
    ∃ log st', (spliceLoopLog g (ofList graphs) none i points (ps.map placed)).run st =
      (.ok log, st') := by
  induction ps generalizing ms st i points with
  | nil => exact ⟨[], st, rfl⟩
  | cons p ps ih =>
    simp only [List.map_cons, Node.makes_cons, Node.total_cons] at hroom hd
    rw [List.map_cons, spliceLoopLog, isFull, run_gets_bind, hfull, if_neg (by decide)]
    -- the node itself, once whatever comes before it is in place
    have hnode {ms : List (Node g)} {st : MutatorState VecGraph} (h : Copied g ms st.build)
        (points' : List ℕ) (hroom : ∀ v, Node.makes v ms + (p.1.spec.outputs.count v +
          Node.makes v (ps.map Prod.fst)) + points'.length * (15 * g.maxOps) ≤ 65536)
        (hd : p.1.spec.size + Node.total NodeSpec.size (ps.map Prod.fst) +
          points'.length * (3 + 15 * g.maxOps) ≤ st.build.dist.draws.length) :
        ∃ st₁ log st', (appendNode g (placed p)).run st = (.ok (), st₁) ∧
          (spliceLoopLog g (ofList graphs) none (i + 1) points' (ps.map placed)).run st₁ =
            (.ok log, st') := by
      obtain ⟨st₁, hrun, ms₁, hcopied, hsub, hdraws⟩ := run_appendNode h p (by omega) fun v => by
        have := hroom v
        rw [Node.makes_cons, Node.makes_nil]
        omega
      have hdraws' : st.build.dist.draws.length ≤ st₁.build.dist.draws.length + p.1.spec.size := by
        simpa using hdraws
      obtain ⟨log, st', hrest⟩ := ih hcopied (i + 1) points' (fun v => by
        have := hroom v
        have hle : Node.makes v ms₁ ≤ Node.makes v [p.1] := Node.total_le_of_sublist _ hsub
        rw [Node.makes_cons, Node.makes_nil] at hle
        rw [Node.makes_append]
        omega) (by omega)
      exact ⟨st₁, log, st', hrun, hrest⟩
    by_cases hlast : points.getLast? = some i
    · rw [if_pos hlast]
      obtain ⟨init, rfl⟩ := List.getLast?_eq_some_iff.mp hlast
      rw [List.dropLast_concat]
      simp only [List.length_append, List.length_singleton, Nat.add_one_mul init.length] at hroom hd
      obtain ⟨fragment, st₀, ms₀, hfragment, hcopied, hmakes, hdraws⟩ :=
        run_spliceFragmentLog hne hgraphs h (fun v => by have := hroom v; omega) (by omega)
      obtain ⟨st₁, log, st', hrun, hrest⟩ := hnode hcopied init (fun v => by
        have := hroom v
        have := hmakes v
        rw [Node.makes_append]
        omega) (by omega)
      exact ⟨_, st', (run_bind_ok hfragment).trans ((run_bind_ok hrun).trans
        (run_bind_ok hrest))⟩
    · rw [if_neg hlast]
      obtain ⟨st₁, log, st', hrun, hrest⟩ := hnode h points hroom hd
      exact ⟨_, st', (run_bind_ok hrun).trans (run_bind_ok hrest)⟩

def drawsState (draws : List ℕ) : MutatorState VecGraph :=
  ⟨⟨staleState.state, staleState.graph, ⟨draws ++ List.replicate 600 0⟩⟩, []⟩

end Mutator

end Nyx
