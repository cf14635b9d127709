import Nyx.Graph.Storage

/-!
# Edges of a graph and affine op lists

`calc_edges` links every `Get` and `Pass` to the `Set` that made its value. An op list is affine
if every value is made before it is used and is not used after it is taken.
-/

namespace Nyx

open Function

/-- An output of a node. -/
structure SrcVal where
  id : ℕ
  port : UInt16
  deriving DecidableEq, Repr

/-- An input of a node. -/
structure DstVal where
  id : ℕ
  port : UInt16
  deriving DecidableEq, Repr

/-- The state of the walk that collects the edges. -/
structure EdgeState where
  res : List (SrcVal × DstVal)
  idToSrc : ValueTypeID × ConnectorID → Option SrcVal
  lastNode : Option ℕ
  lastOutPort : UInt16
  lastInPort : UInt16
  lastPassPort : UInt16

namespace EdgeState

def init : EdgeState := ⟨[], fun _ => none, none, 0, 0, 0⟩

def unwrapped {α : Type} : Option α → Except Panic α
  | some a => .ok a
  | none => .error .unwrapNone

lemma unwrapped_eq_ok {α : Type} {o : Option α} {a : α} : unwrapped o = .ok a ↔ o = some a := by
  cases o <;> simp [unwrapped]

def step (st : EdgeState) : ℕ × GraphOp → Except Panic EdgeState
  | (i, .node _) => .ok { st with
      lastNode := some i, lastInPort := 0, lastPassPort := 0, lastOutPort := 0 }
  | (_, .set vt id) => do
    let node ← unwrapped st.lastNode
    .ok { st with
      idToSrc := update st.idToSrc (vt, id) (some ⟨node, st.lastOutPort⟩)
      lastOutPort := st.lastOutPort + 1 }
  | (_, .get vt id) => do
    let src ← unwrapped (st.idToSrc (vt, id))
    let node ← unwrapped st.lastNode
    .ok { st with
      res := st.res ++ [(src, ⟨node, st.lastInPort⟩)]
      idToSrc := update st.idToSrc (vt, id) none
      lastInPort := st.lastInPort + 1 }
  | (_, .pass vt id) => do
    let src ← unwrapped (st.idToSrc (vt, id))
    let node ← unwrapped st.lastNode
    .ok { st with
      res := st.res ++ [(src, ⟨node, st.lastPassPort⟩)]
      lastPassPort := st.lastPassPort + 1 }

variable {st : EdgeState} {i k : ℕ} {v : ValueTypeID} {c : ConnectorID} {x : SrcVal}

lemma step_set (hk : st.lastNode = some k) : st.step (i, .set v c) = .ok { st with
    idToSrc := update st.idToSrc (v, c) (some ⟨k, st.lastOutPort⟩)
    lastOutPort := st.lastOutPort + 1 } := by
  simp only [step, hk, unwrapped, except_ok_bind]

lemma step_get (hx : st.idToSrc (v, c) = some x) (hk : st.lastNode = some k) :
    st.step (i, .get v c) = .ok { st with
      res := st.res ++ [(x, ⟨k, st.lastInPort⟩)]
      idToSrc := update st.idToSrc (v, c) none
      lastInPort := st.lastInPort + 1 } := by
  simp only [step, hx, hk, unwrapped, except_ok_bind]

lemma step_pass (hx : st.idToSrc (v, c) = some x) (hk : st.lastNode = some k) :
    st.step (i, .pass v c) = .ok { st with
      res := st.res ++ [(x, ⟨k, st.lastPassPort⟩)]
      lastPassPort := st.lastPassPort + 1 } := by
  simp only [step, hx, hk, unwrapped, except_ok_bind]

end EdgeState

def calcEdges (g : GraphSpec) {S : Type} [GraphStorage S] (s : S) :
    Except Panic (List (SrcVal × DstVal)) := do
  let st ← (GraphStorage.opIter g s).enumerate.foldlM EdgeState.step EdgeState.init
  .ok st.res

/-- The value that an op uses was made and not taken by the ops before it. -/
def Usable (pre : List GraphOp) : GraphOp → Prop
  | .get v c | .pass v c => .set v c ∈ pre ∧ .get v c ∉ pre
  | .set _ _ | .node _ => True

/-- Every value is made before it is used and not used after it is taken. -/
def Affine (ops : List GraphOp) : Prop :=
  ∀ pre op post, ops = pre ++ op :: post → Usable pre op

instance (pre : List GraphOp) (op : GraphOp) : Decidable (Usable pre op) :=
  match op with
  | .get v c | .pass v c => inferInstanceAs (Decidable (.set v c ∈ pre ∧ .get v c ∉ pre))
  | .set _ _ | .node _ => inferInstanceAs (Decidable True)

lemma affine_iff_getElem {ops : List GraphOp} :
    Affine ops ↔ ∀ i : Fin ops.length, Usable (ops.take i) ops[i] := by
  constructor
  · intro h i
    refine h _ _ (ops.drop (i + 1)) ?_
    simp
  · rintro h pre op post rfl
    simpa using h ⟨pre.length, by simp⟩

instance (ops : List GraphOp) : Decidable (Affine ops) := decidable_of_iff' _ affine_iff_getElem

lemma affine_nil : Affine [] := by
  intro pre op post h
  simp at h

lemma affine_concat {ops : List GraphOp} {op : GraphOp} :
    Affine (ops ++ [op]) ↔ Affine ops ∧ Usable ops op := by
  constructor
  · intro h
    refine ⟨fun pre o post he => ?_, h ops op [] rfl⟩
    exact h pre o (post ++ [op]) (by simp [he])
  · rintro ⟨h, hop⟩ pre o post he
    rcases List.eq_nil_or_concat post with rfl | ⟨post, o', rfl⟩
    · obtain ⟨rfl, ho⟩ := List.append_inj' he rfl
      obtain rfl := List.singleton_inj.mp ho
      exact hop
    · have he' : ops ++ [op] = (pre ++ o :: post) ++ [o'] := by simpa using he
      obtain ⟨hops, -⟩ := List.append_inj' he' rfl
      exact h pre o post hops

/-- The state is one after the ops `pre`. -/
structure EdgeState.Tracks (pre : List GraphOp) (st : EdgeState) : Prop where
  node : pre ≠ [] → ∃ i, st.lastNode = some i
  src : ∀ v c, .set v c ∈ pre → .get v c ∉ pre → ∃ x, st.idToSrc (v, c) = some x

lemma EdgeState.tracks_step {pre : List GraphOp} {st : EdgeState} {i : ℕ} {op : GraphOp}
    (h : Tracks pre st) (hop : Usable pre op) (hnode : pre = [] → ∃ n, op = .node n) :
    ∃ st', st.step (i, op) = .ok st' ∧ Tracks (pre ++ [op]) st' := by
  cases op with
  | node n =>
    refine ⟨_, rfl, fun _ => ⟨i, rfl⟩, fun v c hs hg => h.src v c ?_ ?_⟩
    · simpa using hs
    · simpa using hg
  | set v c =>
    obtain ⟨k, hk⟩ := h.node (fun he => by simpa using hnode he)
    refine ⟨_, step_set hk, fun _ => ⟨k, hk⟩, ?_⟩
    intro v' c' hs hg
    by_cases he : (v', c') = (v, c)
    · exact ⟨⟨k, st.lastOutPort⟩, by simp only [he, update_self]⟩
    · have hs' : GraphOp.set v' c' ∈ pre := by
        rcases List.mem_append.mp hs with hs | hs
        · exact hs
        · exact absurd (by simpa using hs) he
      obtain ⟨x, hx⟩ := h.src v' c' hs' (fun hm => hg (List.mem_append_left _ hm))
      exact ⟨x, by simp only [update_of_ne he, hx]⟩
  | get v c =>
    obtain ⟨k, hk⟩ := h.node (fun he => by simpa using hnode he)
    obtain ⟨x, hx⟩ := h.src v c hop.1 hop.2
    refine ⟨_, step_get hx hk, fun _ => ⟨k, hk⟩, ?_⟩
    intro v' c' hs hg
    have he : (v', c') ≠ (v, c) := by
      rintro ⟨⟩
      exact hg (by simp)
    obtain ⟨y, hy⟩ := h.src v' c' (by simpa using hs) (fun hm => hg (List.mem_append_left _ hm))
    exact ⟨y, by simp only [update_of_ne he, hy]⟩
  | pass v c =>
    obtain ⟨k, hk⟩ := h.node (fun he => by simpa using hnode he)
    obtain ⟨x, hx⟩ := h.src v c hop.1 hop.2
    refine ⟨_, step_pass hx hk, fun _ => ⟨k, hk⟩, ?_⟩
    intro v' c' hs hg
    exact h.src v' c' (by simpa using hs) (fun hm => hg (List.mem_append_left _ hm))

lemma EdgeState.foldlM_of_affine {pre post : List GraphOp} {st : EdgeState} {i : ℕ}
    (h : Tracks pre st) (haff : Affine (pre ++ post))
    (hnode : ∀ op ops, pre ++ post = op :: ops → ∃ n, op = .node n) :
    ∃ st', ((post.zipIdx i).map Prod.swap).foldlM step st = .ok st' := by
  induction post generalizing pre st i with
  | nil => exact ⟨st, rfl⟩
  | cons op post ih =>
    have hop : Usable pre op := haff pre op post rfl
    have hfirst : pre = [] → ∃ n, op = .node n := by
      intro he
      exact hnode op post (by simp [he])
    obtain ⟨st', hst, htr⟩ := tracks_step (i := i) h hop hfirst
    obtain ⟨st'', hst'⟩ := ih (i := i + 1) htr (by simpa using haff) (by simpa using hnode)
    refine ⟨st'', ?_⟩
    simp only [List.zipIdx_cons, List.map_cons, Prod.swap_prod_mk, List.foldlM_cons, hst, except_ok_bind]
    exact hst'

lemma opsFrom_nil_head {g : GraphSpec} {xs : List UInt16} {op : GraphOp} {ops : List GraphOp}
    (h : (opsFrom g [] xs).items = op :: ops) : ∃ n, op = .node n := by
  cases xs with
  | nil => simp [opsFrom] at h
  | cons x xs =>
    rw [opsFrom] at h
    split at h
    · exact ⟨x, (List.cons.inj h).1.symm⟩
    · cases h

/-- On an affine op list that is read to its end `calc_edges` never unwraps `None`. -/
theorem calcEdges_of_affine {g : GraphSpec} {S : Type} [GraphStorage S] {s : S}
    (hstop : (GraphStorage.opIter g s).stop = none)
    (haff : Affine (GraphStorage.opIter g s).items) : ∃ edges, calcEdges g s = .ok edges := by
  have hinit : EdgeState.Tracks [] EdgeState.init := ⟨fun h => absurd rfl h, by simp⟩
  have hnode : ∀ op ops, (GraphStorage.opIter g s).items = op :: ops → ∃ n, op = .node n := by
    intro op ops h
    rw [GraphStorage.opIter, opIter_eq_opsFrom] at h
    exact opsFrom_nil_head h
  obtain ⟨st, hst⟩ := EdgeState.foldlM_of_affine (i := 0) hinit haff hnode
  refine ⟨st.res, ?_⟩
  simp only [calcEdges, Iter.foldlM, Iter.enumerate, hst, hstop, except_ok_bind]

end Nyx
