import Mathlib.Data.List.Count
import Nyx.Graph.Builder

/-!
# Built graphs are affine

An id is available to the builder if a `Set` made it and no `Get` took it. The counting argument is
that `required_values` leaves one value for each input and one more to borrow.
-/

namespace Nyx

open Exec (Triple run_gets_bind run_bind)
open Nyx.Distributions (genRange chooseFromIter)

open Function

def created (v : ValueTypeID) (ops : List GraphOp) : ℕ :=
  ops.countP fun op => match op with
    | .set v' _ => v' = v
    | _ => false

lemma created_concat (v : ValueTypeID) (ops : List GraphOp) (op : GraphOp) :
    created v (ops ++ [op]) = created v ops + match op with
      | .set v' _ => if v' = v then 1 else 0
      | _ => 0 := by
  unfold created
  cases op <;> simp [List.countP_cons]

lemma Affine.set_of_get {ops : List GraphOp} (h : Affine ops) {v : ValueTypeID} {c : ConnectorID}
    (hg : .get v c ∈ ops) : .set v c ∈ ops := by
  obtain ⟨pre, post, rfl⟩ := List.append_of_mem hg
  exact List.mem_append_left _ (h pre _ post rfl).1

/-- The values of type `v` that the builder holds, against the ops it has written. -/
structure ValueState.Tracks (v : ValueTypeID) (ops : List GraphOp) (vs : ValueState) : Prop where
  indexed : Indexed vs.newIdsForSampling vs.newIdToIdsIndex
  mem : ∀ c, c ∈ vs.newIdsForSampling ↔ .set v c ∈ ops ∧ .get v c ∉ ops
  curId : vs.curId.toNat = created v ops % 65536
  range : ∀ c, .set v c ∈ ops → created v ops < 65536 → 0 < c.toNat ∧ c.toNat ≤ created v ops
  renamed : ∀ o n, vs.oldIdToNewId o = some n → n ∈ vs.newIdsForSampling ∧ vs.newIdToOldId n = some o

namespace ValueState

variable {v : ValueTypeID} {ops : List GraphOp} {vs : ValueState}

lemma tracks_new (v : ValueTypeID) : Tracks v [] new where
  indexed := indexed_nil
  mem := by simp [new]
  curId := by simp [new, created]
  range := by simp
  renamed := by simp [new]

lemma tracks_clear (v : ValueTypeID) (vs : ValueState) : Tracks v [] vs.clear where
  indexed := indexed_nil
  mem := by simp [clear]
  curId := by simp [clear, created]
  range := by simp
  renamed := by simp [clear]

lemma created_concat_frame {op : GraphOp} (hs : ∀ c, op ≠ .set v c) :
    created v (ops ++ [op]) = created v ops := by
  rw [created_concat]
  cases op with
  | set v' c =>
    have hne : v' ≠ v := fun he => hs c (by rw [he])
    simp [hne]
  | get | pass | node => rfl

lemma Tracks.frame (h : Tracks v ops vs) {op : GraphOp} (hs : ∀ c, op ≠ .set v c)
    (hg : ∀ c, op ≠ .get v c) : Tracks v (ops ++ [op]) vs where
  indexed := h.indexed
  mem := by
    intro c
    rw [h.mem c]
    simp [(hs c).symm, (hg c).symm]
  curId := by rw [h.curId, created_concat_frame hs]
  range := by
    intro c hc
    rw [created_concat_frame hs]
    refine h.range c ?_
    simpa [(hs c).symm] using hc
  renamed := h.renamed

lemma Tracks.toNat_curId_succ (h : Tracks v ops vs) :
    (vs.curId + 1).toNat = (created v ops + 1) % 65536 := by
  rw [UInt16.toNat_add, h.curId]
  simp only [UInt16.toNat_one]
  omega

/-- The last of the `65536` ids is `0`, which a value has never had before. -/
lemma Tracks.fresh (h : Tracks v ops vs) (hlt : created v ops < 65536) :
    .set v (vs.curId + 1) ∉ ops := by
  intro hm
  have hrange := h.range _ hm hlt
  have hsucc := h.toNat_curId_succ
  omega

lemma Tracks.insertNewId (h : Tracks v ops vs) (haff : Affine ops) (hlt : created v ops < 65536) :
    Tracks v (ops ++ [.set v vs.insertNewId.1]) vs.insertNewId.2 := by
  have hfresh := h.fresh hlt
  have hsucc := h.toNat_curId_succ
  have hnotin : vs.curId + 1 ∉ vs.newIdsForSampling := fun hm => hfresh ((h.mem _).mp hm).1
  have hnotget : .get v (vs.curId + 1) ∉ ops := fun hm => hfresh (haff.set_of_get hm)
  refine ⟨?_, ?_, ?_, ?_, ?_⟩
  · have := h.indexed.push hnotin
    simpa [ValueState.insertNewId] using this
  · intro c
    simp only [ValueState.insertNewId, List.mem_append, List.mem_singleton, h.mem c]
    constructor
    · rintro (⟨hs, hg⟩ | rfl)
      · exact ⟨.inl hs, by simpa using hg⟩
      · exact ⟨.inr rfl, by simpa using hnotget⟩
    · rintro ⟨hs | hs, hg⟩
      · exact .inl ⟨hs, fun hm => hg (.inl hm)⟩
      · exact .inr (by simpa using hs)
  · rw [created_concat]
    simp only [ValueState.insertNewId, if_true]
    exact hsucc
  · intro c hc
    rw [created_concat]
    simp only [ValueState.insertNewId, if_true] at hc ⊢
    intro hlt'
    rcases List.mem_append.mp hc with hc | hc
    · have := h.range c hc hlt
      omega
    · have hcc : c = vs.curId + 1 := by simpa using hc
      rw [hcc, hsucc]
      omega
  · intro o n hn
    obtain ⟨hmem, hold⟩ := h.renamed o n hn
    exact ⟨List.mem_append_left _ hmem, hold⟩

lemma Tracks.insertOldId (h : Tracks v ops vs) (haff : Affine ops) (hlt : created v ops < 65536)
    (oldId : ConnectorID) :
    Tracks v (ops ++ [.set v (vs.insertOldId oldId).1]) (vs.insertOldId oldId).2 := by
  have hnew := h.insertNewId haff hlt
  have hnotin : vs.curId + 1 ∉ vs.newIdsForSampling :=
    fun hm => h.fresh hlt ((h.mem _).mp hm).1
  refine ⟨hnew.indexed, hnew.mem, hnew.curId, hnew.range, ?_⟩
  intro o n hn
  simp only [ValueState.insertOldId, ValueState.insertNewId] at hn ⊢
  by_cases ho : o = oldId
  · subst ho
    rw [update_self] at hn
    cases hn
    exact ⟨by simp, by simp⟩
  · rw [update_of_ne ho] at hn
    obtain ⟨hmem, hold⟩ := h.renamed o n hn
    have hne : n ≠ vs.curId + 1 := fun he => hnotin (he ▸ hmem)
    exact ⟨List.mem_append_left _ hmem, by rw [update_of_ne hne]; exact hold⟩

@[simp] lemma forget_ids (vs : ValueState) (id : ConnectorID) :
    (vs.forget id).newIdsForSampling = vs.newIdsForSampling := by
  unfold forget
  split <;> rfl

@[simp] lemma forget_index (vs : ValueState) (id : ConnectorID) :
    (vs.forget id).newIdToIdsIndex = vs.newIdToIdsIndex := by
  unfold forget
  split <;> rfl

@[simp] lemma forget_curId (vs : ValueState) (id : ConnectorID) :
    (vs.forget id).curId = vs.curId := by
  unfold forget
  split <;> rfl

lemma renamed_of_forget {id o n : ConnectorID} (h : (vs.forget id).oldIdToNewId o = some n)
    (hren : vs.oldIdToNewId o = some n → vs.newIdToOldId n = some o) :
    vs.oldIdToNewId o = some n ∧ n ≠ id ∧ (vs.forget id).newIdToOldId n = vs.newIdToOldId n := by
  unfold forget at h ⊢
  cases hold : vs.newIdToOldId id with
  | none =>
    simp only [hold] at h ⊢
    refine ⟨h, fun he => ?_, trivial⟩
    rw [← he, hren h] at hold
    cases hold
  | some old =>
    simp only [hold] at h ⊢
    by_cases ho : o = old
    · rw [ho, update_self] at h
      cases h
    · rw [update_of_ne ho] at h
      have hne : n ≠ id := by
        intro he
        rw [← he, hren h] at hold
        exact ho (Option.some.inj hold)
      exact ⟨h, hne, update_of_ne hne _ _⟩

lemma run_takeNewInput (h : Indexed vs.newIdsForSampling vs.newIdToIdsIndex) {id : ConnectorID}
    (d : Distributions) (hid : id ∈ vs.newIdsForSampling) :
    ∃ i, vs.newIdToIdsIndex id = some i ∧ (ValueState.takeNewInput id).run (vs, d) =
      (.ok id, (ValueState.forget { vs with
        newIdsForSampling := swapRemove vs.newIdsForSampling i
        newIdToIdsIndex :=
          indexAfterRemove vs.newIdsForSampling vs.newIdToIdsIndex id i } id, d)) := by
  obtain ⟨i, hi⟩ := h.exists_index hid
  have hlt : i < vs.newIdsForSampling.length :=
    (List.getElem?_eq_some_iff.mp ((h id i).mp hi)).1
  exact ⟨i, hi, by simp only [Exec.run, ValueState.takeNewInput, hi, if_pos hlt]⟩

lemma Tracks.takeNewInput (h : Tracks v ops vs) {id : ConnectorID} (d : Distributions)
    (hid : id ∈ vs.newIdsForSampling) :
    ∃ vs', (ValueState.takeNewInput id).run (vs, d) = (.ok id, (vs', d)) ∧
      Tracks v (ops ++ [.get v id]) vs' ∧ vs'.numAvailable + 1 = vs.numAvailable := by
  obtain ⟨i, hi, hrun⟩ := run_takeNewInput h.indexed d hid
  have hmem : ∀ c, c ∈ swapRemove vs.newIdsForSampling i ↔ c ∈ vs.newIdsForSampling ∧ c ≠ id :=
    fun c => h.indexed.mem_swapRemove hi
  refine ⟨_, hrun, ?_, ?_⟩
  · refine ⟨?_, ?_, ?_, ?_, ?_⟩
    · simp only [forget_ids, forget_index]
      exact h.indexed.swapRemove hi
    · intro c
      simp only [forget_ids, hmem c, h.mem c, List.mem_append, List.mem_singleton]
      constructor
      · rintro ⟨⟨hs, hg⟩, hne⟩
        refine ⟨.inl hs, ?_⟩
        rintro (hm | hm)
        · exact hg hm
        · exact hne (by simpa using hm)
      · rintro ⟨hs, hg⟩
        refine ⟨⟨by simpa using hs, fun hm => hg (.inl hm)⟩, fun he => hg (.inr (by rw [he]))⟩
    · rw [created_concat]
      simpa using h.curId
    · intro c hc
      rw [created_concat_frame (by simp)]
      exact h.range c (by simpa using hc)
    · intro o n hn
      obtain ⟨ho, hne, hsame⟩ := renamed_of_forget hn (fun ho => (h.renamed o n ho).2)
      obtain ⟨hin, hold⟩ := h.renamed o n ho
      refine ⟨?_, hsame.trans hold⟩
      rw [forget_ids]
      exact (hmem n).mpr ⟨hin, hne⟩
  · have hne : vs.newIdsForSampling ≠ [] := List.ne_nil_of_mem hid
    have hpos := List.length_pos_of_mem hid
    simp only [numAvailable, forget_ids, length_swapRemove hne]
    omega

/-- `m` finds an id that is available and changes nothing. -/
def Finds (vs : ValueState) (m : ValM ConnectorID) : Prop :=
  Triple (fun s => s.1 = vs) m (fun id s => s.1 = vs ∧ id ∈ vs.newIdsForSampling)
    (fun e s => s.1 = vs ∧ ∃ e', e = .other e')

lemma getRandomInput_spec (vs : ValueState) (hne : vs.newIdsForSampling ≠ []) :
    Finds vs getRandomInput := by
  rintro ⟨vs', d⟩ rfl
  have hempty : vs'.newIdsForSampling.isEmpty = false := by simpa using hne
  rw [getRandomInput, run_gets_bind]
  simp only [hempty, Bool.false_eq_true, if_false]
  rw [run_bind]
  have hdraw : (draw (genRange 0 vs'.newIdsForSampling.length)).run (vs', d) =
      (((genRange 0 vs'.newIdsForSampling.length).run d).1.mapError BuildPanic.other,
        (vs', ((genRange 0 vs'.newIdsForSampling.length).run d).2)) := rfl
  rw [hdraw]
  cases (genRange 0 vs'.newIdsForSampling.length).run d |>.1 with
  | error e => exact ⟨rfl, e, rfl⟩
  | ok i =>
    simp only [Except.mapError]
    cases hget : vs'.newIdsForSampling[i]? with
    | none => exact ⟨rfl, _, rfl⟩
    | some id => exact ⟨rfl, List.mem_of_getElem? hget⟩

lemma Tracks.getOldAvailableInput_spec (h : Tracks v ops vs) (hne : vs.newIdsForSampling ≠ [])
    (oldId : ConnectorID) : Finds vs (getOldAvailableInput oldId) := by
  rintro ⟨vs', d⟩ rfl
  rw [getOldAvailableInput, run_gets_bind]
  simp only [getRenamedOldInput]
  cases hold : vs'.oldIdToNewId oldId with
  | some id => exact ⟨rfl, (h.renamed oldId id hold).1⟩
  | none => exact getRandomInput_spec vs' hne (vs', d) rfl

lemma Tracks.take_spec (h : Tracks v ops vs) {m : ValM ConnectorID} (hm : Finds vs m) :
    Triple (fun s => s.1 = vs) (m >>= ValueState.takeNewInput)
      (fun id s => Tracks v (ops ++ [.get v id]) s.1 ∧ s.1.numAvailable + 1 = vs.numAvailable ∧
        .set v id ∈ ops ∧ .get v id ∉ ops)
      (fun e s => s.1 = vs ∧ ∃ e', e = .other e') := by
  refine Triple.bind hm (fun id => ?_)
  rintro ⟨vs', d⟩ ⟨rfl, hid⟩
  obtain ⟨vs'', hrun, htr, hnum⟩ := h.takeNewInput d hid
  rw [hrun]
  exact ⟨htr, hnum, (h.mem id).mp hid⟩

end ValueState

namespace Port

def type : Port → ValueTypeID
  | get v | pass v | set v => v

def taken : Port → ℕ
  | get _ => 1
  | pass _ | set _ => 0

def Needs : Port → Prop
  | get _ | pass _ => True
  | set _ => False

def Fills (p : Port) (m : ValM ConnectorID) : Prop :=
  ∀ ops vs, vs.Tracks p.type ops → Affine ops → (p.Needs → vs.newIdsForSampling ≠ []) →
    Triple (fun s => s.1 = vs) m
      (fun id s => created p.type (ops ++ [p.op id]) ≤ 65536 →
        s.1.Tracks p.type (ops ++ [p.op id]) ∧ Usable ops (p.op id) ∧
          vs.numAvailable ≤ s.1.numAvailable + p.taken)
      (fun e s => s.1 = vs ∧ ∃ e', e = .other e')

variable {v : ValueTypeID}

lemma fills_get {m : ValM ConnectorID}
    (hm : ∀ ops (vs : ValueState), vs.Tracks v ops → vs.newIdsForSampling ≠ [] → vs.Finds m) :
    Fills (get v) (m >>= ValueState.takeNewInput) := by
  intro ops vs htr haff hne
  refine (htr.take_spec (hm ops vs htr (hne trivial))).post ?_
  rintro id s ⟨htr', hnum, husable⟩ -
  exact ⟨htr', husable, hnum.ge⟩

lemma fills_pass {m : ValM ConnectorID}
    (hm : ∀ ops (vs : ValueState), vs.Tracks v ops → vs.newIdsForSampling ≠ [] → vs.Finds m) :
    Fills (pass v) m := by
  intro ops vs htr haff hne
  refine (hm ops vs htr (hne trivial)).post ?_
  rintro id ⟨vs', d⟩ ⟨rfl, hid⟩ -
  exact ⟨htr.frame (by simp [op]) (by simp [op]), (htr.mem id).mp hid, le_rfl⟩

lemma fills_set {f : ValueState → ConnectorID × ValueState}
    (hf : ∀ ops vs, vs.Tracks v ops → Affine ops → created v ops < 65536 →
      (f vs).2.Tracks v (ops ++ [.set v (f vs).1]))
    (hnum : ∀ vs, vs.numAvailable ≤ (f vs).2.numAvailable) :
    Fills (set v) (ValueState.insert f) := by
  rintro ops vs htr haff - ⟨vs', d⟩ rfl hle
  have hlt : created v ops < 65536 := by
    rw [created_concat] at hle
    simp only [type, op, if_true] at hle
    omega
  exact ⟨hf ops vs' htr haff hlt, trivial, hnum vs'⟩

def random : Port → ValM ConnectorID
  | get _ => ValueState.takeRandomInput
  | pass _ => ValueState.getRandomInput
  | set _ => ValueState.insert ValueState.insertNewId

lemma fills_random (p : Port) : Fills p p.random := by
  cases p with
  | get v => exact fills_get fun _ vs _ hne => ValueState.getRandomInput_spec vs hne
  | pass v => exact fills_pass fun _ vs _ hne => ValueState.getRandomInput_spec vs hne
  | set v =>
    exact fills_set (fun _ _ htr haff hlt => htr.insertNewId haff hlt)
      (fun vs => by simp [ValueState.numAvailable, ValueState.insertNewId])

end Port

def written (g : GraphSpec) (st : BuildState VecGraph) : List GraphOp :=
  (opsFrom g [] st.graph.ops).items

/-- The invariant of the builder in a node that waits for the ports `ps`. -/
structure Building (g : GraphSpec) (ps : List Port) (st : BuildState VecGraph) : Prop where
  stop : (opsFrom g [] st.graph.ops).stop = none
  ports : openPorts g [] st.graph.ops = ps
  affine : Affine (written g st)
  values : ∀ v, (st.state.getState v).Tracks v (written g st)
  bound : ∀ v, created v (written g st) ≤ 65536
  enough : ∀ v, ps.count (.get v) + (if .pass v ∈ ps then 1 else 0) ≤
    (st.state.getState v).numAvailable

def Over (g : GraphSpec) (st : BuildState VecGraph) : Prop :=
  ∃ v, 65536 < created v (written g st)

def Sound (g : GraphSpec) (ps : List Port) (st : BuildState VecGraph) : Prop :=
  Over g st ∨ Building g ps st

def SoundPanic (g : GraphSpec) (e : BuildPanic) (st : BuildState VecGraph) : Prop :=
  Over g st ∨ (∃ e', e = .other e') ∧ ∃ ps, Building g ps st

lemma getState_update (st : GraphState) (v v' : ValueTypeID) (vs : ValueState) :
    GraphState.getState (update st v (some vs)) v' =
      if v' = v then vs else st.getState v' := by
  unfold GraphState.getState
  by_cases h : v' = v
  · subst h; simp
  · simp [h]

lemma created_le_of_isPrefix {v : ValueTypeID} {ops ops' : List GraphOp} (h : ops <+: ops') :
    created v ops ≤ created v ops' := h.sublist.countP_le

variable {g : GraphSpec} {st st' : BuildState VecGraph}

lemma Over.append {xs : List UInt16}
    (h : Over g st) (hops : st'.graph.ops = st.graph.ops ++ xs) : Over g st' := by
  obtain ⟨v, hv⟩ := h
  refine ⟨v, hv.trans_le (created_le_of_isPrefix ?_)⟩
  unfold written
  rw [hops]
  exact items_append_isPrefix _ _ _ _

variable {ps : List Port}

lemma Building.congr (h : Building g ps st) (hops : st'.graph.ops = st.graph.ops)
    (hstate : ∀ v, st'.state.getState v = st.state.getState v) : Building g ps st' := by
  have hw : written g st' = written g st := by unfold written; rw [hops]
  refine ⟨by rw [hops]; exact h.stop, by rw [hops]; exact h.ports, by rw [hw]; exact h.affine, ?_,
    by rw [hw]; exact h.bound, ?_⟩
  · intro v
    rw [hw, hstate]
    exact h.values v
  · intro v
    rw [hstate]
    exact h.enough v

lemma Building.ne_nil {p : Port} (h : Building g (p :: ps) st) (hneeds : p.Needs) :
    (st.state.getState p.type).newIdsForSampling ≠ [] := by
  have henough := h.enough p.type
  have hpos : 0 < (st.state.getState p.type).numAvailable := by
    cases p with
    | get v => simp [Port.type] at henough; exact Nat.lt_of_lt_of_le (by omega) henough
    | pass v => simp [Port.type] at henough; exact Nat.lt_of_lt_of_le (by omega) henough
    | set v => cases hneeds
  exact List.ne_nil_of_length_pos hpos

lemma Sound.congr (h : Sound g ps st) (hops : st'.graph.ops = st.graph.ops)
    (hstate : ∀ v, st'.state.getState v = st.state.getState v) : Sound g ps st' := by
  rcases h with h | h
  · exact .inl (h.append (by rw [hops, List.append_nil]))
  · exact .inr (h.congr hops hstate)

lemma written_concat {p : Port} {x : UInt16} (hstop : (opsFrom g [] st.graph.ops).stop = none)
    (hports : openPorts g [] st.graph.ops = p :: ps) (hops : st'.graph.ops = st.graph.ops ++ [x]) :
    written g st' = written g st ++ [p.op x] ∧ (opsFrom g [] st'.graph.ops).stop = none ∧
      openPorts g [] st'.graph.ops = ps := by
  unfold written
  rw [hops, opsFrom_append hstop, openPorts_append hstop, hports]
  exact ⟨rfl, rfl, rfl⟩

lemma Port.enough_tail {p : Port} {v : ValueTypeID} {n n' : ℕ}
    (h : (p :: ps).count (.get v) + (if .pass v ∈ p :: ps then 1 else 0) ≤ n)
    (hn : n ≤ n' + if v = p.type then p.taken else 0) :
    ps.count (.get v) + (if .pass v ∈ ps then 1 else 0) ≤ n' := by
  have hpass : (if Port.pass v ∈ ps then 1 else 0) ≤ if Port.pass v ∈ p :: ps then 1 else 0 := by
    by_cases hm : Port.pass v ∈ ps <;> simp [hm]
  rw [List.count_cons] at h
  cases p with
  | get v' =>
    by_cases hv : v' = v
    · subst hv
      simp only [Port.type, Port.taken, if_true, beq_self_eq_true] at hn h
      omega
    · have hne : v ≠ v' := fun he => hv he.symm
      simp only [Port.type, hne, if_false] at hn
      omega
  | pass v' | set v' =>
    simp only [Port.taken, ite_self] at hn
    omega

lemma Port.tracks_other {p : Port} {v : ValueTypeID} {ops : List GraphOp} {vs : ValueState}
    (h : vs.Tracks v ops) (hv : v ≠ p.type) (id : ConnectorID) :
    vs.Tracks v (ops ++ [p.op id]) := by
  apply h.frame
  · intro c he
    cases p <;> simp_all [Port.op, Port.type]
  · intro c he
    cases p <;> simp_all [Port.op, Port.type]

namespace GraphBuilder

variable {g : GraphSpec} {p : Port} {ps : List Port}

lemma run_onValue {α : Type} (v : ValueTypeID) (m : ValM α) (st : BuildState VecGraph) :
    (onValue v m).run st = ((m.run (st.state.getState v, st.dist)).1,
      { st with
        state := update st.state v (some (m.run (st.state.getState v, st.dist)).2.1)
        dist := (m.run (st.state.getState v, st.dist)).2.2 }) := rfl

lemma run_onGraph {S α : Type} [GraphStorage S] (m : GenM S α) (st : BuildState S) :
    (onGraph m).run st = ((m.run (st.graph, st.dist)).1.mapError BuildPanic.other,
      { st with
        graph := (m.run (st.graph, st.dist)).2.1
        dist := (m.run (st.graph, st.dist)).2.2 }) := rfl

lemma run_appendOp (x : UInt16) (st : BuildState VecGraph) :
    (appendOp x).run st =
      (.ok (), { st with graph := { st.graph with ops := st.graph.ops ++ [x] } }) := rfl

lemma fill_spec {m : ValM ConnectorID} (hm : p.Fills m) :
    Triple (Sound g (p :: ps)) (onValue p.type m >>= appendOp) (fun _ => Sound g ps)
      (SoundPanic g) := by
  intro st hst
  set vs := st.state.getState p.type with hvs
  rw [run_bind, run_onValue, ← hvs]
  rcases hst with hover | hb
  · -- too many values were made before: the op list only grows
    cases (m.run (vs, st.dist)).1 with
    | error e => exact .inl (hover.append (List.append_nil _).symm)
    | ok id => exact .inl (hover.append rfl)
  have hspec := hm _ vs (hb.values p.type) hb.affine hb.ne_nil (vs, st.dist) rfl
  rcases hr : m.run (vs, st.dist) with ⟨r, vs', d⟩
  rw [hr] at hspec
  cases r with
  | error e =>
    obtain ⟨rfl, e', rfl⟩ := hspec
    refine .inr ⟨⟨e', rfl⟩, p :: ps, hb.congr rfl ?_⟩
    intro v
    simp only [getState_update]
    split
    · rename_i hv
      rw [hv]
    · rfl
  | ok id =>
    simp only [run_appendOp]
    set st' : BuildState VecGraph :=
      ⟨update st.state p.type (some vs'), ⟨st.graph.ops ++ [id], st.graph.data⟩, d⟩
    have hstate : ∀ v, st'.state.getState v = if v = p.type then vs' else st.state.getState v :=
      fun v => getState_update _ _ _ _
    obtain ⟨hw, hstop, hports⟩ := written_concat hb.stop hb.ports (rfl : st'.graph.ops = st.graph.ops ++ [id])
    by_cases hover : Over g st'
    · exact .inl hover
    obtain ⟨htr, husable, hnum⟩ := hspec (by
      by_contra hlt
      exact hover ⟨p.type, by rw [hw]; exact Nat.lt_of_not_le hlt⟩)
    refine .inr ⟨hstop, hports, ?_, ?_, ?_, ?_⟩
    · rw [hw]
      exact affine_concat.mpr ⟨hb.affine, husable⟩
    · intro v
      rw [hw, hstate]
      split
      · rename_i hv
        rw [hv]
        exact htr
      · rename_i hv
        exact Port.tracks_other (hb.values v) hv id
    · intro v
      by_contra hle
      exact hover ⟨v, by omega⟩
    · intro v
      refine Port.enough_tail (hb.enough v) ?_
      rw [hstate]
      split
      · rename_i hv
        rw [hv]
        exact hnum
      · simp

lemma count_get_ports (n : NodeSpec) (v : ValueTypeID) :
    n.ports.count (.get v) = n.inputs.count v := by
  have hget : (n.inputs.map Port.get).count (.get v) = n.inputs.count v :=
    List.count_map_of_injective _ _ (fun _ _ h => Port.get.inj h) _
  have hpass : (n.passthroughs.map Port.pass).count (.get v) = 0 := by
    rw [List.count_eq_zero]; simp
  have hset : (n.outputs.map Port.set).count (.get v) = 0 := by
    rw [List.count_eq_zero]; simp
  rw [NodeSpec.ports, List.count_append, List.count_append, hget, hpass, hset, Nat.add_zero]

lemma pass_mem_ports (n : NodeSpec) (v : ValueTypeID) : .pass v ∈ n.ports ↔ v ∈ n.passthroughs := by
  simp [NodeSpec.ports]

lemma enough_of_isAvailable {st : GraphState} {id : NodeTypeID} {n : NodeSpec}
    (hn : g.getNode id = .ok n) (h : st.isAvailable g id) (v : ValueTypeID) :
    n.ports.count (.get v) + (if .pass v ∈ n.ports then 1 else 0) ≤
      (st.getState v).numAvailable := by
  simp only [count_get_ports, pass_mem_ports]
  have hlookup := lookup_requiredValuesOf n.passthroughs n.inputs v
  rw [← n.requiredValues_eq] at hlookup
  by_cases hv : v ∈ n.passthroughs ∨ v ∈ n.inputs
  · rw [if_pos hv] at hlookup
    have hentry := AList.mem_lookup_iff.mp (Option.mem_def.mpr hlookup)
    unfold GraphState.isAvailable at h
    rw [hn] at h
    have hall := List.all_eq_true.mp h _ hentry
    unfold GraphState.getState
    cases hst : st v with
    | none => simp [hst] at hall
    | some vs => simpa [hst] using hall
  · have hi : v ∉ n.inputs := fun hm => hv (.inr hm)
    have hp : v ∉ n.passthroughs := fun hm => hv (.inl hm)
    simp [List.count_eq_zero_of_not_mem hi, hp]

lemma open_spec {id : NodeTypeID} {n : NodeSpec} (hn : g.getNode id = .ok n) :
    Triple (fun st => Sound g [] st ∧ st.state.isAvailable g id = true) (appendOp id)
      (fun _ => Sound g n.ports) (SoundPanic g) := by
  rintro st ⟨hover | hb, havail⟩
  · exact .inl (hover.append rfl)
  · rw [run_appendOp]
    set st' : BuildState VecGraph := ⟨st.state, ⟨st.graph.ops ++ [id], st.graph.data⟩, st.dist⟩
    have hitems : opsFrom g [] st'.graph.ops =
        ⟨written g st ++ [.node id], none⟩ := by
      rw [opsFrom_append hb.stop, hb.ports]
      simp [opsFrom, hn, written]
    have hw : written g st' = written g st ++ [.node id] := by rw [written, hitems]
    refine .inr ⟨by rw [hitems], ?_, ?_, ?_, ?_, fun v => enough_of_isAvailable hn havail v⟩
    · rw [openPorts_append hb.stop, hb.ports]
      simp [openPorts, hn]
    · rw [hw]
      exact affine_concat.mpr ⟨hb.affine, trivial⟩
    · intro v
      rw [hw]
      exact (hb.values v).frame (by simp) (by simp)
    · intro v
      rw [hw, created_concat]
      exact hb.bound v

lemma relink_spec (p : Port) (ps : List Port) (c : ConnectorID) :
    Triple (Sound g (p :: ps)) (renameAndRelinkOpVal (p.op c) >>= appendOp) (fun _ => Sound g ps)
      (SoundPanic g) := by
  cases p with
  | get v => exact fill_spec (Port.fills_get fun _ _ htr hne => htr.getOldAvailableInput_spec hne c)
  | pass v => exact fill_spec (Port.fills_pass fun _ _ htr hne => htr.getOldAvailableInput_spec hne c)
  | set v =>
    exact fill_spec (Port.fills_set (fun _ _ htr haff hlt => htr.insertOldId haff hlt c) fun vs => by
      simp [ValueState.numAvailable, ValueState.insertOldId, ValueState.insertNewId])

lemma start_spec : Triple (fun _ => True) start (fun _ => Sound g []) (SoundPanic g) := by
  rintro st -
  refine .inr ⟨rfl, rfl, affine_nil, ?_, ?_, ?_⟩
  · intro v
    show ((st.state v).map ValueState.clear |>.getD ValueState.new).Tracks v []
    cases st.state v with
    | none => exact ValueState.tracks_new v
    | some vs => exact ValueState.tracks_clear v vs
  · intro v
    show created v [] ≤ 65536
    simp [created]
  · intro v
    simp

lemma opsFrom_of_length (ps : List Port) (cs : List ConnectorID) (h : cs.length = ps.length) :
    opsFrom g ps cs = ⟨List.zipWith Port.op ps cs, none⟩ := by
  induction ps generalizing cs with
  | nil =>
    obtain rfl := List.length_eq_zero_iff.mp h
    rfl
  | cons p ps ih =>
    cases cs with
    | nil => simp at h
    | cons c cs => simp [opsFrom, ih cs (by simpa using h)]

lemma openPorts_of_length_le (ps : List Port) (cs : List ConnectorID) (h : cs.length ≤ ps.length) :
    openPorts g ps cs = ps.drop cs.length ∧ (opsFrom g ps cs).stop = none := by
  induction cs generalizing ps with
  | nil => simp [openPorts, opsFrom]
  | cons c cs ih =>
    cases ps with
    | nil => simp at h
    | cons p ps => exact ih ps (by simpa using h)

lemma opIter_node (n : Node g) :
    opIter g n.ops = ⟨.node n.id :: List.zipWith Port.op n.spec.ports n.connectors, none⟩ := by
  rw [opIter_eq_opsFrom, Node.ops, opsFrom, n.get]
  simp only [opsFrom_of_length _ _ n.length_connectors_ports]

lemma node_of_mem_layout {n : GraphNode} {ns : List (Node g)} {opI : ℕ}
    (h : n ∈ Node.layout opI ns) : ∃ (m : Node g) (i : ℕ), n = m.place i := by
  induction ns generalizing opI with
  | nil => simp [Node.layout] at h
  | cons m ns ih =>
    rcases List.mem_cons.mp h with rfl | h
    · exact ⟨m, opI, rfl⟩
    · exact ih h

lemma node_of_mem_nodeIter {n : GraphNode} {ops : List UInt16} {data : List UInt8}
    (h : n ∈ (nodeIter g ops data).items) : ∃ (m : Node g) (i : ℕ), n = m.place i := by
  obtain ⟨ns, -, -, hitems, -⟩ := nodes_of_nodeIter g ops data
  rw [hitems] at h
  exact node_of_mem_layout h

/-- What makes `I`, which may depend on the ports that wait, hold whatever the builder does. -/
structure Rules {S : Type} [GraphStorage S] (g : GraphSpec) (I : List Port → BuildState S → Prop)
    (E : BuildPanic → BuildState S → Prop) : Prop where
  start : Triple (fun _ => True) start (fun _ => I []) E
  node : ∀ {id n}, g.getNode id = .ok n →
    Triple (fun st => I [] st ∧ st.state.isAvailable g id = true) (appendOp id)
      (fun _ => I n.ports) E
  old : ∀ p ps c, Triple (I (p :: ps)) (renameAndRelinkOpVal (p.op c) >>= appendOp) (fun _ => I ps) E
  random : ∀ p ps, Triple (I (p :: ps)) (onValue p.type p.random >>= appendOp) (fun _ => I ps) E
  data : ∀ {ps st graph} dist, I ps st → GraphStorage.opsAsSlice graph =
    GraphStorage.opsAsSlice st.graph → I ps ⟨st.state, graph, dist⟩
  panic : ∀ {ps st} e, I ps st → E (.other e) st

lemma rules_sound : Rules g (Sound g) (SoundPanic g) where
  start := start_spec
  node := open_spec
  old := relink_spec
  random p _ := fill_spec p.fills_random
  data _ h hops := h.congr hops fun _ => rfl
  panic e h := h.imp id fun hb => ⟨⟨e, rfl⟩, _, hb⟩

namespace Rules

variable {S α : Type} [GraphStorage S] {I : List Port → BuildState S → Prop}
  {E : BuildPanic → BuildState S → Prop} (h : Rules g I E)

include h

lemma onGraph {m : GenM S α}
    (hm : ∀ s, GraphStorage.opsAsSlice (m.run s).2.1 = GraphStorage.opsAsSlice s.1) :
    Triple (I ps) (onGraph m) (fun _ => I ps) E := by
  intro st hst
  have hnext := h.data (m.run (st.graph, st.dist)).2.2 hst (hm (st.graph, st.dist))
  rw [run_onGraph]
  rcases hr : m.run (st.graph, st.dist) with ⟨r, s', d⟩
  rw [hr] at hnext
  cases r with
  | ok a => exact hnext
  | error e => exact h.panic e hnext

lemma appendSlice (n : Node g) :
    Triple (fun st => I [] st ∧ st.state.isAvailable g n.id = true) (appendSlice g n.ops)
      (fun _ => I []) E := by
  have hports : ∀ (ps : List Port) (cs : List ConnectorID), cs.length = ps.length →
      Triple (I ps) (Exec.forEach (List.zipWith Port.op ps cs) fun op =>
        renameAndRelinkOpVal op >>= appendOp) (fun _ => I []) E := by
    intro ps
    induction ps with
    | nil => exact fun cs _ => Triple.skip
    | cons p ps ih =>
      intro cs hlen
      cases cs with
      | nil => simp at hlen
      | cons c cs => exact Triple.bind (h.old p ps c) fun _ => ih cs (by simpa using hlen)
  have hall : Triple (fun st => I [] st ∧ st.state.isAvailable g n.id = true)
      (Exec.forEach (.node n.id :: List.zipWith Port.op n.spec.ports n.connectors) fun op =>
        renameAndRelinkOpVal op >>= appendOp) (fun _ => I []) E :=
    Triple.bind (h.node n.get) fun _ => hports _ _ n.length_connectors_ports
  unfold GraphBuilder.appendSlice forItems
  rw [opIter_node]
  exact Triple.bind hall fun _ => Triple.skip

lemma copy (n : Node g) (opI : ℕ) {rest : BuildM S α} {a : α}
    (hrest : Triple (I []) rest (fun _ => I []) E) :
    Triple (I []) (Exec.gets (canAppendNode g (n.place opI)) >>= fun can =>
      if can then GraphBuilder.appendSlice g (n.place opI).ops >>= fun _ => rest else pure a)
      (fun _ => I []) E := by
  intro st hst
  rw [run_gets_bind]
  cases hcan : canAppendNode g (n.place opI) st with
  | false => exact hst
  | true =>
    have havail : st.state.isAvailable g n.id = true := by
      simp only [canAppendNode, Bool.and_eq_true] at hcan
      exact hcan.1
    exact Triple.bind (h.appendSlice n) (fun _ => hrest) st ⟨hst, havail⟩

lemma appendNode (n : Node g) (opI : ℕ) :
    Triple (I []) (appendNode g (n.place opI)) (fun _ => I []) E := by
  refine h.copy n opI (Triple.bind (h.onGraph ?_) fun _ => Triple.skip)
  intro s
  exact (appends_appendData _ s).1

lemma appendNodeMutated (n : Node g) (opI : ℕ) (dict : CustomDict) :
    Triple (I []) (appendNodeMutated g (n.place opI) dict) (fun _ => I []) E := by
  refine h.copy n opI ?_
  have hget : g.getNode (n.place opI).id = .ok n.spec := n.get
  simp only [hget]
  cases hdata : n.spec.data with
  | none => exact Triple.skip
  | some d =>
    cases hd : g.getData d with
    | error e =>
      simp only [hd]
      exact fun _ => h.panic _
    | ok spec =>
      simp only [hd]
      exact h.onGraph fun s => (AtomicDataType.appends_appendMutated _ _ _ s).1

lemma copyNode (n : Node g) (opI : ℕ) :
    Triple (I []) (copyNode g (n.place opI)) (fun _ => I []) E := by
  refine h.copy n opI ?_
  intro st hst
  refine h.data st.dist hst ?_
  cases happend : GraphStorage.appendData st.graph (n.place opI).data with
  | none => rfl
  | some t => exact GraphStorage.ops_appendData _ _ _ happend

lemma dropNodeAt (frag : VecGraph) (index : ℕ) :
    Triple (fun _ => True) (dropNodeAt g frag index) (fun _ => I []) E := by
  refine Triple.bind h.start fun _ => Triple.bind (Triple.forEach_const ?_) fun _ => ?_
  · rintro ⟨i, n⟩ hn
    obtain ⟨⟨n', i'⟩, hmem, heq⟩ := List.mem_map.mp hn
    cases heq
    obtain ⟨m, j, rfl⟩ := node_of_mem_nodeIter (List.fst_mem_of_mem_zipIdx hmem)
    show Triple _ (if i' ≠ index then GraphBuilder.copyNode g (m.place j) else pure ()) _ _
    split
    · exact h.copyNode m j
    · exact Triple.skip
  · split
    · exact Triple.skip
    · exact fun _ => h.panic _

lemma appendPorts {m : ValM ConnectorID} (port : ValueTypeID → Port)
    (hport : ∀ v, (port v).type = v ∧ (port v).random = m) (vs : List ValueTypeID) :
    Triple (I (vs.map port ++ ps)) (appendPorts vs m) (fun _ => I ps) E := by
  induction vs with
  | nil => exact Triple.skip
  | cons v vs ih =>
    refine Triple.bind ?_ fun _ => ih
    have hfill := h.random (port v) (vs.map port ++ ps)
    rwa [(hport v).1, (hport v).2] at hfill

lemma canGenerateNode (n : NodeSpec) {P : BuildState S → Prop} (hP : ∀ st, P st → I [] st) :
    Triple P (canGenerateNode g n) (fun _ => P) E := by
  intro st hst
  rw [GraphBuilder.canGenerateNode, run_gets_bind]
  split
  · next heq =>
    split at heq
    · cases heq; exact hst
    · split at heq
      · cases heq
      · cases heq; exact hst
  · next heq =>
    split at heq
    · cases heq
    · split at heq
      · cases heq
        exact h.panic _ (hP st hst)
      · cases heq

lemma appendRandomNode (id : NodeTypeID) :
    Triple (fun st => I [] st ∧ st.state.isAvailable g id = true) (appendRandomNode g id)
      (fun _ => I []) E := by
  unfold GraphBuilder.appendRandomNode
  cases hn : g.getNode id with
  | error e => exact Triple.pure fun _ h => h.1
  | ok n =>
    refine Triple.bind (h.canGenerateNode n fun _ h => h.1) fun can => ?_
    cases can with
    | false => exact Triple.pure fun _ h => h.1
    | true =>
      have hports : n.ports = n.inputs.map Port.get ++
          (n.passthroughs.map Port.pass ++ (n.outputs.map Port.set ++ [])) := by
        simp [NodeSpec.ports]
      have hopen := h.node hn
      rw [hports] at hopen
      refine Triple.bind hopen fun _ =>
        Triple.bind (h.appendPorts Port.get (fun _ => ⟨rfl, rfl⟩) _) fun _ =>
        Triple.bind (h.appendPorts Port.pass (fun _ => ⟨rfl, rfl⟩) _) fun _ =>
        Triple.bind (h.appendPorts Port.set (fun _ => ⟨rfl, rfl⟩) _) fun _ => ?_
      cases hdata : n.data with
      | none => exact Triple.skip
      | some d =>
        cases hd : g.getData d with
        | error e =>
          simp only [hd]
          exact fun _ => h.panic _
        | ok spec =>
          simp only [hd]
          have hwf := g.data_wf _ _ (GraphSpec.getData_eq_ok.mp hd)
          refine Triple.bind (h.onGraph fun s => ?_) fun _ => Triple.skip
          exact (AtomicDataType.appends_appendGenerate g _ _ _ hwf s).1

lemma pickAvailableType :
    Triple (I []) (pickAvailableType g)
      (fun r st => I [] st ∧ ∀ id, r = .ok id → st.state.isAvailable g id = true) E := by
  intro st hst
  rw [GraphBuilder.pickAvailableType, run_gets_bind]
  set ids := (g.nodeSpecs.filter fun n => st.state.isAvailable g n.id).map NodeSpec.id with hids
  have hrun : (draw (chooseFromIter ids)).run st =
      (((chooseFromIter ids).run st.dist).1.mapError BuildPanic.other,
        { st with dist := ((chooseFromIter ids).run st.dist).2 }) := rfl
  have hspec := Distributions.chooseFromIter_spec ids st.dist trivial
  rw [run_bind, hrun]
  rcases hr : (chooseFromIter ids).run st.dist with ⟨r, d⟩
  rw [hr] at hspec
  have hnext : I [] { st with dist := d } := h.data d hst rfl
  cases r with
  | error e => exact h.panic e hnext
  | ok o =>
    cases o with
    | none => exact ⟨hnext, by rintro id ⟨⟩⟩
    | some id =>
      refine ⟨hnext, ?_⟩
      rintro _ ⟨⟩
      obtain ⟨n, hn, rfl⟩ := List.mem_map.mp (hids ▸ hspec id rfl)
      exact (List.mem_filter.mp hn).2

lemma appendRandom (n : ℕ) : Triple (I []) (appendRandom g n) (fun _ => I []) E := by
  induction n with
  | zero => exact Triple.skip
  | succ n ih =>
    have hfull : Triple (I []) (Exec.gets (isFull g)) (fun _ => I []) E := Triple.gets fun _ h => h
    refine Triple.bind hfull fun full => ?_
    split
    · exact Triple.skip
    refine Triple.bind h.pickAvailableType fun picked => ?_
    cases picked with
    | error e => exact Triple.pure fun _ h => h.1
    | ok id =>
      refine Triple.bind ((h.appendRandomNode id).pre fun _ h => ⟨h.1, h.2 id rfl⟩) fun r => ?_
      cases r with
      | error e => exact Triple.skip
      | ok u => exact ih

end Rules

end GraphBuilder

/-- A node of some graph. -/
structure TakenNode (g : GraphSpec) where
  source : VecGraph
  node : GraphNode
  mem : node ∈ (GraphStorage.nodeIter g source).items

inductive BuilderOp (g : GraphSpec) where
  | appendNode (n : TakenNode g)
  | appendNodeMutated (n : TakenNode g) (dict : CustomDict)
  | appendRandom (n : ℕ)
  | dropNodeAt (frag : VecGraph) (index : ℕ)

def BuilderOp.perform {g : GraphSpec} {S : Type} [GraphStorage S] : BuilderOp g → BuildM S Unit
  | appendNode n => do
    let _ ← GraphBuilder.appendNode g n.node
  | appendNodeMutated n dict => GraphBuilder.appendNodeMutated g n.node dict
  | appendRandom n => do
    let _ ← GraphBuilder.appendRandom g n
  | dropNodeAt frag index => GraphBuilder.dropNodeAt g frag index

def build {g : GraphSpec} {S : Type} [GraphStorage S] (ops : List (BuilderOp g)) : BuildM S Unit := do
  GraphBuilder.start
  Exec.forEach ops BuilderOp.perform

namespace GraphBuilder.Rules

variable {S : Type} [GraphStorage S] {I : List Port → BuildState S → Prop}
  {E : BuildPanic → BuildState S → Prop} (h : Rules g I E)

include h

lemma perform (op : BuilderOp g) : Triple (I []) op.perform (fun _ => I []) E := by
  cases op with
  | appendNode n =>
    obtain ⟨m, i, hm⟩ := node_of_mem_nodeIter n.mem
    exact Triple.bind (hm ▸ h.appendNode m i) fun _ => Triple.skip
  | appendNodeMutated n dict =>
    obtain ⟨m, i, hm⟩ := node_of_mem_nodeIter n.mem
    have hspec := h.appendNodeMutated m i dict
    rw [← hm] at hspec
    exact hspec
  | appendRandom n => exact Triple.bind (h.appendRandom n) fun _ => Triple.skip
  | dropNodeAt frag index => exact (h.dropNodeAt frag index).pre fun _ _ => trivial

lemma build (ops : List (BuilderOp g)) : Triple (fun _ => True) (build ops) (fun _ => I []) E :=
  Triple.bind h.start fun _ => Triple.forEach_const fun op _ => h.perform op

end GraphBuilder.Rules

/-- Whatever the state of the builder before and whatever is drawn, a sequence of operations on an
unbounded graph does not reach the panics of the value state and leaves an affine op list, also when
it ends in another panic. -/
theorem build_affine (g : GraphSpec) (ops : List (BuilderOp g)) (st : BuildState VecGraph)
    (hids : ∀ v, created v (opIter g ((build ops).run st).2.graph.ops).items < 65535) :
    (∀ id, ((build ops).run st).1 ≠ .error (.unknownNewId id)) ∧
      ((build ops).run st).1 ≠ .error .couldnGetRandomInput ∧
      (opIter g ((build ops).run st).2.graph.ops).stop = none ∧
      Affine (opIter g ((build ops).run st).2.graph.ops).items ∧
      ∃ edges, calcEdges g ((build ops).run st).2.graph = .ok edges := by
  have hspec := GraphBuilder.rules_sound.build ops st trivial
  rcases hr : (build ops).run st with ⟨r, st'⟩
  rw [hr] at hspec hids
  have hnot : ¬Over g st' := by
    rintro ⟨v, hv⟩
    have := hids v
    rw [opIter_eq_opsFrom] at this
    exact absurd this (Nat.not_lt.mpr ((by decide : 65535 ≤ 65536).trans hv.le))
  have hbuilt : ∀ ps, Building g ps st' → (opIter g st'.graph.ops).stop = none ∧
      Affine (opIter g st'.graph.ops).items ∧ ∃ edges, calcEdges g st'.graph = .ok edges := by
    intro ps hb
    have hstop : (opIter g st'.graph.ops).stop = none := by rw [opIter_eq_opsFrom]; exact hb.stop
    have haff : Affine (opIter g st'.graph.ops).items := by rw [opIter_eq_opsFrom]; exact hb.affine
    exact ⟨hstop, haff, calcEdges_of_affine hstop haff⟩
  cases r with
  | ok u =>
    have hb := hspec.resolve_left hnot
    exact ⟨by simp, by simp, hbuilt _ hb⟩
  | error e =>
    obtain ⟨⟨e', rfl⟩, ps, hb⟩ := hspec.resolve_left hnot
    exact ⟨by simp, by simp, hbuilt ps hb⟩

def fileLoader : SpecLoader where
  checksum := 0
  nodes := [⟨"open", none, [], [], [0]⟩, ⟨"write", none, [], [0], []⟩, ⟨"close", none, [0], [], []⟩]
  edges := [⟨"file"⟩]
  atomics := []

def fileSpec : GraphSpec :=
  match fileLoader.toGraphSpec with
  | .ok g => g
  | .error _ => GraphSpec.new

def fileState : BuildState VecGraph := ⟨fun _ => none, VecGraph.empty, ⟨[0, 1, 0, 2, 0, 0]⟩⟩

theorem build_affine_fileSpec :
    ((build (g := fileSpec) [.appendRandom 4]).run fileState).2.graph.ops = [0, 1, 1, 1, 2, 1, 0, 2] ∧
      Affine (opIter fileSpec
        ((build (g := fileSpec) [.appendRandom 4]).run fileState).2.graph.ops).items := by
  have hops : ((build (g := fileSpec) [.appendRandom 4]).run fileState).2.graph.ops =
      [0, 1, 1, 1, 2, 1, 0, 2] := by decide +kernel
  refine ⟨hops, (build_affine fileSpec [.appendRandom 4] fileState fun v => ?_).2.2.2.1⟩
  have hlen : (opIter fileSpec
      ((build (g := fileSpec) [.appendRandom 4]).run fileState).2.graph.ops).items.length = 8 := by
    decide +kernel
  exact (List.countP_le_length.trans hlen.le).trans_lt (by decide)

end Nyx
