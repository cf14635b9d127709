import Nyx.Lib.Machine
import Nyx.Graph.Affine

/-!
# Relinking

The builder remembers which new id an old one was renamed to, so that the inputs of the nodes that
follow can be linked as they were. This is about its two maps over all that is done since `start`.
-/

namespace Nyx

open Exec (Triple Keeps)

open GraphBuilder

/-- What the operations of the builder do to the values: they relink an op of a node that is copied,
or they fill a port of a random node. -/
inductive RelinkOp
  | relink (op : GraphOp)
  | takeRandom (v : ValueTypeID)
  | getRandom (v : ValueTypeID)
  | insertNew (v : ValueTypeID)
  deriving DecidableEq

namespace RelinkOp

variable {S : Type}

def perform : RelinkOp → BuildM S UInt16
  | relink op => renameAndRelinkOpVal op
  | takeRandom v => onValue v ValueState.takeRandomInput
  | getRandom v => onValue v ValueState.getRandomInput
  | insertNew v => onValue v (ValueState.insert ValueState.insertNewId)

/-- The operation consumes the value of type `v` that it returns. -/
def Takes (v : ValueTypeID) : RelinkOp → Prop
  | relink (.get v' _) => v' = v
  | takeRandom v' => v' = v
  | _ => False

end RelinkOp

/-- The values of the builder under such operations, each with the draws that it finds. A panic ends
the run. -/
def relinker : Machine (RelinkOp × Distributions) UInt16 GraphState := fun st (op, d) =>
  match (op.perform : BuildM Unit UInt16).run ⟨st, (), d⟩ with
  | (.ok id, st') => some (id, st'.state)
  | (.error _, _) => none

namespace ValueState

variable {vs vs' : ValueState} {d d' : Distributions} {id o : ConnectorID}

lemma oldIdToNewId_forget (vs : ValueState) (id o : ConnectorID) :
    (vs.forget id).oldIdToNewId o =
      if vs.newIdToOldId id = some o then none else vs.oldIdToNewId o := by
  unfold forget
  cases h : vs.newIdToOldId id with
  | none => simp
  | some old =>
    by_cases ho : o = old
    · simp [ho]
    · have hne : ¬old = o := fun he => ho he.symm
      simp [ho, hne]

lemma oldIdToNewId_takeNewInput {newId : ConnectorID}
    (h : (takeNewInput newId).run (vs, d) = (.ok id, (vs', d'))) (o : ConnectorID) :
    id = newId ∧ vs'.oldIdToNewId o =
      if vs.newIdToOldId id = some o then none else vs.oldIdToNewId o := by
  unfold Exec.run takeNewInput at h
  simp only at h
  split at h
  · cases h
  · split at h
    · obtain ⟨hid, hstate⟩ := Prod.mk.inj h
      obtain rfl := Except.ok.inj hid
      obtain ⟨rfl, -⟩ := Prod.mk.inj hstate
      exact ⟨rfl, oldIdToNewId_forget _ _ _⟩
    · cases h

lemma keeps_getRandomInput : Keeps Prod.fst getRandomInput :=
  Keeps.bind (Keeps.gets _) fun _ => Keeps.ite (Keeps.panic _)
    (Keeps.bind (fun _ => rfl) fun _ => Keeps.unwrap _ _)

lemma keeps_getOldAvailableInput (c : ConnectorID) : Keeps Prod.fst (getOldAvailableInput c) := by
  refine Keeps.bind (Keeps.gets _) fun renamed => ?_
  cases renamed with
  | some id => exact Keeps.pure id
  | none => exact keeps_getRandomInput

lemma oldIdToNewId_take {find : ValM ConnectorID} (hfind : Keeps Prod.fst find)
    (h : (find >>= takeNewInput).run (vs, d) = (.ok id, (vs', d'))) (o : ConnectorID) :
    vs'.oldIdToNewId o = if vs.newIdToOldId id = some o then none else vs.oldIdToNewId o := by
  obtain ⟨found, ⟨vs₁, d₁⟩, hrun, htake⟩ := Exec.run_bind_eq_ok h
  have hsame := hfind (vs, d)
  rw [hrun] at hsame
  obtain rfl : vs₁ = vs := hsame
  exact (oldIdToNewId_takeNewInput htake o).2

end ValueState

variable {st st' : GraphState} {op : RelinkOp} {d : Distributions} {id : UInt16}

lemma relinker_onValue {v : ValueTypeID} {m : ValM ConnectorID}
    (hop : op.perform = (onValue v m : BuildM Unit UInt16))
    (h : relinker st (op, d) = some (id, st')) :
    ∃ vs' d', m.run (st.getState v, d) = (.ok id, (vs', d')) ∧
      ∀ v', st'.getState v' = if v' = v then vs' else st.getState v' := by
  unfold relinker at h
  simp only [hop] at h
  have hrun : (onValue v m : BuildM Unit UInt16).run ⟨st, (), d⟩ =
      ((m.run (st.getState v, d)).1,
        ⟨Function.update st v (some (m.run (st.getState v, d)).2.1), (),
          (m.run (st.getState v, d)).2.2⟩) := rfl
  split at h
  · next id' st₁ heq =>
    obtain ⟨rfl, rfl⟩ := Prod.mk.inj (Option.some.inj h)
    obtain ⟨hid, hst⟩ := Prod.mk.inj heq
    refine ⟨_, _, Prod.ext hid rfl, fun v' => ?_⟩
    rw [← hst]
    exact getState_update st v v' _
  · cases h

lemma renamed_of_set {v : ValueTypeID} {o : ConnectorID}
    (h : relinker st (.relink (.set v o), d) = some (id, st')) :
    (st'.getState v).oldIdToNewId o = some id := by
  obtain ⟨vs', d', hrun, hstate⟩ := relinker_onValue (m := ValueState.insert fun vs =>
    vs.insertOldId o) rfl h
  obtain ⟨hid, hvs⟩ := Prod.mk.inj hrun
  obtain ⟨rfl, -⟩ := Prod.mk.inj hvs
  obtain rfl := Except.ok.inj hid
  rw [hstate, if_pos rfl]
  simp [ValueState.insertOldId]

/-- The operation takes a value that is recorded under the old id `o`. -/
def Unlinks (v : ValueTypeID) (o : ConnectorID) (st : GraphState) (op : RelinkOp) (id : UInt16) :
    Prop :=
  op.Takes v ∧ (st.getState v).newIdToOldId id = some o

/-- What an operation does to the renaming of `o`: it removes it or leaves it as it is. -/
def Relinks (v : ValueTypeID) (o : ConnectorID) (st : GraphState) (op : RelinkOp) (id : UInt16)
    (st' : GraphState) : Prop :=
  Unlinks v o st op id ∧ (st'.getState v).oldIdToNewId o = none ∨
    ¬Unlinks v o st op id ∧ (st'.getState v).oldIdToNewId o = (st.getState v).oldIdToNewId o

section

variable {v v' : ValueTypeID} {o : ConnectorID}

lemma relinks_take {find : ValM ConnectorID} (hfind : Keeps Prod.fst find)
    (hop : op.perform = (onValue v' (find >>= ValueState.takeNewInput) : BuildM Unit UInt16))
    (htakes : op.Takes v ↔ v' = v) (h : relinker st (op, d) = some (id, st')) :
    Relinks v o st op id st' := by
  obtain ⟨vs', d', hrun, hstate⟩ := relinker_onValue hop h
  have hrenamed := ValueState.oldIdToNewId_take hfind hrun o
  unfold Relinks
  rw [hstate]
  by_cases hv : v = v'
  · subst hv
    rw [if_pos rfl]
    by_cases hentry : (st.getState v).newIdToOldId id = some o
    · exact .inl ⟨⟨htakes.mpr rfl, hentry⟩, by rw [hrenamed, if_pos hentry]⟩
    · exact .inr ⟨fun hunlinks => hentry hunlinks.2, by rw [hrenamed, if_neg hentry]⟩
  · rw [if_neg hv]
    exact .inr ⟨fun hunlinks => hv (htakes.mp hunlinks.1).symm, rfl⟩

lemma relinks_keep {m : ValM ConnectorID}
    (hm : ∀ vs d, v' = v → ((m.run (vs, d)).2.1).oldIdToNewId o = vs.oldIdToNewId o)
    (hop : op.perform = (onValue v' m : BuildM Unit UInt16)) (htakes : ¬op.Takes v)
    (h : relinker st (op, d) = some (id, st')) : Relinks v o st op id st' := by
  obtain ⟨vs', d', hrun, hstate⟩ := relinker_onValue hop h
  refine .inr ⟨fun hunlinks => htakes hunlinks.1, ?_⟩
  rw [hstate]
  by_cases hv : v = v'
  · subst hv
    have hsame := hm (st.getState v) d rfl
    rw [hrun] at hsame
    rw [if_pos rfl, hsame]
  · rw [if_neg hv]

lemma relinks_of_ne_set (h : relinker st (op, d) = some (id, st'))
    (hop : op ≠ .relink (.set v o)) : Relinks v o st op id st' := by
  have hfound : ∀ {find : ValM ConnectorID}, Keeps Prod.fst find → ∀ vs d,
      ((find.run (vs, d)).2.1).oldIdToNewId o = vs.oldIdToNewId o := by
    intro find hfind vs d
    rw [show (find.run (vs, d)).2.1 = vs from hfind (vs, d)]
  cases op with
  | relink op =>
    cases op with
    | node n =>
      obtain ⟨-, rfl⟩ := Prod.mk.inj (Option.some.inj h)
      exact .inr ⟨fun hunlinks => hunlinks.1, rfl⟩
    | get v' c =>
      exact relinks_take (ValueState.keeps_getOldAvailableInput c) rfl Iff.rfl h
    | pass v' c =>
      have hfind := hfound (ValueState.keeps_getOldAvailableInput c)
      exact relinks_keep (fun vs d _ => hfind vs d) rfl (fun h => h) h
    | set v' c =>
      refine relinks_keep (m := ValueState.insert fun vs => vs.insertOldId c) ?_ rfl (fun h => h) h
      rintro vs d rfl
      have hne : o ≠ c := by
        rintro rfl
        exact hop rfl
      exact Function.update_of_ne hne _ _
  | takeRandom v' => exact relinks_take ValueState.keeps_getRandomInput rfl Iff.rfl h
  | getRandom v' =>
    have hfind := hfound ValueState.keeps_getRandomInput
    exact relinks_keep (fun vs d _ => hfind vs d) rfl (fun h => h) h
  | insertNew v' => exact relinks_keep (fun _ _ _ => rfl) rfl (fun h => h) h

lemma renamed_none_of_run {ops : List (RelinkOp × Distributions)}
    (h : relinker.final st ops = some st')
    (hlast : ∀ s d x, (s, (RelinkOp.relink (.set v o), d), x) ∉ relinker.steps st ops)
    (hnone : (st.getState v).oldIdToNewId o = none) : (st'.getState v).oldIdToNewId o = none := by
  induction ops generalizing st with
  | nil =>
    obtain rfl := Option.some.inj h
    exact hnone
  | cons e ops ih =>
    obtain ⟨op, d⟩ := e
    obtain ⟨x, st₁, hstep, hrest⟩ := Machine.final_cons_eq_some.mp h
    rw [Machine.steps_cons hstep] at hlast
    have hne : op ≠ .relink (.set v o) := by
      rintro rfl
      exact hlast st d x List.mem_cons_self
    refine ih hrest (fun s d x hmem => hlast s d x (List.mem_cons_of_mem _ hmem)) ?_
    obtain ⟨-, hgone⟩ | ⟨-, hsame⟩ := relinks_of_ne_set hstep hne
    · exact hgone
    · rw [hsame, hnone]

lemma renamed_run_iff {ops : List (RelinkOp × Distributions)} {n : ConnectorID}
    (h : relinker.final st ops = some st')
    (hlast : ∀ s d x, (s, (RelinkOp.relink (.set v o), d), x) ∉ relinker.steps st ops)
    (hn : (st.getState v).oldIdToNewId o = some n) :
    (st'.getState v).oldIdToNewId o = some n ↔
      ∀ s op d x, (s, (op, d), x) ∈ relinker.steps st ops → ¬Unlinks v o s op x := by
  induction ops generalizing st with
  | nil =>
    obtain rfl := Option.some.inj h
    simp [hn, Machine.steps]
  | cons e ops ih =>
    obtain ⟨op, d⟩ := e
    obtain ⟨x, st₁, hstep, hrest⟩ := Machine.final_cons_eq_some.mp h
    rw [Machine.steps_cons hstep] at hlast ⊢
    have hne : op ≠ .relink (.set v o) := by
      rintro rfl
      exact hlast st d x List.mem_cons_self
    have hlast' : ∀ s d x, (s, (RelinkOp.relink (.set v o), d), x) ∉ relinker.steps st₁ ops :=
      fun s d x hmem => hlast s d x (List.mem_cons_of_mem _ hmem)
    obtain ⟨hunlinks, hgone⟩ | ⟨hunlinks, hsame⟩ := relinks_of_ne_set hstep hne
    · constructor
      · intro hsome
        rw [renamed_none_of_run hrest hlast' hgone] at hsome
        cases hsome
      · intro hall
        exact absurd hunlinks (hall st op d x List.mem_cons_self)
    · rw [ih hrest hlast' (hsame.trans hn)]
      constructor
      · rintro hall s op' d' x' (_ | ⟨_, hmem⟩)
        · exact hunlinks
        · exact hall s op' d' x' hmem
      · intro hall s op' d' x' hmem
        exact hall s op' d' x' (List.mem_cons_of_mem _ hmem)

end

/-- After the last copy of a value with the old id `o`, as long as the value is not consumed, `o` is
renamed to its id exactly if no other value that is recorded under `o` was consumed since. -/
theorem getRenamedOldInput_iff {v : ValueTypeID} {o n : ConnectorID} {s : GraphState}
    {ops : List (RelinkOp × Distributions)}
    {before after : List (GraphState × (RelinkOp × Distributions) × UInt16)}
    (hrun : relinker.final st.clear ops = some st')
    (hsteps : relinker.steps st.clear ops = before ++ (s, (.relink (.set v o), d), n) :: after)
    (hlast : ∀ s d x, (s, (RelinkOp.relink (.set v o), d), x) ∉ after)
    (hheld : ∀ s op d x, (s, (op, d), x) ∈ after → op.Takes v → x ≠ n) :
    (st'.getState v).getRenamedOldInput o = some n ↔
      ∀ s op d x, (s, (op, d), x) ∈ after → x ≠ n → ¬Unlinks v o s op x := by
  obtain ⟨st₁, rest, hset, hrest, rfl⟩ := Machine.final_of_steps_eq_append hrun hsteps
  have hiff := renamed_run_iff hrest hlast (renamed_of_set hset)
  rw [ValueState.getRenamedOldInput, hiff]
  constructor
  · intro hall s op d x hmem _
    exact hall s op d x hmem
  · intro hall s op d x hmem hunlinks
    exact hall s op d x hmem (hheld s op d x hmem hunlinks.1) hunlinks

def noValues : GraphState := fun _ => none

def firstTaken : List (RelinkOp × Distributions) :=
  [(.relink (.set 0 1), ⟨[]⟩), (.relink (.set 0 2), ⟨[]⟩), (.relink (.get 0 1), ⟨[]⟩)]

theorem getRenamedOldInput_iff_firstTaken :
    ∃ st', relinker.final noValues.clear firstTaken = some st' ∧
      (st'.getState 0).getRenamedOldInput 2 = some 2 := by
  obtain ⟨st', hrun⟩ : ∃ st', relinker.final noValues.clear firstTaken = some st' :=
    Option.isSome_iff_exists.mp (by decide)
  have hsteps : ∃ s₁ s₂ s₃, relinker.steps noValues.clear firstTaken =
      [(s₁, (.relink (.set 0 1), ⟨[]⟩), 1)] ++ (s₂, (.relink (.set 0 2), ⟨[]⟩), 2) ::
        [(s₃, (.relink (.get 0 1), ⟨[]⟩), 1)] ∧ (s₃.getState 0).newIdToOldId 1 = some 1 :=
    ⟨_, _, _, rfl, rfl⟩
  obtain ⟨s₁, s₂, s₃, hsteps, hentry⟩ := hsteps
  refine ⟨st', hrun, (getRenamedOldInput_iff hrun hsteps ?_ ?_).mpr ?_⟩
  · intro s d x hmem
    cases List.mem_singleton.mp hmem
  · intro s op d x hmem _
    cases List.mem_singleton.mp hmem
    decide
  · intro s op d x hmem _ hunlinks
    cases List.mem_singleton.mp hmem
    have hsome := hunlinks.2
    rw [hentry] at hsome
    exact absurd (Option.some.inj hsome) (by decide)

/-- The same value is copied twice, and then a node is copied whose input is not known and that
draws the first of the two. -/
def copiedTwice : List (RelinkOp × Distributions) :=
  [(.relink (.set 0 1), ⟨[]⟩), (.relink (.set 0 1), ⟨[]⟩), (.relink (.get 0 7), ⟨[0]⟩)]

theorem not_getRenamedOldInput_copiedTwice :
    ∃ st' s₁ s₂ s₃, relinker.final noValues.clear copiedTwice = some st' ∧
      relinker.steps noValues.clear copiedTwice =
        [(s₁, (.relink (.set 0 1), ⟨[]⟩), 1), (s₂, (.relink (.set 0 1), ⟨[]⟩), 2),
          (s₃, (.relink (.get 0 7), ⟨[0]⟩), 1)] ∧
      (st'.getState 0).newIdsForSampling = [2] ∧ (st'.getState 0).getRenamedOldInput 1 = none :=
  ⟨_, _, _, _, rfl, rfl, rfl, rfl⟩

/-! ### The operations of the builder -/

def SinceStart (st : GraphState) : Prop :=
  ∃ st₀ ops, relinker.final (GraphState.clear st₀) ops = some st

section

variable {S : Type}

lemma run_perform (op : RelinkOp) (st : BuildState S) :
    op.perform.run st = (((op.perform : BuildM Unit UInt16).run ⟨st.state, (), st.dist⟩).1,
      { st with
        state := ((op.perform : BuildM Unit UInt16).run ⟨st.state, (), st.dist⟩).2.state
        dist := ((op.perform : BuildM Unit UInt16).run ⟨st.state, (), st.dist⟩).2.dist }) := by
  cases op with
  | relink op => cases op <;> rfl
  | takeRandom v | getRandom v | insertNew v => rfl

variable [GraphStorage S]

lemma perform_sinceStart (op : RelinkOp) :
    Triple (fun st => SinceStart st.state) (op.perform >>= appendOp : BuildM S Unit)
      (fun _ st => SinceStart st.state) (fun _ _ => True) := by
  refine Triple.bind (Q := fun _ (st : BuildState S) => SinceStart st.state) ?_ fun _ _ hst => hst
  rintro st ⟨st₀, ops, hops⟩
  rw [run_perform]
  rcases hr : (op.perform : BuildM Unit UInt16).run ⟨st.state, (), st.dist⟩ with ⟨r, st'⟩
  cases r with
  | error e => trivial
  | ok id =>
    have hstep : relinker st.state (op, st.dist) = some (id, st'.state) := by
      simp only [relinker, hr]
    exact ⟨st₀, ops ++ [(op, st.dist)], Machine.final_concat hops hstep⟩

lemma rules_sinceStart (g : GraphSpec) :
    Rules g (fun _ (st : BuildState S) => SinceStart st.state) (fun _ _ => True) where
  start st _ := ⟨st.state, [], rfl⟩
  node _ _ hst := hst.1
  old p _ c := perform_sinceStart (.relink (p.op c))
  random p _ := by
    cases p with
    | get v => exact perform_sinceStart (.takeRandom v)
    | pass v => exact perform_sinceStart (.getRandom v)
    | set v => exact perform_sinceStart (.insertNew v)
  data _ h _ := h
  panic _ _ := trivial

/-- Whatever is done with the builder, its values are those of a run of the relinker since the last
`start`. -/
theorem build_sinceStart {g : GraphSpec} (ops : List (BuilderOp g)) :
    Triple (fun _ => True) (build ops : BuildM S Unit) (fun _ st => SinceStart st.state)
      (fun _ _ => True) :=
  (rules_sinceStart g).build ops

end

end Nyx
