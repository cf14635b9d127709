import Nyx.Fuzzer.PerformRun
import Nyx.Fuzzer.QueueRaces

/-!
# The corpus that many threads build

The whole of `perform_run`: a run that is new becomes an input, its reasons are filtered by ten more
runs, and the rest is added to the queue. The target is deterministic.
-/

namespace Nyx.Fuzzer

open Function

/-- A deterministic target. `none` is an error of `run_test`. -/
structure Target (size : ℕ) where
  runTest : VecGraph → Option (List UInt8 × ExitReason)
  length_eq : ∀ graph run etype, runTest graph = some (run, etype) → run.length = size

def keepReached (bitmap : List UInt8) : List StorageReason → Except Panic (List StorageReason)
  | [] => .ok []
  | reason :: rest =>
    match bitmap[reason.index]? with
    | none => .error .indexOutOfBounds
    | some v => (keepReached bitmap rest).map fun kept =>
      if v ≥ reason.new then reason :: kept else kept

/-- `filter_nondet_bytes` with the given number of runs, the outcome of which is `runTest`. -/
def filterNondetBytes (runTest : Option (List UInt8 × ExitReason)) :
    ℕ → List StorageReason → Except Panic (List StorageReason)
  | 0, res => .ok res
  | n + 1, res =>
    match runTest with
    | none => .error .unwrapErr
    | some (bitmap, _) => do
      let res ← keepReached bitmap res
      filterNondetBytes runTest n res

lemma keepReached_eq_self {bitmap : List UInt8} {reasons : List StorageReason}
    (h : ∀ r ∈ reasons, bitmap[r.index]? = some r.new) : keepReached bitmap reasons = .ok reasons := by
  induction reasons with
  | nil => rfl
  | cons r rest ih =>
    have hr := h r List.mem_cons_self
    have hrest := ih fun r' hr' => h r' (List.mem_cons_of_mem r hr')
    simp [keepReached, hr, hrest, Except.map]

lemma filterNondetBytes_eq_self {bitmap : List UInt8} {etype : ExitReason}
    {reasons : List StorageReason} (h : ∀ r ∈ reasons, bitmap[r.index]? = some r.new) (n : ℕ) :
    filterNondetBytes (some (bitmap, etype)) n reasons = .ok reasons := by
  induction n with
  | zero => rfl
  | succ n ih =>
    rw [filterNondetBytes]
    simp only [keepReached_eq_self h, except_ok_bind, ih]

inductive RunPhase where
  | idle
  /-- The run is new for the thread. -/
  | checked (graph : VecGraph) (run : List UInt8) (etype : ExitReason)
  /-- The run is new for the queue. -/
  | found (input : Input)
  | filtered (input : Input)
  /-- The input is stored, the favourites are behind. -/
  | pushed
  | computed (favids : List InputID)
  deriving DecidableEq

def RunPhase.waiting : RunPhase → Option (List UInt8 × ExitReason)
  | .checked _ run etype => some (run, etype)
  | _ => none

def RunPhase.input? : RunPhase → Option Input
  | .found input | .filtered input => some input
  | _ => none

/-- A fuzzer thread, and how far it is with a run. -/
structure Worker where
  bitmaps : BitmapHandler
  phase : RunPhase

/-- The threads and the queue they share. -/
structure Fleet (ι : Type) where
  data : QueueData
  workers : ι → Worker
  /-- The runs checked so far, the latest one first. -/
  runs : List (List UInt8 × ExitReason)
  /-- The bytes of the queue that were raised, with the graphs that did it, in their order. -/
  raises : List (VecGraph × Report ι)

inductive FleetStep (ι : Type) where
  | run (t : ι) (graph : VecGraph)
  | check (t : ι)
  | filter (t : ι)
  | push (t : ι)
  | compute (t : ι)
  | store (t : ι)

def Input.new (data : VecGraph) (storageReasons : List StorageReason) (bitmap : Bitmap)
    (exitReason : ExitReason) : Input :=
  ⟨InputID.invalid, data, bitmap, exitReason, storageReasons⟩

def afterCheck (graph : VecGraph) (run : List UInt8) (etype : ExitReason) :
    Option (List StorageReason) → RunPhase
  | some reasons => .found (Input.new graph reasons ⟨run⟩ etype)
  | none => .idle

namespace Fleet

variable {ι : Type} [DecidableEq ι] {size : ℕ}

def new (ι : Type) (size : ℕ) : Fleet ι where
  data := QueueData.new size
  workers _ := ⟨BitmapHandler.new size, .idle⟩
  runs := []
  raises := []

def setPhase (s : Fleet ι) (t : ι) (phase : RunPhase) : Fleet ι :=
  { s with workers := update s.workers t ⟨(s.workers t).bitmaps, phase⟩ }

def runStep (target : Target size) (s : Fleet ι) (t : ι) (graph : VecGraph) : Option (Fleet ι) :=
  match (s.workers t).phase, target.runTest graph with
  | .idle, some (run, etype) =>
    match (s.workers t).bitmaps.checkNewBytes run etype with
    | .ok (res, bitmaps) => some { s with
        workers := update s.workers t
          ⟨bitmaps, if res.isSome then .checked graph run etype else .idle⟩
        runs := (run, etype) :: s.runs }
    | .error _ => none
  | .idle, none => some s
  | _, _ => none

def checkStep (s : Fleet ι) (t : ι) : Option (Fleet ι) :=
  match (s.workers t).phase with
  | .checked graph run etype =>
    match s.data.bitmaps.checkNewBytes run etype with
    | .ok (res, bitmaps) => some
        ({ s with
          data := { s.data with bitmaps := bitmaps }
          raises := s.raises ++ (res.getD []).map fun r => (graph, Report.mk t etype r) }.setPhase t
            (afterCheck graph run etype res))
    | .error _ => none
  | _ => none

def filterStep (target : Target size) (s : Fleet ι) (t : ι) : Option (Fleet ι) :=
  match (s.workers t).phase with
  | .found input =>
    match filterNondetBytes (target.runTest input.data) 10 input.storageReasons with
    | .ok reasons => some (s.setPhase t
        (if reasons.length > 0 then .filtered { input with storageReasons := reasons } else .idle))
    | .error _ => none
  | _ => none

def pushStep (g : GraphSpec) (s : Fleet ι) (t : ι) : Option (Fleet ι) :=
  match (s.workers t).phase with
  | .filtered input =>
    match (QueueData.admits g input).run s.data with
    | (.ok true, _) =>
      match (QueueData.pushInput g input).run s.data with
      | (.ok _, data) => some ({ s with data := data }.setPhase t .pushed)
      | (.error _, _) => none
    | (.ok false, _) => some (s.setPhase t .idle)
    | (.error _, _) => none
  | _ => none

def computeStep (s : Fleet ι) (t : ι) : Option (Fleet ι) :=
  match (s.workers t).phase, s.data.computeFavs with
  | .pushed, .ok favids => some (s.setPhase t (.computed favids))
  | _, _ => none

def storeStep (s : Fleet ι) (t : ι) : Option (Fleet ι) :=
  match (s.workers t).phase with
  | .computed favids => some ({ s with data := { s.data with favqueue := favids } }.setPhase t .idle)
  | _ => none

/-- `none` where the thread panics, or is not at the part in question. -/
def step (g : GraphSpec) (target : Target size) (s : Fleet ι) : FleetStep ι → Option (Fleet ι)
  | .run t graph => s.runStep target t graph
  | .check t => s.checkStep t
  | .filter t => s.filterStep target t
  | .push t => s.pushStep g t
  | .compute t => s.computeStep t
  | .store t => s.storeStep t

inductive Reachable (g : GraphSpec) (target : Target size) : Fleet ι → Prop
  | init : Reachable g target (new ι size)
  | next {s s' : Fleet ι} {a : FleetStep ι} (before : Reachable g target s)
      (taken : s.step g target a = some s') : Reachable g target s'

variable {s s' : Fleet ι} {target : Target size} {g : GraphSpec}

lemma Reachable.foldlM (h : Reachable g target s) {steps : List (FleetStep ι)}
    (hrun : steps.foldlM (fun s a => s.step g target a) s = some s') : Reachable g target s' := by
  induction steps generalizing s with
  | nil =>
    have heq : s = s' := by simpa using hrun
    rwa [← heq]
  | cons a steps ih =>
    obtain ⟨s₁, hstep, hrest⟩ := Option.bind_eq_some_iff.mp hrun
    exact ih (h.next hstep) hrest

def system (s : Fleet ι) : System ι where
  queue := s.data.bitmaps
  threads t := ⟨(s.workers t).bitmaps, (s.workers t).phase.waiting⟩
  runs := s.runs
  reports := s.raises.map Prod.snd

lemma system_update (s : Fleet ι) (t : ι) (w : Worker) (data : QueueData)
    (runs : List (List UInt8 × ExitReason)) (raises : List (VecGraph × Report ι)) :
    system ⟨data, update s.workers t w, runs, raises⟩ =
      ⟨data.bitmaps, update s.system.threads t ⟨w.bitmaps, w.phase.waiting⟩, runs,
        raises.map Prod.snd⟩ := by
  have hthreads : (fun u => Thread.mk (update s.workers t w u).bitmaps
      (update s.workers t w u).phase.waiting) =
      update s.system.threads t ⟨w.bitmaps, w.phase.waiting⟩ := by
    funext u
    by_cases hu : u = t
    · subst hu
      simp
    · simp [hu, system]
  simp only [system] at hthreads ⊢
  rw [hthreads]

variable {t : ι}

lemma system_setPhase (s : Fleet ι) (hold : (s.workers t).phase.waiting = none) {phase : RunPhase}
    (hnew : phase.waiting = none) {data : QueueData} (hdata : data.bitmaps = s.data.bitmaps) :
    ({ s with data := data }.setPhase t phase).system = s.system := by
  have hself : update s.system.threads t ⟨(s.workers t).bitmaps, phase.waiting⟩ =
      s.system.threads := by
    rw [hnew, ← hold]
    exact update_eq_self t s.system.threads
  have hsystem := system_update s t ⟨(s.workers t).bitmaps, phase⟩ data s.runs s.raises
  simp only [hself, hdata] at hsystem
  exact hsystem

/-! ### Every raised byte ends up in the queue -/

/-- An input of a run of the target: every byte it was stored for is the byte of the run. -/
structure Faithful (target : Target size) (input : Input) : Prop where
  id : input.id = InputID.invalid
  runTest : target.runTest input.data = some (input.bitmap.bits, input.exitReason)
  reasons : ∀ r ∈ input.storageReasons, input.bitmap.bits[r.index]? = some r.new

def Holds (data : QueueData) (r : StorageReason) : Prop :=
  ∃ inp ∈ data.inputs, r ∈ inp.storageReasons ∧ inp.bitmap.bits[r.index]? = some r.new

def Underway (phase : RunPhase) (p : VecGraph × Report ι) : Prop :=
  ∃ input, phase.input? = some input ∧ input.data = p.1 ∧ input.exitReason = p.2.etype ∧
    p.2.reason ∈ input.storageReasons

/-- What a thread carries comes from a run of the target, and its favourites are stored. -/
def PhaseOk (target : Target size) (stored : ℕ) : RunPhase → Prop
  | .checked graph run etype => target.runTest graph = some (run, etype)
  | .found input | .filtered input => Faithful target input
  | .computed favids => ∀ id ∈ favids, id.asUsize < stored
  | .idle | .pushed => True

/-- The invariant: what a normal run has raised is in the queue or underway. -/
structure Traced (g : GraphSpec) (target : Target size) (s : Fleet ι) : Prop where
  bitmaps : System.Reachable size s.system
  represents : s.data.Represents g
  phases : ∀ t, PhaseOk target s.data.inputs.length (s.workers t).phase
  kept : ∀ p ∈ s.raises, p.2.etype.exitClass = some .normal → 0 < QueueData.nodeCount g p.1 →
    Holds s.data p.2.reason ∨ Underway (s.workers p.2.thread).phase p

lemma traced_new (g : GraphSpec) (target : Target size) : (new ι size).Traced g target where
  bitmaps := .init
  represents := QueueData.represents_new g size
  phases _ := trivial
  kept := by
    intro p hp
    cases hp

omit [DecidableEq ι] in
lemma Holds.mono {data data' : QueueData} {r : StorageReason} (h : Holds data r)
    (hsub : data.inputs ⊆ data'.inputs) : Holds data' r := by
  obtain ⟨inp, hinp, hr⟩ := h
  exact ⟨inp, hsub hinp, hr⟩

omit [DecidableEq ι] in
lemma not_underway {phase : RunPhase} (h : phase.input? = none) (p : VecGraph × Report ι) :
    ¬Underway phase p := by
  rintro ⟨input, hinput, -⟩
  cases h.symm.trans hinput

lemma PhaseOk.mono {phase : RunPhase} {m n : ℕ} (h : PhaseOk target m phase) (hle : m ≤ n) :
    PhaseOk target n phase := by
  cases phase with
  | computed favids => exact fun id hid => lt_of_lt_of_le (h id hid) hle
  | _ => exact h

lemma Traced.update (hs : s.Traced g target) {w : Worker} {data : QueueData}
    {runs : List (List UInt8 × ExitReason)} {raises : List (VecGraph × Report ι)}
    (hbitmaps : System.Reachable size (system ⟨data, Function.update s.workers t w, runs, raises⟩))
    (hdata : data.Represents g) (hinputs : s.data.inputs <+: data.inputs)
    (hphase : PhaseOk target data.inputs.length w.phase)
    (hraises : ∀ p ∈ raises, p ∈ s.raises ∨ p.2.thread = t ∧ Underway w.phase p)
    (hkept : ∀ p : VecGraph × Report ι, p.2.etype.exitClass = some .normal →
      0 < QueueData.nodeCount g p.1 → Underway (s.workers t).phase p →
      Holds data p.2.reason ∨ Underway w.phase p) :
    Traced g target ⟨data, Function.update s.workers t w, runs, raises⟩ where
  bitmaps := hbitmaps
  represents := hdata
  phases u := by
    by_cases hut : u = t
    · simpa [hut] using hphase
    · simpa [hut] using (hs.phases u).mono hinputs.length_le
  kept := by
    intro p hp hclass hnodes
    rcases hraises p hp with hp | ⟨hthread, hunder⟩
    · rcases hs.kept p hp hclass hnodes with hholds | hunder
      · exact .inl (hholds.mono hinputs.subset)
      · by_cases hpt : p.2.thread = t
        · rw [hpt] at hunder
          simpa [hpt] using hkept p hclass hnodes hunder
        · right
          simpa [hpt] using hunder
    · right
      simpa [hthread] using hunder

lemma Traced.setPhase (hs : s.Traced g target) {phase : RunPhase} {data : QueueData}
    (hold : (s.workers t).phase.waiting = none) (hnew : phase.waiting = none)
    (hbitmaps : data.bitmaps = s.data.bitmaps) (hdata : data.Represents g)
    (hinputs : s.data.inputs <+: data.inputs) (hphase : PhaseOk target data.inputs.length phase)
    (hkept : ∀ p : VecGraph × Report ι, p.2.etype.exitClass = some .normal →
      0 < QueueData.nodeCount g p.1 → Underway (s.workers t).phase p →
      Holds data p.2.reason ∨ Underway phase p) :
    ({ s with data := data }.setPhase t phase).Traced g target := by
  have hsystem := hs.bitmaps
  rw [← system_setPhase s hold hnew hbitmaps] at hsystem
  exact hs.update hsystem hdata hinputs hphase (fun _ hp => .inl hp) hkept

lemma Traced.run (hs : s.Traced g target)
    {graph : VecGraph} (h : s.runStep target t graph = some s') : s'.Traced g target := by
  unfold runStep at h
  split at h
  · next run etype hidle hrun =>
    split at h
    · next res bitmaps hcheck =>
      cases h
      have hwaiting : (s.system.threads t).checked = none := by simp [system, hidle, RunPhase.waiting]
      have hown : (s.system.threads t).bitmaps.checkNewBytes run etype = .ok (res, bitmaps) := hcheck
      refine hs.update ?_ hs.represents List.prefix_rfl ?_ (fun _ hp => .inl hp) ?_
      · apply hs.bitmaps.localCheck hwaiting (target.length_eq graph run etype hrun)
        rw [system_update, System.localCheck, hown]
        cases res <;> rfl
      · cases res with
        | none => trivial
        | some reasons => exact hrun
      · intro p _ _ hunder
        exact absurd hunder (not_underway (by rw [hidle]; rfl) p)
    · cases h
  · cases h
    exact hs
  · cases h

lemma faithful_new {graph : VecGraph} {run : List UInt8}
    {etype : ExitReason} {handler handler' : BitmapHandler} {reasons : List StorageReason}
    (hsized : handler.Sized size) (hrun : target.runTest graph = some (run, etype))
    (hcheck : handler.checkNewBytes run etype = .ok (some reasons, handler')) :
    Faithful target (Input.new graph reasons ⟨run⟩ etype) where
  id := rfl
  runTest := hrun
  reasons := by
    intro r hr
    have hlen := target.length_eq graph run etype hrun
    obtain ⟨h', hspec, -, -⟩ := BitmapHandler.checkNewBytes_spec hsized hlen etype
    have hreport : handler.report run etype = some reasons := by
      rw [hcheck] at hspec
      exact (congrArg Prod.fst (Except.ok.inj hspec)).symm
    exact BitmapHandler.getElem?_of_mem_report hreport hr

lemma Traced.check (hs : s.Traced g target) (h : s.checkStep t = some s') : s'.Traced g target := by
  unfold checkStep at h
  split at h
  · next graph run etype hphase =>
    split at h
    · next res bitmaps hcheck =>
      cases h
      have hrun : target.runTest graph = some (run, etype) := by
        have hok := hs.phases t
        rwa [hphase] at hok
      have hwaiting : (s.system.threads t).checked = some (run, etype) := by
        simp [system, hphase, RunPhase.waiting]
      have hnot : (afterCheck graph run etype res).waiting = none := by cases res <;> rfl
      have hqueue : s.system.queue.checkNewBytes run etype = .ok (res, bitmaps) := hcheck
      have hsystem := system_update s t ⟨(s.workers t).bitmaps, afterCheck graph run etype res⟩
        { s.data with bitmaps := bitmaps } s.runs
        (s.raises ++ (res.getD []).map fun r => (graph, Report.mk t etype r))
      refine hs.update ?_ { hs.represents with } List.prefix_rfl ?_ ?_ ?_
      · apply hs.bitmaps.globalCheck hwaiting
        refine Eq.trans ?_ (congrArg Except.ok hsystem.symm)
        rw [System.globalCheck, hqueue]
        simp [hnot, Except.map, system]
      · cases res with
        | none => trivial
        | some reasons => exact faithful_new hs.bitmaps.sound.1.queue hrun hcheck
      · -- a byte raised by this check is in the input that the thread now has
        intro p hp
        refine (List.mem_append.mp hp).imp_right fun hp => ?_
        cases res with
        | none => cases hp
        | some reasons =>
          obtain ⟨r, hr, rfl⟩ := List.mem_map.mp hp
          exact ⟨rfl, Input.new graph reasons ⟨run⟩ etype, rfl, rfl, rfl, hr⟩
      · intro p _ _ hunder
        exact absurd hunder (not_underway (by rw [hphase]; rfl) p)
    · cases h
  · cases h

lemma Traced.filter (hs : s.Traced g target) (h : s.filterStep target t = some s') :
    s'.Traced g target := by
  unfold filterStep at h
  split at h
  · next input hphase =>
    split at h
    · next reasons hfilter =>
      cases h
      have hfaithful : Faithful target input := by
        have hok := hs.phases t
        rwa [hphase] at hok
      rw [hfaithful.runTest, filterNondetBytes_eq_self hfaithful.reasons] at hfilter
      cases hfilter
      have hold : (s.workers t).phase.waiting = none := by rw [hphase]; rfl
      by_cases hpos : input.storageReasons.length > 0
      · rw [if_pos hpos]
        refine hs.setPhase hold rfl rfl hs.represents List.prefix_rfl hfaithful ?_
        intro p _ _ hunder
        rw [hphase] at hunder
        exact .inr hunder
      · rw [if_neg hpos]
        refine hs.setPhase hold rfl rfl hs.represents List.prefix_rfl trivial ?_
        intro p _ _ hunder
        rw [hphase] at hunder
        obtain ⟨input', heq, -, -, hr⟩ := hunder
        cases heq
        exact absurd (List.length_pos_of_mem hr) hpos
    · cases h
  · cases h

lemma accepted_of_normal {input : Input} (hid : input.id = InputID.invalid)
    (hok : QueueData.NodesOk g input.data) (hnodes : 0 < QueueData.nodeCount g input.data)
    (hclass : input.exitReason.exitClass = some .normal) : QueueData.Accepted g input := by
  refine ⟨hid, hok, hnodes, ?_⟩
  cases hreason : input.exitReason with
  | normal code => rfl
  | crash desc => rfl
  | _ =>
    rw [hreason] at hclass
    cases hclass

lemma Traced.push (hs : s.Traced g target) (h : s.pushStep g t = some s') : s'.Traced g target := by
  unfold pushStep at h
  split at h
  · next input hphase =>
    have hfaithful : Faithful target input := by
      have hok := hs.phases t
      rwa [hphase] at hok
    have hold : (s.workers t).phase.waiting = none := by rw [hphase]; rfl
    split at h
    · next hadmits =>
      obtain ⟨-, hok, -⟩ := QueueData.run_admits_eq_ok hadmits
      obtain ⟨data, hpush, hdata, hinputs, -, hbitmaps⟩ :=
        QueueData.pushInput_spec hs.represents hok
      rw [hpush] at h
      cases h
      have hgrows : s.data.inputs <+: data.inputs := hinputs ▸ List.prefix_append _ _
      refine hs.setPhase hold rfl hbitmaps hdata hgrows trivial ?_
      intro p _ _ hunder
      rw [hphase] at hunder
      obtain ⟨input', heq, -, -, hr⟩ := hunder
      cases heq
      left
      refine ⟨input.withId ⟨s.data.inputs.length⟩, ?_, hr, hfaithful.reasons p.2.reason hr⟩
      rw [hinputs]
      simp
    · next hadmits =>
      cases h
      obtain ⟨hid, hok, hgo⟩ := QueueData.run_admits_eq_ok hadmits
      refine hs.setPhase hold rfl rfl hs.represents List.prefix_rfl trivial ?_
      rintro ⟨graph, report⟩ hclass hnodes hunder
      rw [hphase] at hunder
      obtain ⟨input', heq, rfl, hetype, -⟩ := hunder
      cases heq
      exact absurd (hgo.mpr (accepted_of_normal hid hok hnodes (hetype ▸ hclass)))
        Bool.false_ne_true
    · cases h
  · cases h

lemma Traced.compute
    (hs : s.Traced g target) (h : s.computeStep t = some s') : s'.Traced g target := by
  unfold computeStep at h
  split at h
  · next favids hphase hfavs =>
    cases h
    have hvalid := (QueueData.computeFavs_eq_ok hs.represents.numbered hfavs).1
    exact hs.setPhase (by rw [hphase]; rfl) rfl rfl hs.represents List.prefix_rfl hvalid
      fun p _ _ hunder => absurd hunder (not_underway (by rw [hphase]; rfl) p)
  · cases h

lemma Traced.store (hs : s.Traced g target) (h : s.storeStep t = some s') : s'.Traced g target := by
  unfold storeStep at h
  split at h
  · next favids hphase =>
    cases h
    have hvalid := hs.phases t
    rw [hphase] at hvalid
    have hdata : QueueData.Represents g { s.data with favqueue := favids } :=
      { hs.represents with favqueue := hvalid }
    exact hs.setPhase (by rw [hphase]; rfl) rfl rfl hdata List.prefix_rfl trivial
      fun p _ _ hunder => absurd hunder (not_underway (by rw [hphase]; rfl) p)
  · cases h

lemma Reachable.traced (h : Reachable g target s) : s.Traced g target := by
  induction h with
  | init => exact traced_new g target
  | @next s s' a _ taken ih =>
    cases a with
    | run t graph => exact ih.run taken
    | check t => exact ih.check taken
    | filter t => exact ih.filter taken
    | push t => exact ih.push taken
    | compute t => exact ih.compute taken
    | store t => exact ih.store taken

def Quiet (s : Fleet ι) : Prop := ∀ t, (s.workers t).phase = .idle

def normalByte (s : Fleet ι) (i : ℕ) : UInt8 := byteAt s.data.bitmaps.normal.bits i

def FirstReached (s : Fleet ι) (i : ℕ) (graph : VecGraph) : Prop :=
  ∃ p ∈ s.raises, p.1 = graph ∧ p.2.etype.exitClass = some .normal ∧ p.2.reason.index = i ∧
    p.2.reason.new = s.normalByte i

lemma Reachable.exists_firstReached (h : Reachable g target s) {i : ℕ} (hpos : 0 < s.normalByte i) :
    ∃ graph, s.FirstReached i graph := by
  have hlinked := h.traced.bitmaps.linked .normal i
  have hne : (0 : UInt8) ≠ byteAt s.data.bitmaps.normal.bits i := by
    intro heq
    rw [normalByte, ← heq] at hpos
    exact UInt8.lt_irrefl 0 hpos
  obtain ⟨r, hr, hnew⟩ := hlinked.exists_new hne
  obtain ⟨report, hreport, rfl⟩ := List.mem_map.mp hr
  obtain ⟨hmem, hcond⟩ := List.mem_filter.mp hreport
  obtain ⟨p, hp, rfl⟩ := List.mem_map.mp hmem
  have hcond' : p.2.etype.exitClass = some .normal ∧ p.2.reason.index = i := by
    simpa using hcond
  exact ⟨p.1, p, hp, rfl, hcond'.1, hcond'.2, hnew⟩

/-- Whatever the threads do in whatever order, once they are done every byte that a graph with nodes
brought to its value is in the queue, together with the reason for it. -/
theorem no_coverage_lost {g : GraphSpec} {target : Target size} {s : Fleet ι}
    (h : Reachable g target s) (quiet : s.Quiet) (i : ℕ) (hpos : 0 < s.normalByte i) :
    (∃ graph, s.FirstReached i graph) ∧
      ∀ graph, s.FirstReached i graph → 0 < QueueData.nodeCount g graph →
        ∃ inp ∈ s.data.inputs, byteAt inp.bitmap.bits i = s.normalByte i ∧
          ∃ r ∈ inp.storageReasons, r.index = i ∧ r.new = s.normalByte i := by
  refine ⟨h.exists_firstReached hpos, ?_⟩
  rintro graph ⟨p, hp, rfl, hclass, rfl, hnew⟩ hnodes
  rcases h.traced.kept p hp hclass hnodes with ⟨inp, hinp, hr, hbyte⟩ | ⟨input, hinput, -⟩
  · refine ⟨inp, hinp, ?_, p.2.reason, hr, rfl, hnew⟩
    rw [← hnew, byteAt, List.getD_eq_getElem?_getD, hbyte]
    rfl
  · rw [quiet] at hinput
    cases hinput

def tickTarget : Target 2 where
  runTest graph := some (if graph.ops.length = 1 then [3, 0] else [1, 5], .normal 0)
  length_eq := by
    intro graph run etype h
    cases h
    by_cases hlen : graph.ops.length = 1
    · simp [hlen]
    · simp [hlen]

def twoThreads : Option (Fleet Bool) :=
  [.run false ⟨[0], []⟩, .run true ⟨[0, 0], []⟩, .check true, .check false, .filter true,
    .filter false, .push false, .push true, .compute false, .store false, .compute true,
    .store true].foldlM (fun s a => s.step QueueData.tickSpec tickTarget a) (new Bool 2)

lemma isSome_twoThreads : twoThreads.isSome := by decide +kernel

def twoThreadsEnd : Fleet Bool := twoThreads.get isSome_twoThreads

theorem no_coverage_lost_twoThreads : ∃ s : Fleet Bool,
    Reachable QueueData.tickSpec tickTarget s ∧ s.Quiet ∧ 0 < s.normalByte 0 ∧
      s.FirstReached 0 ⟨[0], []⟩ ∧
      ∃ inp ∈ s.data.inputs, byteAt inp.bitmap.bits 0 = s.normalByte 0 ∧
        ∃ r ∈ inp.storageReasons, r.index = 0 ∧ r.new = s.normalByte 0 := by
  have hreach : Reachable QueueData.tickSpec tickTarget twoThreadsEnd :=
    Reachable.init.foldlM (Option.some_get isSome_twoThreads).symm
  have quiet : twoThreadsEnd.Quiet := by
    show ∀ t : Bool, (twoThreadsEnd.workers t).phase = .idle
    decide +kernel
  have hpos : 0 < twoThreadsEnd.normalByte 0 := by decide +kernel
  have hfirst : twoThreadsEnd.FirstReached 0 ⟨[0], []⟩ := by
    show ∃ p ∈ twoThreadsEnd.raises, p.1 = ⟨[0], []⟩ ∧ p.2.etype.exitClass = some .normal ∧
      p.2.reason.index = 0 ∧ p.2.reason.new = twoThreadsEnd.normalByte 0
    decide +kernel
  exact ⟨_, hreach, quiet, hpos, hfirst,
    (no_coverage_lost hreach quiet 0 hpos).2 _ hfirst (by decide +kernel)⟩

end Fleet

end Nyx.Fuzzer
