import Nyx.Fuzzer.Queue

/-!
# Concurrent calls of `add`

Several threads call `add`. The lock is held for one part of a call at a time: the input is pushed,
the favourites are computed, and they are stored.
-/

namespace Nyx.Fuzzer

open Function

inductive AddPhase where
  | idle
  | pushed
  /-- The favourites are computed and not stored yet. -/
  | computed (favids : List InputID)
  deriving DecidableEq

/-- A queue with threads in the middle of `add`. -/
structure AddSystem (ι : Type) where
  data : QueueData
  phase : ι → AddPhase

inductive AddStep (ι : Type) where
  | push (t : ι) (input : Input)
  | compute (t : ι)
  | store (t : ι)

instance (g : GraphSpec) (input : Input) : Decidable (QueueData.Accepted g input) :=
  inferInstanceAs (Decidable (_ ∧ (GraphStorage.nodeIter g input.data).stop = none ∧ _ ∧ _))

instance (inp : Input) (i : ℕ) : Decidable (inp.hits i) :=
  inferInstanceAs (Decidable (byteAt inp.bitmap.bits i ≠ 0))

namespace AddSystem

variable {ι : Type} [DecidableEq ι]

def new (ι : Type) (size : ℕ) : AddSystem ι := ⟨QueueData.new size, fun _ => .idle⟩

def step (g : GraphSpec) (s : AddSystem ι) : AddStep ι → Option (AddSystem ι)
  | .push t input =>
    if s.phase t = .idle ∧ QueueData.Accepted g input then
      match (QueueData.pushInput g input).run s.data with
      | (.ok _, data) => some ⟨data, update s.phase t .pushed⟩
      | (.error _, _) => none
    else none
  | .compute t =>
    match s.phase t, s.data.computeFavs with
    | .pushed, .ok favids => some ⟨s.data, update s.phase t (.computed favids)⟩
    | _, _ => none
  | .store t =>
    match s.phase t with
    | .computed favids =>
      some ⟨{ s.data with favqueue := favids }, update s.phase t .idle⟩
    | _ => none

inductive Reachable (g : GraphSpec) (size : ℕ) (ok : AddSystem ι → AddStep ι → Prop) :
    AddSystem ι → Prop
  | init : Reachable g size ok (new ι size)
  | next {s s' : AddSystem ι} {a : AddStep ι} (before : Reachable g size ok s) (allowed : ok s a)
      (taken : s.step g a = some s') : Reachable g size ok s'

def Quiet (s : AddSystem ι) : Prop := ∀ t, s.phase t = .idle

/-- Nothing is pushed between the computation of favourites and their store. -/
def Undisturbed (s : AddSystem ι) : AddStep ι → Prop
  | .push _ _ => ∀ t favids, s.phase t ≠ .computed favids
  | _ => True

variable {g : GraphSpec} {s s' : AddSystem ι}

lemma step_push (hs : s.data.Represents g) {t : ι}
    {input : Input} (h : s.step g (.push t input) = some s') :
    s.phase t = .idle ∧ s'.phase = update s.phase t .pushed ∧ s'.data.Represents g := by
  by_cases hc : s.phase t = .idle ∧ QueueData.Accepted g input
  · obtain ⟨d, hrun, hd, -⟩ := QueueData.pushInput_spec hs hc.2.2.1
    simp only [step, if_pos hc, hrun, Option.some.injEq] at h
    subst h
    exact ⟨hc.1, rfl, hd⟩
  · simp only [step, if_neg hc] at h
    cases h

lemma step_compute {t : ι} (h : s.step g (.compute t) = some s') :
    ∃ favids, s.data.computeFavs = .ok favids ∧
      s' = ⟨s.data, update s.phase t (.computed favids)⟩ := by
  cases hphase : s.phase t with
  | idle => simp [step, hphase] at h
  | computed favids => simp [step, hphase] at h
  | pushed =>
    cases hfavs : s.data.computeFavs with
    | error e => simp [step, hphase, hfavs] at h
    | ok favids =>
      simp only [step, hphase, hfavs, Option.some.injEq] at h
      exact ⟨favids, rfl, h.symm⟩

lemma step_store {t : ι} (h : s.step g (.store t) = some s') :
    ∃ favids, s.phase t = .computed favids ∧
      s' = ⟨{ s.data with favqueue := favids }, update s.phase t .idle⟩ := by
  cases hphase : s.phase t with
  | idle => simp [step, hphase] at h
  | pushed => simp [step, hphase] at h
  | computed favids =>
    simp only [step, hphase, Option.some.injEq] at h
    exact ⟨favids, rfl, h.symm⟩

/-- Computed favourites are those of the inputs present, and so are the stored ones unless a call is
under way. -/
structure Fresh (g : GraphSpec) (s : AddSystem ι) : Prop where
  represents : s.data.Represents g
  computed : ∀ t favids, s.phase t = .computed favids → s.data.computeFavs = .ok favids
  stored : (∃ t, s.phase t ≠ .idle) ∨ s.data.computeFavs = .ok s.data.favqueue

omit [DecidableEq ι] in
lemma fresh_new (g : GraphSpec) (size : ℕ) : (new ι size).Fresh g where
  represents := QueueData.represents_new g size
  computed := by
    intro t favids h
    cases h
  stored := .inr rfl

lemma Fresh.push (hs : s.Fresh g) {t : ι} {input : Input} (hok : s.Undisturbed (.push t input))
    (h : s.step g (.push t input) = some s') : s'.Fresh g := by
  obtain ⟨-, hphase, hd⟩ := step_push hs.represents h
  refine ⟨hd, ?_, .inl ⟨t, by simp [hphase]⟩⟩
  intro u favids hu
  rw [hphase] at hu
  by_cases hut : u = t
  · simp [hut] at hu
  · rw [update_of_ne hut] at hu
    exact absurd hu (hok u favids)

lemma Fresh.compute (hs : s.Fresh g) {t : ι}
    (h : s.step g (.compute t) = some s') : s'.Fresh g := by
  obtain ⟨favids, hfavs, rfl⟩ := step_compute h
  refine ⟨hs.represents, ?_, .inl ⟨t, by simp⟩⟩
  intro u favids' hu
  by_cases hut : u = t
  · have heq : favids = favids' := by simpa [hut] using hu
    rw [← heq]
    exact hfavs
  · exact hs.computed u favids' (by simpa [hut] using hu)

lemma Fresh.store (hs : s.Fresh g) {t : ι} (h : s.step g (.store t) = some s') : s'.Fresh g := by
  obtain ⟨favids, hphase, rfl⟩ := step_store h
  have hfavs := hs.computed t favids hphase
  refine ⟨hs.represents.setFavqueue hfavs, ?_, .inr hfavs⟩
  intro u favids' hu
  by_cases hut : u = t
  · simp [hut] at hu
  · exact hs.computed u favids' (by simpa [hut] using hu)

lemma Reachable.fresh {size : ℕ} (h : Reachable g size Undisturbed s) : s.Fresh g := by
  induction h with
  | init => exact fresh_new g size
  | @next s s' a _ allowed taken ih =>
    cases a with
    | push t input => exact ih.push allowed taken
    | compute t => exact ih.compute taken
    | store t => exact ih.store taken

/-- If nothing is pushed between the two locks of `calc_fav_bits`, the favourites are complete
whenever no call is under way. -/
theorem favqueue_complete {g : GraphSpec} {size : ℕ} {s : AddSystem ι}
    (h : Reachable g size Undisturbed s) (quiet : s.Quiet) :
    QueueData.CoversNew s.data.favqueue s.data.inputs := by
  have hfavs : s.data.computeFavs = .ok s.data.favqueue := by
    rcases h.fresh.stored with ⟨t, ht⟩ | hfavs
    · exact absurd (quiet t) ht
    · exact hfavs
  exact (QueueData.computeFavs_eq_ok h.fresh.represents.numbered hfavs).2

def leftInput : Input := QueueData.tickInput 1 [1, 0] [⟨0, 0, 1⟩]

def rightInput : Input := QueueData.tickInput 1 [0, 1] [⟨1, 0, 1⟩]

theorem favqueue_complete_twoThreads : ∃ s : AddSystem Bool,
    Reachable QueueData.tickSpec 2 Undisturbed s ∧ s.Quiet ∧
      QueueData.CoversNew s.data.favqueue s.data.inputs ∧ s.data.favqueue = [⟨1⟩, ⟨0⟩] := by
  have h₁ := @Reachable.next Bool _ QueueData.tickSpec 2 Undisturbed _ _ (.push false leftInput)
    .init (by simp [Undisturbed, new]) rfl
  have h₂ := @Reachable.next Bool _ _ _ _ _ _ (.push true rightInput) h₁
    (by simp [Undisturbed, new]) rfl
  have h₃ := @Reachable.next Bool _ _ _ _ _ _ (.compute false) h₂ trivial rfl
  have h₄ := @Reachable.next Bool _ _ _ _ _ _ (.compute true) h₃ trivial rfl
  have h₅ := @Reachable.next Bool _ _ _ _ _ _ (.store true) h₄ trivial rfl
  have h₆ := @Reachable.next Bool _ _ _ _ _ _ (.store false) h₅ trivial rfl
  have hall := favqueue_complete h₆ fun t => by cases t <;> rfl
  exact ⟨_, h₆, fun t => by cases t <;> rfl, hall, by decide +kernel⟩

/-- The first thread stores favourites that it computed before the second one pushed its input:
index 1 is lost. -/
theorem favqueue_not_complete : ∃ s : AddSystem Bool,
    Reachable QueueData.tickSpec 2 (fun _ _ => True) s ∧ s.Quiet ∧
      ¬ QueueData.CoversNew s.data.favqueue s.data.inputs := by
  have h₁ := @Reachable.next Bool _ QueueData.tickSpec 2 (fun _ _ => True) _ _
    (.push false leftInput) .init trivial rfl
  have h₂ := @Reachable.next Bool _ _ _ _ _ _ (.compute false) h₁ trivial rfl
  have h₃ := @Reachable.next Bool _ _ _ _ _ _ (.push true rightInput) h₂ trivial rfl
  have h₄ := @Reachable.next Bool _ _ _ _ _ _ (.compute true) h₃ trivial rfl
  have h₅ := @Reachable.next Bool _ _ _ _ _ _ (.store true) h₄ trivial rfl
  have h₆ := @Reachable.next Bool _ _ _ _ _ _ (.store false) h₅ trivial rfl
  refine ⟨_, h₆, fun t => by cases t <;> rfl, ?_⟩
  intro hcovers
  exact absurd (hcovers 1) (by decide +kernel)

end AddSystem

end Nyx.Fuzzer
