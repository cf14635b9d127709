import Mathlib.Tactic.Common

/-!
# Machines that answer operations

A machine answers operations one after another; a failed assertion ends it. It refines another one
if it gives the same answers, which follows from a relation between states that every operation
keeps.
-/

namespace Nyx

variable {ι ο σ τ : Type}

def Machine (ι ο σ : Type) := σ → ι → Option (ο × σ)

namespace Machine

def answers (m : Machine ι ο σ) : σ → List ι → Option (List ο)
  | _, [] => some []
  | s, i :: is =>
    match m s i with
    | none => none
    | some (o, s') => (m.answers s' is).map (o :: ·)

def Stays (m : Machine ι ο σ) (p : σ → Prop) : σ → List ι → Prop
  | s, [] => p s
  | s, i :: is => p s ∧ ∀ o s', m s i = some (o, s') → m.Stays p s' is

def final (m : Machine ι ο σ) : σ → List ι → Option σ
  | s, [] => some s
  | s, i :: is =>
    match m s i with
    | none => none
    | some (_, s') => m.final s' is

/-- Every operation that is carried out meets `ok` in the state that it is taken in. -/
def Meets (m : Machine ι ο σ) (ok : σ → ι → Prop) : σ → List ι → Prop
  | _, [] => True
  | s, i :: is => ∀ o s', m s i = some (o, s') → ok s i ∧ m.Meets ok s' is

def Gives (m : Machine ι ο σ) (q : ο → Prop) : σ → List ι → Prop
  | _, [] => True
  | s, i :: is => ∀ o s', m s i = some (o, s') → q o ∧ m.Gives q s' is

/-- The operations that are carried out, with the states that they are taken in and their answers. -/
def steps (m : Machine ι ο σ) : σ → List ι → List (σ × ι × ο)
  | _, [] => []
  | s, i :: is =>
    match m s i with
    | none => []
    | some (o, s') => (s, i, o) :: m.steps s' is

variable {m : Machine ι ο σ} {n : Machine ι ο τ}

variable {is : List ι}

lemma Stays.head {p : σ → Prop} {s : σ} (h : m.Stays p s is) : p s := by
  cases is with
  | nil => exact h
  | cons i is => exact h.1

theorem stays_iff_meets (inv : σ → Prop) {p : σ → Prop} {ok : σ → ι → Prop}
    (hinv : ∀ s i o s', inv s → m s i = some (o, s') → inv s')
    (hstep : ∀ s i o s', inv s → p s → m s i = some (o, s') → (p s' ↔ ok s i))
    {s : σ} (hs : inv s) (hp : p s) (is : List ι) : m.Stays p s is ↔ m.Meets ok s is := by
  induction is generalizing s with
  | nil => exact ⟨fun _ => trivial, fun _ => hp⟩
  | cons i is ih =>
    constructor
    · rintro ⟨-, hrest⟩ o s' hi
      have hp' : p s' := Stays.head (hrest o s' hi)
      exact ⟨(hstep s i o s' hs hp hi).mp hp', (ih (hinv s i o s' hs hi) hp').mp (hrest o s' hi)⟩
    · intro hmeets
      refine ⟨hp, fun o s' hi => ?_⟩
      obtain ⟨hok, hrest⟩ := hmeets o s' hi
      exact (ih (hinv s i o s' hs hi) ((hstep s i o s' hs hp hi).mpr hok)).mpr hrest

theorem gives_iff_meets (inv : σ → Prop) {q : ο → Prop} {ok : σ → ι → Prop}
    (hinv : ∀ s i o s', inv s → ok s i → m s i = some (o, s') → inv s')
    (hstep : ∀ s i o s', inv s → m s i = some (o, s') → (q o ↔ ok s i))
    {s : σ} (hs : inv s) (is : List ι) : m.Gives q s is ↔ m.Meets ok s is := by
  induction is generalizing s with
  | nil => exact Iff.rfl
  | cons i is ih =>
    constructor
    · intro hgives o s' hi
      obtain ⟨hq, hrest⟩ := hgives o s' hi
      have hok := (hstep s i o s' hs hi).mp hq
      exact ⟨hok, (ih (hinv s i o s' hs hok hi)).mp hrest⟩
    · intro hmeets o s' hi
      obtain ⟨hok, hrest⟩ := hmeets o s' hi
      exact ⟨(hstep s i o s' hs hi).mpr hok, (ih (hinv s i o s' hs hok hi)).mpr hrest⟩

lemma final_invariant {p : List ι → σ → Prop} {s : σ} (h₀ : p [] s)
    (hstep : ∀ is s i o s', p is s → m s i = some (o, s') → p (is ++ [i]) s')
    {t : σ} (h : m.final s is = some t) : p is t := by
  suffices ∀ done s, p done s → m.final s is = some t → p (done ++ is) t by
    simpa using this [] s h₀ h
  clear h₀ h
  intro done s hp h
  induction is generalizing done s with
  | nil =>
    obtain rfl : s = t := by simpa [final] using h
    simpa using hp
  | cons i is ih =>
    rw [final] at h
    split at h
    · cases h
    · next o s' hs => simpa using ih (done ++ [i]) s' (hstep done s i o s' hp hs) h

lemma final_cons_eq_some {s t : σ} {i : ι} :
    m.final s (i :: is) = some t ↔ ∃ o s', m s i = some (o, s') ∧ m.final s' is = some t := by
  rw [final]
  split
  · next h => simp [h]
  · next o s' h => simp [h]

lemma final_concat {s t t' : σ} {i : ι} {o : ο} (h : m.final s is = some t)
    (hi : m t i = some (o, t')) : m.final s (is ++ [i]) = some t' := by
  induction is generalizing s with
  | nil =>
    obtain rfl := Option.some.inj h
    exact final_cons_eq_some.mpr ⟨o, t', hi, rfl⟩
  | cons j is ih =>
    obtain ⟨o', s', hj, hrest⟩ := final_cons_eq_some.mp h
    exact final_cons_eq_some.mpr ⟨o', s', hj, ih hrest⟩

lemma steps_cons {s s' : σ} {i : ι} {o : ο} (h : m s i = some (o, s')) (is : List ι) :
    m.steps s (i :: is) = (s, i, o) :: m.steps s' is := by
  simp [steps, h]

lemma final_of_steps_eq_append {s t : σ} (h : m.final s is = some t)
    {before after : List (σ × ι × ο)} {u : σ} {i : ι} {o : ο}
    (hsteps : m.steps s is = before ++ (u, i, o) :: after) :
    ∃ u' rest, m u i = some (o, u') ∧ m.final u' rest = some t ∧ m.steps u' rest = after := by
  induction is generalizing s before with
  | nil => simp [steps] at hsteps
  | cons j is ih =>
    obtain ⟨o', s', hj, hrest⟩ := final_cons_eq_some.mp h
    rw [steps_cons hj] at hsteps
    cases before with
    | nil =>
      obtain ⟨hhead, htail⟩ := List.cons.inj hsteps
      cases hhead
      exact ⟨s', is, hj, hrest, htail⟩
    | cons step before =>
      obtain ⟨-, htail⟩ := List.cons.inj hsteps
      exact ih hrest htail

lemma answers_cons {s s' : σ} {i : ι} {o : ο} (h : m s i = some (o, s')) (is : List ι) :
    m.answers s (i :: is) = (m.answers s' is).map (o :: ·) := by
  simp [answers, h]

lemma exists_answers (h : ∀ s i, ∃ o s', m s i = some (o, s')) (s : σ) (is : List ι) :
    ∃ os, m.answers s is = some os := by
  induction is generalizing s with
  | nil => exact ⟨[], rfl⟩
  | cons i is ih =>
    obtain ⟨o, s', hs⟩ := h s i
    obtain ⟨os, hos⟩ := ih s'
    refine ⟨o :: os, ?_⟩
    rw [answers_cons hs, hos]
    rfl

instance decidableStays (m : Machine ι ο σ) (p : σ → Prop) [DecidablePred p] :
    ∀ s is, Decidable (m.Stays p s is)
  | s, [] => inferInstanceAs (Decidable (p s))
  | s, i :: is =>
    match h : m s i with
    | none => decidable_of_iff (p s) (by simp [Stays, h])
    | some (o, s') =>
      have := decidableStays m p s' is
      decidable_of_iff (p s ∧ m.Stays p s' is) (by simp [Stays, h])

/-- `r` relates states of `m` to states of `n`, and every operation in `ops` that takes `n` from one
state of `p` to another is answered alike by `m` and leads to related states. -/
structure Simulates (m : Machine ι ο σ) (n : Machine ι ο τ) (ops : ι → Prop) (p : τ → Prop)
    (r : σ → τ → Prop) : Prop where
  step : ∀ {s t i}, r s t → ops i → p t → ∀ {o t'}, n t i = some (o, t') → p t' →
    ∃ s', m s i = some (o, s') ∧ r s' t'
  total : ∀ {t i}, ops i → p t → ∃ o t', n t i = some (o, t')

/-- Related states give the same answers as long as the reference stays where the relation is
kept. -/
theorem Simulates.answers_eq {ops : ι → Prop} {p : τ → Prop} {r : σ → τ → Prop}
    (h : Simulates m n ops p r) (hops : ∀ i ∈ is, ops i) {s : σ} {t : τ}
    (hr : r s t) (hstays : n.Stays p t is) : m.answers s is = n.answers t is := by
  induction is generalizing s t with
  | nil => rfl
  | cons i is ih =>
    have hi : ops i := hops i (by simp)
    obtain ⟨o, t', ht⟩ := h.total hi hstays.1
    have hrest : n.Stays p t' is := hstays.2 o t' ht
    obtain ⟨s', hs, hr'⟩ := h.step hr hi hstays.1 ht hrest.head
    rw [answers_cons hs, answers_cons ht, ih (fun j hj => hops j (by simp [hj])) hr' hrest]

end Machine

end Nyx
