import Mathlib.Order.Bounds.Basic
import Mathlib.Tactic.Common

/-!
# Two-level accumulation in a semilattice

Parties add elements to a shared supremum. An element below what its party added before is dropped;
any other one is added to the party's supremum at once and to the shared one later.
-/

namespace Nyx

open Function

/-- A shared element, and one for each party. -/
structure TwoLevel (ι α : Type*) where
  shared : α
  own : ι → α
  /-- The element of the party that is in `own` and not yet in `shared`. -/
  pending : ι → Option α
  seen : List α

namespace TwoLevel

variable {ι α : Type*} [DecidableEq ι] [SemilatticeSup α] [OrderBot α]

lemma isLUB_foldr_sup (l : List α) : IsLUB {a | a ∈ l} (l.foldr (· ⊔ ·) ⊥) := by
  induction l with
  | nil => simp
  | cons b l ih =>
    have hinsert : {a | a ∈ b :: l} = {b} ∪ {a | a ∈ l} := by
      ext a
      simp
    rw [hinsert]
    exact isLUB_singleton.union ih

inductive Step : TwoLevel ι α → TwoLevel ι α → Prop
  | discard {s : TwoLevel ι α} {t : ι} {a : α} (idle : s.pending t = none) (known : a ≤ s.own t) :
      Step s { s with seen := a :: s.seen }
  | keep {s : TwoLevel ι α} {t : ι} {a : α} (idle : s.pending t = none) :
      Step s { s with
        own := update s.own t (s.own t ⊔ a)
        pending := update s.pending t (some a)
        seen := a :: s.seen }
  | publish {s : TwoLevel ι α} {t : ι} {a : α} (waiting : s.pending t = some a) :
      Step s { s with
        shared := s.shared ⊔ a
        pending := update s.pending t none }

/-- What is missing in `shared` is pending. -/
structure Sound (s : TwoLevel ι α) : Prop where
  own_le : ∀ t, s.own t ≤ s.shared ⊔ (s.pending t).getD ⊥
  seen_le : ∀ a ∈ s.seen, a ≤ s.shared ∨ ∃ t, s.pending t = some a
  pending_seen : ∀ t a, s.pending t = some a → a ∈ s.seen
  shared_le : ∀ b, (∀ a ∈ s.seen, a ≤ b) → s.shared ≤ b

variable {s : TwoLevel ι α}

omit [DecidableEq ι] in
lemma Sound.own_le_shared (h : Sound s) {t : ι} (idle : s.pending t = none) :
    s.own t ≤ s.shared := by
  have hown := h.own_le t
  rw [idle] at hown
  simpa using hown

omit [DecidableEq ι] in
/-- With nothing pending the shared element is the supremum of all that was seen. -/
lemma Sound.shared_eq (h : Sound s) (idle : ∀ t, s.pending t = none) :
    s.shared = s.seen.foldr (· ⊔ ·) ⊥ := by
  have hshared : IsLUB {a | a ∈ s.seen} s.shared := by
    constructor
    · intro a ha
      rcases h.seen_le a ha with hle | ⟨t, ht⟩
      · exact hle
      · rw [idle t] at ht
        cases ht
    · exact h.shared_le
  exact hshared.unique (isLUB_foldr_sup s.seen)

omit [DecidableEq ι] in
lemma Sound.discard (h : Sound s) {t : ι} {a : α}
    (idle : s.pending t = none) (known : a ≤ s.own t) : Sound { s with seen := a :: s.seen } where
  own_le := h.own_le
  seen_le := by
    intro b hb
    rcases List.mem_cons.mp hb with rfl | hb
    · exact .inl (known.trans (h.own_le_shared idle))
    · exact h.seen_le b hb
  pending_seen u b hb := List.mem_cons_of_mem a (h.pending_seen u b hb)
  shared_le b hb := h.shared_le b fun c hc => hb c (List.mem_cons_of_mem a hc)

lemma Sound.keep (h : Sound s) {t : ι} {a : α} (idle : s.pending t = none) :
    Sound { s with
      own := update s.own t (s.own t ⊔ a)
      pending := update s.pending t (some a)
      seen := a :: s.seen } where
  own_le := by
    intro u
    by_cases hu : u = t
    · subst hu
      simpa using sup_le_sup_right (h.own_le_shared idle) a
    · simpa [hu] using h.own_le u
  seen_le := by
    intro b hb
    rcases List.mem_cons.mp hb with rfl | hb
    · exact .inr ⟨t, by simp⟩
    · rcases h.seen_le b hb with hle | ⟨u, hu⟩
      · exact .inl hle
      · -- the party that waits with `b` is not the idle one
        have hne : u ≠ t := by
          intro hut
          rw [hut, idle] at hu
          cases hu
        exact .inr ⟨u, by simpa [hne] using hu⟩
  pending_seen := by
    intro u b hb
    by_cases hu : u = t
    · subst hu
      have hab : a = b := by simpa using hb
      simp [hab]
    · have hb' : s.pending u = some b := by simpa [hu] using hb
      exact List.mem_cons_of_mem a (h.pending_seen u b hb')
  shared_le b hb := h.shared_le b fun c hc => hb c (List.mem_cons_of_mem a hc)

lemma Sound.publish (h : Sound s) {t : ι} {a : α} (waiting : s.pending t = some a) :
    Sound { s with
      shared := s.shared ⊔ a
      pending := update s.pending t none } where
  own_le := by
    intro u
    by_cases hu : u = t
    · subst hu
      simpa [waiting] using h.own_le u
    · have hown := (h.own_le u).trans (sup_le_sup_right (le_sup_left (b := a)) _)
      simpa [hu] using hown
  seen_le := by
    intro b hb
    rcases h.seen_le b hb with hle | ⟨u, hu⟩
    · exact .inl (le_sup_of_le_left hle)
    · by_cases hut : u = t
      · subst hut
        have hab : a = b := by simpa [waiting] using hu
        exact .inl (hab ▸ le_sup_right)
      · exact .inr ⟨u, by simpa [hut] using hu⟩
  pending_seen := by
    intro u b hb
    by_cases hu : u = t
    · subst hu
      simp at hb
    · exact h.pending_seen u b (by simpa [hu] using hb)
  shared_le := by
    intro b hb
    apply sup_le
    · exact h.shared_le b hb
    · exact hb a (h.pending_seen t a waiting)

theorem Sound.step {s' : TwoLevel ι α} (h : Sound s) (hs : Step s s') : Sound s' := by
  cases hs with
  | discard idle known => exact h.discard idle known
  | keep idle => exact h.keep idle
  | publish waiting => exact h.publish waiting

omit [DecidableEq ι] in
theorem sound_bot : Sound (⟨⊥, fun _ => ⊥, fun _ => none, []⟩ : TwoLevel ι α) where
  own_le _ := bot_le
  seen_le := by simp
  pending_seen := by simp
  shared_le _ _ := bot_le

end TwoLevel

end Nyx
