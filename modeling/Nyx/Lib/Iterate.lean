import Mathlib.Tactic.Common

/-!
# Loops as iterated steps

A loop is a step function that either goes on with a new state or leaves with a result. `iterate`
runs it for a number of rounds, `Ends` says that it leaves after some number of them.
-/

namespace Nyx

variable {σ ρ : Type}

def iterate (step : σ → σ ⊕ ρ) : ℕ → σ → Option ρ
  | 0, _ => none
  | n + 1, s =>
    match step s with
    | .inl s' => iterate step n s'
    | .inr r => some r

def Ends (step : σ → σ ⊕ ρ) (s : σ) (r : ρ) : Prop := ∃ n, iterate step n s = some r

variable {step : σ → σ ⊕ ρ}

variable {s : σ}

lemma iterate_of_inl {s' : σ} (h : step s = .inl s') (n : ℕ) :
    iterate step (n + 1) s = iterate step n s' := by
  simp [iterate, h]

lemma iterate_of_inr {r : ρ} (h : step s = .inr r) (n : ℕ) : iterate step (n + 1) s = some r := by
  simp [iterate, h]

/-- A loop that goes through `f 0`, `f 1`, and so on, and leaves from `f s`. -/
lemma iterate_chain {f : ℕ → σ} {s n : ℕ} {r : ρ} (hgo : ∀ i < s, step (f i) = .inl (f (i + 1)))
    (hstop : step (f s) = .inr r) (hn : s < n) : iterate step n (f 0) = some r := by
  induction s generalizing f n with
  | zero =>
    obtain ⟨n, rfl⟩ : ∃ k, n = k + 1 := ⟨n - 1, by omega⟩
    exact iterate_of_inr hstop n
  | succ s ih =>
    obtain ⟨n, rfl⟩ : ∃ k, n = k + 1 := ⟨n - 1, by omega⟩
    rw [iterate_of_inl (hgo 0 (Nat.succ_pos s))]
    exact ih (fun i hi => hgo (i + 1) (Nat.succ_lt_succ hi)) hstop (Nat.lt_of_succ_lt_succ hn)

lemma iterate_mono {n m : ℕ} {r : ρ} (h : iterate step n s = some r) (hnm : n ≤ m) :
    iterate step m s = some r := by
  induction n generalizing m s with
  | zero => cases h
  | succ n ih =>
    obtain ⟨m, rfl⟩ : ∃ k, m = k + 1 := ⟨m - 1, by omega⟩
    cases hs : step s with
    | inl s' =>
      rw [iterate_of_inl hs] at h ⊢
      exact ih h (by omega)
    | inr r' =>
      rw [iterate_of_inr hs] at h ⊢
      exact h

lemma iterate_extend {step step' : σ → σ ⊕ Option ρ} (hgo : ∀ s s', step s = .inl s' → step' s = .inl s')
    (hdone : ∀ s r, step s = .inr (some r) → step' s = .inr (some r)) {n : ℕ} {r : ρ}
    (h : iterate step n s = some (some r)) : iterate step' n s = some (some r) := by
  induction n generalizing s with
  | zero => cases h
  | succ n ih =>
    cases hs : step s with
    | inl s' =>
      rw [iterate_of_inl hs] at h
      rw [iterate_of_inl (hgo s s' hs)]
      exact ih h
    | inr r' =>
      rw [iterate_of_inr hs, Option.some.injEq] at h
      rw [h] at hs
      rw [iterate_of_inr (hdone s r hs)]

namespace Ends

lemma done {s : σ} {r : ρ} (h : step s = .inr r) : Ends step s r := ⟨1, iterate_of_inr h 0⟩

lemma next {s s' : σ} {r : ρ} (h : step s = .inl s') (he : Ends step s' r) : Ends step s r := by
  obtain ⟨n, hn⟩ := he
  exact ⟨n + 1, (iterate_of_inl h n).trans hn⟩

lemma eq_of_iterate {n : ℕ} {s : σ} {r r' : ρ} (h : Ends step s r)
    (h' : iterate step n s = some r') : r' = r := by
  obtain ⟨m, hm⟩ := h
  have hleft := iterate_mono hm (Nat.le_max_left m n)
  have hright := iterate_mono h' (Nat.le_max_right m n)
  exact Option.some.inj (hright.symm.trans hleft)

end Ends

inductive Visits (step : σ → σ ⊕ ρ) (s : σ) : σ → Prop
  | start : Visits step s s
  | next {t t' : σ} (h : Visits step s t) (hstep : step t = .inl t') : Visits step s t'

lemma Visits.of_step {s' t : σ} (hstep : step s = .inl s') (h : Visits step s' t) :
    Visits step s t := by
  induction h with
  | start => exact .next .start hstep
  | next _ hnext ih => exact .next ih hnext

lemma Visits.trans {t u : σ} (h : Visits step s t) (h' : Visits step t u) : Visits step s u := by
  induction h' with
  | start => exact h
  | next _ hnext ih => exact .next ih hnext

lemma Visits.ends {t : σ} {r : ρ} (h : Visits step s t) (he : Ends step t r) : Ends step s r := by
  induction h with
  | start => exact he
  | next _ hnext ih => exact ih (he.next hnext)

lemma Visits.cases_head {t : σ} (h : Visits step s t) :
    t = s ∨ ∃ s', step s = .inl s' ∧ Visits step s' t := by
  induction h with
  | start => exact .inl rfl
  | @next t t' _ hnext ih =>
    rcases ih with rfl | ⟨s', hs', h'⟩
    · exact .inr ⟨t', hnext, .start⟩
    · exact .inr ⟨s', hs', h'.next hnext⟩

def trail (step : σ → σ ⊕ ρ) : ℕ → σ → List σ
  | 0, _ => []
  | n + 1, s =>
    s :: match step s with
      | .inl s' => trail step n s'
      | .inr _ => []

lemma Visits.mem_trail {n : ℕ} {t : σ} {r : ρ} (h : Visits step s t)
    (hends : iterate step n s = some r) : t ∈ trail step n s := by
  induction n generalizing s with
  | zero => cases hends
  | succ n ih =>
    rw [trail, List.mem_cons]
    rcases h.cases_head with heq | ⟨s', hs', h'⟩
    · exact .inl heq
    · rw [iterate_of_inl hs'] at hends
      rw [hs']
      exact .inr (ih h' hends)

variable {P : σ → Prop}

lemma Visits.invariant (hstep : ∀ t t', P t → step t = .inl t' → P t') {t : σ}
    (h : Visits step s t) (hs : P s) : P t := by
  induction h with
  | start => exact hs
  | next _ hnext ih => exact hstep _ _ ih hnext

/-- What every step keeps and every exit turns into `Q` holds for the result of the loop. -/
theorem iterate_invariant {Q : ρ → Prop}
    (hstep : ∀ s s', P s → step s = .inl s' → P s') (hdone : ∀ s r, P s → step s = .inr r → Q r)
    {n : ℕ} {r : ρ} (hs : P s) (h : iterate step n s = some r) : Q r := by
  induction n generalizing s with
  | zero => cases h
  | succ n ih =>
    cases hcase : step s with
    | inl s' =>
      rw [iterate_of_inl hcase] at h
      exact ih (hstep s s' hs hcase) h
    | inr r' =>
      rw [iterate_of_inr hcase] at h
      exact Option.some.inj h ▸ hdone s r' hs hcase

lemma iterate_elim {Q : ρ → Prop} (hround : ∀ s, P s → Sum.elim P Q (step s)) {n : ℕ}
    {r : ρ} (hs : P s) (h : iterate step n s = some r) : Q r := by
  refine iterate_invariant (fun t t' ht hstep => ?_) (fun t r ht hstep => ?_) hs h
  · simpa only [hstep, Sum.elim_inl] using hround t ht
  · simpa only [hstep, Sum.elim_inr] using hround t ht

lemma Visits.elim {Q : ρ → Prop} (hround : ∀ s, P s → Sum.elim P Q (step s)) {t : σ}
    (h : Visits step s t) (hs : P s) : P t :=
  h.invariant (fun u u' hu hstep => by simpa only [hstep, Sum.elim_inl] using hround u hu) hs

/-- Two loops whose steps are related leave with related results, after the same number of rounds. -/
theorem iterate_rel {σ' ρ' : Type} {step' : σ' → σ' ⊕ ρ'} {R : σ → σ' → Prop} {Q : ρ → ρ' → Prop}
    (hstep : ∀ s s', R s s' → Sum.LiftRel R Q (step s) (step' s')) (n : ℕ) {s' : σ'}
    (hs : R s s') : Option.Rel Q (iterate step n s) (iterate step' n s') := by
  induction n generalizing s s' with
  | zero => exact .none
  | succ n ih =>
    have hnext := hstep s s' hs
    unfold iterate
    cases hcase : step s with
    | inl t =>
      rw [hcase] at hnext
      cases hcase' : step' s' with
      | inl t' =>
        rw [hcase'] at hnext
        cases hnext with
        | inl hrel => exact ih hrel
      | inr r' =>
        rw [hcase'] at hnext
        cases hnext
    | inr r =>
      rw [hcase] at hnext
      cases hcase' : step' s' with
      | inl t' =>
        rw [hcase'] at hnext
        cases hnext
      | inr r' =>
        rw [hcase'] at hnext
        cases hnext with
        | inr hrel => exact .some hrel

/-- A loop ends with `Q` if every round either leaves with `Q` or keeps `P` and lowers a measure. -/
theorem iterate_total {Q : ρ → Prop} (measure : σ → ℕ)
    (hround : ∀ s, P s → (∃ r, step s = .inr r ∧ Q r) ∨
      ∃ s', step s = .inl s' ∧ P s' ∧ measure s' < measure s)
    {m : ℕ} (hs : P s) (hm : measure s ≤ m) :
    ∃ r, iterate step (m + 1) s = some r ∧ Q r := by
  induction m generalizing s with
  | zero =>
    obtain ⟨r, hr, hQ⟩ | ⟨s', -, -, hlt⟩ := hround s hs
    · exact ⟨r, iterate_of_inr hr 0, hQ⟩
    · omega
  | succ m ih =>
    obtain ⟨r, hr, hQ⟩ | ⟨s', hgo, hs', hlt⟩ := hround s hs
    · exact ⟨r, iterate_of_inr hr (m + 1), hQ⟩
    · rw [iterate_of_inl hgo]
      exact ih hs' (by omega)

end Nyx
