import Nyx.Lib.Exec

/-!
# Simulation of computations

A computation simulates another one if it returns and fails as that one does, while its states keep
an invariant and an abstraction function relates them. Simulations compose along `bind`.
-/

namespace Nyx.Exec

variable {ε ε' σ τ α β : Type}

def Simulates (I : σ → Prop) (abs : σ → τ) (err : ε' → ε) (m : Exec ε σ α) (m' : Exec ε' τ α) : Prop :=
  ∀ s, I s → match m'.run (abs s) with
    | (.ok a, t) => ∃ s', m.run s = (.ok a, s') ∧ abs s' = t ∧ I s'
    | (.error e, _) => ∃ s', m.run s = (.error (err e), s')

variable {I : σ → Prop} {abs : σ → τ} {err : ε' → ε} {m : Exec ε σ α} {m' : Exec ε' τ α}

section

variable (h : Simulates I abs err m m')
include h

lemma Simulates.ok {s : σ} {a : α} {t : τ} (hs : I s)
    (hr : m'.run (abs s) = (.ok a, t)) : ∃ s', m.run s = (.ok a, s') ∧ abs s' = t ∧ I s' := by
  have hm := h s hs
  rwa [hr] at hm

lemma Simulates.error {s : σ} {e : ε'} {t : τ} (hs : I s)
    (hr : m'.run (abs s) = (.error e, t)) : ∃ s', m.run s = (.error (err e), s') := by
  have hm := h s hs
  rwa [hr] at hm

lemma Simulates.outcome {s : σ} (hs : I s) : (m.run s).1 = (m'.run (abs s)).1.mapError err := by
  rcases hr : m'.run (abs s) with ⟨_ | a, t⟩
  · obtain ⟨s', hs'⟩ := h.error hs hr
    rw [hs']
    rfl
  · obtain ⟨s', hs', -⟩ := h.ok hs hr
    rw [hs']
    rfl

lemma Simulates.of_ok {s s' : σ} {a : α} (hs : I s)
    (hr : m.run s = (.ok a, s')) : m'.run (abs s) = (.ok a, abs s') ∧ I s' := by
  rcases hr' : m'.run (abs s) with ⟨_ | b, t⟩
  · obtain ⟨u, hu⟩ := h.error hs hr'
    rw [hr] at hu
    cases hu
  · obtain ⟨u, hu, rfl, hI⟩ := h.ok hs hr'
    rw [hr] at hu
    cases hu
    exact ⟨rfl, hI⟩

end

lemma Simulates.pure (a : α) : Simulates I abs err (Pure.pure a : Exec ε σ α) (Pure.pure a) :=
  fun s hs => ⟨s, rfl, rfl, hs⟩

lemma Simulates.gets {f : σ → α} {f' : τ → α} (h : ∀ s, I s → f s = f' (abs s)) :
    Simulates I abs err (Exec.gets f : Exec ε σ α) (Exec.gets f') :=
  fun s hs => ⟨s, by rw [run_gets, h s hs], rfl, hs⟩

lemma Simulates.bind {k : α → Exec ε σ β} {k' : α → Exec ε' τ β} (hm : Simulates I abs err m m')
    (hk : ∀ a, Simulates I abs err (k a) (k' a)) : Simulates I abs err (m >>= k) (m' >>= k') := by
  intro s hs
  rcases hr : m'.run (abs s) with ⟨_ | a, t⟩
  · obtain ⟨s', hs'⟩ := hm.error hs hr
    rw [run_bind_error hr]
    exact ⟨s', run_bind_error hs'⟩
  · obtain ⟨s', hs', rfl, hI⟩ := hm.ok hs hr
    rw [run_bind_ok hr, run_bind_ok hs']
    exact hk a s' hI

lemma Simulates.ite {c : Prop} [Decidable c] {k : Exec ε σ α} {k' : Exec ε' τ α}
    (hm : Simulates I abs err m m') (hk : Simulates I abs err k k') :
    Simulates I abs err (if c then m else k) (if c then m' else k') := by
  split
  · exact hm
  · exact hk

end Nyx.Exec
