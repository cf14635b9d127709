import Mathlib.Algebra.Group.Nat.Defs
import Nyx.Lib.Exec

/-!
# Panics and random draws of the structured fuzzer

`Distributions` is the tape of the draws still to come; a theorem over every tape is one over every
outcome. `Panic.outOfDraws` marks a run that the tape is too short for.
-/

namespace Nyx

abbrev ConnectorID := UInt16
abbrev NodeTypeID := UInt16
abbrev ValueTypeID := UInt16
abbrev AtomicTypeID := ℕ

/-- The panics below the graph builder. Index, slice, assertion and arithmetic panics are one
constructor each; those with a text of their own are named after it. -/
inductive Panic where
  /-- `Node {} has invalid data type {:?}` -/
  | invalidDataType (name : String) (data : AtomicTypeID)
  /-- `invalid graph, couldn't get node type` -/
  | invalidGraph (node : NodeTypeID)
  /-- `invalid spec, couldn't get data type` -/
  | invalidSpec (data : AtomicTypeID)
  /-- `invalid field type in struct` -/
  | invalidFieldType (data : AtomicTypeID)
  /-- `invalid data type id ({:?}) used in vec` -/
  | invalidVecType (data : AtomicTypeID)
  /-- `invalid integer size {}` -/
  | invalidIntegerSize (size : ℕ)
  /-- `can't call as_usize on dynamic sized atomic data` -/
  | dynamicSize
  | unwrapNone
  | unwrapErr
  | indexOutOfBounds
  | assertFailed
  | divideByZero
  /-- `gen_range` with `low >= high` -/
  | emptyRange
  | enteredUnreachable
  | stackOverflow
  /-- Not a panic of the code: the tape of random draws is used up. -/
  | outOfDraws
  deriving DecidableEq, Repr

/-- The outcomes of the draws, in order. -/
structure Distributions where
  draws : List ℕ

def usizeSub (a b : ℕ) : ℕ := if b ≤ a then a - b else a + 2 ^ 64 - b

namespace Distributions

def next : Exec Panic Distributions ℕ := fun d =>
  match d.draws with
  | [] => (.error .outOfDraws, d)
  | x :: xs => (.ok x, ⟨xs⟩)

def gen (n : ℕ) : Exec Panic Distributions ℕ := do
  let x ← next
  pure (x % n)

def genBool : Exec Panic Distributions Bool := do
  let x ← next
  pure (x % 2 == 1)

def genRange (low high : ℕ) : Exec Panic Distributions ℕ :=
  if low < high then do
    let x ← next
    pure (low + x % (high - low))
  else Exec.panic .emptyRange

def genRangeInt (low high : ℤ) : Exec Panic Distributions ℤ :=
  if low < high then do
    let x ← next
    pure (low + (x : ℤ) % (high - low))
  else Exec.panic .emptyRange

/-- `choose_from_iter`, and `Choices::sample` whose weights are all positive. -/
def chooseFromIter {α : Type} (l : List α) : Exec Panic Distributions (Option α) :=
  match l with
  | [] => pure none
  | a :: l => do
    let x ← next
    pure ((a :: l)[x % (l.length + 1)]?)

def shouldMutateData : Exec Panic Distributions Bool := do
  let x ← genRange 0 3
  pure (x ≤ 1)

def shouldMutateDict : Exec Panic Distributions Bool := do
  let x ← genRange 0 3
  pure (x == 0)

def genNumberOfRandomNodes : Exec Panic Distributions ℕ := genRange 1 64

def blockSizes : List (ℕ × ℕ) := [(1, 32), (32, 128), (128, 1500)]

def genBlockSize : Exec Panic Distributions (ℕ × ℕ) := do
  let o ← chooseFromIter blockSizes
  Exec.unwrap .indexOutOfBounds o

lemma genRange_spec (low high : ℕ) :
    Exec.Triple (fun _ => True) (genRange low high) (fun x _ => low ≤ x ∧ x < high)
      (fun e _ => e = .outOfDraws ∨ e = .emptyRange ∧ high ≤ low) := by
  intro d _
  unfold genRange
  by_cases h : low < high
  · rw [if_pos h, Exec.run_bind]
    rcases d with ⟨_ | ⟨x, xs⟩⟩
    · exact .inl rfl
    · have := Nat.mod_lt x (show high - low > 0 by omega)
      exact ⟨by omega, by omega⟩
  · rw [if_neg h]
    exact .inr ⟨rfl, by omega⟩

lemma chooseFromIter_spec {α : Type} (l : List α) :
    Exec.Triple (fun _ => True) (chooseFromIter l) (fun o _ => ∀ a, o = some a → a ∈ l)
      (fun e _ => e = .outOfDraws) := by
  intro d _
  unfold chooseFromIter
  cases l with
  | nil => intro a ha; cases ha
  | cons b l =>
    rcases d with ⟨_ | ⟨x, xs⟩⟩
    · rfl
    · intro a ha
      exact List.mem_of_getElem? ha

/-- One draw decides what is returned. -/
structure Takes {α : Type} (m : Exec Panic Distributions α) (P : α → Prop) : Prop where
  draw : ∀ x xs, ∃ a, m.run ⟨x :: xs⟩ = (.ok a, ⟨xs⟩) ∧ P a
  stop : m.run ⟨[]⟩ = (.error .outOfDraws, ⟨[]⟩)

lemma takes_next {α : Type} (f : ℕ → α) : Takes (next >>= fun x => pure (f x)) fun _ => True :=
  ⟨fun x _ => ⟨f x, rfl, trivial⟩, rfl⟩

lemma takes_genRange {low high : ℕ} (h : low < high) :
    Takes (genRange low high) fun x => low ≤ x ∧ x < high := by
  unfold genRange
  rw [if_pos h]
  refine ⟨fun x _ => ⟨low + x % (high - low), rfl, ?_⟩, rfl⟩
  have hmod := Nat.mod_lt x (Nat.sub_pos_of_lt h)
  omega

lemma takes_chooseFromIter {α : Type} (a : α) (l : List α) :
    Takes (chooseFromIter (a :: l)) fun o => ∃ c ∈ a :: l, o = some c := by
  refine ⟨fun x _ => ⟨_, rfl, ?_⟩, rfl⟩
  have hlt : x % (l.length + 1) < (a :: l).length := Nat.mod_lt x (Nat.succ_pos _)
  exact ⟨_, List.getElem_mem hlt, List.getElem?_eq_getElem hlt⟩

lemma takes_genBlockSize : Takes genBlockSize fun p => 0 < p.1 ∧ p.1 < p.2 := by
  refine ⟨fun x xs => ?_, rfl⟩
  obtain ⟨o, hrun, c, hc, rfl⟩ := (takes_chooseFromIter (1, 32) [(32, 128), (128, 1500)]).draw x xs
  have hall : ∀ p ∈ blockSizes, 0 < p.1 ∧ p.1 < p.2 := by decide
  exact ⟨c, Exec.run_bind_ok hrun, hall c hc⟩

end Distributions

end Nyx
