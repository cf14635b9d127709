import Nyx.Lib.Hex
import Nyx.Lib.IndexedList
import Nyx.Lib.Machine

/-!
# The transitions of a trace

Transitions are counted, and written in the order in which they were first seen. The counts are
`uint64_t` in the source; here they are natural numbers, as no trace has 2^64 transitions.
-/

namespace Nyx

/-- A hash table is its contents. -/
structure RedqueenTrace where
  lookup : ℕ → Option ℕ
  numOrderedTransitions : ℕ
  maxOrderedTransitions : ℕ
  orderedTransitions : ℕ → ℕ

namespace RedqueenTrace

def INIT_NUM_OF_STORED_TRANSITIONS : ℕ := 0xfffff

/-- The memory of the array has any contents. -/
def new (memory : ℕ → ℕ) : RedqueenTrace where
  lookup _ := none
  numOrderedTransitions := 0
  maxOrderedTransitions := INIT_NUM_OF_STORED_TRANSITIONS
  orderedTransitions := memory

def reset (t : RedqueenTrace) : RedqueenTrace :=
  { t with lookup := fun _ => none, numOrderedTransitions := 0 }

/-- A number of 128 bits, `from` above `to`. -/
def key (p : UInt64 × UInt64) : ℕ := p.1.toNat * 2 ^ 64 + p.2.toNat

/-- `none` is a failed assertion. -/
def registerTransition (t : RedqueenTrace) (p : UInt64 × UInt64) : Option RedqueenTrace :=
  match t.lookup (key p) with
  | some count => some { t with lookup := Function.update t.lookup (key p) (some (count + 1)) }
  | none =>
    let n := t.numOrderedTransitions
    if n + 1 < t.maxOrderedTransitions then
      some { t with
        lookup := Function.update t.lookup (key p) (some 1)
        orderedTransitions := Function.update t.orderedTransitions n (key p)
        numOrderedTransitions := n + 1 }
    else none

/-- The format `%lx,%lx,%lx\n`. -/
def line (source target count : ℕ) : List Char :=
  printHex false 1 source ++ ',' :: printHex false 1 target ++ ',' :: printHex false 1 count ++
    ['\n']

def writeFile (t : RedqueenTrace) : Option (List (List Char)) :=
  ((List.range t.numOrderedTransitions).map t.orderedTransitions).mapM fun k =>
    (t.lookup k).map (line (k / 2 ^ 64) (k % 2 ^ 64))

inductive Op where
  | registerTransition (p : UInt64 × UInt64)
  | reset
  | writeFile

/-- Each call is answered by what it prints. -/
def trace : Machine Op (List (List Char)) RedqueenTrace
  | t, .registerTransition p => (t.registerTransition p).map ([], ·)
  | t, .reset => some ([], t.reset)
  | t, .writeFile => t.writeFile.map (·, t)

/-- The transitions since the last reset, and the lines that they call for. -/
def journal : Machine Op (List (List Char)) (List (UInt64 × UInt64))
  | seen, .registerTransition p => some ([], seen ++ [p])
  | _, .reset => some ([], [])
  | seen, .writeFile =>
    some (seen.eraseDups.map fun p => line p.1.toNat p.2.toNat (seen.count p), seen)

/-- The table counts the transitions seen. -/
structure Records (t : RedqueenTrace) (seen : List (UInt64 × UInt64)) : Prop where
  max : t.maxOrderedTransitions = INIT_NUM_OF_STORED_TRANSITIONS
  lookup : ∀ p, t.lookup (key p) = if p ∈ seen then some (seen.count p) else none
  num : t.numOrderedTransitions = seen.eraseDups.length
  ordered : (List.range t.numOrderedTransitions).map t.orderedTransitions = seen.eraseDups.map key

variable {t : RedqueenTrace} {seen : List (UInt64 × UInt64)} {p q : UInt64 × UInt64}

lemma key_div (p : UInt64 × UInt64) : key p / 2 ^ 64 = p.1.toNat := by
  have := p.2.toNat_lt
  unfold key
  omega

lemma key_mod (p : UInt64 × UInt64) : key p % 2 ^ 64 = p.2.toNat := by
  have := p.2.toNat_lt
  unfold key
  omega

lemma key_inj (h : key p = key q) : p = q := by
  apply Prod.ext
  · rw [← UInt64.toNat_inj, ← key_div, ← key_div, h]
  · rw [← UInt64.toNat_inj, ← key_mod, ← key_mod, h]

lemma eraseDups_concat (seen : List (UInt64 × UInt64)) (p : UInt64 × UInt64) :
    (seen ++ [p]).eraseDups = seen.eraseDups ++ if p ∈ seen then [] else [p] := by
  rw [List.eraseDups_append]
  by_cases hp : p ∈ seen
  · simp [List.removeAll, hp]
  · simp [List.removeAll, List.eraseDups_cons, hp]

lemma Records.reset (h : t.Records seen) : t.reset.Records [] where
  max := h.max
  lookup _ := rfl
  num := rfl
  ordered := rfl

lemma Records.registerTransition (h : t.Records seen)
    (hroom : (seen ++ [p]).eraseDups.length < INIT_NUM_OF_STORED_TRANSITIONS) :
    ∃ t', t.registerTransition p = some t' ∧ t'.Records (seen ++ [p]) := by
  have hcount : ∀ q n, n = seen.count p + 1 →
      Function.update t.lookup (key p) (some n) (key q) =
        if q ∈ seen ++ [p] then some ((seen ++ [p]).count q) else none := by
    intro q n hn
    by_cases hq : q = p
    · simp [hq, hn]
    · rw [Function.update_of_ne (fun heq => hq (key_inj heq)), h.lookup q]
      simp [hq, Ne.symm hq]
  have hdups := eraseDups_concat seen p
  unfold RedqueenTrace.registerTransition
  by_cases hp : p ∈ seen
  · rw [if_pos hp, List.append_nil] at hdups
    rw [h.lookup p, if_pos hp]
    refine ⟨_, rfl, h.max, ?_, ?_, ?_⟩
    · intro q
      dsimp only
      exact hcount q _ rfl
    · rw [hdups]
      exact h.num
    · rw [hdups]
      exact h.ordered
  · rw [if_neg hp] at hdups
    have hlen : t.numOrderedTransitions + 1 < t.maxOrderedTransitions := by
      rw [h.num, h.max]
      simpa [hdups] using hroom
    rw [h.lookup p, if_neg hp]
    refine ⟨_, if_pos hlen, h.max, ?_, ?_, ?_⟩
    · intro q
      exact hcount q 1 (by rw [List.count_eq_zero.mpr hp])
    · rw [hdups, List.length_append, ← h.num]
      rfl
    · rw [hdups, List.map_append, ← h.ordered, List.range_succ, List.map_append]
      refine congrArg₂ _ (List.map_congr_left fun i hi => ?_) (by simp)
      exact Function.update_of_ne (Nat.ne_of_lt (List.mem_range.mp hi)) _ _

lemma Records.writeFile (h : t.Records seen) :
    t.writeFile = some (seen.eraseDups.map fun p => line p.1.toNat p.2.toNat (seen.count p)) := by
  rw [RedqueenTrace.writeFile, h.ordered, List.mapM_map]
  apply mapM_some
  intro p hp
  simp only [Function.comp_apply, h.lookup p, if_pos (List.mem_eraseDups.mp hp), Option.map_some,
    key_div, key_mod]

lemma journal_total (seen : List (UInt64 × UInt64)) (op : Op) :
    ∃ o seen', journal seen op = some (o, seen') := by
  cases op <;> exact ⟨_, _, rfl⟩

lemma simulates_journal : trace.Simulates journal (fun _ => True)
    (fun seen => seen.eraseDups.length ≤ 0xffffe) Records where
  step {t _ op} h _ _ _ _ hop hroom := by
    cases op with
    | registerTransition p =>
      cases hop
      obtain ⟨t', hrun, ht'⟩ := h.registerTransition (Nat.lt_succ_of_le hroom)
      exact ⟨t', by rw [trace, hrun]; rfl, ht'⟩
    | reset =>
      cases hop
      exact ⟨_, rfl, h.reset⟩
    | writeFile =>
      cases hop
      exact ⟨t, by rw [trace, h.writeFile]; rfl, h⟩
  total _ _ := journal_total _ _

/-- With few enough transitions between resets no assertion fails, and a file has one line for each
transition since the last reset. -/
theorem trace_answers_journal (memory : ℕ → ℕ) (ops : List Op)
    (hroom : journal.Stays (fun seen => seen.eraseDups.length ≤ 0xffffe) [] ops) :
    (trace.answers (new memory) ops).isSome ∧
      trace.answers (new memory) ops = journal.answers [] ops := by
  have hnew : (new memory).Records [] := ⟨rfl, fun _ => rfl, rfl, rfl⟩
  have heq := simulates_journal.answers_eq (fun _ _ => trivial) hnew hroom
  obtain ⟨files, hfiles⟩ := journal.exists_answers journal_total [] ops
  exact ⟨by rw [heq, hfiles]; rfl, heq⟩

theorem trace_answers_journal_twice :
    trace.answers (new fun _ => 7) [.registerTransition (3, 4), .reset, .registerTransition (1, 2),
      .registerTransition (1, 2), .writeFile] = some [[], [], [], [], [line 1 2 2]] :=
  (trace_answers_journal _ _ (by decide)).2

end RedqueenTrace

end Nyx
