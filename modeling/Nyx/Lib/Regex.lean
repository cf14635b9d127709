import Mathlib.Data.List.Basic

/-!
# Regular expressions with captures

A backtracking matcher: `attempts` lists the ways to match in the order in which they are tried, and
the first one is taken. `Prefers` says which that is, by the constructors.
-/

namespace Nyx

/-- Regular expressions. Repetition is of a class of characters and takes at least one. -/
inductive Regex where
  | eps
  | cls (p : Char → Bool)
  | many (p : Char → Bool)
  | seq (a b : Regex)
  | alt (a b : Regex)
  | opt (a : Regex)
  | group (i : ℕ) (a : Regex)

namespace Regex

abbrev Captures := List (ℕ × List Char)

/-- What is left after each run of the class at the start, the longest run first. -/
def runs (p : Char → Bool) : List Char → List (List Char)
  | [] => []
  | c :: s => if p c then runs p s ++ [s] else []

def attempts : Regex → List Char → List (List Char × Captures)
  | eps, s => [(s, [])]
  | cls _, [] => []
  | cls p, c :: s => if p c then [(s, [])] else []
  | many p, s => (runs p s).map fun r => (r, [])
  | seq a b, s => (a.attempts s).flatMap fun m => (b.attempts m.1).map fun n => (n.1, m.2 ++ n.2)
  | alt a b, s => a.attempts s ++ b.attempts s
  | opt a, s => a.attempts s ++ [(s, [])]
  | group i a, s => (a.attempts s).map fun m => (m.1, (i, s.take (s.length - m.1.length)) :: m.2)

/-- The captures of the leftmost match. -/
def captures (re : Regex) : List Char → Option Captures
  | [] => (re.attempts []).head?.map Prod.snd
  | c :: s =>
    match (re.attempts (c :: s)).head? with
    | some m => some m.2
    | none => re.captures s

def lit : List Char → Regex
  | [] => eps
  | c :: s => seq (cls (· == c)) (lit s)

section Equations

variable (a b : Regex) (p : Char → Bool) (i : ℕ) (c : Char) (s : List Char)

lemma runs_cons : runs p (c :: s) = if p c then runs p s ++ [s] else [] := rfl

lemma attempts_cls : (cls p).attempts (c :: s) = if p c then [(s, [])] else [] := rfl

lemma attempts_many : (many p).attempts s = (runs p s).map fun r => (r, []) := rfl

lemma attempts_seq : (seq a b).attempts s =
    (a.attempts s).flatMap fun m => (b.attempts m.1).map fun n => (n.1, m.2 ++ n.2) := rfl

lemma attempts_alt : (alt a b).attempts s = a.attempts s ++ b.attempts s := rfl

lemma attempts_group : (group i a).attempts s =
    (a.attempts s).map fun m => (m.1, (i, s.take (s.length - m.1.length)) :: m.2) := rfl

lemma captures_nil : a.captures [] = (a.attempts []).head?.map Prod.snd := rfl

lemma captures_cons : a.captures (c :: s) = match (a.attempts (c :: s)).head? with
    | some m => some m.2
    | none => a.captures s := rfl

end Equations

def Prefers (re : Regex) (s r : List Char) (caps : Captures) : Prop :=
  (re.attempts s).head? = some (r, caps)

section Rules

variable {a b : Regex} {p : Char → Bool} {s r r' w : List Char} {caps caps' : Captures}

lemma prefers_eps (s : List Char) : Prefers eps s s [] := rfl

lemma prefers_cls {c : Char} (h : p c) : Prefers (cls p) (c :: s) s [] := by
  rw [Prefers, attempts_cls, if_pos h]
  rfl

lemma head_runs (hw : w ≠ []) (hall : ∀ c ∈ w, p c) (hr : ∀ c ∈ r.head?, p c = false) :
    (runs p (w ++ r)).head? = some r := by
  induction w with
  | nil => exact absurd rfl hw
  | cons c w ih =>
    have hc : p c = true := hall c List.mem_cons_self
    rw [List.cons_append, runs_cons, if_pos hc, List.head?_append]
    by_cases hnil : w = []
    · subst hnil
      have hstop : runs p r = [] := by
        cases r with
        | nil => rfl
        | cons d r => rw [runs_cons, if_neg (by simp [hr d rfl])]
      rw [List.nil_append, hstop]
      rfl
    · rw [ih hnil fun d hd => hall d (List.mem_cons_of_mem c hd)]
      rfl

lemma prefers_many (hw : w ≠ []) (hall : ∀ c ∈ w, p c) (hr : ∀ c ∈ r.head?, p c = false) :
    Prefers (many p) (w ++ r) r [] := by
  rw [Prefers, attempts_many, List.head?_map, head_runs hw hall hr]
  rfl

lemma Prefers.seq (ha : Prefers a s r caps) (hb : Prefers b r r' caps') :
    Prefers (seq a b) s r' (caps ++ caps') := by
  obtain ⟨as, has⟩ := List.head?_eq_some_iff.mp ha
  obtain ⟨bs, hbs⟩ := List.head?_eq_some_iff.mp hb
  rw [Prefers, attempts_seq, has, List.flatMap_cons, hbs]
  rfl

lemma Prefers.alt_left (ha : Prefers a s r caps) : Prefers (alt a b) s r caps := by
  rw [Prefers, attempts_alt, List.head?_append, ha]
  rfl

lemma Prefers.alt_right (ha : a.attempts s = []) (hb : Prefers b s r caps) :
    Prefers (alt a b) s r caps := by
  rw [Prefers, attempts_alt, ha]
  exact hb

lemma Prefers.group {i : ℕ} (ha : Prefers a (w ++ r) r caps) :
    Prefers (group i a) (w ++ r) r ((i, w) :: caps) := by
  rw [Prefers, attempts_group, List.head?_map, ha]
  simp

lemma prefers_lit (w r : List Char) : Prefers (lit w) (w ++ r) r [] := by
  induction w with
  | nil => exact prefers_eps r
  | cons c w ih => exact (prefers_cls (by simp)).seq ih

lemma Prefers.captures (h : Prefers a s r caps) : a.captures s = some caps := by
  cases s with
  | nil => rw [captures_nil, h]; rfl
  | cons c s => rw [captures_cons, h]

end Rules

lemma suffix_of_mem_runs {p : Char → Bool} {s r : List Char} (h : r ∈ runs p s) : r <:+ s := by
  induction s with
  | nil => cases h
  | cons c s ih =>
    rw [runs_cons] at h
    split at h
    · rcases List.mem_append.mp h with h | h
      · exact (ih h).trans (List.suffix_cons c s)
      · rw [List.mem_singleton.mp h]
        exact List.suffix_cons c s
    · cases h

lemma suffix_of_mem_attempts {re : Regex} {s : List Char} {m : List Char × Captures}
    (h : m ∈ re.attempts s) : m.1 <:+ s := by
  induction re generalizing s m with
  | eps =>
    obtain rfl := List.mem_singleton.mp h
    exact List.suffix_refl s
  | cls p =>
    cases s with
    | nil => cases h
    | cons c s =>
      rw [attempts_cls] at h
      split at h
      · rw [List.mem_singleton.mp h]
        exact List.suffix_cons c s
      · cases h
  | many p =>
    obtain ⟨r, hr, rfl⟩ := List.mem_map.mp h
    exact suffix_of_mem_runs hr
  | seq a b iha ihb =>
    obtain ⟨m₁, h₁, h⟩ := List.mem_flatMap.mp h
    obtain ⟨m₂, h₂, rfl⟩ := List.mem_map.mp h
    exact (ihb h₂).trans (iha h₁)
  | alt a b iha ihb =>
    rcases List.mem_append.mp h with h | h
    · exact iha h
    · exact ihb h
  | opt a iha =>
    rcases List.mem_append.mp h with h | h
    · exact iha h
    · obtain rfl := List.mem_singleton.mp h
      exact List.suffix_refl s
  | group i a iha =>
    obtain ⟨m', h', rfl⟩ := List.mem_map.mp h
    have hsuffix : m'.1 <:+ s := iha h'
    exact hsuffix

lemma mem_attempts_seq {a b : Regex} {s : List Char} {m : List Char × Captures}
    (h : m ∈ (seq a b).attempts s) : ∃ m₁ ∈ a.attempts s, ∃ m₂, m₂ ∈ b.attempts m₁.1 := by
  obtain ⟨m₁, h₁, h⟩ := List.mem_flatMap.mp h
  obtain ⟨m₂, h₂, -⟩ := List.mem_map.mp h
  exact ⟨m₁, h₁, m₂, h₂⟩

lemma eq_append_of_mem_lit {w s : List Char} {m : List Char × Captures}
    (h : m ∈ (lit w).attempts s) : s = w ++ m.1 := by
  induction w generalizing s m with
  | nil =>
    rw [List.mem_singleton.mp h]
    rfl
  | cons c w ih =>
    obtain ⟨m₁, h₁, h⟩ := List.mem_flatMap.mp h
    obtain ⟨m₂, h₂, rfl⟩ := List.mem_map.mp h
    cases s with
    | nil => cases h₁
    | cons d s =>
      rw [attempts_cls] at h₁
      split at h₁
      · next hd =>
        rw [List.mem_singleton.mp h₁] at h₂
        have hs : s = w ++ m₂.1 := ih h₂
        rw [eq_of_beq hd, hs]
        rfl
      · cases h₁

lemma captures_eq_none {re : Regex} {s : List Char} (h : ∀ r, r <:+ s → re.attempts r = []) :
    re.captures s = none := by
  induction s with
  | nil => rw [captures_nil, h [] (List.suffix_refl [])]; rfl
  | cons c s ih =>
    rw [captures_cons, h (c :: s) (List.suffix_refl _)]
    exact ih fun r hr => h r (hr.trans (List.suffix_cons c s))

end Regex

end Nyx
