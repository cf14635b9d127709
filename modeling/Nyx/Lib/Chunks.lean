import Mathlib.Data.List.Basic
import Mathlib.Order.Lattice

/-!
# Lists in blocks

A reader hands a list out in blocks of a fixed size, the last of which may be shorter. Then it hands
out an empty block, to say that the list is complete, and starts again.
-/

namespace Nyx

variable {α : Type}

def chunks (n : ℕ) (l : List α) : List (List α) :=
  if l = [] ∨ n = 0 then [] else l.take n :: chunks n (l.drop n)
termination_by l.length
decreasing_by
  have := List.length_pos_of_ne_nil (l := l) fun hl => by simp_all
  simp only [List.length_drop]
  omega

lemma chunks_nil (n : ℕ) : chunks n ([] : List α) = [] := by
  rw [chunks, if_pos (.inl rfl)]

lemma chunks_of_ne_nil {n : ℕ} (hn : 0 < n) {l : List α} (hl : l ≠ []) :
    chunks n l = l.take n :: chunks n (l.drop n) := by
  rw [chunks, if_neg (by simp [hl, Nat.ne_of_gt hn])]

/-- The list cut into blocks of `n`, with only the last one shorter. -/
structure Blocks (n : ℕ) (l : List α) (blocks : List (List α)) : Prop where
  flatten : blocks.flatten = l
  ne_nil : ∀ block ∈ blocks, block ≠ []
  length_le : ∀ block ∈ blocks, block.length ≤ n
  full : ∀ block ∈ blocks.dropLast, block.length = n

lemma Blocks.cons {n : ℕ} (hn : 0 < n) {l : List α} (hl : l ≠ []) {blocks : List (List α)}
    (h : Blocks n (l.drop n) blocks) : Blocks n l (l.take n :: blocks) where
  flatten := by rw [List.flatten_cons, h.flatten, List.take_append_drop]
  ne_nil := by
    rintro block (_ | ⟨_, hblock⟩)
    · simp [hl, Nat.ne_of_gt hn]
    · exact h.ne_nil block hblock
  length_le := by
    rintro block (_ | ⟨_, hblock⟩)
    · rw [List.length_take]
      exact Nat.min_le_left n l.length
    · exact h.length_le block hblock
  full := by
    intro block hblock
    cases blocks with
    | nil => cases hblock
    | cons next blocks =>
      obtain rfl | hblock := List.mem_cons.mp hblock
      · -- there is a next block, so something is left behind the first one
        have hnext : next ≠ [] := h.ne_nil next (by simp)
        have hrest : l.drop n ≠ [] := by
          intro hnil
          have hflat := h.flatten
          rw [hnil, List.flatten_cons, List.append_eq_nil_iff] at hflat
          exact hnext hflat.1
        have hlt : n < l.length := by simpa using hrest
        simp [Nat.le_of_lt hlt]
      · exact h.full block hblock

lemma blocks_chunks {n : ℕ} (hn : 0 < n) (l : List α) : Blocks n l (chunks n l) := by
  fun_induction chunks n l with
  | case1 l h =>
    obtain rfl : l = [] := h.resolve_right (Nat.ne_of_gt hn)
    exact ⟨rfl, by simp, by simp, by simp⟩
  | case2 l h ih => exact ih.cons hn fun hl => h (.inl hl)

/-- What the reader hands out when `rest` is left of the list. -/
inductive Streams (n : ℕ) (content : List α) : List α → List (List α) → Prop
  | stop (rest) : Streams n content rest []
  | block {rest replies} (hrest : rest ≠ []) (h : Streams n content (rest.drop n) replies) :
    Streams n content rest (rest.take n :: replies)
  | again {replies} (h : Streams n content content replies) : Streams n content [] ([] :: replies)

def streamRound (n : ℕ) (content : List α) : List (List α) := chunks n content ++ [[]]

lemma Streams.exists_prefix {n : ℕ} (hn : 0 < n) {content rest : List α} {replies : List (List α)}
    (h : Streams n content rest replies) :
    ∃ k, replies <+: streamRound n rest ++ (List.replicate k (streamRound n content)).flatten := by
  induction h with
  | stop rest => exact ⟨0, List.nil_prefix⟩
  | @block rest replies hrest h ih =>
    obtain ⟨k, hk⟩ := ih
    refine ⟨k, ?_⟩
    have hround : streamRound n rest = rest.take n :: streamRound n (rest.drop n) := by
      rw [streamRound, chunks_of_ne_nil hn hrest, streamRound, List.cons_append]
    rw [hround, List.cons_append]
    exact (List.prefix_cons_inj _).mpr hk
  | again h ih =>
    obtain ⟨k, hk⟩ := ih
    refine ⟨k + 1, ?_⟩
    have hround : streamRound n ([] : List α) = [[]] := by rw [streamRound, chunks_nil, List.nil_append]
    rw [hround, List.replicate_succ, List.flatten_cons]
    exact (List.prefix_cons_inj _).mpr hk

lemma Streams.exists_rounds {n : ℕ} (hn : 0 < n) {content : List α} {replies : List (List α)}
    (h : Streams n content content replies) :
    ∃ blocks k, Blocks n content blocks ∧
      replies <+: (List.replicate k (blocks ++ [[]])).flatten := by
  obtain ⟨k, hk⟩ := h.exists_prefix hn
  exact ⟨chunks n content, k + 1, blocks_chunks hn content, hk⟩

end Nyx
