import Mathlib.Data.List.Nodup

/-!
# Lists with an index map

A list without duplicates together with a map from each element to its position. A removed element
is replaced by the last one.
-/

namespace Nyx

open Function

variable {α : Type}

/-- Remove the element at `i`; the last element takes its place. -/
def swapRemove (l : List α) (i : ℕ) : List α :=
  match l.getLast? with
  | some a => (l.set i a).dropLast
  | none => []

lemma mapM_some {β : Type} {f : α → Option β} {g : α → β} {l : List α}
    (h : ∀ a ∈ l, f a = some (g a)) : l.mapM f = some (l.map g) := by
  induction l with
  | nil => rfl
  | cons a l ih =>
    rw [List.mapM_cons, h a (by simp), ih fun b hb => h b (by simp [hb])]
    rfl

/-- The map knows the position of every element and of nothing else. -/
def Indexed (l : List α) (index : α → Option ℕ) : Prop := ∀ a i, index a = some i ↔ l[i]? = some a

lemma swapRemove_concat (l : List α) (b : α) (i : ℕ) :
    swapRemove (l ++ [b]) i = if i < l.length then l.set i b else l := by
  simp only [swapRemove, List.getLast?_concat]
  split
  · rename_i h
    rw [List.set_append_left _ _ h, List.dropLast_concat]
  · rw [List.set_append_right _ _ (by omega)]
    rcases Nat.eq_zero_or_pos (i - l.length) with h0 | h0
    · simp [h0]
    · obtain ⟨k, hk⟩ := Nat.exists_eq_succ_of_ne_zero (by omega : i - l.length ≠ 0)
      simp [hk]

lemma length_swapRemove {l : List α} (h : l ≠ []) (i : ℕ) :
    (swapRemove l i).length = l.length - 1 := by
  obtain ⟨l, b, rfl⟩ := (List.eq_nil_or_concat' l).resolve_left h
  rw [swapRemove_concat]
  split <;> simp

lemma indexed_nil : Indexed ([] : List α) fun _ => none := by
  intro a i
  simp

variable {l : List α} {index : α → Option ℕ} {a : α} {i : ℕ}

lemma Indexed.mem (h : Indexed l index) (ha : index a = some i) : a ∈ l :=
  List.mem_of_getElem? ((h a i).mp ha)

lemma Indexed.exists_index (h : Indexed l index) (ha : a ∈ l) : ∃ i, index a = some i := by
  obtain ⟨i, hi⟩ := List.mem_iff_getElem?.mp ha
  exact ⟨i, (h a i).mpr hi⟩

lemma Indexed.nodup (h : Indexed l index) : l.Nodup := by
  rw [List.nodup_iff_injective_get]
  intro i j hij
  have hi : l[i.1]? = some (l.get i) := List.getElem?_eq_getElem i.2
  have hj : l[j.1]? = some (l.get i) := by rw [hij]; exact List.getElem?_eq_getElem j.2
  have hsome : some i.1 = some j.1 := ((h _ _).mpr hi).symm.trans ((h _ _).mpr hj)
  exact Fin.ext (Option.some.inj hsome)

lemma Indexed.mem_swapRemove (h : Indexed l index) (ha : index a = some i) {b : α} :
    b ∈ Nyx.swapRemove l i ↔ b ∈ l ∧ b ≠ a := by
  have hnd := h.nodup
  have hi := (h a i).mp ha
  obtain ⟨l, c, rfl⟩ := (List.eq_nil_or_concat' l).resolve_left (by rintro rfl; simp at hi)
  have hc : c ∉ l := fun hm => (List.nodup_append.mp hnd).2.2 c hm c (by simp) rfl
  rw [swapRemove_concat]
  by_cases hlt : i < l.length
  · rw [if_pos hlt]
    rw [List.getElem?_append_left hlt] at hi
    obtain ⟨_, hget⟩ := List.getElem?_eq_some_iff.mp hi
    have hsplit : l = l.take i ++ a :: l.drop (i + 1) := by
      rw [← hget, ← List.drop_eq_getElem_cons hlt, List.take_append_drop]
    have hnd' := (List.nodup_append.mp hnd).1
    rw [hsplit, List.nodup_append, List.nodup_cons] at hnd'
    have hfst : a ∉ l.take i := fun hm => hnd'.2.2 a hm a (by simp) rfl
    have hsnd : a ∉ l.drop (i + 1) := hnd'.2.1.1
    have hac : a ≠ c := fun he => hc (he ▸ List.mem_of_getElem? hi)
    have hmem : b ∈ l ↔ b ∈ l.take i ∨ b = a ∨ b ∈ l.drop (i + 1) := by
      conv_lhs => rw [hsplit]
      simp
    rw [List.set_eq_take_append_cons_drop, if_pos hlt]
    simp only [List.mem_append, List.mem_cons, List.not_mem_nil, or_false, hmem]
    constructor
    · rintro (hb | rfl | hb)
      · exact ⟨.inl (.inl hb), fun he => hfst (he ▸ hb)⟩
      · exact ⟨.inr rfl, hac.symm⟩
      · exact ⟨.inl (.inr (.inr hb)), fun he => hsnd (he ▸ hb)⟩
    · rintro ⟨(hb | rfl | hb) | rfl, hne⟩
      · exact .inl hb
      · exact absurd rfl hne
      · exact .inr (.inr hb)
      · exact .inr (.inl rfl)
  · have hil : i = l.length := by
      have := (List.getElem?_eq_some_iff.mp hi).1
      simp at this
      omega
    have hca : c = a := by simpa [hil] using hi
    grind

variable [DecidableEq α]

lemma Indexed.push (h : Indexed l index) (ha : a ∉ l) :
    Indexed (l ++ [a]) (update index a (some l.length)) := by
  intro b j
  by_cases hb : b = a
  · subst hb
    rw [update_self]
    constructor
    · rintro ⟨⟩
      simp
    · intro hj
      rcases Nat.lt_or_ge j l.length with hlt | hge
      · rw [List.getElem?_append_left hlt] at hj
        exact absurd (List.mem_of_getElem? hj) ha
      · have : j - l.length = 0 := by
          by_contra hne
          rw [List.getElem?_eq_none (by simp; omega)] at hj
          cases hj
        congr 1
        omega
  · rw [update_of_ne hb, h b j]
    constructor
    · intro hj
      have hlt := (List.getElem?_eq_some_iff.mp hj).1
      rw [List.getElem?_append_left hlt]
      exact hj
    · intro hj
      rcases Nat.lt_or_ge j l.length with hlt | hge
      · rwa [List.getElem?_append_left hlt] at hj
      · rw [List.getElem?_append_right hge] at hj
        have := List.mem_of_getElem? hj
        exact absurd (List.mem_singleton.mp this) hb

/-- The map after a removal: the removed element is forgotten and the moved one updated. -/
def indexAfterRemove (l : List α) (index : α → Option ℕ) (a : α) (i : ℕ) : α → Option ℕ :=
  match (swapRemove l i)[i]? with
  | some b => update (update index a none) b (some i)
  | none => update index a none

lemma Indexed.swapRemove (h : Indexed l index) (ha : index a = some i) :
    Indexed (swapRemove l i) (indexAfterRemove l index a i) := by
  have hnd := h.nodup
  have hi := (h a i).mp ha
  obtain ⟨l, c, rfl⟩ := (List.eq_nil_or_concat' l).resolve_left (by rintro rfl; simp at hi)
  have hc : c ∉ l := fun hm => (List.nodup_append.mp hnd).2.2 c hm c (by simp) rfl
  intro b j
  have hbj := h b j
  rw [indexAfterRemove, swapRemove_concat]
  by_cases hlt : i < l.length
  · -- the last element moves to the place of the removed one
    rw [if_pos hlt]
    have hset : (l.set i c)[i]? = some c := by simp [hlt]
    rw [List.getElem?_append_left hlt] at hi
    simp only [hset, List.getElem?_set]
    by_cases hb : b = c
    · subst hb
      grind
    · rw [update_of_ne hb]
      by_cases hba : b = a
      · subst hba
        grind
      · grind
  · -- the last element itself is removed
    rw [if_neg hlt]
    have hil : i = l.length := by
      have := (List.getElem?_eq_some_iff.mp hi).1
      simp at this
      omega
    have hca : c = a := by simpa [hil] using hi
    subst hca hil
    have hnone : l[l.length]? = none := by simp
    simp only [hnone]
    by_cases hb : b = c
    · subst hb
      grind
    · grind

end Nyx
