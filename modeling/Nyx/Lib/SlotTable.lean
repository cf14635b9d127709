import Mathlib.Tactic.Common

/-!
# Tables of slots in a growing buffer

A new key gets the next `chunk` items of the buffer, and positions are never given back. Writing the
slot of one key is invisible at every other key.
-/

namespace Nyx

open Function

variable {κ β : Type}

/-- `dst` with the `len` items from `pos` on replaced by those of `src` from `start` on. -/
def blit (dst : ℕ → β) (pos : ℕ) (src : ℕ → β) (start len : ℕ) : ℕ → β := fun i =>
  if pos ≤ i ∧ i < pos + len then src (start + (i - pos)) else dst i

lemma blit_inside (dst src : ℕ → β) (pos start : ℕ) {len i : ℕ} (h : i < len) :
    blit dst pos src start len (pos + i) = src (start + i) := by
  have hi : pos ≤ pos + i ∧ pos + i < pos + len := by omega
  simp [blit, hi]

lemma blit_outside (dst src : ℕ → β) (start : ℕ) {pos len i : ℕ} (h : i < pos ∨ pos + len ≤ i) :
    blit dst pos src start len i = dst i := by
  apply if_neg
  omega

def stores (pos : ℕ) (src : ℕ → β) (start len : ℕ) : List (ℕ × β) :=
  (List.range len).map fun i => (pos + i, src (start + i))

def applyStores (m : ℕ → β) (ss : List (ℕ × β)) : ℕ → β :=
  ss.foldl (fun m s => update m s.1 s.2) m

lemma applyStores_append (m : ℕ → β) (ss ss' : List (ℕ × β)) :
    applyStores m (ss ++ ss') = applyStores (applyStores m ss) ss' := List.foldl_append

lemma stores_add (pos : ℕ) (src : ℕ → β) (start len len' : ℕ) :
    stores pos src start (len + len') =
      stores pos src start len ++ stores (pos + len) src (start + len) len' := by
  simp [stores, List.range_add, Nat.add_assoc]

lemma stores_congr (pos : ℕ) {src src' : ℕ → β} {start start' len : ℕ}
    (h : ∀ i < len, src (start + i) = src' (start' + i)) :
    stores pos src start len = stores pos src' start' len := by
  apply List.map_congr_left
  intro i hi
  rw [h i (List.mem_range.mp hi)]

lemma blit_eq_applyStores (dst : ℕ → β) (pos : ℕ) (src : ℕ → β) (start len : ℕ) :
    blit dst pos src start len = applyStores dst (stores pos src start len) := by
  induction len with
  | zero =>
    funext i
    exact blit_outside dst src start (by omega)
  | succ len ih =>
    rw [stores_add, applyStores_append, ← ih]
    show _ = update (blit dst pos src start len) (pos + len) (src (start + len))
    funext i
    by_cases hi : i = pos + len
    · subst hi
      rw [blit_inside dst src pos start (Nat.lt_succ_self len), update_self]
    · rw [update_of_ne hi]
      unfold blit
      congr 1
      rw [eq_iff_iff]
      omega

/-- Keys with slots that are handed out in order. -/
structure SlotTable (κ β : Type) where
  lookup : κ → Option ℕ
  data : ℕ → β
  next : ℕ

namespace SlotTable

def get (t : SlotTable κ β) (k : κ) (i : ℕ) : Option β := (t.lookup k).map fun o => t.data (o + i)

variable [DecidableEq κ] (chunk : ℕ)

def alloc (t : SlotTable κ β) (k : κ) : SlotTable κ β := { t with
  lookup := update t.lookup k (some t.next)
  next := t.next + chunk }

def fill (t : SlotTable κ β) (k : κ) (src : ℕ → β) (start : ℕ) : SlotTable κ β :=
  match t.lookup k with
  | some o => { t with data := blit t.data o src start chunk }
  | none => t

/-- Write the slot of the key, which gets one if it has none. -/
def put (t : SlotTable κ β) (k : κ) (src : ℕ → β) (start : ℕ) : SlotTable κ β :=
  fill chunk (if (t.lookup k).isNone then alloc chunk t k else t) k src start

def putRange (src : ℕ → β) : ℕ → SlotTable ℕ β → ℕ → ℕ → SlotTable ℕ β
  | 0, t, _, _ => t
  | n + 1, t, k, start => putRange src n (put chunk t k src start) (k + chunk) (start + chunk)

/-- The slots are in the used part of the buffer and do not overlap. -/
structure Valid (t : SlotTable κ β) : Prop where
  slot : ∀ {k o}, t.lookup k = some o → o + chunk ≤ t.next
  apart : ∀ {k k' o o'}, t.lookup k = some o → t.lookup k' = some o' → k ≠ k' →
    o + chunk ≤ o' ∨ o' + chunk ≤ o

variable {chunk} {t : SlotTable κ β} {k k' : κ} {o i : ℕ}

omit [DecidableEq κ] in
lemma valid_of_lookup_none (h : ∀ k, t.lookup k = none) : Valid chunk t := by
  constructor
  · intro k o hk
    simp [h] at hk
  · intro k k' o o' hk
    simp [h] at hk

lemma lookup_alloc_self : (alloc chunk t k).lookup k = some t.next := by simp [alloc]

lemma lookup_alloc_of_ne (h : k' ≠ k) : (alloc chunk t k).lookup k' = t.lookup k' := by
  simp [alloc, h]

lemma Valid.alloc (h : Valid chunk t) (k : κ) : Valid chunk (alloc chunk t k) := by
  have hnext : (SlotTable.alloc chunk t k).next = t.next + chunk := rfl
  constructor
  · intro k' o ho
    by_cases hk : k' = k
    · rw [hk, lookup_alloc_self] at ho
      cases ho
      exact Nat.le_refl _
    · rw [lookup_alloc_of_ne hk] at ho
      have hle := h.slot ho
      omega
  · intro k₁ k₂ o₁ o₂ h₁ h₂ hne
    by_cases hk₁ : k₁ = k
    · rw [hk₁, lookup_alloc_self] at h₁
      rw [lookup_alloc_of_ne fun hk₂ => hne (hk₁.trans hk₂.symm)] at h₂
      cases h₁
      exact .inr (h.slot h₂)
    · rw [lookup_alloc_of_ne hk₁] at h₁
      by_cases hk₂ : k₂ = k
      · rw [hk₂, lookup_alloc_self] at h₂
        cases h₂
        exact .inl (h.slot h₁)
      · rw [lookup_alloc_of_ne hk₂] at h₂
        exact h.apart h₁ h₂ hne

lemma get_alloc_of_ne (h : k' ≠ k) (i : ℕ) : (alloc chunk t k).get k' i = t.get k' i := by
  rw [get, lookup_alloc_of_ne h]
  rfl

omit [DecidableEq κ] in
lemma lookup_fill (k : κ) (src : ℕ → β) (start : ℕ) : (fill chunk t k src start).lookup = t.lookup := by
  unfold fill
  split <;> rfl

omit [DecidableEq κ] in
lemma next_fill (k : κ) (src : ℕ → β) (start : ℕ) : (fill chunk t k src start).next = t.next := by
  unfold fill
  split <;> rfl

omit [DecidableEq κ] in
lemma Valid.fill (h : Valid chunk t) (k : κ) (src : ℕ → β) (start : ℕ) :
    Valid chunk (fill chunk t k src start) := by
  constructor
  · intro k' o ho
    rw [lookup_fill] at ho
    rw [next_fill]
    exact h.slot ho
  · intro k₁ k₂ o₁ o₂ h₁ h₂
    rw [lookup_fill] at h₁ h₂
    exact h.apart h₁ h₂

omit [DecidableEq κ] in
lemma get_fill_self (hk : t.lookup k = some o) (src : ℕ → β) (start : ℕ) (hi : i < chunk) :
    (fill chunk t k src start).get k i = some (src (start + i)) := by
  simp [get, fill, hk, blit_inside _ _ _ _ hi]

omit [DecidableEq κ] in
lemma Valid.get_fill_of_ne (h : Valid chunk t) (hne : k' ≠ k) (src : ℕ → β) (start : ℕ)
    (hi : i < chunk) : (SlotTable.fill chunk t k src start).get k' i = t.get k' i := by
  unfold SlotTable.fill
  split
  next o ho =>
    unfold get
    cases hk' : t.lookup k' with
    | none => rfl
    | some o' =>
      have hapart := h.apart hk' ho hne
      have hout : o' + i < o ∨ o + chunk ≤ o' + i := by omega
      simp [blit_outside _ _ _ hout]
  next => rfl

omit [DecidableEq κ] in
lemma fill_fill (t : SlotTable κ β) (k : κ) (src src' : ℕ → β) (start start' : ℕ) :
    fill chunk (fill chunk t k src start) k src' start' = fill chunk t k src' start' := by
  cases hk : t.lookup k with
  | none => simp only [fill, hk]
  | some o =>
    have hdata : blit (blit t.data o src start chunk) o src' start' chunk =
        blit t.data o src' start' chunk := by
      funext i
      unfold blit
      split <;> rfl
    simp only [fill, hk, hdata]

lemma put_of_none (hk : t.lookup k = none) (src : ℕ → β) (start : ℕ) :
    put chunk t k src start = fill chunk (alloc chunk t k) k src start := by
  rw [put, hk]
  rfl

lemma put_of_some (hk : t.lookup k = some o) (src : ℕ → β) (start : ℕ) :
    put chunk t k src start = fill chunk t k src start := by
  rw [put, hk]
  rfl

lemma next_put (t : SlotTable κ β) (k : κ) (src : ℕ → β) (start : ℕ) :
    (put chunk t k src start).next = if (t.lookup k).isNone then t.next + chunk else t.next := by
  rw [put, next_fill]
  split <;> rfl

lemma lookup_ready (t : SlotTable κ β) (k : κ) :
    ∃ o, (if (t.lookup k).isNone then alloc chunk t k else t).lookup k = some o := by
  cases hk : t.lookup k with
  | none => exact ⟨t.next, by simp [alloc]⟩
  | some o => exact ⟨o, by simp [hk]⟩

lemma Valid.ready (h : Valid chunk t) (k : κ) :
    Valid chunk (if (t.lookup k).isNone then SlotTable.alloc chunk t k else t) := by
  split
  · exact h.alloc k
  · exact h

lemma Valid.put (h : Valid chunk t) (k : κ) (src : ℕ → β) (start : ℕ) :
    Valid chunk (put chunk t k src start) := (h.ready k).fill k src start

lemma get_put_self (t : SlotTable κ β) (k : κ) (src : ℕ → β) (start : ℕ) (hi : i < chunk) :
    (put chunk t k src start).get k i = some (src (start + i)) := by
  obtain ⟨o, ho⟩ := @lookup_ready κ β _ chunk t k
  exact get_fill_self ho src start hi

lemma Valid.get_put_of_ne (h : Valid chunk t) (hne : k' ≠ k) (src : ℕ → β) (start : ℕ)
    (hi : i < chunk) : (SlotTable.put chunk t k src start).get k' i = t.get k' i := by
  rw [SlotTable.put, (h.ready k).get_fill_of_ne hne src start hi]
  split
  · exact get_alloc_of_ne hne i
  · rfl

lemma Valid.putRange (src : ℕ → β) (n : ℕ) {t : SlotTable ℕ β} (h : Valid chunk t) (k start : ℕ) :
    Valid chunk (putRange chunk src n t k start) := by
  induction n generalizing t k start with
  | zero => exact h
  | succ n ih => exact ih (h.put k src start) _ _

lemma Valid.get_putRange (src : ℕ → β) (n : ℕ) {t : SlotTable ℕ β} (h : Valid chunk t)
    (k start a : ℕ) (hi : i < chunk) :
    (SlotTable.putRange chunk src n t k start).get a i =
      if ∃ j < n, a = k + chunk * j then some (src (start + (a - k) + i)) else t.get a i := by
  induction n generalizing t k start with
  | zero => simp [SlotTable.putRange]
  | succ n ih =>
    rw [SlotTable.putRange, ih (h.put k src start)]
    by_cases hrest : ∃ j < n, a = k + chunk + chunk * j
    · obtain ⟨j, hj, rfl⟩ := hrest
      have hall : ∃ j' < n + 1, k + chunk + chunk * j = k + chunk * j' :=
        ⟨j + 1, by omega, by rw [Nat.mul_succ]; omega⟩
      rw [if_pos ⟨j, hj, rfl⟩, if_pos hall]
      congr 2
      omega
    · rw [if_neg hrest]
      by_cases hk : a = k
      · subst hk
        rw [if_pos ⟨0, Nat.succ_pos n, rfl⟩, get_put_self t a src start hi]
        simp
      · have hnone : ¬∃ j < n + 1, a = k + chunk * j := by
          rintro ⟨j, hj, rfl⟩
          cases j with
          | zero => exact hk rfl
          | succ j => exact hrest ⟨j, by omega, by rw [Nat.mul_succ]; omega⟩
        rw [if_neg hnone, h.get_put_of_ne hk src start hi]

end SlotTable

end Nyx
