import Nyx.Lib.SlotTable

/-!
# Items written to scattered places

`scatter` writes items one after another, each to its own place, which is the effect of a copy loop
that works in chunks. A loop that can be relied on for that must use these places.
-/

namespace Nyx

variable {α β : Type}

/-- The items are at their places and everything else is as before. -/
structure Stores (mem mem' : α → β) (loc : ℕ → α) (data : ℕ → β) (n : ℕ) : Prop where
  stored : ∀ i < n, mem' (loc i) = data i
  kept : ∀ a, (∀ i < n, a ≠ loc i) → mem' a = mem a

/-- Whatever has changed holds an item that was written there. -/
def Within (mem mem' : α → β) (loc : ℕ → α) (data : ℕ → β) (n : ℕ) : Prop :=
  ∀ a, mem' a = mem a ∨ ∃ i < n, a = loc i ∧ mem' a = data i

variable {mem mem' : α → β} {loc loc' : ℕ → α} {data data' : ℕ → β} {n m : ℕ}

lemma Within.congr (h : Within mem mem' loc data n) (hloc : ∀ i < n, loc i = loc' i) :
    Within mem mem' loc' data n := by
  intro a
  refine (h a).imp_right ?_
  rintro ⟨i, hi, rfl, hdata⟩
  exact ⟨i, hi, hloc i hi, hdata⟩

lemma Within.trans {mem₁ : α → β} (h : Within mem mem₁ loc data n)
    (h' : Within mem₁ mem' (fun i => loc (n + i)) (fun i => data (n + i)) m) :
    Within mem mem' loc data (n + m) := by
  intro a
  rcases h' a with heq | ⟨i, hi, hloc, hdata⟩
  · rw [heq]
    refine (h a).imp_right ?_
    rintro ⟨i, hi, hloc, hdata⟩
    exact ⟨i, by omega, hloc, hdata⟩
  · exact .inr ⟨n + i, by omega, hloc, hdata⟩

lemma Within.mono (h : Within mem mem' loc data n) (hnm : n ≤ m) : Within mem mem' loc data m := by
  intro a
  refine (h a).imp_right ?_
  rintro ⟨i, hi, hloc, hdata⟩
  exact ⟨i, by omega, hloc, hdata⟩

theorem eq_of_stores_of_within {x y : β} (hxy : x ≠ y)
    (h : ∀ mem data, ∃ mem' : α → β, Stores mem mem' loc' data n ∧ Within mem mem' loc data n) {i : ℕ}
    (hi : i < n) : loc i = loc' i := by
  -- one item differs from all the others and from the old content
  obtain ⟨mem', hstores, hwithin⟩ := h (fun _ => x) fun j => if j = i then y else x
  have hstored : mem' (loc' i) = y := by simpa using hstores.stored i hi
  rcases hwithin (loc' i) with heq | ⟨j, -, hloc, hdata⟩
  · exact absurd (heq.symm.trans hstored) hxy
  · by_cases hji : j = i
    · exact hji ▸ hloc.symm
    · have hold : mem' (loc' i) = x := by simpa [hji] using hdata
      exact absurd (hold.symm.trans hstored) hxy

variable [DecidableEq α]

def scatter (mem : α → β) (loc : ℕ → α) (data : ℕ → β) : ℕ → α → β
  | 0 => mem
  | n + 1 => Function.update (scatter mem loc data n) (loc n) (data n)

lemma scatter_add (n m : ℕ) : scatter mem loc data (n + m) =
    scatter (scatter mem loc data n) (fun i => loc (n + i)) (fun i => data (n + i)) m := by
  induction m with
  | zero => rfl
  | succ m ih => rw [← Nat.add_assoc, scatter, ih, scatter]

lemma scatter_congr (hloc : ∀ i < n, loc i = loc' i) (hdata : ∀ i < n, data i = data' i) :
    scatter mem loc data n = scatter mem loc' data' n := by
  induction n with
  | zero => rfl
  | succ n ih =>
    rw [scatter, scatter, ih (fun i hi => hloc i (by omega)) (fun i hi => hdata i (by omega)),
      hloc n (by omega), hdata n (by omega)]

lemma within_scatter (mem : α → β) (loc : ℕ → α) (data : ℕ → β) (n : ℕ) :
    Within mem (scatter mem loc data n) loc data n := by
  induction n with
  | zero => exact fun a => .inl rfl
  | succ n ih =>
    intro a
    by_cases ha : a = loc n
    · subst ha
      exact .inr ⟨n, by omega, rfl, by simp [scatter]⟩
    · rw [scatter, Function.update_of_ne ha]
      refine (ih a).imp_right ?_
      rintro ⟨i, hi, hloc, hdata⟩
      exact ⟨i, by omega, hloc, hdata⟩

lemma scatter_apply (hinj : ∀ i < n, ∀ j < n, loc i = loc j → i = j) {i : ℕ} (hi : i < n) :
    scatter mem loc data n (loc i) = data i := by
  induction n with
  | zero => omega
  | succ n ih =>
    rw [scatter]
    by_cases hin : i = n
    · subst hin
      simp
    · have hne : loc i ≠ loc n := fun heq => hin (hinj i hi n (by omega) heq)
      rw [Function.update_of_ne hne]
      exact ih (fun i hi j hj => hinj i (by omega) j (by omega)) (by omega)

lemma stores_scatter (hinj : ∀ i < n, ∀ j < n, loc i = loc j → i = j) :
    Stores mem (scatter mem loc data n) loc data n where
  stored i hi := scatter_apply hinj hi
  kept a ha := by
    rcases within_scatter mem loc data n a with h | ⟨i, hi, hloc, -⟩
    · exact h
    · exact absurd hloc (ha i hi)

lemma blit_eq_scatter (dst : ℕ → β) (pos : ℕ) (src : ℕ → β) (start len : ℕ) :
    blit dst pos src start len = scatter dst (fun i => pos + i) (fun i => src (start + i)) len := by
  have hstores : Stores dst (scatter dst (fun i => pos + i) (fun i => src (start + i)) len)
      (fun i => pos + i) (fun i => src (start + i)) len := stores_scatter fun i _ j _ h => by omega
  funext a
  by_cases ha : pos ≤ a ∧ a < pos + len
  · obtain ⟨i, rfl⟩ := Nat.exists_eq_add_of_le ha.1
    rw [blit_inside _ _ _ _ (by omega), hstores.stored i (by omega)]
  · rw [blit_outside _ _ _ (by omega), hstores.kept a fun i hi heq => ha (by omega)]

section Pages

variable {γ : Type} {page off size : ℕ} (shift : γ → ℕ → γ) (base : ℕ → γ)

/-- Where item `i` goes if it is `off + i` items into a range of pages, page `j` at `base j`. -/
def pagedLoc (page off i : ℕ) : γ := shift (base ((off + i) / page)) ((off + i) % page)

/-- Where item `i` goes if whole chunks are written, each to where its first item goes. -/
def chunkedLoc (page off i : ℕ) : γ := shift (base (i / page)) (off + i % page)

lemma chunkedLoc_add {pos i : ℕ} (hoff : off < page) (hpos : pos % page = 0) (hi : i < page)
    (hadd : ∀ x m n, shift (shift x m) n = shift x (m + n)) :
    chunkedLoc shift base page off (pos + i) = shift (pagedLoc shift base page off pos) i := by
  obtain ⟨k, rfl⟩ := Nat.dvd_of_mod_eq_zero hpos
  have hdiv : (page * k + i) / page = k := by
    rw [Nat.mul_add_div (by omega), Nat.div_eq_of_lt hi, Nat.add_zero]
  have hdiv' : (off + page * k) / page = k := by
    rw [Nat.add_comm, Nat.mul_add_div (by omega), Nat.div_eq_of_lt hoff, Nat.add_zero]
  have hmod' : (off + page * k) % page = off := by
    rw [Nat.add_comm, Nat.mul_add_mod, Nat.mod_eq_of_lt hoff]
  rw [chunkedLoc, pagedLoc, hdiv, hdiv', hmod', hadd, Nat.mul_add_mod, Nat.mod_eq_of_lt hi]

/-- Chunks that begin in the middle of a page are in order only if the pages follow each other. -/
theorem chunkedLoc_eq_pagedLoc_iff (hoff : off < page) (hzero : ∀ x, shift x 0 = x)
    (hadd : ∀ x m n, shift (shift x m) n = shift x (m + n)) :
    (∀ i < size, chunkedLoc shift base page off i = pagedLoc shift base page off i) ↔
      off = 0 ∨ ∀ j, page * (j + 1) < off + size → base (j + 1) = shift (base j) page := by
  constructor
  · intro h
    by_cases h0 : off = 0
    · exact .inl h0
    · refine .inr fun j hj => ?_
      -- the first item of the next page
      have hmul : page * (j + 1) = page * j + page := Nat.mul_succ page j
      have hi := h (page * (j + 1) - off) (by omega)
      have hdiv : (page * (j + 1) - off) / page = j := by
        rw [show page * (j + 1) - off = page * j + (page - off) by omega,
          Nat.mul_add_div (by omega), Nat.div_eq_of_lt (by omega), Nat.add_zero]
      have hmod : (page * (j + 1) - off) % page = page - off := by
        rw [show page * (j + 1) - off = page * j + (page - off) by omega, Nat.mul_add_mod,
          Nat.mod_eq_of_lt (by omega)]
      rw [chunkedLoc, pagedLoc, hdiv, hmod, show off + (page * (j + 1) - off) = page * (j + 1) by omega,
        Nat.mul_div_cancel_left _ (by omega), Nat.mul_mod_right, hzero,
        show off + (page - off) = page by omega] at hi
      exact hi.symm
  · intro h i hi
    have hsplit := Nat.div_add_mod i page
    have hlt := Nat.mod_lt i (show page > 0 by omega)
    rw [chunkedLoc, pagedLoc]
    by_cases hcross : off + i % page < page
    · have hsum : off + i = page * (i / page) + (off + i % page) := by omega
      have hdiv : (off + i) / page = i / page := by
        rw [hsum, Nat.mul_add_div (by omega), Nat.div_eq_of_lt hcross, Nat.add_zero]
      have hmod : (off + i) % page = off + i % page := by
        rw [hsum, Nat.mul_add_mod, Nat.mod_eq_of_lt hcross]
      rw [hdiv, hmod]
    · have hmul : page * (i / page + 1) = page * (i / page) + page := Nat.mul_succ page _
      have hrest : off + i % page - page < page := by omega
      have hsum : off + i = page * (i / page + 1) + (off + i % page - page) := by omega
      have hdiv : (off + i) / page = i / page + 1 := by
        rw [hsum, Nat.mul_add_div (by omega), Nat.div_eq_of_lt hrest, Nat.add_zero]
      have hmod : (off + i) % page = off + i % page - page := by
        rw [hsum, Nat.mul_add_mod, Nat.mod_eq_of_lt hrest]
      have hnext : base (i / page + 1) = shift (base (i / page)) page := by
        rcases h with h0 | h
        · omega
        · exact h (i / page) (by omega)
      rw [hdiv, hmod, hnext, hadd, show page + (off + i % page - page) = off + i % page by omega]

end Pages

end Nyx
