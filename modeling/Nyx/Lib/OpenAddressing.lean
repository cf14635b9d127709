import Mathlib.Data.Fintype.EquivFin
import Mathlib.Data.Nat.ModEq
import Mathlib.Data.Nat.Prime.Basic
import Mathlib.Tactic.Ring

/-!
# Hash tables with open addressing

A bucket is empty, holds an entry, or is occupied by one that is gone. A search visits the buckets
in the order of the triangular numbers, which are all buckets if their number is a power of two,
until it meets the key or an empty bucket.
-/

namespace Nyx

open Function

/-- The bucket of the probe number `s` for the hash `h`, in a table of `n` buckets. -/
def probe (n h s : ℕ) : ℕ := (h + s * (s + 1) / 2) % n

section Probe

variable {n h s t m : ℕ}

lemma probe_zero (n h : ℕ) : probe n h 0 = h % n := by simp [probe]

lemma probe_lt (hn : 0 < n) (h s : ℕ) : probe n h s < n := Nat.mod_lt _ hn

lemma triangle_succ (s : ℕ) : (s + 1) * (s + 2) / 2 = s * (s + 1) / 2 + (s + 1) := by
  have hsum : (s + 1) * (s + 2) = s * (s + 1) + 2 * (s + 1) := by ring
  rw [hsum, Nat.add_mul_div_left _ _ (by decide)]

lemma probe_succ (n h s : ℕ) : (probe n h s + (s + 1)) % n = probe n h (s + 1) := by
  rw [probe, probe, triangle_succ, Nat.mod_add_mod, Nat.add_assoc]

lemma triangle_sub {d : ℕ} : 2 * ((s + d) * (s + d + 1) / 2) = 2 * (s * (s + 1) / 2) + d * (2 * s + d + 1) := by
  have hs : 2 ∣ s * (s + 1) := (Nat.even_mul_succ_self s).two_dvd
  have ht : 2 ∣ (s + d) * (s + d + 1) := (Nat.even_mul_succ_self (s + d)).two_dvd
  rw [Nat.mul_div_cancel' hs, Nat.mul_div_cancel' ht]
  ring

lemma probe_add_ne (h : ℕ) {d : ℕ} (hd : 0 < d) (ht : s + d < 2 ^ m) :
    probe (2 ^ m) h (s + d) ≠ probe (2 ^ m) h s := by
  intro heq
  have hdvd : 2 ^ m ∣ (s + d) * (s + d + 1) / 2 - s * (s + 1) / 2 := by
    have hle : s * (s + 1) / 2 ≤ (s + d) * (s + d + 1) / 2 :=
      Nat.div_le_div_right (Nat.mul_le_mul (by omega) (by omega))
    have hmod := (Nat.modEq_iff_dvd' (by omega : h + s * (s + 1) / 2 ≤ h + (s + d) * (s + d + 1) / 2)).mp
      heq.symm
    rwa [Nat.add_sub_add_left] at hmod
  have htwice : 2 ^ (m + 1) ∣ d * (2 * s + d + 1) := by
    have hsub : d * (2 * s + d + 1) = 2 * ((s + d) * (s + d + 1) / 2 - s * (s + 1) / 2) := by
      rw [Nat.mul_sub, triangle_sub]
      omega
    rw [hsub, pow_succ']
    exact Nat.mul_dvd_mul_left 2 hdvd
  -- the odd factor is prime to the power of two, and the other factor is too small
  rcases Nat.even_or_odd d with hev | hodd
  · have hcop : Nat.Coprime (2 ^ (m + 1)) (2 * s + d + 1) := by
      apply Nat.Coprime.pow_left
      rw [Nat.coprime_two_left]
      obtain ⟨c, hc⟩ := hev
      exact ⟨s + c, by omega⟩
    have hle := Nat.le_of_dvd hd (hcop.dvd_of_dvd_mul_right htwice)
    omega
  · have hcop : Nat.Coprime (2 ^ (m + 1)) d := Nat.Coprime.pow_left _ (Nat.coprime_two_left.mpr hodd)
    have hle := Nat.le_of_dvd (by omega) (hcop.dvd_of_dvd_mul_left htwice)
    omega

lemma probe_inj (h : ℕ) (hs : s < 2 ^ m) (ht : t < 2 ^ m)
    (heq : probe (2 ^ m) h s = probe (2 ^ m) h t) : s = t := by
  rcases Nat.lt_trichotomy s t with hlt | rfl | hlt
  · obtain ⟨d, rfl⟩ := Nat.exists_eq_add_of_le hlt.le
    exact absurd heq.symm (probe_add_ne h (by omega) ht)
  · rfl
  · obtain ⟨d, rfl⟩ := Nat.exists_eq_add_of_le hlt.le
    exact absurd heq (probe_add_ne h (by omega) hs)

lemma exists_probe (h : ℕ) {i : ℕ} (hi : i < 2 ^ m) : ∃ s < 2 ^ m, probe (2 ^ m) h s = i := by
  let visit : Fin (2 ^ m) → Fin (2 ^ m) := fun s => ⟨probe (2 ^ m) h s, probe_lt (Nat.two_pow_pos m) h s⟩
  have hinj : Injective visit := by
    intro s t hst
    exact Fin.ext (probe_inj h s.2 t.2 (Fin.ext_iff.mp hst))
  obtain ⟨s, hs⟩ := Finite.surjective_of_injective hinj ⟨i, hi⟩
  exact ⟨s, s.2, Fin.ext_iff.mp hs⟩

end Probe

/-- Buckets with entries, some of them deleted. -/
structure Table (κ ν : Type) where
  buckets : ℕ
  occupied : ℕ → Bool
  live : ℕ → Bool
  cell : ℕ → κ × ν

namespace Table

variable {κ ν : Type} {t t' : Table κ ν} {i : ℕ} {e : κ × ν}

def entries (t : Table κ ν) : Multiset (κ × ν) :=
  ((Multiset.range t.buckets).filter fun i => t.live i = true).map t.cell

def load (t : Table κ ν) : ℕ := ((Finset.range t.buckets).filter fun i => t.occupied i = true).card

def find [DecidableEq κ] (t : Table κ ν) (k : κ) : Option ν :=
  ((List.range t.buckets).find? fun i => t.live i && (t.cell i).1 == k).map fun i => (t.cell i).2

def set (t : Table κ ν) (i : ℕ) (e : κ × ν) : Table κ ν := { t with
  occupied := update t.occupied i true
  live := update t.live i true
  cell := update t.cell i e }

def drop (t : Table κ ν) (i : ℕ) : Table κ ν := { t with live := update t.live i false }

lemma mem_entries : e ∈ t.entries ↔ ∃ i < t.buckets, t.live i ∧ t.cell i = e := by
  simp [entries, and_assoc]

lemma entries_congr (hbuckets : t.buckets = t'.buckets)
    (hlive : ∀ i < t.buckets, t.live i = t'.live i)
    (hcell : ∀ i < t.buckets, t.live i → t.cell i = t'.cell i) : t.entries = t'.entries := by
  have hfilter : (Multiset.range t.buckets).filter (fun i => t.live i = true) =
      (Multiset.range t'.buckets).filter fun i => t'.live i = true := by
    rw [← hbuckets]
    apply Multiset.filter_congr
    intro i hi
    rw [hlive i (Multiset.mem_range.mp hi)]
  rw [entries, entries, ← hfilter]
  apply Multiset.map_congr rfl
  intro i hi
  obtain ⟨hrange, hi⟩ := Multiset.mem_filter.mp hi
  exact hcell i (Multiset.mem_range.mp hrange) hi

lemma entries_drop (hi : i < t.buckets) (hlive : t.live i) :
    t.entries = t.cell i ::ₘ (t.drop i).entries := by
  obtain ⟨rest, hrest⟩ := Multiset.exists_cons_of_mem (Multiset.mem_range.mpr hi)
  have hnodup : (i ::ₘ rest).Nodup := hrest ▸ Multiset.nodup_range t.buckets
  have hnot : i ∉ rest := (Multiset.nodup_cons.mp hnodup).1
  have hfilter : rest.filter (fun j => (t.drop i).live j = true) =
      rest.filter fun j => t.live j = true := by
    apply Multiset.filter_congr
    intro j hj
    have hne : j ≠ i := fun h => hnot (h ▸ hj)
    simp [drop, hne]
  have hkept : (Multiset.range t.buckets).filter (fun j => t.live j = true) =
      i ::ₘ rest.filter fun j => t.live j = true := by
    rw [hrest, Multiset.filter_cons_of_pos]
    exact hlive
  have hgone : (Multiset.range (t.drop i).buckets).filter (fun j => (t.drop i).live j = true) =
      rest.filter fun j => t.live j = true := by
    have hbuckets : (t.drop i).buckets = t.buckets := rfl
    rw [hbuckets, hrest, Multiset.filter_cons_of_neg, hfilter]
    simp [drop]
  show Multiset.map t.cell _ = t.cell i ::ₘ Multiset.map t.cell _
  rw [hkept, hgone, Multiset.map_cons]

lemma entries_set (hi : i < t.buckets) (hlive : t.live i = false) (e : κ × ν) :
    (t.set i e).entries = e ::ₘ t.entries := by
  have hset : (t.set i e).live i = true := by simp [set]
  have hcell : (t.set i e).cell i = e := by simp [set]
  have hi' : i < (t.set i e).buckets := hi
  rw [entries_drop hi' hset, hcell]
  congr 1
  refine entries_congr rfl (fun j _ => ?_) fun j _ hj => ?_
  · by_cases hj : j = i
    · simp [set, drop, hj, hlive]
    · simp [set, drop, hj]
  · have hne : j ≠ i := by
      rintro rfl
      simp [drop] at hj
    simp [set, drop, hne]

lemma entries_eq_zero (h : ∀ i < t.buckets, t.live i = false) : t.entries = 0 := by
  apply Multiset.eq_zero_of_forall_notMem
  intro e he
  obtain ⟨i, hi, hlive, -⟩ := mem_entries.mp he
  rw [h i hi] at hlive
  cases hlive

lemma load_set (hi : i < t.buckets) (e : κ × ν) :
    (t.set i e).load = if t.occupied i = true then t.load else t.load + 1 := by
  have hfilter : (Finset.range t.buckets).filter (fun j => (t.set i e).occupied j = true) =
      insert i ((Finset.range t.buckets).filter fun j => t.occupied j = true) := by
    ext j
    rw [Finset.mem_filter, Finset.mem_insert, Finset.mem_filter]
    by_cases hj : j = i
    · simp [set, hj, hi]
    · simp [set, hj]
  show ((Finset.range t.buckets).filter _).card = _
  rw [hfilter]
  split
  next hocc => rw [Finset.insert_eq_of_mem (by simp [hi, hocc]), load]
  next hocc => rw [Finset.card_insert_of_notMem (by simp [hocc]), load]

lemma exists_empty (h : t.load < t.buckets) : ∃ i < t.buckets, t.occupied i = false := by
  by_contra! hall
  have hfull : (Finset.range t.buckets).filter (fun i => t.occupied i = true) =
      Finset.range t.buckets := by
    apply Finset.filter_true_of_mem
    intro i hi
    simpa using hall i (Finset.mem_range.mp hi)
  rw [load, hfull, Finset.card_range] at h
  exact Nat.lt_irrefl _ h

lemma load_eq_card (h : ∀ i < t.buckets, t.occupied i = t.live i) : t.load = t.entries.card := by
  rw [entries, Multiset.card_map, load, Finset.card_def, Finset.filter_val]
  congr 1
  apply Multiset.filter_congr
  intro i hi
  rw [h i (Multiset.mem_range.mp hi)]

variable [DecidableEq κ]

lemma find_eq_some (hkeys : (t.entries.map Prod.fst).Nodup) (k : κ) (v : ν) :
    t.find k = some v ↔ (k, v) ∈ t.entries := by
  constructor
  · intro h
    obtain ⟨i, hi, rfl⟩ := Option.map_eq_some_iff.mp h
    have hmem := List.mem_range.mp (List.mem_of_find?_eq_some hi)
    have hprop := List.find?_some hi
    simp only [Bool.and_eq_true, beq_iff_eq] at hprop
    exact mem_entries.mpr ⟨i, hmem, hprop.1, Prod.ext hprop.2 rfl⟩
  · intro h
    obtain ⟨i, hi, hlive, hcell⟩ := mem_entries.mp h
    have hsome : ((List.range t.buckets).find? fun i => t.live i && (t.cell i).1 == k).isSome := by
      rw [List.find?_isSome]
      exact ⟨i, List.mem_range.mpr hi, by simp [hlive, hcell]⟩
    obtain ⟨j, hj⟩ := Option.isSome_iff_exists.mp hsome
    have hjmem := List.mem_range.mp (List.mem_of_find?_eq_some hj)
    have hprop := List.find?_some hj
    simp only [Bool.and_eq_true, beq_iff_eq] at hprop
    have hother : t.cell j ∈ t.entries := mem_entries.mpr ⟨j, hjmem, hprop.1, rfl⟩
    have heq : t.cell j = (k, v) :=
      Multiset.inj_on_of_nodup_map hkeys _ hother _ h hprop.2
    rw [find, hj, Option.map_some, heq]

lemma find_eq_none (hkeys : (t.entries.map Prod.fst).Nodup) (k : κ) :
    t.find k = none ↔ ∀ v, (k, v) ∉ t.entries := by
  constructor
  · intro h v hv
    rw [(find_eq_some hkeys k v).mpr hv] at h
    cases h
  · intro h
    cases hfind : t.find k with
    | none => rfl
    | some v => exact absurd ((find_eq_some hkeys k v).mp hfind) (h v)

lemma find_congr (h : t.entries = t'.entries) (hkeys : (t.entries.map Prod.fst).Nodup) :
    t.find = t'.find := by
  funext k
  ext v
  rw [find_eq_some hkeys, find_eq_some (h ▸ hkeys), h]

lemma find_cons {k : κ} {v : ν} (h : t'.entries = (k, v) ::ₘ t.entries)
    (hkeys : (t'.entries.map Prod.fst).Nodup) : t'.find = update t.find k (some v) := by
  have hcons := hkeys
  rw [h, Multiset.map_cons, Multiset.nodup_cons] at hcons
  obtain ⟨hnot, hkeys'⟩ := hcons
  funext k'
  ext v'
  rw [find_eq_some hkeys, h, Multiset.mem_cons]
  by_cases hk : k' = k
  · subst hk
    have habsent : ∀ w, (k', w) ∉ t.entries := fun w hw =>
      hnot (Multiset.mem_map.mpr ⟨(k', w), hw, rfl⟩)
    simp [habsent, eq_comm]
  · rw [update_of_ne hk, find_eq_some hkeys']
    simp [hk]

end Table

/-- The probes for `h` come to the bucket `i` before they come to an empty one. -/
def Table.Reached {κ ν : Type} (t : Table κ ν) (h i : ℕ) : Prop :=
  ∃ s, probe t.buckets h s = i ∧ ∀ r < s, t.occupied (probe t.buckets h r) = true

/-- Every entry is where a search for its key finds it. -/
structure Table.Searchable {κ ν : Type} (hash : κ → ℕ) (t : Table κ ν) : Prop where
  occupied : ∀ i < t.buckets, t.live i = true → t.occupied i = true
  reached : ∀ i < t.buckets, t.live i = true → t.Reached (hash (t.cell i).1) i

namespace Table

variable {κ ν : Type} {hash : κ → ℕ} {t t' : Table κ ν} {k : κ} {v : ν} {i s : ℕ}

lemma searchable_of_not_live (h : ∀ i < t.buckets, t.live i = false) : t.Searchable hash := by
  constructor <;> exact fun i hi hlive => absurd hlive (by simp [h i hi])

lemma Searchable.card_le_load (ht : t.Searchable hash) : t.entries.card ≤ t.load := by
  have hcard : t.entries.card =
      ((Finset.range t.buckets).filter fun i => t.live i = true).card := by
    rw [entries, Multiset.card_map]
    rfl
  rw [hcard]
  apply Finset.card_le_card
  intro i hi
  obtain ⟨hrange, hlive⟩ := Finset.mem_filter.mp hi
  exact Finset.mem_filter.mpr ⟨hrange, ht.occupied i (Finset.mem_range.mp hrange) hlive⟩

lemma Searchable.absent (ht : t.Searchable hash)
    (hempty : t.occupied (probe t.buckets (hash k) s) = false)
    (hpast : ∀ r < s, t.live (probe t.buckets (hash k) r) →
      (t.cell (probe t.buckets (hash k) r)).1 ≠ k) (v : ν) : (k, v) ∉ t.entries := by
  intro hmem
  obtain ⟨i, hi, hlive, hcell⟩ := mem_entries.mp hmem
  obtain ⟨r, hr, hway⟩ := ht.reached i hi hlive
  rw [hcell] at hr hway
  rcases Nat.lt_trichotomy r s with hlt | rfl | hlt
  · apply hpast r hlt
    · rw [hr]
      exact hlive
    · rw [hr, hcell]
  · rw [hr, ht.occupied i hi hlive] at hempty
    cases hempty
  · rw [hway s hlt] at hempty
    cases hempty

lemma Searchable.set (ht : t.Searchable hash) (hi : t.Reached (hash k) i) (v : ν) :
    (t.set i (k, v)).Searchable hash := by
  have hmono : ∀ h j, t.Reached h j → (t.set i (k, v)).Reached h j := by
    rintro h j ⟨s, hs, hway⟩
    refine ⟨s, hs, fun r hr => ?_⟩
    show update t.occupied i true _ = true
    rw [update_apply]
    split
    · rfl
    · exact hway r hr
  constructor
  · intro j hj hlive
    show update t.occupied i true j = true
    rw [update_apply]
    split
    · rfl
    next hne =>
      apply ht.occupied j hj
      simpa [Table.set, hne] using hlive
  · intro j hj hlive
    apply hmono
    by_cases hji : j = i
    · simpa [Table.set, hji] using hi
    · have hlive' : t.live j = true := by simpa [Table.set, hji] using hlive
      simpa [Table.set, hji] using ht.reached j hj hlive'

/-- The two tables have the same buckets. -/
structure Agree (t t' : Table κ ν) : Prop where
  buckets : t'.buckets = t.buckets
  occupied : ∀ i < t.buckets, t'.occupied i = t.occupied i
  live : ∀ i < t.buckets, t'.live i = t.live i
  cell : ∀ i < t.buckets, t'.cell i = t.cell i

lemma Agree.entries (h : Agree t t') : t'.entries = t.entries :=
  entries_congr h.buckets (fun i hi => h.live i (h.buckets ▸ hi))
    fun i hi _ => h.cell i (h.buckets ▸ hi)

lemma Agree.load (h : Agree t t') : t'.load = t.load := by
  rw [Table.load, Table.load, h.buckets]
  congr 1
  apply Finset.filter_congr
  intro i hi
  rw [h.occupied i (Finset.mem_range.mp hi)]

lemma Agree.searchable (h : Agree t t') (ht : t.Searchable hash) : t'.Searchable hash := by
  constructor
  · intro i hi hlive
    rw [h.buckets] at hi
    rw [h.live i hi] at hlive
    rw [h.occupied i hi]
    exact ht.occupied i hi hlive
  · intro i hi hlive
    rw [h.buckets] at hi
    rw [h.live i hi] at hlive
    obtain ⟨s, hs, hway⟩ := ht.reached i hi hlive
    rw [h.cell i hi]
    refine ⟨s, by rw [h.buckets]; exact hs, fun r hr => ?_⟩
    rw [h.buckets, h.occupied _ (probe_lt (Nat.zero_lt_of_lt hi) _ _)]
    exact hway r hr

lemma exists_probe_empty {m : ℕ} (hbuckets : t.buckets = 2 ^ m) (hload : t.load < t.buckets)
    (h : ℕ) : ∃ s < t.buckets, t.occupied (probe t.buckets h s) = false := by
  obtain ⟨i, hi, hempty⟩ := exists_empty hload
  rw [hbuckets] at hi
  obtain ⟨s, hs, rfl⟩ := exists_probe h hi
  rw [hbuckets]
  exact ⟨s, hs, hempty⟩

end Table

end Nyx
