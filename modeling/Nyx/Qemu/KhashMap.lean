import Nyx.Qemu.Khash

/-!
# The hash tables as maps

A table that `kh_put` fills finds under every key the value that was put there last, however often
it was rehashed in between.
-/

namespace Nyx

open Function

variable {κ ν : Type}

def Khash.table (h : Khash κ ν) : Table κ ν where
  buckets := h.nBuckets
  occupied i := !acIsEmpty h.flags i
  live i := !acIsEither h.flags i
  cell i := (h.keys i, h.vals i)

/-- The invariant of a table. -/
structure Khash.Valid (hash : κ → ℕ) (h : Khash κ ν) : Prop where
  buckets : h.nBuckets = 0 ∨ ∃ m, 2 ≤ m ∧ h.nBuckets = 2 ^ m
  size : h.size = h.table.entries.card
  occupied : h.nOccupied = h.table.load
  upper : h.upperBound = hashUpper h.nBuckets
  room : h.nOccupied ≤ h.upperBound
  search : h.table.Searchable hash
  keys : (h.table.entries.map Prod.fst).Nodup

section Arithmetic

variable {n m h s x : ℕ}

lemma hashUpper_lt (hn : 4 ≤ n) : hashUpper n < n := by
  simp only [hashUpper, AC_HASH_UPPER]
  omega

lemma le_hashUpper (n : ℕ) : n ≤ 2 * hashUpper n := by
  simp only [hashUpper, AC_HASH_UPPER]
  omega

lemma hashUpper_double (hn : 4 ≤ n) : hashUpper n < hashUpper (2 * n) := by
  simp only [hashUpper, AC_HASH_UPPER]
  omega

lemma hash_mask (h m : ℕ) : h &&& (2 ^ m - 1) = probe (2 ^ m) h 0 := by
  rw [Nat.and_two_pow_sub_one_eq_mod, probe_zero]

lemma probe_mask (h m s : ℕ) :
    (probe (2 ^ m) h s + (s + 1)) &&& (2 ^ m - 1) = probe (2 ^ m) h (s + 1) := by
  rw [Nat.and_two_pow_sub_one_eq_mod, probe_succ]

lemma testBit_smear {y : ℕ} {k : ℕ} (hy : ∀ i, y.testBit i ↔ ∃ d < k, x.testBit (i + d))
    (i : ℕ) : (y ||| y >>> k).testBit i ↔ ∃ d < 2 * k, x.testBit (i + d) := by
  rw [Nat.testBit_or, Bool.or_eq_true, Nat.testBit_shiftRight, hy, hy]
  constructor
  · rintro (⟨d, hd, hbit⟩ | ⟨d, hd, hbit⟩)
    · exact ⟨d, by omega, hbit⟩
    · refine ⟨k + d, by omega, ?_⟩
      have hsum : i + (k + d) = k + i + d := by omega
      rwa [hsum]
  · rintro ⟨d, hd, hbit⟩
    by_cases hlow : d < k
    · exact .inl ⟨d, hlow, hbit⟩
    · refine .inr ⟨d - k, by omega, ?_⟩
      have hsum : k + i + (d - k) = i + d := by omega
      rwa [hsum]

lemma kroundup32_eq (hm : m < 32) (hlow : 2 ^ m < x) (hhigh : x ≤ 2 ^ (m + 1)) :
    kroundup32 x = 2 ^ (m + 1) := by
  have h₀ : ∀ i, (x - 1).testBit i = true ↔ ∃ d < 1, (x - 1).testBit (i + d) = true := by simp
  have h₅ := testBit_smear (testBit_smear (testBit_smear (testBit_smear (testBit_smear h₀))))
  have hones : kroundup32 x - 1 = 2 ^ (m + 1) - 1 := by
    apply Nat.eq_of_testBit_eq
    intro i
    rw [Nat.testBit_two_pow_sub_one, Bool.eq_iff_iff, decide_eq_true_iff]
    refine (h₅ i).trans ⟨?_, fun hi => ?_⟩
    · rintro ⟨d, -, hbit⟩
      have hge := Nat.ge_two_pow_of_testBit hbit
      have hpow : 2 ^ (i + d) < 2 ^ (m + 1) := by omega
      have := (Nat.pow_lt_pow_iff_right (by decide)).mp hpow
      omega
    · refine ⟨m - i, by omega, ?_⟩
      have hsum : i + (m - i) = m := by omega
      have hquot : (x - 1) / 2 ^ m = 1 := by
        exact (Nat.div_eq_iff (Nat.two_pow_pos m)).mpr (by omega)
      rw [hsum, Nat.testBit_eq_decide_div_mod_eq, hquot]
      rfl
  omega

end Arithmetic

section Valid

variable {hash : κ → ℕ} {h : Khash κ ν} {m : ℕ}

lemma Khash.Valid.pos (hv : h.Valid hash) (hm : h.nBuckets = 2 ^ m) : 4 ≤ h.nBuckets := by
  rcases hv.buckets with hzero | ⟨m', hm', heq⟩
  · have := Nat.two_pow_pos m
    omega
  · rw [heq]
    exact Nat.pow_le_pow_right (by decide : 0 < 2) hm'

lemma Khash.Valid.load_lt (hv : h.Valid hash) (hm : h.nBuckets = 2 ^ m) :
    h.table.load < h.nBuckets := by
  have hlt := hashUpper_lt (hv.pos hm)
  have hroom := hv.room
  rw [hv.occupied, hv.upper] at hroom
  omega

end Valid

lemma update_pair (keys : ℕ → κ) (vals : ℕ → ν) (i : ℕ) (key : κ) (val : ν) :
    (fun j => (update keys i key j, update vals i val j)) =
      update (fun j => (keys j, vals j)) i (key, val) := by
  funext j
  by_cases hj : j = i
  · simp [hj]
  · simp [hj]

lemma not_clear (f : ℕ → Bool) (i : ℕ) :
    (fun j => !(f j && !decide (j = i))) = update (fun j => !f j) i true := by
  funext j
  by_cases hj : j = i
  · simp [hj]
  · simp [hj]

section Search

variable [DecidableEq κ] {hash : κ → ℕ} {h : Khash κ ν} {key : κ} {m i s : ℕ}

lemma Khash.passes_of_empty (hi : acIsEmpty h.flags i) : h.passes key i = false := by
  simp [Khash.passes, hi]

lemma Khash.passes_true (hi : h.passes key i) :
    acIsEmpty h.flags i = false ∧ (acIsEither h.flags i = false → h.keys i ≠ key) := by
  simp only [Khash.passes, Bool.and_eq_true, Bool.not_eq_true', Bool.or_eq_true, bne_iff_ne] at hi
  refine ⟨hi.1, fun hlive => ?_⟩
  rw [acIsEither_eq, Bool.or_eq_false_iff] at hlive
  rcases hi.2 with hdel | hne
  · rw [hlive.2] at hdel
    cases hdel
  · exact hne

lemma Khash.passes_false (hi : h.passes key i = false) (hfull : acIsEmpty h.flags i = false) :
    acIsEither h.flags i = false ∧ h.keys i = key := by
  simp only [Khash.passes, hfull, Bool.not_false, Bool.true_and, Bool.or_eq_false_iff,
    bne_eq_false_iff_eq] at hi
  exact ⟨by rw [acIsEither_eq, hfull, hi.1]; rfl, hi.2⟩

lemma Khash.exists_stop (hash : κ → ℕ) (hm : h.nBuckets = 2 ^ m) (hload : h.table.load < h.nBuckets)
    (key : κ) : ∃ s < 2 ^ m, h.passes key (probe (2 ^ m) (hash key) s) = false ∧
      ∀ r < s, h.passes key (probe (2 ^ m) (hash key) r) := by
  obtain ⟨s, hs, hempty⟩ := Table.exists_probe_empty (t := h.table) hm hload (hash key)
  have hbuckets : h.table.buckets = 2 ^ m := hm
  rw [hbuckets] at hs hempty
  have hempty' : acIsEmpty h.flags (probe (2 ^ m) (hash key) s) = true := by
    simpa [Khash.table] using hempty
  have hex : ∃ s, h.passes key (probe (2 ^ m) (hash key) s) = false :=
    ⟨s, Khash.passes_of_empty hempty'⟩
  refine ⟨Nat.find hex, ?_, Nat.find_spec hex, fun r hr => ?_⟩
  · exact Nat.lt_of_le_of_lt (Nat.find_min' hex (Khash.passes_of_empty hempty')) hs
  · simpa using Nat.find_min hex hr

lemma Khash.Valid.absent (hv : h.Valid hash) (hm : h.nBuckets = 2 ^ m)
    (hempty : acIsEmpty h.flags (probe (2 ^ m) (hash key) s))
    (hpast : ∀ r < s, h.passes key (probe (2 ^ m) (hash key) r)) : h.table.find key = none := by
  have hbuckets : h.table.buckets = 2 ^ m := hm
  refine (Table.find_eq_none hv.keys key).mpr (hv.search.absent (s := s) ?_ fun r hr hlive => ?_)
  · rw [hbuckets]
    simp [Khash.table, hempty]
  · rw [hbuckets] at hlive ⊢
    exact (Khash.passes_true (hpast r hr)).2 (by simpa [Khash.table] using hlive)

lemma Khash.mem_entries (hi : i < h.nBuckets) (hstop : h.passes key i = false)
    (hfull : acIsEmpty h.flags i = false) : (key, h.vals i) ∈ h.table.entries := by
  obtain ⟨hlive, rfl⟩ := Khash.passes_false hstop hfull
  exact Table.mem_entries.mpr ⟨i, hi, by simp [Khash.table, hlive], rfl⟩

/-- `kh_get` finds the value of a key, and the end of the table if there is none. -/
theorem khGet_spec (hv : h.Valid hash) (key : κ) :
    ∃ i, khGet hash h key = some i ∧
      (i = h.nBuckets ∧ h.table.find key = none ∨
        i < h.nBuckets ∧ h.table.find key = some (h.vals i)) := by
  rcases hv.buckets with hzero | ⟨m, -, hm⟩
  · refine ⟨0, by rw [khGet, if_neg (not_not.mpr hzero)], .inl ⟨hzero.symm, ?_⟩⟩
    have hbuckets : h.table.buckets = 0 := hzero
    rw [Table.find, hbuckets]
    rfl
  obtain ⟨s, hs, hstop, hpast⟩ := Khash.exists_stop hash hm (hv.load_lt hm) key
  set bucket : ℕ → ℕ := probe (2 ^ m) (hash key) with hbucket
  have hne : h.nBuckets ≠ 0 := by rw [hm]; exact (Nat.two_pow_pos m).ne'
  have hrun : khGet hash h key =
      some (if acIsEither h.flags (bucket s) then h.nBuckets else bucket s) := by
    rw [khGet, if_pos hne, hm, hash_mask]
    refine iterate_chain (f := fun r => (bucket r, r)) (fun r hr => ?_) ?_ (by omega : s < 2 * 2 ^ m)
    · have hback : bucket (r + 1) ≠ bucket 0 := fun heq =>
        Nat.succ_ne_zero r (probe_inj _ (by omega) (Nat.two_pow_pos m) heq)
      rw [khGetStep, if_pos (hpast r hr), hm, probe_mask, if_neg hback]
    · rw [khGetStep, hstop, if_neg Bool.false_ne_true, hm]
  refine ⟨_, hrun, ?_⟩
  cases hempty : acIsEmpty h.flags (bucket s) with
  | true =>
    have heither : acIsEither h.flags (bucket s) = true := by rw [acIsEither_eq, hempty]; rfl
    rw [if_pos heither]
    exact .inl ⟨rfl, hv.absent hm hempty hpast⟩
  | false =>
    have hlt : bucket s < h.nBuckets := by rw [hm]; exact probe_lt (Nat.two_pow_pos m) _ _
    rw [(Khash.passes_false hstop hempty).1, if_neg Bool.false_ne_true]
    exact .inr ⟨hlt, (Table.find_eq_some hv.keys _ _).mpr (Khash.mem_entries hlt hstop hempty)⟩

/-- The last deleted bucket of the first `s` probes, or the end of the table. -/
def siteAfter (h : Khash κ ν) (bucket : ℕ → ℕ) : ℕ → ℕ
  | 0 => h.nBuckets
  | s + 1 => if acIsDel h.flags (bucket s) then bucket s else siteAfter h bucket s

omit [DecidableEq κ] in
lemma siteAfter_cases (h : Khash κ ν) (bucket : ℕ → ℕ) (s : ℕ) :
    siteAfter h bucket s = h.nBuckets ∨
      ∃ r < s, siteAfter h bucket s = bucket r ∧ acIsDel h.flags (bucket r) := by
  induction s with
  | zero => exact .inl rfl
  | succ s ih =>
    rw [siteAfter]
    split
    next hdel => exact .inr ⟨s, Nat.lt_succ_self s, rfl, hdel⟩
    next =>
      rcases ih with hend | ⟨r, hr, hsite⟩
      · exact .inl hend
      · exact .inr ⟨r, Nat.lt_succ_of_lt hr, hsite⟩

lemma putBucket_spec (hv : h.Valid hash) (hm : h.nBuckets = 2 ^ m) (hkey : h.table.find key = none) :
    ∃ x < h.nBuckets, putBucket hash h key = some x ∧ acIsEither h.flags x ∧
      h.table.Reached (hash key) x := by
  obtain ⟨s, hs, hstop, hpast⟩ := Khash.exists_stop hash hm (hv.load_lt hm) key
  set bucket : ℕ → ℕ := probe (2 ^ m) (hash key) with hbucket
  have hlt : ∀ r, bucket r < h.nBuckets := fun r => by
    rw [hm]
    exact probe_lt (Nat.two_pow_pos m) _ r
  have hreached : ∀ r ≤ s, h.table.Reached (hash key) (bucket r) := by
    intro r hr
    have hbuckets : h.table.buckets = 2 ^ m := hm
    refine ⟨r, by rw [hbuckets], fun q hq => ?_⟩
    rw [hbuckets]
    simpa [Khash.table] using (Khash.passes_true (hpast q (by omega))).1
  have hempty : acIsEmpty h.flags (bucket s) = true := by
    by_contra hfull
    exact (Table.find_eq_none hv.keys key).mp hkey _
      (Khash.mem_entries (hlt s) hstop (by simpa using hfull))
  have heither : acIsEither h.flags (bucket s) = true := by rw [acIsEither_eq, hempty]; rfl
  by_cases hfirst : acIsEmpty h.flags (bucket 0) = true
  · refine ⟨bucket 0, hlt 0, ?_, ?_, hreached 0 (Nat.zero_le s)⟩
    · rw [putBucket, hm, hash_mask, if_pos hfirst]
    · rw [acIsEither_eq, hfirst]
      rfl
  -- the loop runs over the probes and remembers the last deleted bucket
  have hloop : iterate (khPutStep h key (bucket 0)) (2 * 2 ^ m) (bucket 0, 0, 2 ^ m) =
      some (bucket s, siteAfter h bucket s, 2 ^ m) := by
    have hstart : (bucket 0, 0, 2 ^ m) = (bucket 0, 0, siteAfter h bucket 0) := by rw [siteAfter, hm]
    rw [hstart]
    refine iterate_chain (f := fun r => (bucket r, r, siteAfter h bucket r)) (fun r hr => ?_) ?_
      (by omega : s < 2 * 2 ^ m)
    · have hback : bucket (r + 1) ≠ bucket 0 := fun heq =>
        Nat.succ_ne_zero r (probe_inj _ (by omega) (Nat.two_pow_pos m) heq)
      rw [khPutStep, if_pos (hpast r hr), hm, probe_mask]
      simp only [← hbucket, if_neg hback, siteAfter]
    · rw [khPutStep, hstop, if_neg Bool.false_ne_true, hm]
  have hrun : putBucket hash h key = some (if acIsEmpty h.flags (bucket s) &&
      siteAfter h bucket s != 2 ^ m then siteAfter h bucket s else bucket s) := by
    rw [putBucket, hm, hash_mask]
    rw [if_neg hfirst, hloop]
    simp
  rcases siteAfter_cases h bucket s with hend | ⟨r, hr, hsite, hdel⟩
  · refine ⟨bucket s, hlt s, ?_, heither, hreached s le_rfl⟩
    rw [hrun, hend, hm]
    simp
  · refine ⟨bucket r, hlt r, ?_, ?_, hreached r hr.le⟩
    · have hne : bucket r ≠ 2 ^ m := by
        have := hlt r
        omega
      rw [hrun, hsite, hempty]
      simp [hne]
    · rw [acIsEither_eq, hdel, Bool.or_true]

end Search

section Rehash

variable {hash : κ → ℕ} {r r' : Rehash κ ν} {n n' j i m : ℕ} {content hand : Multiset (κ × ν)}
  {key : κ} {val : ν}

def Rehash.old (n : ℕ) (r : Rehash κ ν) : Table κ ν where
  buckets := n
  occupied i := !acIsEither r.flags i
  live i := !acIsEither r.flags i
  cell i := (r.keys i, r.vals i)

def Rehash.new (n : ℕ) (r : Rehash κ ν) : Table κ ν where
  buckets := n
  occupied i := !acIsEmpty r.newFlags i
  live i := !acIsEmpty r.newFlags i
  cell i := (r.keys i, r.vals i)

/-- Old table, new table and the entry in hand make up the content, and the old table has nothing
left below `j`. -/
structure Rehash.Moving (hash : κ → ℕ) (n n' j : ℕ) (content hand : Multiset (κ × ν))
    (r : Rehash κ ν) : Prop where
  entries : (r.old n).entries + (r.new n').entries + hand = content
  search : (r.new n').Searchable hash
  clean : ∀ i, acIsDel r.newFlags i = false
  done : ∀ i < j, acIsEither r.flags i = true

def Rehash.place (r : Rehash κ ν) (i : ℕ) (key : κ) (val : ν) : Rehash κ ν := { r with
  newFlags := acSetIsEmptyFalse r.newFlags i
  keys := update r.keys i key
  vals := update r.vals i val }

lemma Rehash.new_place (r : Rehash κ ν) (n i : ℕ) (key : κ) (val : ν) :
    (r.place i key val).new n = (r.new n).set i (key, val) := by
  simp only [Rehash.new, Table.set, Rehash.place, acIsEmpty_acSetIsEmptyFalse, not_clear,
    update_pair]

lemma Rehash.entries_old_place (hi : i < n → acIsEither r.flags i) (key : κ) (val : ν) :
    ((r.place i key val).old n).entries = (r.old n).entries := by
  refine Table.entries_congr rfl (fun _ _ => rfl) fun j hj hlive => ?_
  have hne : j ≠ i := by
    rintro rfl
    simp [Rehash.old, Rehash.place, hi hj] at hlive
  simp [Rehash.old, Rehash.place, hne]

def Rehash.take (r : Rehash κ ν) (i : ℕ) : Rehash κ ν :=
  { r with flags := acSetIsDelTrue r.flags i }

lemma Rehash.entries_old_take (hi : i < n) (hlive : acIsEither r.flags i = false) :
    (r.old n).entries = (r.keys i, r.vals i) ::ₘ ((r.take i).old n).entries := by
  have hlive' : (r.old n).live i = true := by simp [Rehash.old, hlive]
  rw [Table.entries_drop (t := r.old n) hi hlive']
  congr 1
  refine Table.entries_congr rfl (fun j _ => ?_) fun _ _ _ => rfl
  show update (fun j => !acIsEither r.flags j) i false j =
    !acIsEither (acSetIsDelTrue r.flags i) j
  rw [acIsEither_acSetIsDelTrue]
  by_cases hj : j = i
  · simp [hj]
  · simp [hj]

lemma Rehash.Moving.take (h : r.Moving hash n n' j content hand) (hi : i < n)
    (hlive : acIsEither r.flags i = false) :
    (r.take i).Moving hash n n' j content ((r.keys i, r.vals i) ::ₘ hand) where
  entries := by
    have hentries := h.entries
    rw [Rehash.entries_old_take hi hlive, Multiset.cons_add, Multiset.cons_add] at hentries
    rw [Multiset.add_cons, ← hentries]
    rfl
  search := h.search
  clean := h.clean
  done q hq := by
    rw [Rehash.take, acIsEither_acSetIsDelTrue, h.done q hq, Bool.true_or]

lemma Rehash.Moving.place (h : r.Moving hash n n' j content ((key, val) ::ₘ hand)) (hi : i < n')
    (hfree : acIsEmpty r.newFlags i) (hreached : (r.new n').Reached (hash key) i)
    (hold : i < n → acIsEither r.flags i) :
    (r.place i key val).Moving hash n n' j content hand where
  entries := by
    have hfree' : (r.new n').live i = false := by simp [Rehash.new, hfree]
    rw [Rehash.entries_old_place hold, Rehash.new_place, Table.entries_set hi hfree', ← h.entries,
      Multiset.add_cons, Multiset.cons_add, Multiset.add_cons]
  search := by
    rw [Rehash.new_place]
    exact h.search.set hreached val
  clean q := by
    rw [Rehash.place, acIsDel_acSetIsEmptyFalse]
    exact h.clean q
  done := h.done

lemma iterate_freeStep (hload : (r.new (2 ^ m)).load < 2 ^ m) (h : ℕ) :
    ∃ i < 2 ^ m, iterate (freeStep r.newFlags (2 ^ m - 1)) (2 ^ m) (h &&& (2 ^ m - 1), 0) = some i ∧
      acIsEmpty r.newFlags i ∧ (r.new (2 ^ m)).Reached h i := by
  have hex : ∃ s, acIsEmpty r.newFlags (probe (2 ^ m) h s) = true := by
    obtain ⟨s, -, hempty⟩ := Table.exists_probe_empty (t := r.new (2 ^ m)) rfl hload h
    exact ⟨s, by simpa [Rehash.new] using hempty⟩
  have hlt : Nat.find hex < 2 ^ m := by
    obtain ⟨s, hs, hempty⟩ := Table.exists_probe_empty (t := r.new (2 ^ m)) rfl hload h
    exact Nat.lt_of_le_of_lt (Nat.find_min' hex (by simpa [Rehash.new] using hempty)) hs
  refine ⟨probe (2 ^ m) h (Nat.find hex), probe_lt (Nat.two_pow_pos m) _ _, ?_, Nat.find_spec hex,
    ⟨Nat.find hex, rfl, fun q hq => ?_⟩⟩
  · rw [hash_mask]
    refine iterate_chain (f := fun s => (probe (2 ^ m) h s, s)) (fun s hs => ?_) ?_ hlt
    · have hfull : acIsEmpty r.newFlags (probe (2 ^ m) h s) = false := by
        simpa using Nat.find_min hex hs
      rw [freeStep, hfull, probe_mask]
      rfl
    · rw [freeStep, Nat.find_spec hex]
      rfl
  · simpa [Rehash.new] using Nat.find_min hex hq

lemma Rehash.Moving.load_lt (h : r.Moving hash n n' j content hand) (hroom : content.card < n') :
    (r.new n').load < n' := by
  have hcard := congrArg Multiset.card h.entries
  rw [Multiset.card_add, Multiset.card_add] at hcard
  rw [Table.load_eq_card fun _ _ => rfl]
  omega

lemma kickOut_spec (h : r.Moving hash n (2 ^ m) j content {(key, val)}) (hroom : content.card < 2 ^ m) :
    (∃ o, kickOut hash n (2 ^ m) (r, key, val) = .inr o ∧
      ∃ r', o = some r' ∧ r'.Moving hash n (2 ^ m) j content 0) ∨
    ∃ p, kickOut hash n (2 ^ m) (r, key, val) = .inl p ∧
      p.1.Moving hash n (2 ^ m) j content {p.2} ∧
      (p.1.old n).entries.card < (r.old n).entries.card := by
  obtain ⟨i, hi, hrun, hfree, hreached⟩ := iterate_freeStep (h.load_lt hroom) (hash key)
  by_cases hold : i < n ∧ acIsEither r.flags i = false
  · have htaken : acIsEither (r.take i).flags i = true := by
      rw [Rehash.take, acIsEither_acSetIsDelTrue]
      simp
    have hmoving := h.take hold.1 hold.2
    rw [← Multiset.cons_zero (key, val), Multiset.cons_swap] at hmoving
    refine .inr ⟨((r.take i).place i key val, r.keys i, r.vals i), ?_,
      hmoving.place hi hfree hreached fun _ => htaken, ?_⟩
    · rw [kickOut, hrun]
      exact if_pos hold
    · rw [Rehash.entries_old_place fun _ => htaken, Rehash.entries_old_take hold.1 hold.2,
        Multiset.card_cons]
      exact Nat.lt_succ_self _
  · have hgone : i < n → acIsEither r.flags i = true := by
      intro hlt
      simpa [hlt] using hold
    refine .inl ⟨some (r.place i key val), ?_, _, rfl, h.place hi hfree hreached hgone⟩
    rw [kickOut, hrun]
    exact if_neg hold

lemma rehashBucket_spec (h : r.Moving hash n (2 ^ m) j content 0) (hroom : content.card < 2 ^ m)
    (hj : j < n) : ∃ r', rehashBucket hash n (2 ^ m) r j = some r' ∧
      r'.Moving hash n (2 ^ m) (j + 1) content 0 := by
  by_cases hlive : acIsEither r.flags j = false
  · -- from here on bucket `j` is deleted, so that `j + 1` old buckets are done
    have hmoving := h.take hj hlive
    have hstart : (r.take j).Moving hash n (2 ^ m) (j + 1) content {(r.keys j, r.vals j)} := by
      refine ⟨hmoving.entries, hmoving.search, hmoving.clean, fun q hq => ?_⟩
      by_cases hqj : q = j
      · rw [Rehash.take, acIsEither_acSetIsDelTrue, hqj]
        simp
      · exact hmoving.done q (by omega)
    have hcard : ((r.take j).old n).entries.card ≤ n := by
      rw [Table.entries, Multiset.card_map]
      calc _ ≤ (Multiset.range n).card := Multiset.card_le_card (Multiset.filter_le _ _)
        _ = n := Multiset.card_range n
    obtain ⟨-, hrun, r', rfl, hend⟩ :=
      iterate_total (P := fun p => p.1.Moving hash n (2 ^ m) (j + 1) content {p.2})
        (fun p : Rehash κ ν × κ × ν => (p.1.old n).entries.card)
        (fun p hp => kickOut_spec hp hroom) (s := (r.take j, r.keys j, r.vals j)) hstart hcard
    refine ⟨r', ?_, hend⟩
    rw [rehashBucket, if_pos hlive]
    show (iterate _ _ (r.take j, r.keys j, r.vals j)).join = _
    rw [hrun]
    rfl
  · refine ⟨r, if_neg hlive, h.entries, h.search, h.clean, fun q hq => ?_⟩
    by_cases hqj : q = j
    · simpa [hqj] using hlive
    · exact h.done q (by omega)

lemma foldlM_rehashBucket (h : r.Moving hash n (2 ^ m) 0 content 0) (hroom : content.card < 2 ^ m)
    (hj : j ≤ n) : ∃ r', (List.range j).foldlM (rehashBucket hash n (2 ^ m)) r = some r' ∧
      r'.Moving hash n (2 ^ m) j content 0 := by
  induction j with
  | zero => exact ⟨r, rfl, h⟩
  | succ j ih =>
    obtain ⟨r', hrun, hmoving⟩ := ih (by omega)
    obtain ⟨r'', hbucket, hnext⟩ := rehashBucket_spec hmoving hroom (by omega)
    refine ⟨r'', ?_, hnext⟩
    rw [List.range_succ, List.foldlM_append, hrun]
    show (rehashBucket hash n (2 ^ m) r' j >>= fun s => pure s) = some r''
    rw [hbucket]
    rfl

end Rehash

section Resize

variable {hash : κ → ℕ} {h : Khash κ ν} {m newNBuckets : ℕ}

lemma khResize_spec (hv : h.Valid hash) (hm : 2 ≤ m)
    (hround : (if kroundup32 newNBuckets < 4 then 4 else kroundup32 newNBuckets) = 2 ^ m)
    (hsize : h.size < hashUpper (2 ^ m)) :
    ∃ h', khResize hash h newNBuckets = some h' ∧ h'.Valid hash ∧
      h'.table.entries = h.table.entries ∧ h'.nBuckets = 2 ^ m ∧ h'.size = h.size ∧
      h'.nOccupied = h.size := by
  have hfour : 4 ≤ 2 ^ m := Nat.pow_le_pow_right (by decide : 0 < 2) hm
  have hroom : h.table.entries.card < 2 ^ m := by
    have := hashUpper_lt hfour
    rw [← hv.size]
    omega
  have hnone : ∀ i, (Rehash.new (2 ^ m) ⟨h.flags, allEmpty, h.keys, h.vals⟩).live i = false := by
    intro i
    simp [Rehash.new, acIsEmpty_allEmpty]
  have hstart : (⟨h.flags, allEmpty, h.keys, h.vals⟩ : Rehash κ ν).Moving hash h.nBuckets (2 ^ m) 0
      h.table.entries 0 := by
    refine ⟨?_, ⟨fun i _ hi => ?_, fun i _ hi => ?_⟩, acIsDel_allEmpty, fun i hi => by omega⟩
    · rw [Table.entries_eq_zero fun i _ => hnone i, Multiset.add_zero, Multiset.add_zero]
      rfl
    · rw [hnone] at hi
      cases hi
    · rw [hnone] at hi
      cases hi
  obtain ⟨r, hrun, hmoving⟩ := foldlM_rehashBucket hstart hroom (Nat.le_refl h.nBuckets)
  have hentries : (r.new (2 ^ m)).entries = h.table.entries := by
    have hold : (r.old h.nBuckets).entries = 0 := Table.entries_eq_zero fun i hi => by
      simp [Rehash.old, hmoving.done i hi]
    have hsum := hmoving.entries
    rwa [hold, Multiset.zero_add, Multiset.add_zero] at hsum
  set h' : Khash κ ν := ⟨2 ^ m, h.size, h.size, hashUpper (2 ^ m), r.newFlags, r.keys, r.vals⟩
  have htable : h'.table = r.new (2 ^ m) := by
    have hlive : (fun i => !acIsEither r.newFlags i) = fun i => !acIsEmpty r.newFlags i := by
      funext i
      rw [acIsEither_eq, hmoving.clean, Bool.or_false]
    show Table.mk _ _ (fun i => !acIsEither r.newFlags i) _ = _
    rw [hlive]
    rfl
  refine ⟨h', ?_, ⟨.inr ⟨m, hm, rfl⟩, ?_, ?_, rfl, hsize.le, ?_, ?_⟩, ?_, rfl, rfl, rfl⟩
  · rw [khResize]
    simp only [hround]
    rw [if_neg (Nat.not_le.mpr hsize), hrun]
    rfl
  · rw [htable, hentries]
    exact hv.size
  · have hload : (r.new (2 ^ m)).load = (r.new (2 ^ m)).entries.card := Table.load_eq_card fun _ _ => rfl
    rw [htable, hload, hentries]
    exact hv.size
  · rw [htable]
    exact hmoving.search
  · rw [htable, hentries]
    exact hv.keys
  · rw [htable, hentries]

/-- The table `h'` holds what `h` holds, has a free bucket more than it needs and at most `bound`
buckets. -/
structure Khash.Grown (hash : κ → ℕ) (h : Khash κ ν) (bound : ℕ) (h' : Khash κ ν) : Prop where
  valid : h'.Valid hash
  entries : h'.table.entries = h.table.entries
  size : h'.size = h.size
  buckets : ∃ m, h'.nBuckets = 2 ^ m
  room : h'.nOccupied < h'.upperBound
  le : h'.nBuckets ≤ bound

lemma khResize_grown (hv : h.Valid hash) {bound : ℕ} (hm : 2 ≤ m)
    (hround : (if kroundup32 newNBuckets < 4 then 4 else kroundup32 newNBuckets) = 2 ^ m)
    (hsize : h.size < hashUpper (2 ^ m)) (hbound : 2 ^ m ≤ bound) :
    ∃ h', khResize hash h newNBuckets = some h' ∧ h.Grown hash bound h' := by
  obtain ⟨h', hrun, hv', hentries, hn, hsize', hocc⟩ := khResize_spec hv hm hround hsize
  refine ⟨h', hrun, hv', hentries, hsize', ⟨m, hn⟩, ?_, hn ▸ hbound⟩
  rw [hocc, hv'.upper, hn]
  exact hsize

lemma exponent_lt (hm : h.nBuckets = 2 ^ m) (hbound : h.nBuckets < 2 ^ 31) : m < 31 := by
  rw [hm] at hbound
  exact (Nat.pow_lt_pow_iff_right (by decide)).mp hbound

lemma khGrow_spec (hv : h.Valid hash) (hbound : h.nBuckets < 2 ^ 31) :
    ∃ h', khGrow hash h = some h' ∧
      h.Grown hash (max h.nBuckets (max 4 (4 * h.size))) h' := by
  by_cases hfull : h.upperBound ≤ h.nOccupied
  · rw [khGrow, if_pos hfull, Nat.shiftLeft_eq]
    have hle : h.size ≤ hashUpper h.nBuckets := by
      have hroom := hv.room
      have hcard := hv.search.card_le_load
      rw [← hv.size, ← hv.occupied] at hcard
      rw [hv.upper] at hroom
      omega
    rcases hv.buckets with hzero | ⟨m, hm, heq⟩
    · -- the first key of the table
      have hupper : hashUpper (2 ^ 2) = 3 ∧ hashUpper 0 = 0 := by decide
      have hround : (if kroundup32 (h.nBuckets + 1) < 4 then 4 else kroundup32 (h.nBuckets + 1)) =
          2 ^ 2 := by
        rw [hzero]
        decide
      rw [hzero] at hle
      rw [if_neg (by omega)]
      exact khResize_grown hv le_rfl hround (by omega) (by omega)
    have hlt := exponent_lt heq hbound
    by_cases hsparse : h.size * 2 ^ 1 < h.nBuckets
    · -- many deleted buckets: the table keeps its size
      obtain ⟨l, rfl⟩ := Nat.exists_eq_add_of_le' hm
      have hpow : 2 ^ (l + 2) = 2 * 2 ^ (l + 1) := pow_succ' 2 (l + 1)
      have hround : kroundup32 (h.nBuckets - 1) = 2 ^ (l + 2) := by
        exact kroundup32_eq (by omega) (by omega) (by omega)
      have hupper := le_hashUpper (2 ^ (l + 2))
      rw [if_pos hsparse]
      exact khResize_grown hv hm (by rw [hround]; exact if_neg (by omega)) (by omega) (by omega)
    · have hfour : 2 ^ 2 ≤ 2 ^ m := Nat.pow_le_pow_right (by decide) hm
      have hpow : 2 ^ (m + 1) = 2 * 2 ^ m := pow_succ' 2 m
      have hround : kroundup32 (h.nBuckets + 1) = 2 ^ (m + 1) := by
        exact kroundup32_eq (by omega) (by omega) (by omega)
      have hupper := hashUpper_double hfour
      rw [heq] at hle
      rw [← hpow] at hupper
      rw [if_neg hsparse]
      exact khResize_grown (m := m + 1) hv (by omega) (by rw [hround]; exact if_neg (by omega))
        (by omega) (by omega)
  · have hlt : h.nOccupied < h.upperBound := Nat.lt_of_not_le hfull
    refine ⟨h, if_neg hfull, hv, rfl, rfl, ?_, hlt, le_max_left _ _⟩
    rcases hv.buckets with hzero | ⟨m, -, hm⟩
    · have hupper : hashUpper 0 = 0 := by decide
      rw [hv.upper, hzero, hupper] at hlt
      omega
    · exact ⟨m, hm⟩

end Resize

section Put

variable [DecidableEq κ] {hash : κ → ℕ} {h : Khash κ ν} {key : κ} {x : ℕ}

def Khash.insert (h : Khash κ ν) (x nOccupied : ℕ) (key : κ) (v : ν) : Khash κ ν := { h with
  keys := update h.keys x key
  vals := update h.vals x v
  flags := acSetIsBothFalse h.flags x
  size := h.size + 1
  nOccupied := nOccupied }

omit [DecidableEq κ] in
lemma Khash.table_insert (h : Khash κ ν) (x nOccupied : ℕ) (key : κ) (v : ν) :
    (h.insert x nOccupied key v).table = h.table.set x (key, v) := by
  simp only [Khash.table, Khash.insert, Table.set, acIsEither_eq, acIsEmpty_acSetIsBothFalse,
    acIsDel_acSetIsBothFalse, ← Bool.and_or_distrib_right, not_clear, update_pair]

lemma Khash.Valid.insert (hv : h.Valid hash) (hx : x < h.nBuckets)
    (hfree : acIsEither h.flags x) (hreached : h.table.Reached (hash key) x)
    (hroom : h.nOccupied < h.upperBound) (hkey : h.table.find key = none) (nOccupied : ℕ)
    (hocc : nOccupied = if acIsEmpty h.flags x then h.nOccupied + 1 else h.nOccupied) (v : ν) :
    (h.insert x nOccupied key v).Valid hash ∧
      (h.insert x nOccupied key v).table.find = update h.table.find key (some v) := by
  have hlive : h.table.live x = false := by simp [Khash.table, hfree]
  have hentries : (h.insert x nOccupied key v).table.entries = (key, v) ::ₘ h.table.entries := by
    rw [Khash.table_insert, Table.entries_set hx hlive]
  have hkeys : ((h.insert x nOccupied key v).table.entries.map Prod.fst).Nodup := by
    rw [hentries, Multiset.map_cons, Multiset.nodup_cons]
    refine ⟨fun hmem => ?_, hv.keys⟩
    obtain ⟨⟨k, w⟩, hentry, rfl⟩ := Multiset.mem_map.mp hmem
    exact (Table.find_eq_none hv.keys _).mp hkey w hentry
  refine ⟨⟨.inr ?_, ?_, ?_, hv.upper, ?_, ?_, hkeys⟩, Table.find_cons hentries hkeys⟩
  · rcases hv.buckets with hzero | hpow
    · omega
    · exact hpow
  · rw [hentries, Multiset.card_cons, ← hv.size]
    rfl
  · rw [Khash.table_insert, Table.load_set hx, ← hv.occupied]
    show nOccupied = _
    rw [hocc]
    cases hempty : acIsEmpty h.flags x with
    | true => simp [Khash.table, hempty]
    | false => simp [Khash.table, hempty]
  · show nOccupied ≤ h.upperBound
    rw [hocc]
    split <;> omega
  · rw [Khash.table_insert]
    exact hv.search.set hreached v

/-- A new key gets a bucket, and with a value in it the table finds this value there and every other
key where it was. -/
theorem khPut_spec (hv : h.Valid hash) (hbound : h.nBuckets < 2 ^ 31)
    (hkey : h.table.find key = none) :
    ∃ h' x ret, khPut hash h key = some (h', x, ret) ∧ ∀ v,
      (h'.setValue x v).Valid hash ∧
      (h'.setValue x v).table.find = update h.table.find key (some v) ∧
      (h'.setValue x v).size = h.size + 1 ∧
      (h'.setValue x v).nBuckets ≤ max h.nBuckets (max 4 (4 * h.size)) := by
  obtain ⟨g, hgrow, hg⟩ := khGrow_spec hv hbound
  obtain ⟨m, hm⟩ := hg.buckets
  have hfind : g.table.find = h.table.find := Table.find_congr hg.entries hg.valid.keys
  have hkey' : g.table.find key = none := by rw [hfind, hkey]
  obtain ⟨x, hx, hbucket, hfree, hreached⟩ := putBucket_spec hg.valid hm hkey'
  have hinsert := hg.valid.insert hx hfree hreached hg.room hkey'
  have hle := hg.le
  have hsize := hg.size
  cases hempty : acIsEmpty g.flags x with
  | true =>
    refine ⟨{ g with
      keys := update g.keys x key
      flags := acSetIsBothFalse g.flags x
      size := g.size + 1
      nOccupied := g.nOccupied + 1 }, x, 1, ?_, fun v => ?_⟩
    · simp [khPut, hgrow, hbucket, hempty]
    · obtain ⟨hvalid, hupdate⟩ := hinsert (g.nOccupied + 1) (by rw [hempty]; rfl) v
      exact ⟨hvalid, hfind ▸ hupdate, congrArg (· + 1) hsize, hle⟩
  | false =>
    have hdel : acIsDel g.flags x = true := by simpa [acIsEither_eq, hempty] using hfree
    refine ⟨{ g with
      keys := update g.keys x key
      flags := acSetIsBothFalse g.flags x
      size := g.size + 1 }, x, 2, ?_, fun v => ?_⟩
    · simp [khPut, hgrow, hbucket, hempty, hdel]
    · obtain ⟨hvalid, hupdate⟩ := hinsert g.nOccupied (by rw [hempty]; rfl) v
      exact ⟨hvalid, hfind ▸ hupdate, congrArg (· + 1) hsize, hle⟩

omit [DecidableEq κ] in
lemma Khash.Valid.congr {h' : Khash κ ν} (hv : h.Valid hash) (hagree : Table.Agree h.table h'.table)
    (hsize : h'.size = h.size) (hocc : h'.nOccupied = h.nOccupied)
    (hupper : h'.upperBound = h.upperBound) : h'.Valid hash := by
  have hbuckets : h'.nBuckets = h.nBuckets := hagree.buckets
  refine ⟨?_, ?_, ?_, ?_, ?_, hagree.searchable hv.search, ?_⟩
  · rw [hbuckets]
    exact hv.buckets
  · rw [hsize, hagree.entries, hv.size]
  · rw [hocc, hagree.load, hv.occupied]
  · rw [hupper, hbuckets, hv.upper]
  · rw [hocc, hupper]
    exact hv.room
  · rw [hagree.entries]
    exact hv.keys

lemma khInit_spec (hash : κ → ℕ) (keys : ℕ → κ) (vals : ℕ → ν) :
    (khInit keys vals).Valid hash ∧ (khInit keys vals).table.find = fun _ => none := by
  have hupper : hashUpper 0 = 0 := by decide
  have hnot : ∀ {P : Prop} {i}, i < (khInit keys vals).table.buckets → P :=
    fun hi => absurd hi (Nat.not_lt_zero _)
  have hkeys : ((khInit keys vals).table.entries.map Prod.fst).Nodup := Multiset.nodup_zero
  refine ⟨⟨.inl rfl, rfl, rfl, hupper.symm, le_rfl, ⟨fun i => hnot, fun i => hnot⟩, hkeys⟩, ?_⟩
  funext k
  rw [Table.find_eq_none hkeys]
  exact fun v => Multiset.notMem_zero _

lemma khClear_spec (hv : h.Valid hash) :
    (khClear h).Valid hash ∧ (khClear h).size = 0 ∧ (khClear h).nBuckets = h.nBuckets ∧
      (khClear h).table.find = fun _ => none := by
  have hn : (khClear h).nBuckets = h.nBuckets := by
    unfold khClear
    split <;> rfl
  have hvalid : (khClear h).Valid hash ∧ (khClear h).table.entries = 0 := by
    by_cases hzero : h.nBuckets = 0
    · rw [khClear, if_neg (not_not.mpr hzero)]
      exact ⟨hv, Table.entries_eq_zero fun i hi => absurd (hzero ▸ hi) i.not_lt_zero⟩
    rw [khClear, if_pos hzero]
    have hlive (i : ℕ) : (!acIsEither allEmpty i) = false := by
      simp [acIsEither_eq, acIsEmpty_allEmpty]
    have hentries := Table.entries_eq_zero (t := Khash.table
      { h with flags := allEmpty, size := 0, nOccupied := 0 }) fun i _ => hlive i
    refine ⟨⟨hv.buckets, ?_, ?_, hv.upper, Nat.zero_le _,
      Table.searchable_of_not_live fun i _ => hlive i, ?_⟩, hentries⟩
    · rw [hentries]
      rfl
    · simp [Table.load, Khash.table, acIsEmpty_allEmpty]
    · rw [hentries]
      exact Multiset.nodup_zero
  refine ⟨hvalid.1, by rw [hvalid.1.size, hvalid.2]; rfl, hn, ?_⟩
  funext k
  rw [Table.find_eq_none hvalid.1.keys, hvalid.2]
  exact fun v => Multiset.notMem_zero _

end Put

end Nyx
