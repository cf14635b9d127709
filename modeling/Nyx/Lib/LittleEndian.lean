import Mathlib.Data.Nat.Digits.Defs

/-!
# Little endian words

`toLeBytes w n` is `n` as `w` bytes, least significant first. `leWords` lays out words of one width;
`wordAt` and `overwrite` read and write at a position.
-/

namespace Nyx

def toLeBytes (w n : ℕ) : List UInt8 := (List.range w).map fun i => UInt8.ofNat (n / 256 ^ i)

def fromLeBytes (bs : List UInt8) : ℕ := Nat.ofDigits 256 (bs.map UInt8.toNat)

@[simp] lemma length_toLeBytes (w n : ℕ) : (toLeBytes w n).length = w := by simp [toLeBytes]

lemma toLeBytes_succ (w n : ℕ) : toLeBytes (w + 1) n = UInt8.ofNat n :: toLeBytes w (n / 256) := by
  simp only [toLeBytes, List.range_succ_eq_map, List.map_cons, List.map_map, pow_zero, Nat.div_one]
  congr 2
  funext i
  simp only [Function.comp_apply, Nat.succ_eq_add_one, pow_succ']
  rw [Nat.div_div_eq_div_mul]

lemma toLeBytes_mod (w n : ℕ) : toLeBytes w (n % 256 ^ w) = toLeBytes w n := by
  induction w generalizing n with
  | zero => rfl
  | succ w ih =>
    have hlow : UInt8.ofNat (n % 256 ^ (w + 1)) = UInt8.ofNat n := by
      apply UInt8.toNat_inj.mp
      rw [UInt8.toNat_ofNat', UInt8.toNat_ofNat', pow_succ']
      exact Nat.mod_mul_right_mod n 256 (256 ^ w)
    have hhigh : n % 256 ^ (w + 1) / 256 = n / 256 % 256 ^ w := by
      rw [pow_succ', Nat.mod_mul_right_div_self]
    rw [toLeBytes_succ, toLeBytes_succ, hlow, hhigh, ih]

lemma fromLeBytes_cons (b : UInt8) (bs : List UInt8) :
    fromLeBytes (b :: bs) = b.toNat + 256 * fromLeBytes bs := by
  simp [fromLeBytes, Nat.ofDigits_cons]

lemma fromLeBytes_append (bs bs' : List UInt8) :
    fromLeBytes (bs ++ bs') = fromLeBytes bs + 256 ^ bs.length * fromLeBytes bs' := by
  simp [fromLeBytes, Nat.ofDigits_append]

lemma fromLeBytes_toLeBytes (w n : ℕ) : fromLeBytes (toLeBytes w n) = n % 256 ^ w := by
  induction w generalizing n with
  | zero => simp [toLeBytes, fromLeBytes, Nat.mod_one]
  | succ w ih =>
    have hbyte : (UInt8.ofNat n).toNat = n % 256 := UInt8.toNat_ofNat'
    rw [toLeBytes_succ, fromLeBytes_cons, ih, hbyte, pow_succ', Nat.mod_mul]

lemma fromLeBytes_toLeBytes_of_lt {w n : ℕ} (h : n < 256 ^ w) :
    fromLeBytes (toLeBytes w n) = n := by
  rw [fromLeBytes_toLeBytes, Nat.mod_eq_of_lt h]

lemma fromLeBytes_lt (bs : List UInt8) : fromLeBytes bs < 256 ^ bs.length := by
  induction bs with
  | nil => simp [fromLeBytes]
  | cons b bs ih =>
    have hb := b.toNat_lt
    rw [fromLeBytes_cons, List.length_cons, pow_succ']
    omega

lemma toLeBytes_fromLeBytes (bs : List UInt8) : toLeBytes bs.length (fromLeBytes bs) = bs := by
  induction bs with
  | nil => rfl
  | cons b bs ih =>
    have hlow : UInt8.ofNat (b.toNat + 256 * fromLeBytes bs) = b := by
      apply UInt8.toNat_inj.mp
      rw [UInt8.toNat_ofNat']
      have hb := b.toNat_lt
      omega
    have hhigh : (b.toNat + 256 * fromLeBytes bs) / 256 = fromLeBytes bs := by
      have hb := b.toNat_lt
      omega
    rw [List.length_cons, toLeBytes_succ, fromLeBytes_cons, hlow, hhigh, ih]

lemma map_toNat_map_ofNat {ns : List ℕ} (h : ∀ n ∈ ns, n < 2 ^ 16) :
    (ns.map UInt16.ofNat).map UInt16.toNat = ns := by
  rw [List.map_map]
  conv_rhs => rw [← List.map_id ns]
  apply List.map_congr_left
  intro n hn
  exact UInt16.toNat_ofNat_of_lt' (h n hn)

def leWords (w : ℕ) (ns : List ℕ) : List UInt8 := ns.flatMap (toLeBytes w)

@[simp] lemma leWords_nil (w : ℕ) : leWords w [] = [] := rfl

@[simp] lemma leWords_cons (w n : ℕ) (ns : List ℕ) :
    leWords w (n :: ns) = toLeBytes w n ++ leWords w ns := rfl

@[simp] lemma length_leWords (w : ℕ) (ns : List ℕ) : (leWords w ns).length = w * ns.length := by
  induction ns with
  | nil => rfl
  | cons n ns ih =>
    rw [leWords_cons, List.length_append, ih, length_toLeBytes, List.length_cons]
    ring

lemma exists_leWords {w k : ℕ} {bs : List UInt8} (h : bs.length = w * k) :
    ∃ ns, ns.length = k ∧ (∀ n ∈ ns, n < 256 ^ w) ∧ bs = leWords w ns := by
  induction k generalizing bs with
  | zero =>
    obtain rfl : bs = [] := List.length_eq_zero_iff.mp h
    exact ⟨[], rfl, by simp, rfl⟩
  | succ k ih =>
    rw [Nat.mul_succ] at h
    have hhead : (bs.take w).length = w := by
      rw [List.length_take]
      omega
    have htail : (bs.drop w).length = w * k := by
      rw [List.length_drop]
      omega
    obtain ⟨ns, hlen, hlt, hns⟩ := ih htail
    refine ⟨fromLeBytes (bs.take w) :: ns, by rw [List.length_cons, hlen], ?_, ?_⟩
    · intro n hn
      rcases List.mem_cons.mp hn with rfl | hn
      · have := fromLeBytes_lt (bs.take w)
        rwa [hhead] at this
      · exact hlt n hn
    · have hword := toLeBytes_fromLeBytes (bs.take w)
      rw [hhead] at hword
      rw [leWords_cons, hword, ← hns, List.take_append_drop]

def overwrite (l : List UInt8) (dst : ℕ) (bs : List UInt8) : List UInt8 :=
  l.take dst ++ bs ++ l.drop (dst + bs.length)

lemma length_overwrite {l bs : List UInt8} {dst : ℕ} (h : dst + bs.length ≤ l.length) :
    (overwrite l dst bs).length = l.length := by
  simp only [overwrite, List.length_append, List.length_take, List.length_drop]
  omega

def wordAt (w : ℕ) (l : List UInt8) (pos : ℕ) : ℕ := fromLeBytes ((l.drop pos).take w)

lemma overwrite_append_right {a : List UInt8} (b : List UInt8) {p q : ℕ} (hp : p = a.length + q)
    (bs : List UInt8) : overwrite (a ++ b) p bs = a ++ overwrite b q bs := by
  simp only [hp, overwrite, Nat.add_assoc, List.take_length_add_append, List.drop_length_add_append,
    List.append_assoc]

lemma overwrite_append {l bs : List UInt8} {dst : ℕ} (h : dst + bs.length ≤ l.length)
    (cs : List UInt8) :
    overwrite l dst (bs ++ cs) = overwrite (overwrite l dst bs) (dst + bs.length) cs := by
  have hlen : dst + bs.length = (l.take dst ++ bs).length + 0 := by
    rw [List.length_append, List.length_take_of_le (by omega), Nat.add_zero]
  rw [overwrite.eq_1 l dst bs, overwrite_append_right _ hlen]
  simp [overwrite, Nat.add_assoc]

lemma overwrite_leWords {w k : ℕ} {ns : List ℕ} (hk : k < ns.length) (v : ℕ) (r : List UInt8) :
    overwrite (leWords w ns ++ r) (w * k) (toLeBytes w v) = leWords w (ns.set k v) ++ r := by
  induction ns generalizing k with
  | nil => simp at hk
  | cons n ns ih =>
    cases k with
    | zero => simp [overwrite]
    | succ k =>
      have hpos : w * (k + 1) = (toLeBytes w n).length + w * k := by
        rw [length_toLeBytes]
        ring
      rw [leWords_cons, List.append_assoc, overwrite_append_right _ hpos,
        ih (Nat.lt_of_succ_lt_succ hk)]
      simp

lemma wordAt_append_right (w : ℕ) {a : List UInt8} (b : List UInt8) {p q : ℕ}
    (hp : p = a.length + q) : wordAt w (a ++ b) p = wordAt w b q := by
  rw [wordAt, wordAt, hp, List.drop_length_add_append]

lemma wordAt_leWords {w k n : ℕ} {ns : List ℕ} (hk : ns[k]? = some n) (hn : n < 256 ^ w)
    (r : List UInt8) : wordAt w (leWords w ns ++ r) (w * k) = n := by
  induction ns generalizing k with
  | nil => simp at hk
  | cons m ns ih =>
    rw [leWords_cons, List.append_assoc]
    cases k with
    | zero =>
      obtain rfl : m = n := by simpa using hk
      rw [wordAt, Nat.mul_zero, List.drop_zero, List.take_left' (length_toLeBytes w m),
        fromLeBytes_toLeBytes_of_lt hn]
    | succ k =>
      have hpos : w * (k + 1) = (toLeBytes w m).length + w * k := by
        rw [length_toLeBytes]
        ring
      rw [wordAt_append_right w _ hpos]
      exact ih hk

end Nyx
