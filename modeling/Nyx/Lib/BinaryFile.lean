import Nyx.Lib.Exec
import Nyx.Lib.LittleEndian

/-!
# Files written and read in order

`Writes m bs`: a computation puts `bs` at the end of any file. `Reads m bs a`: it takes `bs` from
any cursor in front of them and returns `a`. Both compose along `bind`.
-/

namespace Nyx

/-- The content of a file. Offsets are signed 64 bit numbers, which bounds the size. -/
structure File where
  bytes : List UInt8
  size_lt : bytes.length < 2 ^ 63

namespace File

variable {ε α : Type}

def empty : File := ⟨[], by decide⟩

/-- Add bytes at the end of the file. Fails with `e` where the file cannot hold them. -/
def write (e : ε) (bs : List UInt8) : Exec ε File Unit := fun f =>
  if h : (f.bytes ++ bs).length < 2 ^ 63 then (.ok (), ⟨f.bytes ++ bs, h⟩) else (.error e, f)

/-- The program appends `bs`, or fails with `e` on a file that would be too long. -/
structure Writes (e : ε) (m : Exec ε File Unit) (bs : List UInt8) : Prop where
  fits : ∀ (f : File) (h : (f.bytes ++ bs).length < 2 ^ 63), m.run f = (.ok (), ⟨f.bytes ++ bs, h⟩)
  full : ∀ f : File, 2 ^ 63 ≤ (f.bytes ++ bs).length → (m.run f).1 = .error e

variable {e : ε} {m k : Exec ε File Unit} {bs cs : List UInt8}

lemma writes_write (e : ε) (bs : List UInt8) : Writes e (write e bs) bs where
  fits f h := dif_pos h
  full f h := by
    have hfull : (write e bs).run f = (.error e, f) := dif_neg (Nat.not_lt.mpr h)
    rw [hfull]

lemma writes_pure (e : ε) : Writes e (pure () : Exec ε File Unit) [] where
  fits f h := by simp only [Exec.run_pure, List.append_nil]
  full f h := by
    have := f.size_lt
    rw [List.append_nil] at h
    omega

lemma Writes.bind (hm : Writes e m bs) (hk : Writes e k cs) :
    Writes e (m >>= fun _ => k) (bs ++ cs) where
  fits f h := by
    have hlen : (f.bytes ++ bs).length < 2 ^ 63 := by
      simp only [List.length_append] at h ⊢
      omega
    rw [Exec.run_bind_ok (hm.fits f hlen), hk.fits _ (by rw [List.append_assoc]; exact h)]
    simp only [List.append_assoc]
  full f h := by
    by_cases hlen : (f.bytes ++ bs).length < 2 ^ 63
    · rw [Exec.run_bind_ok (hm.fits f hlen)]
      apply hk.full
      rw [List.append_assoc]
      exact h
    · have hstop := hm.full f (Nat.not_lt.mp hlen)
      rw [Exec.run_bind_error (Prod.ext hstop rfl)]

lemma writes_forEach (e : ε) (g : α → List UInt8) (as : List α) :
    Writes e (Exec.forEach as fun a => write e (g a)) (as.flatMap g) := by
  induction as with
  | nil => exact writes_pure e
  | cons a as ih => exact (writes_write e (g a)).bind ih

/-- The file that a computation makes of an empty one. -/
def create (m : Exec ε File Unit) : Except ε File :=
  match m.run empty with
  | (.ok (), f) => .ok f
  | (.error e, _) => .error e

variable (hm : Writes e m bs)
include hm

lemma Writes.create_eq (h : bs.length < 2 ^ 63) : create m = .ok ⟨bs, h⟩ := by
  have hrun : m.run empty = (.ok (), ⟨bs, h⟩) := hm.fits empty h
  rw [create, hrun]

lemma Writes.create_full (h : 2 ^ 63 ≤ bs.length) : create m = .error e := by
  have hrun : m.run empty = (.error e, (m.run empty).2) := Prod.ext (hm.full empty h) rfl
  rw [create, hrun]

lemma Writes.bytes_create {f : File} (h : create m = .ok f) : f.bytes = bs := by
  by_cases hlen : bs.length < 2 ^ 63
  · rw [hm.create_eq hlen] at h
    cases h
    rfl
  · rw [hm.create_full (Nat.not_lt.mp hlen)] at h
    cases h

end File

/-- A file and the position of the next read. -/
structure Cursor where
  file : File
  pos : ℕ

namespace Cursor

variable {ε α β : Type}

def start (f : File) : Cursor := ⟨f, 0⟩

def rest (c : Cursor) : List UInt8 := c.file.bytes.drop c.pos

def skip (n : ℕ) (c : Cursor) : Cursor := { c with pos := c.pos + n }

/-- Take up to `n` bytes: fewer only where the file ends. -/
def read (n : ℕ) : Exec ε Cursor (List UInt8) := fun c =>
  (.ok (c.rest.take n), c.skip (c.rest.take n).length)

def seek (e : ε) (p : ℕ) : Exec ε Cursor Unit := fun c =>
  if p < 2 ^ 63 then (.ok (), { c with pos := p }) else (.error e, c)

def times (m : Exec ε Cursor α) : ℕ → Exec ε Cursor (List α)
  | 0 => pure []
  | n + 1 => do
    let a ← m
    let as ← times m n
    pure (a :: as)

def Reads (m : Exec ε Cursor α) (bs : List UInt8) (a : α) : Prop :=
  ∀ (c : Cursor) (r : List UInt8), c.rest = bs ++ r → m.run c = (.ok a, c.skip bs.length)

lemma rest_skip {c : Cursor} {bs r : List UInt8} (h : c.rest = bs ++ r) :
    (c.skip bs.length).rest = r := by
  have hdrop : (c.skip bs.length).rest = c.rest.drop bs.length := by
    rw [rest, rest, List.drop_drop]
    rfl
  rw [hdrop, h, List.drop_left]

lemma rest_at {f : File} {bs r : List UInt8} {p : ℕ} (h : f.bytes = bs ++ r)
    (hp : bs.length = p) : (⟨f, p⟩ : Cursor).rest = r := by
  show f.bytes.drop p = r
  rw [h, ← hp, List.drop_left]

lemma reads_read {n : ℕ} {bs : List UInt8} (h : bs.length = n) :
    Reads (read n : Exec ε Cursor (List UInt8)) bs bs := by
  intro c r hr
  have htake : c.rest.take n = bs := by rw [hr, ← h, List.take_left]
  show (Except.ok (c.rest.take n), c.skip (c.rest.take n).length) = _
  rw [htake]

lemma reads_pure (a : α) : Reads (pure a : Exec ε Cursor α) [] a := fun _ _ _ => rfl

lemma Reads.bind {m : Exec ε Cursor α} {k : α → Exec ε Cursor β} {bs cs : List UInt8} {a : α}
    {b : β} (hm : Reads m bs a) (hk : Reads (k a) cs b) : Reads (m >>= k) (bs ++ cs) b := by
  intro c r hr
  rw [List.append_assoc] at hr
  rw [Exec.run_bind_ok (hm c (cs ++ r) hr), hk (c.skip bs.length) r (rest_skip hr)]
  simp only [skip, List.length_append, Nat.add_assoc]

lemma Reads.map {m : Exec ε Cursor α} {k : α → Exec ε Cursor β} {bs : List UInt8} {a : α} {b : β}
    (hm : Reads m bs a) (hk : Reads (k a) [] b) : Reads (m >>= k) bs b := by
  have hbind := hm.bind hk
  rwa [List.append_nil] at hbind

lemma reads_times {m : Exec ε Cursor α} {enc : α → List UInt8} {as : List α}
    (h : ∀ a ∈ as, Reads m (enc a) a) : Reads (times m as.length) (as.flatMap enc) as := by
  induction as with
  | nil => exact reads_pure []
  | cons a as ih =>
    have htail := ih fun b hb => h b (List.mem_cons_of_mem a hb)
    exact (h a List.mem_cons_self).bind (htail.map (reads_pure (a :: as)))

lemma run_seek {e : ε} {p : ℕ} (c : Cursor) (h : p < 2 ^ 63) :
    (seek e p).run c = (.ok (), ⟨c.file, p⟩) := if_pos h

end Cursor

end Nyx
