import Nyx.Graph.Random
import Nyx.Lib.LittleEndian

/-!
# Data buffers

A `DataBuff` is a view of a byte slice of fixed length, of which the first `used` bytes are in use.
-/

namespace Nyx

/-- A half-open range of positions. -/
structure Range where
  start : ℕ
  stop : ℕ
  deriving DecidableEq, Repr

def Range.len (r : Range) : ℕ := r.stop - r.start

/-- A slice of which the first `used` bytes are filled. -/
structure DataBuff where
  data : List UInt8
  used : ℕ

namespace DataBuff

abbrev BuffM := Exec Panic DataBuff

def len (b : DataBuff) : ℕ := b.used

def asSlice (b : DataBuff) : List UInt8 := b.data.take b.used

/-- An assertion of the source. -/
def check (c : DataBuff → Bool) : BuffM Unit := fun b =>
  if c b then (.ok (), b) else (.error .assertFailed, b)

def setByte (i : ℕ) (val : UInt8) : BuffM Unit := fun b =>
  if i < b.data.length then (.ok (), { b with data := b.data.set i val })
  else (.error .indexOutOfBounds, b)

def getByte (i : ℕ) : BuffM UInt8 := fun b =>
  match b.data[i]? with
  | some x => (.ok x, b)
  | none => (.error .indexOutOfBounds, b)

def getSlice (r : Range) : BuffM (List UInt8) := fun b =>
  if r.start ≤ r.stop ∧ r.stop ≤ b.data.length then (.ok ((b.data.drop r.start).take r.len), b)
  else (.error .indexOutOfBounds, b)

def putSlice (dst : ℕ) (bs : List UInt8) : BuffM Unit := fun b =>
  if dst + bs.length ≤ b.data.length then (.ok (), { b with data := overwrite b.data dst bs })
  else (.error .indexOutOfBounds, b)

def memset (r : Range) (val : UInt8) : BuffM Unit :=
  Exec.forEach (List.range' r.start r.len) fun i => setByte i val

/-- Zeros are put behind the used bytes. -/
def expandTo (size : ℕ) : BuffM Unit := do
  check fun b => size ≤ b.data.length
  let used ← Exec.gets DataBuff.used
  if used < size then do
    memset ⟨used, size⟩ 0
    Exec.modify fun b => { b with used := size }
  else pure ()

def copyWithin (src : Range) (dst : ℕ) : BuffM Unit := do
  expandTo (dst + src.len)
  let bs ← getSlice src
  putSlice dst bs

def copyFrom (bs : List UInt8) (dst : ℕ) : BuffM Unit := do
  expandTo (dst + bs.length)
  putSlice dst bs

def writeU8 (offset : ℕ) (val : UInt8) : BuffM Unit := do
  check fun b => offset < b.used
  setByte offset val

def readU8 (offset : ℕ) : BuffM UInt8 := do
  check fun b => offset < b.used
  getByte offset

/-- The read functions, by width. -/
def readUInt (w offset : ℕ) (flipEndianess : Bool) : BuffM ℕ := do
  check fun b => offset + w ≤ b.used
  let v ← getSlice ⟨offset, offset + w⟩
  pure (fromLeBytes (if flipEndianess then v.reverse else v))

def writeUInt (w offset : ℕ) (flipEndianess : Bool) (val : ℕ) : BuffM Unit := do
  check fun b => offset + w ≤ b.used
  putSlice offset (if flipEndianess then (toLeBytes w val).reverse else toLeBytes w val)

def writeU16 := writeUInt 2
def writeU32 := writeUInt 4
def writeU64 := writeUInt 8

section Runs

variable {b : DataBuff} {dst : ℕ} {bs : List UInt8} {src : Range}

lemma run_check {c : DataBuff → Bool} (h : c b) : (check c).run b = (.ok (), b) := by
  simp [Exec.run, check, h]

lemma run_getSlice (h : src.start ≤ src.stop) (hstop : src.stop ≤ b.data.length) :
    (getSlice src).run b = (.ok ((b.data.drop src.start).take src.len), b) :=
  if_pos ⟨h, hstop⟩

lemma run_putSlice (h : dst + bs.length ≤ b.data.length) :
    (putSlice dst bs).run b = (.ok (), ⟨overwrite b.data dst bs, b.used⟩) :=
  if_pos h

lemma run_setByte (h : dst < b.data.length) (val : UInt8) :
    (setByte dst val).run b = (.ok (), ⟨overwrite b.data dst [val], b.used⟩) := by
  rw [Exec.run, setByte, if_pos h, List.set_eq_take_append_cons_drop, if_pos h]
  simp [overwrite]

lemma run_setBytes {n : ℕ} (h : dst + n ≤ b.data.length) (val : UInt8) :
    (Exec.forEach (List.range' dst n) fun i => setByte i val).run b =
      (.ok (), ⟨overwrite b.data dst (List.replicate n val), b.used⟩) := by
  induction n generalizing b dst with
  | zero => simp [Exec.forEach, overwrite]
  | succ n ih =>
    have hlt : dst + [val].length ≤ b.data.length := by
      rw [List.length_singleton]
      omega
    have hrest : dst + 1 + n ≤ (overwrite b.data dst [val]).length := by
      rw [length_overwrite hlt]
      omega
    have hsplit : List.replicate (n + 1) val = [val] ++ List.replicate n val := rfl
    rw [List.range'_succ, Exec.forEach, Exec.run_bind', run_setByte hlt, hsplit, overwrite_append hlt]
    exact ih hrest

lemma run_memset (h : src.start + src.len ≤ b.data.length) (val : UInt8) :
    (memset src val).run b =
      (.ok (), ⟨overwrite b.data src.start (List.replicate src.len val), b.used⟩) :=
  run_setBytes h val

lemma run_expandTo_of_le {size : ℕ} (h : size ≤ b.used) (hcap : b.used ≤ b.data.length) :
    (expandTo size).run b = (.ok (), b) := by
  rw [expandTo, Exec.run_bind_ok (run_check (by simp; omega)), Exec.run_gets_bind,
    if_neg (Nat.not_lt.mpr h)]
  rfl

lemma run_copyFrom (h : dst + bs.length ≤ b.used) (hcap : b.used ≤ b.data.length) :
    (copyFrom bs dst).run b = (.ok (), ⟨overwrite b.data dst bs, b.used⟩) := by
  rw [copyFrom, Exec.run_bind_ok (run_expandTo_of_le h hcap), run_putSlice (h.trans hcap)]

lemma run_copyWithin {c : DataBuff} (hexpand : (expandTo (dst + src.len)).run b = (.ok (), c))
    (h : src.start ≤ src.stop) (hstop : src.stop ≤ c.data.length)
    (hdst : dst + src.len ≤ c.data.length) :
    (copyWithin src dst).run b =
      (.ok (), ⟨overwrite c.data dst ((c.data.drop src.start).take src.len), c.used⟩) := by
  have hlen : ((c.data.drop src.start).take src.len).length = src.len := by
    rw [List.length_take, List.length_drop, Range.len]
    omega
  rw [copyWithin, Exec.run_bind_ok hexpand, Exec.run_bind_ok (run_getSlice h hstop),
    run_putSlice (by omega)]

lemma run_writeU8 (h : dst < b.used) (hcap : b.used ≤ b.data.length) (val : UInt8) :
    (writeU8 dst val).run b = (.ok (), ⟨overwrite b.data dst [val], b.used⟩) := by
  rw [writeU8, Exec.run_bind_ok (run_check (by simpa using h)), run_setByte (by omega)]

lemma run_readU8 (h : dst < b.used) (hcap : b.used ≤ b.data.length) :
    ∃ x, (readU8 dst).run b = (.ok x, b) := by
  have hlt : dst < b.data.length := by omega
  refine ⟨b.data[dst], ?_⟩
  rw [readU8, Exec.run_bind_ok (run_check (by simpa using h)), Exec.run, getByte,
    List.getElem?_eq_getElem hlt]

lemma run_writeUInt {w : ℕ} (h : dst + w ≤ b.used) (hcap : b.used ≤ b.data.length) (flip : Bool)
    (val : ℕ) :
    ∃ bs, bs.length = w ∧
      (writeUInt w dst flip val).run b = (.ok (), ⟨overwrite b.data dst bs, b.used⟩) := by
  have hlen : (if flip then (toLeBytes w val).reverse else toLeBytes w val).length = w := by
    split <;> simp
  refine ⟨_, hlen, ?_⟩
  rw [writeUInt, Exec.run_bind_ok (run_check (by simpa using h)), run_putSlice (by omega)]

lemma run_readUInt {w : ℕ} (h : dst + w ≤ b.used) (hcap : b.used ≤ b.data.length) (flip : Bool) :
    ∃ x, (readUInt w dst flip).run b = (.ok x, b) := by
  constructor
  rw [readUInt, Exec.run_bind_ok (run_check (by simpa using h)),
    Exec.run_bind_ok (run_getSlice (Nat.le_add_right _ _) (h.trans hcap))]
  rfl

end Runs

end DataBuff

end Nyx
