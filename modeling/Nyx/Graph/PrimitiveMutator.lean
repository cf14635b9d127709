import Nyx.Graph.DataBuff

/-!
# The primitive mutator

In-place mutations of a data buffer and the dictionary mutation. `mutate` is what the graph builder
calls on the bytes of a node.
-/

namespace Nyx

open Nyx.Distributions (genRange genBool genRangeInt Takes takes_next takes_genRange takes_chooseFromIter
  takes_genBlockSize)

inductive InplaceMutationType where
  | flipBitT | addU8T | addU16T | addU32T | addU64T
  | interestingU8T | interestingU16T | interestingU32T | interestingU64T
  | overwriteRandomByteT | overwriteChunkT | overwriteRandomT | overwriteFixedT
  deriving DecidableEq, Repr

namespace InplaceMutationType

def minSize : InplaceMutationType → ℕ
  | addU8T | interestingU8T | flipBitT | overwriteRandomByteT | overwriteRandomT
  | overwriteFixedT => 1
  | addU16T | interestingU16T | overwriteChunkT => 2
  | addU32T | interestingU32T => 4
  | addU64T | interestingU64T => 8

def options : List InplaceMutationType :=
  [flipBitT, addU8T, addU16T, addU32T, addU64T, interestingU8T, interestingU16T,
    interestingU32T, interestingU64T, overwriteRandomByteT, overwriteChunkT, overwriteRandomT,
    overwriteFixedT]

end InplaceMutationType

inductive InplaceMutation where
  | flipBit (offset bit : ℕ)
  | addU8 (offset : ℕ) (val : UInt8)
  | addU16 (offset val : ℕ) (flipEndian : Bool)
  | addU32 (offset val : ℕ) (flipEndian : Bool)
  | addU64 (offset val : ℕ) (flipEndian : Bool)
  | interestingU8 (offset : ℕ) (val : UInt8)
  | interestingU16 (offset val : ℕ) (flipEndian : Bool)
  | interestingU32 (offset val : ℕ) (flipEndian : Bool)
  | interestingU64 (offset val : ℕ) (flipEndian : Bool)
  | overwriteRandomByte (offset : ℕ) (val : UInt8)
  | overwriteChunk (src : Range) (dst : ℕ)
  | overwriteRandom (data : List UInt8) (dst : ℕ)
  | overwriteFixed (block : Range) (val : UInt8)

open DataBuff in
def addUInt (w offset val : ℕ) (flip : Bool) : BuffM Unit := do
  let old ← readUInt w offset flip
  writeUInt w offset flip ((old + val) % 256 ^ w)

open DataBuff in
def InplaceMutation.apply : InplaceMutation → BuffM Unit
  | flipBit offset bit => do
    let old ← readU8 offset
    writeU8 offset (old ^^^ UInt8.ofNat (2 ^ (bit % 8)))
  | addU8 offset val => do
    let old ← readU8 offset
    writeU8 offset (old + val)
  | addU16 offset val flip => addUInt 2 offset val flip
  | addU32 offset val flip => addUInt 4 offset val flip
  | addU64 offset val flip => addUInt 8 offset val flip
  | interestingU8 offset val => writeU8 offset val
  | interestingU16 offset val flip => writeU16 offset flip val
  | interestingU32 offset val flip => writeU32 offset flip val
  | interestingU64 offset val flip => writeU64 offset flip val
  | overwriteRandomByte offset val => writeU8 offset val
  | overwriteRandom data dst => copyFrom data dst
  | overwriteFixed block val => memset block val
  | overwriteChunk src dst => copyWithin src dst

namespace InplaceMutation

open DataBuff

def range : InplaceMutation → Range
  | flipBit offset _ | addU8 offset _ | interestingU8 offset _ | overwriteRandomByte offset _ =>
    ⟨offset, offset + 1⟩
  | addU16 offset _ _ | interestingU16 offset _ _ => ⟨offset, offset + 2⟩
  | addU32 offset _ _ | interestingU32 offset _ _ => ⟨offset, offset + 4⟩
  | addU64 offset _ _ | interestingU64 offset _ _ => ⟨offset, offset + 8⟩
  | overwriteChunk src dst => ⟨dst, dst + src.len⟩
  | overwriteRandom data dst => ⟨dst, dst + data.length⟩
  | overwriteFixed block _ => block

def Within (n : ℕ) : InplaceMutation → Prop
  | overwriteChunk src dst => src.start < src.stop ∧ src.stop ≤ n ∧ dst + src.len ≤ n
  | overwriteFixed block _ => block.start < block.stop ∧ block.stop ≤ n
  | m => m.range.stop ≤ n

lemma range_ordered {n : ℕ} {m : InplaceMutation} (h : m.Within n) :
    m.range.start ≤ m.range.stop := by
  cases m with
  | overwriteFixed => exact h.1.le
  | _ => exact Nat.le_add_right _ _

/-- The bytes of the range are replaced, and nothing else changes. -/
def Overwrites (b : DataBuff) (r : Range) (m : BuffM Unit) : Prop :=
  ∃ bs, bs.length = r.len ∧ m.run b = (.ok (), ⟨overwrite b.data r.start bs, b.used⟩)

variable {b : DataBuff}

lemma overwrites_apply (hcap : b.used ≤ b.data.length) {m : InplaceMutation}
    (h : m.Within b.used) : m.range.stop ≤ b.used ∧ Overwrites b m.range m.apply := by
  have hbyte : ∀ {offset : ℕ} (val : UInt8), offset + 1 ≤ b.used →
      Overwrites b ⟨offset, offset + 1⟩ (writeU8 offset val) := fun val hle =>
    ⟨[val], by simp [Range.len], run_writeU8 hle hcap val⟩
  have hchange : ∀ {offset : ℕ} (f : UInt8 → UInt8), offset + 1 ≤ b.used →
      Overwrites b ⟨offset, offset + 1⟩
        (readU8 offset >>= fun old => writeU8 offset (f old)) := by
    intro offset f hle
    obtain ⟨old, hread⟩ := run_readU8 hle hcap
    obtain ⟨bs, hbs, hrun⟩ := hbyte (f old) hle
    exact ⟨bs, hbs, (Exec.run_bind_ok hread).trans hrun⟩
  have hword : ∀ {w offset : ℕ} (val : ℕ) (flip : Bool), offset + w ≤ b.used →
      Overwrites b ⟨offset, offset + w⟩ (writeUInt w offset flip val) := by
    intro w offset val flip hle
    obtain ⟨bs, hbs, hrun⟩ := run_writeUInt hle hcap flip val
    exact ⟨bs, by simp [Range.len, hbs], hrun⟩
  have hadd : ∀ {w offset : ℕ} (val : ℕ) (flip : Bool), offset + w ≤ b.used →
      Overwrites b ⟨offset, offset + w⟩ (addUInt w offset val flip) := by
    intro w offset val flip hle
    obtain ⟨old, hread⟩ := run_readUInt hle hcap flip
    obtain ⟨bs, hbs, hrun⟩ := hword ((old + val) % 256 ^ w) flip hle
    exact ⟨bs, hbs, (Exec.run_bind_ok hread).trans hrun⟩
  cases m with
  | flipBit offset bit => exact ⟨h, hchange _ h⟩
  | addU8 offset val => exact ⟨h, hchange _ h⟩
  | addU16 offset val flip | addU32 offset val flip | addU64 offset val flip =>
    exact ⟨h, hadd val flip h⟩
  | interestingU8 offset val | overwriteRandomByte offset val => exact ⟨h, hbyte val h⟩
  | interestingU16 offset val flip | interestingU32 offset val flip
  | interestingU64 offset val flip => exact ⟨h, hword val flip h⟩
  | overwriteChunk src dst =>
    obtain ⟨hlt, hstop, hdst⟩ := h
    refine ⟨hdst, _, ?_, run_copyWithin (run_expandTo_of_le hdst hcap) hlt.le
      (hstop.trans hcap) (hdst.trans hcap)⟩
    simp only [range, Range.len, List.length_take, List.length_drop]
    omega
  | overwriteRandom data dst =>
    exact ⟨h, data, by simp [range, Range.len], run_copyFrom h hcap⟩
  | overwriteFixed block val =>
    obtain ⟨hlt, hstop⟩ := h
    refine ⟨hstop, _, List.length_replicate, run_memset ?_ val⟩
    rw [Range.len]
    omega

end InplaceMutation

def interestingU8s : List ℤ := [-128, -1, 0, 1, 16, 32, 64, 100, 127]

def interestingU16s : List ℤ :=
  interestingU8s ++ [-32768, -129, 128, 255, 256, 512, 1000, 1024, 4096, 32767]

def interestingU32s : List ℤ :=
  interestingU16s ++ [-2147483648, -100663046, -32769, 32768, 65535, 65536, 100663045, 2147483647]

def interestingU64s : List ℤ :=
  interestingU32s ++ [-9223372036854775808, 0x7fffffffffffffff, 0x8080808080808080]

def asUnsigned (w : ℕ) (x : ℤ) : ℕ := (x % 256 ^ w).toNat

inductive DictEntry where
  | replace (lhs rhs : List UInt8)

/-- The dictionary that redqueen fills. -/
structure CustomDict where
  groups : List (List DictEntry)
  lhsToGroups : List UInt8 → Option (List (List UInt8))

namespace CustomDict

def new : CustomDict := ⟨[], fun _ => none⟩

def addEntry (m : List UInt8 → Option (List (List UInt8))) :
    DictEntry → List UInt8 → Option (List (List UInt8))
  | .replace lhs rhs => Function.update m lhs (some (((m lhs).getD []) ++ [rhs]))

def newFromGroups (groups : List (List DictEntry)) : CustomDict :=
  ⟨groups, groups.flatten.foldl addEntry fun _ => none⟩

end CustomDict

abbrev MutM := Exec Panic (DataBuff × Distributions)

namespace MutM

def draw {α : Type} (m : Exec Panic Distributions α) : MutM α :=
  Exec.zoom Prod.snd (fun d s => (s.1, d)) m

def buff {α : Type} (m : DataBuff.BuffM α) : MutM α :=
  Exec.zoom Prod.fst (fun b s => (b, s.2)) m

def len : MutM ℕ := Exec.gets fun s => s.1.len

def check (c : Bool) : MutM Unit := if c then pure () else Exec.panic .assertFailed

end MutM

open MutM

namespace CustomDict

def sampleRhs (dict : CustomDict) : MutM (Option (List UInt8)) := do
  let key ← Exec.gets fun s => s.1.asSlice
  match dict.lhsToGroups key with
  | none => pure none
  | some opts => do
    check (0 < opts.length)
    let i ← draw (genRange 0 opts.length)
    let rhs ← Exec.unwrap .indexOutOfBounds opts[i]?
    pure (some rhs)

def sampleEntry (dict : CustomDict) : MutM (Option DictEntry) :=
  if dict.groups.length = 0 then pure none
  else do
    let i ← draw (genRange 0 dict.groups.length)
    let group ← Exec.unwrap .indexOutOfBounds dict.groups[i]?
    let j ← draw (genRange 0 group.length)
    let entry ← Exec.unwrap .indexOutOfBounds group[j]?
    pure (some entry)

def offsets (bytes lhs : List UInt8) : List ℕ :=
  (List.range (bytes.length + 1 - lhs.length)).filter fun i => (bytes.drop i).take lhs.length == lhs

/-- `windows` panics on an empty pattern. -/
def findPos (lhs : List UInt8) : MutM (Option ℕ) := do
  let bytes ← Exec.gets fun s => s.1.asSlice
  check (0 < lhs.length)
  if 0 < (offsets bytes lhs).length then do
    let i ← draw (genRange 0 (offsets bytes lhs).length)
    let pos ← Exec.unwrap .indexOutOfBounds (offsets bytes lhs)[i]?
    pure (some pos)
  else do
    let n ← len
    if lhs.length ≤ n then do
      let pos ← draw (genRange 0 (n - lhs.length + 1))
      pure (some pos)
    else pure none

def mutateEntry (dict : CustomDict) : MutM Bool := do
  let entry ← dict.sampleEntry
  match entry with
  | some (.replace lhs rhs) => do
    let pos ← findPos lhs
    match pos with
    | some p => buff (DataBuff.copyFrom rhs p)
    | none => pure ()
    draw genBool
  | none => pure true

/-- The result says whether the mutation goes on. -/
def mutate (dict : CustomDict) : MutM Bool := do
  let rhs ← dict.sampleRhs
  match rhs with
  | some rhs => do
    let whole ← draw genBool
    if whole then do
      buff (DataBuff.copyFrom rhs 0)
      draw genBool
    else dict.mutateEntry
  | none => dict.mutateEntry

end CustomDict

namespace PrimitiveMutator

def genOffset (size : ℕ) : MutM ℕ := do
  let n ← len
  check (size ≤ n)
  draw (genRange 0 (n - size + 1))

def genArithVal : MutM ℤ := do
  let positive ← draw genBool
  if positive then draw (genRangeInt 1 35)
  else draw (genRangeInt (-35) (-1))

def genPick (data : List ℤ) : MutM ℤ := do
  let i ← draw (genRange 0 data.length)
  Exec.unwrap .indexOutOfBounds data[i]?

def genEndianess : MutM Bool := draw genBool

def genBlockMax (range : Range) (maxLen : ℕ) : MutM Range :=
  if range.start = range.stop then pure range
  else do
    let (min, max) ← draw Distributions.genBlockSize
    let max := if maxLen < max then maxLen else max
    let max := if range.stop - range.start < max then range.stop - range.start else max
    let min := if max ≤ min then 1 else min
    let size ← draw (genRange min (max + 1))
    let start ← draw (genRange 0 (range.stop - size + 1))
    pure ⟨start, start + size⟩

def genBlockRange : MutM Range := do
  let n ← len
  genBlockMax ⟨0, n⟩ n

/-- The loop of `gen_inplace_mutation_type`: the first of `tries` draws that fits the buffer. -/
def tryInplaceMutationType : ℕ → MutM InplaceMutationType
  | 0 => pure .flipBitT
  | tries + 1 => do
    let o ← draw (Distributions.chooseFromIter InplaceMutationType.options)
    let t ← Exec.unwrap .indexOutOfBounds o
    let n ← len
    if t.minSize ≤ n then pure t else tryInplaceMutationType tries

def genInplaceMutationType : MutM InplaceMutationType := do
  let n ← len
  check (0 < n)
  tryInplaceMutationType 4

/-- The rejection loop of `OverwriteChunkT`: draw again while the chunk would stay in place. The
length of the tape bounds the number of rounds. -/
def genChunkDst (src : Range) : ℕ → MutM ℕ
  | 0 => Exec.panic .outOfDraws
  | fuel + 1 => do
    let dst ← genOffset src.len
    let n ← len
    if src.start = dst ∧ src.len ≠ n then genChunkDst src fuel else pure dst

def genBytes : ℕ → MutM (List UInt8)
  | 0 => pure []
  | n + 1 => do
    let x ← draw (Distributions.gen 256)
    let xs ← genBytes n
    pure (UInt8.ofNat x :: xs)

def genInplaceMutation : MutM InplaceMutation := do
  let t ← genInplaceMutationType
  match t with
  | .flipBitT => do
    let offset ← genOffset 1
    let bit ← draw (genRange 0 8)
    pure (.flipBit offset bit)
  | .addU8T => do
    let offset ← genOffset 1
    let val ← genArithVal
    pure (.addU8 offset (UInt8.ofNat (asUnsigned 1 val)))
  | .addU16T => do
    let offset ← genOffset 2
    let val ← genArithVal
    let flip ← genEndianess
    pure (.addU16 offset (asUnsigned 2 val) flip)
  | .addU32T => do
    let offset ← genOffset 4
    let val ← genArithVal
    let flip ← genEndianess
    pure (.addU32 offset (asUnsigned 4 val) flip)
  | .addU64T => do
    let offset ← genOffset 8
    let val ← genArithVal
    let flip ← genEndianess
    pure (.addU64 offset (asUnsigned 8 val) flip)
  | .interestingU8T => do
    let offset ← genOffset 1
    let val ← genPick interestingU8s
    pure (.interestingU8 offset (UInt8.ofNat (asUnsigned 1 val)))
  | .interestingU16T => do
    let offset ← genOffset 2
    let val ← genPick interestingU16s
    let flip ← genEndianess
    pure (.interestingU16 offset (asUnsigned 2 val) flip)
  | .interestingU32T => do
    let offset ← genOffset 4
    let val ← genPick interestingU32s
    let flip ← genEndianess
    pure (.interestingU32 offset (asUnsigned 4 val) flip)
  | .interestingU64T => do
    let offset ← genOffset 8
    let val ← genPick interestingU64s
    let flip ← genEndianess
    pure (.interestingU64 offset (asUnsigned 8 val) flip)
  | .overwriteRandomByteT => do
    let offset ← genOffset 1
    let x ← draw (genRange 1 0xff)
    let old ← buff (DataBuff.readU8 offset)
    pure (.overwriteRandomByte offset (UInt8.ofNat x ^^^ old))
  | .overwriteChunkT => do
    let src ← genBlockRange
    let fuel ← Exec.gets fun s => s.2.draws.length + 1
    let dst ← genChunkDst src fuel
    pure (.overwriteChunk src dst)
  | .overwriteRandomT => do
    let dst ← genBlockRange
    let data ← genBytes dst.len
    pure (.overwriteRandom data dst.start)
  | .overwriteFixedT => do
    let block ← genBlockRange
    let val ← draw (Distributions.gen 256)
    pure (.overwriteFixed block (UInt8.ofNat val))

def genAndApply : MutM Unit := do
  let mutation ← genInplaceMutation
  buff mutation.apply

def mutate (dict : Option CustomDict) : MutM Unit := do
  let n ← len
  if n = 0 then pure ()
  else match dict with
    | none => genAndApply
    | some dict => do
      let useDict ← draw Distributions.shouldMutateDict
      if useDict then do
        let continueMutation ← dict.mutate
        if continueMutation then genAndApply else pure ()
      else genAndApply

def genNumArrayElems (elemSize minElems maxElems maxData : ℕ) : Exec Panic Distributions ℕ :=
  if elemSize = 0 then Exec.panic .divideByZero
  else if minElems < maxData / elemSize then
    genRange minElems (min maxElems (maxData / elemSize))
  else pure (maxData / elemSize)

/-! ### What is generated -/

/-- From the buffer `b` at most `k` draws are taken and a value with `P` is returned. Nothing but the
end of the tape stops it, and the buffer is left as it is. -/
def Picks {α : Type} (b : DataBuff) (k : ℕ) (m : MutM α) (P : α → Prop) : Prop :=
  ∀ d : Distributions,
    (∃ a j, j ≤ k ∧ m.run (b, d) = (.ok a, b, ⟨d.draws.drop j⟩) ∧ P a) ∨
      ∃ d', m.run (b, d) = (.error .outOfDraws, b, d') ∧ d.draws.length < k

namespace Picks

variable {α β : Type} {b : DataBuff} {k l : ℕ} {m : MutM α} {f : α → MutM β} {P P' : α → Prop}
  {Q : β → Prop}

lemma pure {a : α} (h : P a) : Picks b k (Pure.pure a) P :=
  fun _ => .inl ⟨a, 0, Nat.zero_le k, rfl, h⟩

lemma gets {g : DataBuff × Distributions → α} (h : ∀ d, P (g (b, d))) : Picks b 0 (Exec.gets g) P :=
  fun d => .inl ⟨g (b, d), 0, le_rfl, rfl, h d⟩

lemma mono (h : Picks b k m P) (hk : k ≤ l) (hP : ∀ a, P a → P' a) : Picks b l m P' := by
  intro d
  rcases h d with ⟨a, j, hj, hrun, ha⟩ | ⟨d', hrun, hlen⟩
  · exact .inl ⟨a, j, hj.trans hk, hrun, hP a ha⟩
  · exact .inr ⟨d', hrun, hlen.trans_le hk⟩

lemma bind (hm : Picks b k m P) (hf : ∀ a, P a → Picks b l (f a) Q) :
    Picks b (l + k) (m >>= f) Q := by
  intro d
  rcases hm d with ⟨a, j, hj, hrun, ha⟩ | ⟨d', hrun, hlen⟩
  · rw [Exec.run_bind_ok hrun]
    rcases hf a ha ⟨d.draws.drop j⟩ with ⟨c, j', hj', hrun', hc⟩ | ⟨d', hrun', hlen⟩
    · rw [List.drop_drop] at hrun'
      exact .inl ⟨c, j + j', by omega, hrun', hc⟩
    · rw [List.length_drop] at hlen
      exact .inr ⟨d', hrun', by omega⟩
  · exact .inr ⟨d', Exec.run_bind_error hrun, by omega⟩

lemma map {g : α → β} (h : Picks b k m P) (hg : ∀ a, P a → Q (g a)) :
    Picks b k (m >>= fun a => Pure.pure (g a)) Q :=
  (h.bind (l := 0) fun a ha => pure (hg a ha)).mono (Nat.zero_add k).le fun _ hc => hc

lemma check {c : Bool} (h : c) : Picks b 0 (MutM.check c) fun _ => True := by
  rw [MutM.check, if_pos h]
  exact pure trivial

lemma unwrap {o : Option α} {e : Panic} (h : ∃ a, o = some a ∧ P a) :
    Picks b 0 (Exec.unwrap e o) P := by
  obtain ⟨a, rfl, ha⟩ := h
  exact pure ha

lemma draw {m : Exec Panic Distributions α} (h : Takes m P) : Picks b 1 (MutM.draw m) P := by
  rintro ⟨_ | ⟨x, xs⟩⟩
  · refine .inr ⟨⟨[]⟩, ?_, Nat.one_pos⟩
    rw [MutM.draw, Exec.run_zoom, h.stop]
  · obtain ⟨a, hrun, ha⟩ := h.draw x xs
    refine .inl ⟨a, 1, le_rfl, ?_, ha⟩
    rw [MutM.draw, Exec.run_zoom, hrun]
    rfl

lemma read {m : DataBuff.BuffM α} (h : ∃ a, m.run b = (.ok a, b)) :
    Picks b 0 (MutM.buff m) fun _ => True := by
  obtain ⟨a, hrun⟩ := h
  refine fun d => .inl ⟨a, 0, le_rfl, ?_, trivial⟩
  rw [MutM.buff, Exec.run_zoom, hrun]
  rfl

lemma len : Picks b 0 MutM.len (· = b.used) := gets fun _ => rfl

lemma index {l : List α} {e : Panic} (h : 0 < l.length) :
    Picks b 1 (MutM.draw (genRange 0 l.length) >>= fun i => Exec.unwrap e l[i]?) (· ∈ l) :=
  (draw (takes_genRange h)).bind fun _ hi =>
    unwrap ⟨_, List.getElem?_eq_getElem hi.2, List.getElem_mem hi.2⟩

lemma element {as : List α} {e : Panic} (h : 0 < as.length) (hf : ∀ a ∈ as, Picks b l (f a) Q) :
    Picks b (l + 1) (MutM.draw (genRange 0 as.length) >>= fun i => Exec.unwrap e as[i]? >>= f) Q := by
  rw [← Exec.bind_assoc]
  exact (index h).bind hf

end Picks

variable {b : DataBuff}

lemma picks_genOffset {size : ℕ} (h : size ≤ b.used) :
    Picks b 1 (genOffset size) fun x => x + size ≤ b.used := by
  refine Picks.len.bind fun n hn => (Picks.check (by simpa [hn] using h)).bind fun _ _ => ?_
  refine (Picks.draw (takes_genRange (Nat.succ_pos _))).mono le_rfl ?_
  intro x hx
  omega

lemma picks_genArithVal : Picks b 2 genArithVal fun _ => True := by
  refine (Picks.draw (takes_next _)).bind fun positive _ => ?_
  split
  · exact Picks.draw (takes_next _)
  · exact Picks.draw (takes_next _)

lemma picks_genBlockMax {n maxLen : ℕ} (hn : 0 < n) (hmax : 0 < maxLen) :
    Picks b 3 (genBlockMax ⟨0, n⟩ maxLen) fun r => r.start < r.stop ∧ r.stop ≤ n ∧ r.len ≤ maxLen := by
  unfold genBlockMax
  rw [if_neg hn.ne]
  refine (Picks.draw takes_genBlockSize).bind ?_
  rintro ⟨min, max⟩ ⟨hmin, hlt⟩
  dsimp only at hmin hlt ⊢
  -- the bounds of the block size are not empty
  generalize hcap : (if maxLen < max then maxLen else max) = cap
  generalize hhigh : (if n - 0 < cap then n - 0 else cap) = high
  have hpos : 0 < high ∧ high ≤ maxLen ∧ high ≤ n := by
    split at hcap <;> split at hhigh <;> omega
  refine (Picks.draw (takes_genRange ?_)).bind fun size hsize => ?_
  · split <;> omega
  have hle : 0 < size ∧ size ≤ high := by
    revert hsize
    split <;> omega
  refine (Picks.draw (takes_genRange (Nat.succ_pos _))).bind fun start hstart => .pure ?_
  dsimp only [Range.len]
  omega

lemma picks_genBlockRange (h : 0 < b.used) :
    Picks b 3 genBlockRange fun r => r.start < r.stop ∧ r.stop ≤ b.used := by
  refine Picks.len.bind ?_
  rintro _ rfl
  exact (picks_genBlockMax h h).mono le_rfl fun r hr => ⟨hr.1, hr.2.1⟩

lemma picks_tryInplaceMutationType (h : 0 < b.used) (tries : ℕ) :
    Picks b tries (tryInplaceMutationType tries) fun t => t.minSize ≤ b.used := by
  induction tries with
  | zero => exact .pure h
  | succ tries ih =>
    refine (Picks.draw (takes_chooseFromIter _ _)).bind ?_
    rintro _ ⟨t, -, rfl⟩
    refine (Picks.unwrap ⟨t, rfl, rfl⟩).bind ?_
    rintro _ rfl
    refine Picks.len.bind ?_
    rintro _ rfl
    split
    · next hle => exact .pure hle
    · exact ih

lemma picks_genBytes (n : ℕ) : Picks b n (genBytes n) fun l => l.length = n := by
  induction n with
  | zero => exact .pure rfl
  | succ n ih =>
    exact (Picks.draw (takes_next _)).bind fun x _ => ih.map fun xs hxs => congrArg Nat.succ hxs

lemma run_genOffset {size : ℕ} (h : size ≤ b.used) (d : Distributions) :
    (genOffset size).run (b, d) = (draw (genRange 0 (b.used - size + 1))).run (b, d) := by
  have hcheck : MutM.check (decide (size ≤ b.used)) = pure () := if_pos (decide_eq_true h)
  change (MutM.check (decide (size ≤ b.used)) >>= fun _ => _).run (b, d) = _
  rw [hcheck]
  rfl

/-- From the eighth draw on the tape only offers the place where some chunk already is. -/
def Rejected (n : ℕ) (draws : List ℕ) : Prop :=
  ∃ src : Range, ∀ x ∈ draws.drop 7, src.len < n ∧ x % (n - src.len + 1) = src.start

lemma run_genChunkDst {src : Range} (h : src.len ≤ b.used) {fuel : ℕ} {d : Distributions}
    (hfuel : d.draws.length < fuel) :
    (∃ dst d', (genChunkDst src fuel).run (b, d) = (.ok dst, b, d') ∧ dst + src.len ≤ b.used) ∨
      ∃ d', (genChunkDst src fuel).run (b, d) = (.error .outOfDraws, b, d') ∧
        ∀ x ∈ d.draws, src.len < b.used ∧ x % (b.used - src.len + 1) = src.start := by
  induction fuel generalizing d with
  | zero => cases hfuel
  | succ fuel ih =>
    rw [genChunkDst, Exec.run_bind, run_genOffset h]
    rcases d with ⟨_ | ⟨x, xs⟩⟩
    · exact .inr ⟨⟨[]⟩, rfl, by simp⟩
    · have hdraw : (draw (genRange 0 (b.used - src.len + 1))).run (b, ⟨x :: xs⟩) =
          (.ok (x % (b.used - src.len + 1)), b, ⟨xs⟩) := by
        rw [genRange, if_pos (Nat.succ_pos _), Nat.sub_zero]
        simp only [Nat.zero_add]
        rfl
      rw [hdraw]
      dsimp only
      rw [MutM.len, Exec.run_gets_bind]
      split
      · next hsame =>
        rcases ih (d := ⟨xs⟩) (by simpa using hfuel) with hok | ⟨d', hrun, hall⟩
        · exact .inl hok
        · refine .inr ⟨d', hrun, List.forall_mem_cons.mpr ⟨⟨?_, hsame.1.symm⟩, hall⟩⟩
          exact lt_of_le_of_ne h hsame.2
      · have hlt : x % (b.used - src.len + 1) < b.used - src.len + 1 := Nat.mod_lt x (Nat.succ_pos _)
        exact .inl ⟨_, _, rfl, by omega⟩

open InplaceMutation (Overwrites overwrites_apply)

/-- What a run of `gen_inplace_mutation` that started with the tape `draws` ends in. -/
def Generates (b : DataBuff) (draws : List ℕ)
    (r : Except Panic InplaceMutation × DataBuff × Distributions) : Prop :=
  (∃ m d, r = (.ok m, b, d) ∧ m.Within b.used) ∨
    ∃ d, r = (.error .outOfDraws, b, d) ∧ (draws.length < b.used + 8 ∨ Rejected b.used draws)

lemma generates_genInplaceMutation (hused : 0 < b.used) (hcap : b.used ≤ b.data.length)
    (d : Distributions) : Generates b d.draws (genInplaceMutation.run (b, d)) := by
  have htype : Picks b 4 genInplaceMutationType fun t => t.minSize ≤ b.used := by
    refine Picks.len.bind ?_
    rintro _ rfl
    exact (Picks.check (by simpa using hused)).bind fun _ _ => picks_tryInplaceMutationType hused 4
  rcases htype d with ⟨t, j, hj, hrun, ht⟩ | ⟨d', hrun, hlen⟩
  · have hbranch : ∀ {f : MutM InplaceMutation}, Picks b (b.used + 4) f (·.Within b.used) →
        Generates b d.draws (f.run (b, ⟨d.draws.drop j⟩)) := by
      intro f hf
      rcases hf ⟨d.draws.drop j⟩ with ⟨m, j', -, hm, hin⟩ | ⟨d', hm, hlen⟩
      · exact .inl ⟨m, _, hm, hin⟩
      · rw [List.length_drop] at hlen
        exact .inr ⟨d', hm, .inl (by omega)⟩
    have hblock := picks_genBlockRange hused
    rw [genInplaceMutation, Exec.run_bind_ok hrun]
    cases t with
    | flipBitT =>
      exact hbranch ((picks_genOffset ht).bind fun x hx =>
        (Picks.draw (takes_genRange (by decide))).bind fun _ _ => .pure hx)
    | addU8T =>
      exact hbranch ((picks_genOffset ht).bind fun x hx => picks_genArithVal.bind fun _ _ => .pure hx)
    | addU16T | addU32T | addU64T =>
      exact hbranch ((picks_genOffset ht).bind fun x hx => picks_genArithVal.bind fun _ _ =>
        (Picks.draw (takes_next _)).bind fun _ _ => .pure hx)
    | interestingU8T =>
      exact hbranch ((picks_genOffset ht).bind fun x hx => (Picks.index (by decide)).bind
        fun _ _ => .pure hx)
    | interestingU16T | interestingU32T | interestingU64T =>
      exact hbranch ((picks_genOffset ht).bind fun x hx => (Picks.index (by decide)).bind fun _ _ =>
        (Picks.draw (takes_next _)).bind fun _ _ => .pure hx)
    | overwriteRandomByteT =>
      exact hbranch ((picks_genOffset ht).bind fun x hx =>
        (Picks.draw (takes_genRange (by decide))).bind fun _ _ => (Picks.read (DataBuff.run_readU8 hx hcap)).bind
          fun _ _ => .pure hx)
    | overwriteRandomT =>
      refine hbranch (hblock.bind fun r hr => ?_)
      have hle : r.len ≤ b.used + 1 := by
        rw [Range.len]
        omega
      refine ((picks_genBytes r.len).mono hle fun _ h => h).map fun data hdata => ?_
      simp only [InplaceMutation.Within, InplaceMutation.range, hdata, Range.len]
      omega
    | overwriteFixedT =>
      exact hbranch (hblock.bind fun r hr => (Picks.draw (takes_next _)).bind fun _ _ => .pure hr)
    | overwriteChunkT =>
      rcases hblock ⟨d.draws.drop j⟩ with ⟨src, j', hj', hsrc, hlt, hstop⟩ | ⟨d', hsrc, hlen⟩
      · have hle : src.len ≤ b.used := by
          rw [Range.len]
          omega
        rw [List.drop_drop] at hsrc
        rw [Exec.run_bind_ok hsrc, Exec.run_gets_bind, Exec.run_bind]
        rcases run_genChunkDst hle (Nat.lt_succ_self (d.draws.drop (j + j')).length) with
          ⟨dst, d', hdst, hin⟩ | ⟨d', hdst, hall⟩
        · rw [hdst]
          exact .inl ⟨_, d', rfl, hlt, hstop, hin⟩
        · rw [hdst]
          refine .inr ⟨d', rfl, .inr ⟨src, fun x hx => hall x ?_⟩⟩
          -- seven draws lead up to the loop at most
          rw [← Nat.add_sub_cancel' (show j + j' ≤ 7 by omega), ← List.drop_drop] at hx
          exact List.mem_of_mem_drop hx
      · rw [List.length_drop] at hlen
        exact .inr ⟨d', Exec.run_bind_error hsrc, .inl (by omega)⟩
  · exact .inr ⟨d', Exec.run_bind_error hrun, .inl (by omega)⟩

lemma run_mutate_none (hused : 0 < b.used) (hcap : b.used ≤ b.data.length) (d : Distributions) :
    (∃ s, (mutate none).run (b, d) = (.ok (), s)) ∨
      ∃ s, (mutate none).run (b, d) = (.error .outOfDraws, s) ∧
        (d.draws.length < b.used + 8 ∨ Rejected b.used d.draws) := by
  have hmutate : (mutate none).run (b, d) = genAndApply.run (b, d) := by
    rw [mutate, MutM.len, Exec.run_gets_bind]
    exact congrArg (Exec.run · (b, d)) (if_neg hused.ne')
  rw [hmutate, genAndApply]
  rcases generates_genInplaceMutation hused hcap d with ⟨m, d', hrun, hin⟩ | ⟨d', hrun, hstop⟩
  · obtain ⟨-, bs, -, happly⟩ := overwrites_apply hcap hin
    rw [Exec.run_bind_ok hrun, MutM.buff, Exec.run_zoom, happly]
    exact .inl ⟨_, rfl⟩
  · exact .inr ⟨_, Exec.run_bind_error hrun, hstop⟩

/-- A mutation keeps the used length and changes no byte outside the range it names. It is not
generated only if the tape is too short, or if the loop that looks for a place for a chunk rejects
all of it. -/
theorem genInplaceMutation_local (b : DataBuff) (hused : 0 < b.used)
    (hcap : b.used ≤ b.data.length) (d : Distributions) :
    (∃ m d', genInplaceMutation.run (b, d) = (.ok m, b, d') ∧ m.range.stop ≤ b.used ∧
        Overwrites b m.range m.apply) ∨
      ∃ d', genInplaceMutation.run (b, d) = (.error .outOfDraws, b, d') ∧
        (d.draws.length < b.used + 8 ∨ Rejected b.used d.draws) := by
  rcases generates_genInplaceMutation hused hcap d with ⟨m, d', hrun, hin⟩ | hstop
  · exact .inl ⟨m, d', hrun, overwrites_apply hcap hin⟩
  · exact .inr hstop

theorem genInplaceMutation_local_chunk :
    ∃ m d', genInplaceMutation.run (⟨[1, 2, 3, 4], 3⟩, ⟨[10, 0, 1, 0, 0, 1]⟩) =
        (.ok m, ⟨[1, 2, 3, 4], 3⟩, d') ∧ m.range.stop ≤ 3 ∧
      Overwrites ⟨[1, 2, 3, 4], 3⟩ m.range m.apply := by
  rcases genInplaceMutation_local ⟨[1, 2, 3, 4], 3⟩ (by decide) (by decide) ⟨[10, 0, 1, 0, 0, 1]⟩ with
    hok | ⟨d', hrun, -⟩
  · exact hok
  · cases hrun

/-! ### Buffers that are full -/

abbrev Full (k : ℕ) (s : DataBuff × Distributions) : Prop := s.1.data.length = k ∧ s.1.used = k

section Full

open Exec

variable {k : ℕ}

lemma maintains_draw {α : Type} (m : Exec Panic Distributions α) : Maintains (Full k) (draw m) :=
  Maintains.of_final fun _ hs => hs

lemma maintains_check (c : Bool) : Maintains (Full k) (check c) :=
  Maintains.ite (fun _ => Maintains.pure ()) fun _ => Maintains.panic _

lemma maintains_copyFrom (bs : List UInt8) (dst : ℕ) :
    Maintains (Full k) (buff (DataBuff.copyFrom bs dst)) := by
  refine Maintains.of_final fun s hs => ?_
  rw [MutM.buff, run_zoom]
  by_cases h : dst + bs.length ≤ s.1.used
  · have hcap : s.1.used ≤ s.1.data.length := by omega
    rw [DataBuff.run_copyFrom h hcap]
    exact ⟨(length_overwrite (h.trans hcap)).trans hs.1, hs.2⟩
  · have hcheck : (DataBuff.check fun b => dst + bs.length ≤ b.data.length).run s.1 =
        (.error .assertFailed, s.1) := if_neg (by simp; omega)
    have hexpand : (DataBuff.expandTo (dst + bs.length)).run s.1 = (.error .assertFailed, s.1) :=
      run_bind_error hcheck
    rw [DataBuff.copyFrom, run_bind_error hexpand]
    exact hs

lemma maintains_genAndApply : Maintains (Full k) genAndApply := by
  rintro ⟨b, d⟩ ⟨hlen, hfull⟩
  rcases Nat.eq_zero_or_pos k with rfl | hk
  · -- the assertion of `gen_inplace_mutation_type`
    rcases b with ⟨data, used⟩
    subst hfull
    exact ⟨hlen, rfl⟩
  · rw [genAndApply, run_bind]
    have hcap : b.used ≤ b.data.length := (hfull.trans hlen.symm).le
    rcases generates_genInplaceMutation (hfull ▸ hk) hcap d with
      ⟨m, d', hrun, hin⟩ | ⟨d', hrun, -⟩
    · obtain ⟨hstop, bs, hbs, happly⟩ := overwrites_apply hcap hin
      rw [hrun]
      dsimp only
      rw [MutM.buff, run_zoom, happly]
      refine ⟨(length_overwrite ?_).trans hlen, hfull⟩
      have hle := InplaceMutation.range_ordered hin
      rw [hbs, Range.len]
      omega
    · rw [hrun]
      exact ⟨hlen, hfull⟩

lemma maintains_sampleRhs (dict : CustomDict) : Maintains (Full k) dict.sampleRhs := by
  refine (Maintains.gets _).bind fun key => ?_
  cases dict.lhsToGroups key with
  | none => exact Maintains.pure _
  | some opts =>
    exact (maintains_check _).bind fun _ => (maintains_draw _).bind fun _ =>
      (Maintains.unwrap _ _).bind fun _ => Maintains.pure _

lemma maintains_sampleEntry (dict : CustomDict) : Maintains (Full k) dict.sampleEntry :=
  Maintains.ite (fun _ => Maintains.pure _) fun _ => (maintains_draw _).bind fun _ =>
    (Maintains.unwrap _ _).bind fun _ => (maintains_draw _).bind fun _ =>
      (Maintains.unwrap _ _).bind fun _ => Maintains.pure _

lemma maintains_findPos (lhs : List UInt8) : Maintains (Full k) (CustomDict.findPos lhs) := by
  refine (Maintains.gets _).bind fun _ => (maintains_check _).bind fun _ =>
    Maintains.ite (fun _ => ?_) fun _ => ?_
  · exact (maintains_draw _).bind fun _ => (Maintains.unwrap _ _).bind fun _ => Maintains.pure _
  · exact (Maintains.gets _).bind fun _ =>
      Maintains.ite (fun _ => (maintains_draw _).bind fun _ => Maintains.pure _)
        fun _ => Maintains.pure _

lemma maintains_mutateEntry (dict : CustomDict) : Maintains (Full k) dict.mutateEntry := by
  refine (maintains_sampleEntry dict).bind fun entry => ?_
  rcases entry with _ | ⟨lhs, rhs⟩
  · exact Maintains.pure _
  · refine (maintains_findPos lhs).bind fun pos => ?_
    cases pos with
    | none => exact Maintains.bind (Maintains.pure _) fun _ => maintains_draw _
    | some p => exact (maintains_copyFrom _ _).bind fun _ => maintains_draw _

lemma maintains_mutateDict (dict : CustomDict) : Maintains (Full k) dict.mutate := by
  refine (maintains_sampleRhs dict).bind fun rhs => ?_
  cases rhs with
  | none => exact maintains_mutateEntry dict
  | some rhs =>
    exact (maintains_draw _).bind fun _ => Maintains.ite
      (fun _ => (maintains_copyFrom _ _).bind fun _ => maintains_draw _)
      fun _ => maintains_mutateEntry dict

/-- Whatever is drawn and whether or not it panics, a mutation of a full buffer stays inside the bytes
it was handed. -/
theorem maintains_mutate (dict : Option CustomDict) : Maintains (Full k) (mutate dict) := by
  refine (Maintains.gets _).bind fun n => Maintains.ite (fun _ => Maintains.pure _) fun _ => ?_
  cases dict with
  | none => exact maintains_genAndApply
  | some dict =>
    exact (maintains_draw _).bind fun _ => Maintains.ite
      (fun _ => (maintains_mutateDict dict).bind fun _ => Maintains.ite
        (fun _ => maintains_genAndApply) fun _ => Maintains.pure _)
      fun _ => maintains_genAndApply

end Full

end PrimitiveMutator

end Nyx
