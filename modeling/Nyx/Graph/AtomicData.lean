import Nyx.Graph.PrimitiveMutator
import Nyx.Graph.Storage

/-!
# Generating and mutating the data of a node

Every atomic data type appends its bytes at the end of the data. A generated vector is stored
behind two bytes that hold its size modulo `2 ^ 16`.
-/

namespace Nyx

open GraphStorage
open PrimitiveMutator (mutate genNumArrayElems Full maintains_mutate Rejected run_mutate_none)

variable {S : Type} [GraphStorage S]

abbrev GenM (S : Type) := Exec Panic (S × Distributions)

namespace GenM

def draw {α : Type} (m : Exec Panic Distributions α) : GenM S α :=
  Exec.zoom Prod.snd (fun d s => (s.1, d)) m

def appendData (bytes : List UInt8) : GenM S Unit := fun st =>
  match GraphStorage.appendData st.1 bytes with
  | some s => (.ok (), (s, st.2))
  | none => (.error .unwrapNone, st)

def getData (size : ℕ) : GenM S Unit := fun st =>
  match GraphStorage.getData st.1 size with
  | some s => (.ok (), (s, st.2))
  | none => (.error .unwrapNone, st)

def onTail (k : ℕ) (m : MutM Unit) : GenM S Unit :=
  Exec.zoom (fun st => (⟨tail st.1 k, k⟩, st.2)) (fun b st => (setTail st.1 b.1.data, b.2)) m

def check (c : S → Bool) : GenM S Unit := fun st =>
  if c st.1 then (.ok (), st) else (.error .assertFailed, st)

end GenM

open GenM

def IntGenerator.generate : IntGenerator → Exec Panic Distributions (UInt64 × Bool)
  | .options opts | .flags opts => do
    let i ← Distributions.genRange 0 opts.length
    let x ← Exec.unwrap .indexOutOfBounds opts[i]?
    pure (x, false)
  | .limits range align => do
    let x ← Distributions.genRange range.1.toNat range.2.toNat
    if align = 0 then Exec.panic .divideByZero
    else do
      let val := UInt64.ofNat x
      let val := val - val % align
      let val := if val < range.1 then val + align else val
      let val := if range.2 < val then val - align else val
      pure (val, false)

namespace DataInt

def generateU64 (generators : List IntGenerator) : Exec Panic Distributions (UInt64 × Bool) :=
  if generators.length = 0 then do
    let x ← Distributions.gen (2 ^ 64)
    pure (UInt64.ofNat x, true)
  else do
    let i ← Distributions.genRange 0 generators.length
    let generator ← Exec.unwrap .indexOutOfBounds generators[i]?
    generator.generate

def appendGenerate (size : ℕ) (generators : List IntGenerator) : GenM S Unit := do
  let (int, mutateFurther) ← draw (generateU64 generators)
  appendData (toLeBytes size int.toNat)
  if mutateFurther then do
    let n ← draw (Distributions.gen (2 ^ 64))
    onTail size (Exec.forEach (List.range (n % 4)) fun _ => mutate none)
  else pure ()

end DataInt

namespace DataVec

def writePrefix (size : ℕ) : GenM S Unit :=
  Exec.modify fun st => (setTail st.1 (UInt8.ofNat (size &&& 0xff) ::
    UInt8.ofNat ((size >>> 8) &&& 0xff) :: tail st.1 size), st.2)

def appendElems (size : ℕ) : GenM S Unit := do
  check fun s => size + 2 ≤ dataAvailable s
  getData (size + 2)
  writePrefix size
  if 0 < size then onTail size (mutate none) else pure ()

def appendGenerate (sizeRange : ℕ × ℕ) (primitiveSize : ℕ) : GenM S Unit := do
  let available ← Exec.gets fun st => dataAvailable st.1
  let numElems ← draw (genNumArrayElems primitiveSize sizeRange.1 sizeRange.2
    (usizeSub available 2))
  appendElems (numElems * primitiveSize)

def appendMutated (data : List UInt8) (dict : CustomDict) : GenM S Unit := do
  let lo ← Exec.unwrap .indexOutOfBounds data[0]?
  let hi ← Exec.unwrap .indexOutOfBounds data[1]?
  check fun _ => lo.toNat + hi.toNat <<< 8 + 2 = data.length
  appendData data
  onTail (data.length - 2) (mutate (some dict))

end DataVec

namespace AtomicDataType

/-- A field of a struct is an earlier entry of the table, so the number of entries bounds the depth
of the recursion. -/
def appendGenerate (g : GraphSpec) : ℕ → AtomicDataType → GenM S Unit
  | 0, _ => Exec.panic .stackOverflow
  | _ + 1, dataInt size generators => DataInt.appendGenerate size generators
  | _ + 1, dataVec sizeRange primitiveSize _ => DataVec.appendGenerate sizeRange primitiveSize
  | depth + 1, dataStruct _ fields => Exec.forEach fields fun f =>
    match g.getData f.2 with
    | .ok spec => appendGenerate g depth spec.atomicType
    | .error _ => Exec.panic .unwrapErr

def appendMutated (data : List UInt8) (dict : CustomDict) : AtomicDataType → GenM S Unit
  | dataInt _ _ | dataStruct _ _ => do
    appendData data
    onTail data.length (mutate (some dict))
  | dataVec _ _ _ => DataVec.appendMutated data dict

end AtomicDataType

/-- Whatever its outcome, `m` leaves the ops and appends to the data; if it returns, what it appends
satisfies `P`. -/
def Appends (m : GenM S Unit) (P : S → List UInt8 → Prop) : Prop :=
  ∀ st, opsAsSlice (m.run st).2.1 = opsAsSlice st.1 ∧
    ∃ bytes, dataAsSlice (m.run st).2.1 = dataAsSlice st.1 ++ bytes ∧
      ((m.run st).1 = .ok () → P st.1 bytes)

section Appends

variable {m m' : GenM S Unit} {P Q : S → List UInt8 → Prop}

lemma Appends.mono (hm : Appends m P) (h : ∀ s bytes, P s bytes → Q s bytes) : Appends m Q := by
  intro st
  obtain ⟨hops, bytes, hdata, hP⟩ := hm st
  exact ⟨hops, bytes, hdata, fun hok => h _ _ (hP hok)⟩

lemma appends_pure : Appends (pure () : GenM S Unit) fun _ bytes => bytes = [] := by
  intro st
  exact ⟨rfl, [], by simp, fun _ => rfl⟩

lemma appends_panic (e : Panic) : Appends (Exec.panic e : GenM S Unit) P := by
  intro st
  exact ⟨rfl, [], by simp, fun h => by cases h⟩

lemma appends_draw_bind {α : Type} {R : α → Prop} {d : Exec Panic Distributions α}
    (hd : ∀ t a, (d.run t).1 = .ok a → R a) {k : α → GenM S Unit}
    (hk : ∀ a, R a → Appends (k a) P) : Appends (draw d >>= k) P := by
  intro st
  have hst : ((draw d : GenM S α).run st).2.1 = st.1 := rfl
  have hres : ((draw d : GenM S α).run st).1 = (d.run st.2).1 := rfl
  rw [Exec.run_bind]
  rcases hr : (draw d : GenM S α).run st with ⟨r, st'⟩
  rw [hr] at hst hres
  cases r with
  | error e => exact ⟨by rw [hst], [], by rw [hst, List.append_nil], fun h => by cases h⟩
  | ok a =>
    have h := hk a (hd _ _ hres.symm) st'
    rw [hst] at h
    exact h

lemma Appends.bind (hm : Appends m P) (hm' : Appends m' Q) :
    Appends (m >>= fun _ => m') fun s bytes =>
      ∃ s' bs bs', bytes = bs ++ bs' ∧ P s bs ∧ Q s' bs' := by
  intro st
  obtain ⟨hops, bs, hdata, hP⟩ := hm st
  rw [Exec.run_bind]
  rcases hr : m.run st with ⟨r, st'⟩
  rw [hr] at hops hdata hP
  cases r with
  | error e => exact ⟨hops, bs, hdata, fun h => by cases h⟩
  | ok a =>
    obtain ⟨hops', bs', hdata', hQ⟩ := hm' st'
    refine ⟨hops'.trans hops, bs ++ bs', ?_, fun hok => ⟨st'.1, bs, bs', rfl, hP rfl, hQ hok⟩⟩
    rw [hdata', hdata, List.append_assoc]

lemma appends_appendData (bytes : List UInt8) :
    Appends (appendData bytes : GenM S Unit) fun _ bs => bs = bytes := by
  intro st
  simp only [Exec.run, GenM.appendData]
  cases h : GraphStorage.appendData st.1 bytes with
  | none => exact ⟨rfl, [], by simp, fun h => by cases h⟩
  | some s => exact ⟨ops_appendData _ _ _ h, bytes, data_appendData _ _ _ h, fun _ => rfl⟩

lemma appends_getData (size : ℕ) :
    Appends (getData size : GenM S Unit) fun _ bs => bs.length = size := by
  intro st
  simp only [Exec.run, GenM.getData]
  cases h : GraphStorage.getData st.1 size with
  | none => exact ⟨rfl, [], by simp, fun h => by cases h⟩
  | some s =>
    obtain ⟨bs, hlen, hdata⟩ := data_getData _ _ _ h
    exact ⟨ops_getData _ _ _ h, bs, hdata, fun _ => hlen⟩

lemma tail_append {s : S} {pre bs : List UInt8} (h : dataAsSlice s = pre ++ bs) :
    tail s bs.length = bs := by
  simp [tail, dataLen, h]

lemma data_setTail_append {s : S} {pre bs bs' : List UInt8} (h : dataAsSlice s = pre ++ bs)
    (hlen : bs'.length = bs.length) : dataAsSlice (setTail s bs') = pre ++ bs' := by
  rw [data_setTail _ _ (by rw [h, hlen]; simp), h, hlen]
  simp

/-- Whatever its outcome, `m` changes at most the last `k` bytes of the data. -/
def Retouches (k : ℕ) (m : GenM S Unit) : Prop :=
  ∀ st pre bs, dataAsSlice st.1 = pre ++ bs → bs.length = k →
    opsAsSlice (m.run st).2.1 = opsAsSlice st.1 ∧
      ∃ bs', bs'.length = k ∧ dataAsSlice (m.run st).2.1 = pre ++ bs'

lemma retouches_pure (k : ℕ) : Retouches k (pure () : GenM S Unit) := by
  intro st pre bs h hlen
  exact ⟨rfl, bs, hlen, h⟩

lemma retouches_onTail {k : ℕ} {n : MutM Unit} (hn : Exec.Maintains (Full k) n) :
    Retouches k (onTail k n : GenM S Unit) := by
  intro st pre bs h hlen
  have htail : tail st.1 k = bs := by rw [← hlen, tail_append h]
  have hkeep := hn.final (⟨tail st.1 k, k⟩, st.2) ⟨by rw [htail, hlen], rfl⟩
  exact ⟨ops_setTail _ _, _, hkeep.1, data_setTail_append h (hkeep.1.trans hlen.symm)⟩

lemma retouches_draw_bind {α : Type} {k : ℕ} (d : Exec Panic Distributions α)
    {body : α → GenM S Unit} (hbody : ∀ a, Retouches k (body a)) :
    Retouches k (draw d >>= body) := by
  intro st pre bs h hlen
  have hst : ((draw d : GenM S α).run st).2.1 = st.1 := rfl
  rw [Exec.run_bind]
  rcases hr : (draw d : GenM S α).run st with ⟨r, st'⟩
  rw [hr] at hst
  cases r with
  | error e => exact ⟨by rw [hst], bs, hlen, by rw [hst, h]⟩
  | ok a =>
    have hb := hbody a st' pre bs (by rw [hst, h]) hlen
    rw [hst] at hb
    exact hb

lemma Appends.retouch {k : ℕ} (hm : Appends m P) (hm' : Retouches k m')
    (hk : ∀ s bytes, P s bytes → k ≤ bytes.length) :
    Appends (m >>= fun _ => m') fun s bytes =>
      ∃ pre old new, bytes = pre ++ new ∧ P s (pre ++ old) ∧ old.length = k ∧ new.length = k := by
  intro st
  obtain ⟨hops, bs, hdata, hP⟩ := hm st
  rw [Exec.run_bind]
  rcases hr : m.run st with ⟨r, st'⟩
  rw [hr] at hops hdata hP
  cases r with
  | error e => exact ⟨hops, bs, hdata, fun h => by cases h⟩
  | ok a =>
    have hle := hk _ _ (hP rfl)
    have hbs : bs.take (bs.length - k) ++ bs.drop (bs.length - k) = bs := List.take_append_drop _ _
    have hold : (bs.drop (bs.length - k)).length = k := by simp; omega
    have hsplit : dataAsSlice st'.1 =
        (dataAsSlice st.1 ++ bs.take (bs.length - k)) ++ bs.drop (bs.length - k) := by
      rw [List.append_assoc, hbs]
      exact hdata
    obtain ⟨hops', new, hnew, hdata'⟩ := hm' st' _ _ hsplit hold
    refine ⟨hops'.trans hops, bs.take (bs.length - k) ++ new, ?_, fun _ => ?_⟩
    · rw [← List.append_assoc]
      exact hdata'
    · exact ⟨_, _, new, rfl, by rw [hbs]; exact hP rfl, hold, hnew⟩

lemma appends_check_bind (c : S → Bool) (hm : Appends m P) :
    Appends (check c >>= fun _ => m) fun s bytes => c s ∧ P s bytes := by
  intro st
  rw [Exec.run_bind]
  by_cases hc : c st.1
  · have hr : (check c).run st = (.ok (), st) := by simp [Exec.run, check, hc]
    rw [hr]
    obtain ⟨hops, bs, hdata, hP⟩ := hm st
    exact ⟨hops, bs, hdata, fun hok => ⟨hc, hP hok⟩⟩
  · have hr : (check c).run st = (.error .assertFailed, st) := by simp [Exec.run, check, hc]
    rw [hr]
    exact ⟨rfl, [], by simp, fun h => by cases h⟩

lemma DataInt.appends_appendGenerate (size : ℕ) (generators : List IntGenerator) :
    Appends (DataInt.appendGenerate size generators : GenM S Unit)
      fun _ bytes => bytes.length = size := by
  apply appends_draw_bind (R := fun _ => True) (fun _ _ _ => trivial)
  rintro ⟨int, mutateFurther⟩ -
  have happend : Appends (GenM.appendData (toLeBytes size int.toNat) : GenM S Unit)
      fun _ bytes => bytes.length = size :=
    (appends_appendData _).mono (by rintro s _ rfl; simp)
  have hfurther : Retouches size (if mutateFurther then do
      let n ← draw (Distributions.gen (2 ^ 64))
      onTail size (Exec.forEach (List.range (n % 4)) fun _ => mutate none)
    else pure () : GenM S Unit) := by
    split
    · exact retouches_draw_bind _ fun n => retouches_onTail <|
        Exec.Triple.forEach_const fun _ _ => maintains_mutate none
    · exact retouches_pure _
  apply (happend.retouch hfurther (fun _ _ h => h.ge)).mono
  rintro s _ ⟨pre, old, new, rfl, hlen, hold, hnew⟩
  rw [List.length_append] at hlen ⊢
  omega

namespace IntGenerator

/-- The range fits into `size` bytes and has a multiple of the alignment. -/
structure Satisfiable (size : ℕ) (range : UInt64 × UInt64) (align : UInt64) : Prop where
  lt : range.1 < range.2
  fits : range.2.toNat < 256 ^ size
  align_pos : 1 ≤ align
  multiple : ∃ m, align.toNat ∣ m ∧ range.1.toNat ≤ m ∧ m ≤ range.2.toNat

/-- The value that is drawn, rounded down, and after the first correction. -/
def rounded (align : UInt64) (x : ℕ) : ℕ := x - x % align.toNat

def corrected (range : UInt64 × UInt64) (align : UInt64) (x : ℕ) : ℕ :=
  if rounded align x < range.1.toNat then rounded align x + align.toNat else rounded align x

def InLimits (range : UInt64 × UInt64) (align : UInt64) (v : ℕ) : Prop :=
  align.toNat ∣ v ∧ range.1.toNat ≤ v ∧ v ≤ range.2.toNat

lemma Satisfiable.inLimits_corrected {size : ℕ} {range : UInt64 × UInt64} {align : UInt64}
    (h : Satisfiable size range align) {x : ℕ} (hlow : range.1.toNat ≤ x) (hhigh : x < range.2.toNat) :
    InLimits range align (corrected range align x) := by
  obtain ⟨m, ⟨q, rfl⟩, hm, hm'⟩ := h.multiple
  have hpos : 0 < align.toNat := UInt64.le_iff_toNat_le.mp h.align_pos
  have hround : rounded align x = align.toNat * (x / align.toNat) := by
    have hdiv := Nat.div_add_mod x align.toNat
    rw [rounded]
    omega
  unfold corrected InLimits
  have hmod := Nat.mod_lt x hpos
  split
  · next hlt =>
    -- the multiple that exists is above the rounded value, so the next one is in the range as well
    have hq : x / align.toNat + 1 ≤ q := by
      rw [hround] at hlt
      exact Nat.lt_of_mul_lt_mul_left (hlt.trans_le hm)
    have hle := Nat.mul_le_mul_left align.toNat hq
    rw [Nat.mul_succ] at hle
    refine ⟨?_, ?_, by omega⟩
    · rw [hround, ← Nat.mul_succ]
      exact Nat.dvd_mul_right _ _
    · have hdiv := Nat.div_add_mod x align.toNat
      omega
  · refine ⟨by rw [hround]; exact Nat.dvd_mul_right _ _, by omega, ?_⟩
    rw [rounded]
    omega

lemma Satisfiable.run_generate {size : ℕ} {range : UInt64 × UInt64} {align : UInt64}
    (h : Satisfiable size range align) (y : ℕ) (ys : List ℕ) :
    ∃ x, range.1.toNat ≤ x ∧ x < range.2.toNat ∧ ∃ val,
      (limits range align).generate.run ⟨y :: ys⟩ = (.ok (val, false), ⟨ys⟩) ∧
        val.toNat = corrected range align x := by
  obtain ⟨x, hrun, hlow, hhigh⟩ :=
    (Distributions.takes_genRange (UInt64.lt_iff_toNat_lt.mp h.lt)).draw y ys
  obtain ⟨-, -, hle⟩ := h.inLimits_corrected hlow hhigh
  have hne : align ≠ 0 := by
    have := UInt64.le_iff_toNat_le.mp h.align_pos
    rintro rfl
    cases this
  have hx : (UInt64.ofNat x).toNat = x :=
    UInt64.toNat_ofNat_of_lt' (hhigh.trans range.2.toNat_lt)
  have hround : (UInt64.ofNat x - UInt64.ofNat x % align).toNat = rounded align x := by
    rw [UInt64.toNat_sub_of_le, UInt64.toNat_mod, hx, rounded]
    exact Nat.mod_le _ _
  have hcorrect : (if UInt64.ofNat x - UInt64.ofNat x % align < range.1 then
      UInt64.ofNat x - UInt64.ofNat x % align + align else
      UInt64.ofNat x - UInt64.ofNat x % align).toNat = corrected range align x := by
    simp only [corrected, UInt64.lt_iff_toNat_lt, hround] at hle ⊢
    split
    · next hlt =>
      rw [if_pos hlt] at hle
      have := range.2.toNat_lt
      rw [UInt64.toNat_add, hround, Nat.mod_eq_of_lt (by omega)]
    · exact hround
  refine ⟨x, hlow, hhigh, _, ?_, hcorrect⟩
  rw [generate, Exec.run_bind_ok hrun, if_neg hne]
  dsimp only
  rw [if_neg (by rw [UInt64.lt_iff_toNat_lt, hcorrect]; omega)]
  rfl

end IntGenerator

/-- A generated integer is a multiple of the alignment in the limits of one of its generators, and
neither correction leaves the range of `u64`. -/
theorem DataInt.appendGenerate_limits (size : ℕ) (generators : List IntGenerator)
    (hne : generators ≠ [])
    (hgen : ∀ generator ∈ generators, ∃ range align, generator = .limits range align ∧
      IntGenerator.Satisfiable size range align)
    (s : S) (hroom : ∀ bytes, bytes.length = size → (GraphStorage.appendData s bytes).isSome)
    (y z : ℕ) (draws : List ℕ) :
    ∃ s' bytes, (appendGenerate size generators).run (s, ⟨y :: z :: draws⟩) = (.ok (), (s', ⟨draws⟩)) ∧
      dataAsSlice s' = dataAsSlice s ++ bytes ∧ opsAsSlice s' = opsAsSlice s ∧ bytes.length = size ∧
      ∃ range align x, .limits range align ∈ generators ∧ range.1.toNat ≤ x ∧ x < range.2.toNat ∧
        fromLeBytes bytes = IntGenerator.corrected range align x ∧
        IntGenerator.InLimits range align (fromLeBytes bytes) := by
  have hlen : 0 < generators.length := List.length_pos_iff.mpr hne
  obtain ⟨i, hi, -, hlt⟩ := (Distributions.takes_genRange hlen).draw y (z :: draws)
  obtain ⟨range, align, heq, h⟩ := hgen generators[i] (List.getElem_mem hlt)
  obtain ⟨x, hlow, hhigh, val, hrun, hval⟩ := h.run_generate z draws
  have hlimits := h.inLimits_corrected hlow hhigh
  have hbytes : fromLeBytes (toLeBytes size val.toNat) = val.toNat := by
    apply fromLeBytes_toLeBytes_of_lt
    rw [hval]
    exact hlimits.2.2.trans_lt h.fits
  obtain ⟨s', hs'⟩ := Option.isSome_iff_exists.mp (hroom _ (length_toLeBytes size val.toNat))
  have hdraw : (draw (generateU64 generators) : GenM S _).run (s, ⟨y :: z :: draws⟩) =
      (.ok (val, false), (s, ⟨draws⟩)) := by
    have hpick : (generateU64 generators).run ⟨y :: z :: draws⟩ = (.ok (val, false), ⟨draws⟩) := by
      rw [generateU64, if_neg hlen.ne', Exec.run_bind_ok hi, List.getElem?_eq_getElem hlt, heq]
      exact hrun
    rw [draw, Exec.run_zoom, hpick]
  refine ⟨s', _, ?_, data_appendData s _ s' hs', ops_appendData s _ s' hs', length_toLeBytes _ _, range,
    align, x, heq ▸ List.getElem_mem hlt, hlow, hhigh, hbytes.trans hval, ?_⟩
  · have happend : (GenM.appendData (toLeBytes size val.toNat)).run (s, (⟨draws⟩ : Distributions)) =
        (.ok (), (s', ⟨draws⟩)) := by
      simp only [Exec.run, GenM.appendData, hs']
    rw [appendGenerate, Exec.run_bind_ok hdraw]
    exact Exec.run_bind_ok happend
  · rwa [hbytes, hval]

theorem DataInt.appendGenerate_limits_byte :
    ∃ s' bytes, (appendGenerate 1 [.limits (3, 10) 4]).run (VecGraph.empty, ⟨[0, 0]⟩) =
        (.ok (), (s', ⟨[]⟩)) ∧ dataAsSlice s' = [] ++ bytes ∧ bytes.length = 1 ∧ 4 ∣ fromLeBytes bytes := by
  have hsat : IntGenerator.Satisfiable 1 (3, 10) 4 :=
    ⟨by decide, by decide, by decide, 4, by decide, by decide, by decide⟩
  obtain ⟨s', bytes, hrun, hdata, -, hlen, range, align, x, hmem, -, -, -, hdvd, -⟩ :=
    DataInt.appendGenerate_limits 1 [.limits (3, 10) 4] (by simp)
      (fun generator hgen => ⟨_, _, List.mem_singleton.mp hgen, hsat⟩) VecGraph.empty
      (fun _ _ => rfl) 0 0 []
  obtain ⟨rfl, rfl⟩ := IntGenerator.limits.inj (List.mem_singleton.mp hmem)
  exact ⟨s', bytes, hrun, hdata, hlen, hdvd⟩

def DataVec.sizePrefix (size : ℕ) : List UInt8 :=
  [UInt8.ofNat (size &&& 0xff), UInt8.ofNat ((size >>> 8) &&& 0xff)]

/-- The numbers of elements that `gen_num_array_elems` can return. -/
def DataVec.NumElems (sizeRange : ℕ × ℕ) (primitiveSize available num : ℕ) : Prop :=
  primitiveSize ≠ 0 ∧
  if sizeRange.1 < usizeSub available 2 / primitiveSize then
    sizeRange.1 ≤ num ∧ num < min sizeRange.2 (usizeSub available 2 / primitiveSize)
  else num = usizeSub available 2 / primitiveSize

lemma DataVec.numElems_of_genNumArrayElems {primitiveSize available num : ℕ} {sizeRange : ℕ × ℕ}
    {t : Distributions}
    (h : ((genNumArrayElems primitiveSize sizeRange.1 sizeRange.2
      (usizeSub available 2)).run t).1 = .ok num) :
    DataVec.NumElems sizeRange primitiveSize available num := by
  unfold genNumArrayElems at h
  split at h
  · cases h
  rename_i hne
  refine ⟨hne, ?_⟩
  split at h
  · rename_i hlt
    rw [if_pos hlt]
    have hspec := Distributions.genRange_spec sizeRange.1
      (min sizeRange.2 (usizeSub available 2 / primitiveSize)) t trivial
    rcases hr : (Distributions.genRange sizeRange.1
      (min sizeRange.2 (usizeSub available 2 / primitiveSize))).run t with ⟨r, t'⟩
    rw [hr] at h hspec
    cases h
    exact hspec
  · rename_i hlt
    rw [if_neg hlt]
    cases h
    rfl

lemma DataVec.appends_writePrefix (size : ℕ) :
    Appends (GenM.getData (size + 2) >>= fun _ => DataVec.writePrefix size : GenM S Unit)
      fun _ bytes => ∃ rest, bytes = DataVec.sizePrefix size ++ rest ∧ rest.length = size := by
  intro st
  obtain ⟨hops, bs, hdata, hlen⟩ := appends_getData (size + 2) st
  rw [Exec.run_bind]
  rcases hr : (GenM.getData (size + 2) : GenM S Unit).run st with ⟨r, st'⟩
  rw [hr] at hops hdata hlen
  cases r with
  | error e => exact ⟨hops, bs, hdata, fun h => by cases h⟩
  | ok a =>
    have hlen' : bs.length = size + 2 := hlen rfl
    have hrest : (bs.drop 2).length = size := by simp [hlen']
    have hsplit : dataAsSlice st'.1 = (dataAsSlice st.1 ++ bs.take 2) ++ bs.drop 2 := by
      rw [List.append_assoc, List.take_append_drop]
      exact hdata
    have htail : tail st'.1 size = bs.drop 2 := by
      rw [← hrest]
      exact tail_append hsplit
    have hnew : (DataVec.sizePrefix size ++ tail st'.1 size).length = bs.length := by
      simp [DataVec.sizePrefix, htail, hlen']
    refine ⟨(ops_setTail _ _).trans hops, DataVec.sizePrefix size ++ tail st'.1 size, ?_, fun _ => ?_⟩
    · exact data_setTail_append hdata hnew
    · exact ⟨_, rfl, by rw [htail, hrest]⟩

lemma DataVec.appends_appendElems (size : ℕ) :
    Appends (DataVec.appendElems size : GenM S Unit) fun s bytes =>
      size + 2 ≤ dataAvailable s ∧
        ∃ rest, bytes = DataVec.sizePrefix size ++ rest ∧ rest.length = size := by
  have hmutate : Retouches size (if 0 < size then onTail size (mutate none)
      else pure () : GenM S Unit) := by
    split
    · exact retouches_onTail (maintains_mutate none)
    · exact retouches_pure _
  have hle : ∀ (s : S) (bytes : List UInt8),
      (∃ rest, bytes = DataVec.sizePrefix size ++ rest ∧ rest.length = size) →
        size ≤ bytes.length := by
    rintro s _ ⟨rest, rfl, hrest⟩
    simp [hrest]
  have hbody := (DataVec.appends_writePrefix (S := S) size).retouch hmutate hle
  rw [Exec.bind_assoc] at hbody
  refine (appends_check_bind (fun s => decide (size + 2 ≤ dataAvailable s)) hbody).mono ?_
  rintro s _ ⟨hc, pre, old, new, rfl, ⟨rest, hpre, hrest⟩, hold, hnew⟩
  obtain ⟨rfl, -⟩ := List.append_inj' hpre (hold.trans hrest.symm)
  exact ⟨by simpa using hc, new, rfl, hnew⟩

lemma DataVec.appends_appendGenerate (sizeRange : ℕ × ℕ) (primitiveSize : ℕ) :
    Appends (DataVec.appendGenerate sizeRange primitiveSize : GenM S Unit) fun s bytes =>
      ∃ num rest, DataVec.NumElems sizeRange primitiveSize (dataAvailable s) num ∧
        num * primitiveSize + 2 ≤ dataAvailable s ∧ rest.length = num * primitiveSize ∧
        bytes = DataVec.sizePrefix (num * primitiveSize) ++ rest := by
  intro st
  have hdraw : Appends (draw (genNumArrayElems primitiveSize sizeRange.1
      sizeRange.2 (usizeSub (dataAvailable st.1) 2)) >>= fun num =>
        DataVec.appendElems (num * primitiveSize) : GenM S Unit) fun s bytes =>
      ∃ num rest, DataVec.NumElems sizeRange primitiveSize (dataAvailable st.1) num ∧
        num * primitiveSize + 2 ≤ dataAvailable s ∧ rest.length = num * primitiveSize ∧
        bytes = DataVec.sizePrefix (num * primitiveSize) ++ rest := by
    refine appends_draw_bind (fun _ _ h => DataVec.numElems_of_genNumArrayElems h) ?_
    intro num hnum
    refine (DataVec.appends_appendElems _).mono ?_
    rintro s bytes ⟨hle, rest, hbytes, hrest⟩
    exact ⟨num, rest, hnum, hle, hrest, hbytes⟩
  rw [DataVec.appendGenerate, Exec.run_gets_bind]
  exact hdraw st

namespace DataVec

lemma run_appendElems {size : ℕ} (st : S × Distributions) (h : size + 2 ≤ dataAvailable st.1) :
    (∃ st', (appendElems size).run st = (.ok (), st')) ∨
      ∃ st', (appendElems size).run st = (.error .outOfDraws, st') ∧
        (st.2.draws.length < size + 8 ∨ Rejected size st.2.draws) := by
  obtain ⟨s, hget⟩ := exists_getData st.1 (size + 2) h
  have hcheck : (check fun s => size + 2 ≤ dataAvailable s).run st = (.ok (), st) :=
    if_pos (decide_eq_true h)
  have hrun : (GenM.getData (size + 2)).run st = (.ok (), (s, st.2)) := by
    simp [Exec.run, GenM.getData, hget]
  obtain ⟨-, bytes, hdata, hbytes⟩ := appends_writePrefix size st
  rw [Exec.run_bind_ok hrun] at hdata hbytes
  obtain ⟨rest, rfl, rfl⟩ := hbytes rfl
  rw [← List.append_assoc] at hdata
  rw [appendElems, Exec.run_bind_ok hcheck, Exec.run_bind_ok hrun]
  by_cases hpos : 0 < rest.length
  · have htail := tail_append hdata
    rw [if_pos hpos, writePrefix, Exec.run_modify_bind, onTail, Exec.run_zoom]
    rw [writePrefix, Exec.run_modify] at htail
    simp only [htail]
    rcases run_mutate_none (b := ⟨rest, rest.length⟩) hpos le_rfl st.2 with ⟨t, ht⟩ | ⟨t, ht, hstop⟩
    · exact .inl ⟨_, by rw [ht]⟩
    · exact .inr ⟨_, by rw [ht], hstop⟩
  · rw [if_neg hpos]
    exact .inl ⟨_, rfl⟩

lemma run_genNumArrayElems {size low high available : ℕ} (hsize : 1 ≤ size)
    (hspace : low * size ≤ available) (hchoice : low < high ∨ available / size = low)
    (hrange : low ≤ high) (d : Distributions) :
    (∃ n j, (genNumArrayElems size low high available).run d = (.ok n, ⟨d.draws.drop j⟩) ∧ j ≤ 1 ∧
        low ≤ n ∧ n ≤ high ∧ n * size ≤ available) ∨
      (genNumArrayElems size low high available).run d = (.error .outOfDraws, d) ∧ d.draws = [] := by
  have hlow : low ≤ available / size := (Nat.le_div_iff_mul_le hsize).mpr hspace
  unfold genNumArrayElems
  rw [if_neg (Nat.pos_iff_ne_zero.mp hsize)]
  by_cases hlt : low < available / size
  · have htakes := Distributions.takes_genRange (show low < min high (available / size) by omega)
    rw [if_pos hlt]
    rcases d with ⟨_ | ⟨x, xs⟩⟩
    · exact .inr ⟨htakes.stop, rfl⟩
    · obtain ⟨n, hrun, hn⟩ := htakes.draw x xs
      exact .inl ⟨n, 1, hrun, le_rfl, hn.1, by omega,
        (Nat.le_div_iff_mul_le hsize).mp (by omega)⟩
  · rw [if_neg hlt]
    exact .inl ⟨_, 0, rfl, Nat.zero_le 1, hlow, by omega, Nat.div_mul_le_self ..⟩

/-- A vector is generated with a number of elements in its range. Only the end of the tape can stop
it. -/
def Generates (sizeRange : ℕ × ℕ) (primitiveSize : ℕ) (st : S × Distributions) : Prop :=
  (∃ n bytes st', (appendGenerate sizeRange primitiveSize).run st = (.ok (), st') ∧
      sizeRange.1 ≤ n ∧ n ≤ sizeRange.2 ∧ bytes.length = 2 + n * primitiveSize ∧
      dataAsSlice st'.1 = dataAsSlice st.1 ++ bytes) ∨
    ∃ st', (appendGenerate sizeRange primitiveSize).run st = (.error .outOfDraws, st') ∧
      (st.2.draws.length < dataAvailable st.1 + 7 ∨
        ∃ n j, Rejected (n * primitiveSize) (st.2.draws.drop j))

section Generates

variable (sizeRange : ℕ × ℕ) (primitiveSize : ℕ) (st : S × Distributions)
  (hrange : sizeRange.1 ≤ sizeRange.2) (hsize : 1 ≤ primitiveSize)
  (hspace : 2 + sizeRange.1 * primitiveSize ≤ dataAvailable st.1)

include hrange hsize hspace

lemma generates_of_choice
    (hchoice : sizeRange.1 < sizeRange.2 ∨ (dataAvailable st.1 - 2) / primitiveSize = sizeRange.1) :
    Generates sizeRange primitiveSize st := by
  unfold Generates
  have hsub : usizeSub (dataAvailable st.1) 2 = dataAvailable st.1 - 2 := if_pos (by omega)
  rw [appendGenerate, Exec.run_gets_bind, hsub]
  rcases run_genNumArrayElems hsize (Nat.le_sub_of_add_le' hspace) hchoice hrange st.2 with
    ⟨n, j, hnum, hj, hlow, hhigh, hn⟩ | ⟨hnum, hdraws⟩
  · have hdraw : (draw (genNumArrayElems primitiveSize sizeRange.1 sizeRange.2
        (dataAvailable st.1 - 2)) : GenM S ℕ).run st = (.ok n, (st.1, ⟨st.2.draws.drop j⟩)) := by
      rw [draw, Exec.run_zoom, hnum]
    have hroom : n * primitiveSize + 2 ≤ dataAvailable st.1 := by omega
    rw [Exec.run_bind_ok hdraw]
    obtain ⟨-, bytes, hdata, hbytes⟩ :=
      appends_appendElems (n * primitiveSize) (st.1, ⟨st.2.draws.drop j⟩)
    rcases run_appendElems (st.1, ⟨st.2.draws.drop j⟩) hroom with
      ⟨st', hrun⟩ | ⟨st', hrun, hstop⟩
    · rw [hrun] at hdata hbytes
      obtain ⟨-, rest, rfl, hrest⟩ := hbytes rfl
      exact .inl ⟨n, _, st', hrun, hlow, hhigh, by simp [sizePrefix, hrest]; omega, hdata⟩
    · refine .inr ⟨st', hrun, hstop.imp (fun h => ?_) fun h => ⟨n, j, h⟩⟩
      simp only [List.length_drop] at h
      omega
  · have hdraw : (draw (genNumArrayElems primitiveSize sizeRange.1 sizeRange.2
        (dataAvailable st.1 - 2)) : GenM S ℕ).run st = (.error .outOfDraws, st) := by
      rw [draw, Exec.run_zoom, hnum]
    exact .inr ⟨st, Exec.run_bind_error hdraw, .inl (by simp [hdraws])⟩

omit hrange in
/-- The range that is handed to `gen_range` is empty. -/
lemma run_appendGenerate_emptyRange (hfixed : sizeRange.1 = sizeRange.2)
    (hroom : (dataAvailable st.1 - 2) / primitiveSize ≠ sizeRange.1) :
    (appendGenerate sizeRange primitiveSize).run st = (.error .emptyRange, st) := by
  have hsub : usizeSub (dataAvailable st.1) 2 = dataAvailable st.1 - 2 := if_pos (by omega)
  have hmin : sizeRange.1 ≤ (dataAvailable st.1 - 2) / primitiveSize :=
    (Nat.le_div_iff_mul_le hsize).mpr (Nat.le_sub_of_add_le' hspace)
  have hlt : sizeRange.1 < (dataAvailable st.1 - 2) / primitiveSize := by omega
  have hempty : min sizeRange.2 ((dataAvailable st.1 - 2) / primitiveSize) = sizeRange.1 := by omega
  have hdraw : (draw (genNumArrayElems primitiveSize sizeRange.1 sizeRange.2
      (dataAvailable st.1 - 2)) : GenM S ℕ).run st = (.error .emptyRange, st) := by
    rw [genNumArrayElems, if_neg (Nat.pos_iff_ne_zero.mp hsize), if_pos hlt, hempty, draw,
      Exec.run_zoom, Distributions.genRange, if_neg (Nat.lt_irrefl _)]
    rfl
  rw [appendGenerate, Exec.run_gets_bind, hsub]
  exact Exec.run_bind_error hdraw

end Generates

end DataVec

def AtomicDataType.Generated (available : ℕ) (bytes : List UInt8) : AtomicDataType → Prop
  | dataInt size _ | dataStruct size _ => bytes.length = size
  | dataVec sizeRange primitiveSize _ => ∃ num rest,
    DataVec.NumElems sizeRange primitiveSize available num ∧
      num * primitiveSize + 2 ≤ available ∧ rest.length = num * primitiveSize ∧
      bytes = DataVec.sizePrefix (num * primitiveSize) ++ rest

lemma AtomicDataType.Generated.length {a : AtomicDataType} {available n : ℕ} {bytes : List UInt8}
    (h : a.Generated available bytes) (hs : a.size = .fixed n) : bytes.length = n := by
  cases a with
  | dataInt size generators => cases hs; exact h
  | dataVec sizeRange primitiveSize dtype => cases hs
  | dataStruct size fields => cases hs; exact h

lemma getData_of_dataSize {g : GraphSpec} {i d n : ℕ} {e : Panic}
    (h : dataSize (g.dataSpecs.take i) e d = .ok n) :
    ∃ spec, g.getData d = .ok spec ∧ spec.atomicType.size = .fixed n ∧ d < i := by
  unfold dataSize at h
  split at h
  · rename_i spec hspec
    rw [List.getElem?_take] at hspec
    split at hspec
    · rename_i hlt
      refine ⟨spec, GraphSpec.getData_eq_ok.mpr hspec, ?_, hlt⟩
      cases hsize : spec.atomicType.size with
      | fixed m =>
        rw [hsize] at h
        cases h
        rfl
      | dynamic =>
        rw [hsize] at h
        cases h
    · cases hspec
  · cases h

lemma fieldSizes_cons {specs : List AtomicSpec} {f : String × AtomicTypeID}
    {fields : List (String × AtomicTypeID)} {sizes : List ℕ}
    (h : fieldSizes specs (f :: fields) = .ok sizes) :
    ∃ n ns, sizes = n :: ns ∧ dataSize specs (.invalidFieldType f.2) f.2 = .ok n ∧
      fieldSizes specs fields = .ok ns := by
  rw [fieldSizes, List.mapM_cons] at h
  obtain ⟨n, hn, h⟩ := except_bind_eq_ok.mp h
  obtain ⟨ns, hns, h⟩ := except_bind_eq_ok.mp h
  cases h
  exact ⟨n, ns, rfl, hn, hns⟩

theorem AtomicDataType.appends_appendGenerate (g : GraphSpec) (depth i : ℕ) (a : AtomicDataType)
    (ha : a.WellFormed (g.dataSpecs.take i)) :
    Appends (a.appendGenerate g depth : GenM S Unit)
      fun s bytes => a.Generated (dataAvailable s) bytes := by
  induction depth generalizing i a with
  | zero => exact appends_panic _
  | succ depth ih =>
    cases a with
    | dataInt size generators => exact DataInt.appends_appendGenerate size generators
    | dataVec sizeRange primitiveSize dtype => exact DataVec.appends_appendGenerate _ _
    | dataStruct size fields =>
      obtain ⟨sizes, hsizes, rfl⟩ := ha
      -- the fields are written one behind the other, so their sizes add up
      induction fields generalizing sizes with
      | nil =>
        cases hsizes
        exact appends_pure.mono (by rintro s _ rfl; rfl)
      | cons f fields ihf =>
        obtain ⟨n, ns, rfl, hn, hns⟩ := fieldSizes_cons hsizes
        obtain ⟨spec, hspec, hsize, -⟩ := getData_of_dataSize hn
        have hwf := g.data_wf _ _ (GraphSpec.getData_eq_ok.mp hspec)
        have hfield : Appends (match g.getData f.2 with
            | .ok spec => spec.atomicType.appendGenerate g depth
            | .error _ => Exec.panic .unwrapErr : GenM S Unit) fun _ bytes => bytes.length = n := by
          rw [hspec]
          exact (ih _ _ hwf).mono fun _ _ h => h.length hsize
        refine (hfield.bind (ihf ns hns)).mono ?_
        rintro s _ ⟨s', bs, bs', rfl, hbs, hbs'⟩
        show (bs ++ bs').length = (n :: ns).sum
        rw [List.length_append, List.sum_cons, hbs]
        exact congrArg (n + ·) hbs'

lemma AtomicDataType.appends_appendMutated (a : AtomicDataType) (data : List UInt8)
    (dict : CustomDict) :
    Appends (a.appendMutated data dict : GenM S Unit) fun _ bytes =>
      bytes.length = data.length ∧ (a.size = .dynamic → bytes.take 2 = data.take 2) := by
  have hplain : Appends (GenM.appendData data >>= fun _ =>
      onTail data.length (mutate (some dict)) : GenM S Unit)
      fun _ bytes => bytes.length = data.length := by
    refine ((appends_appendData data).retouch
      (retouches_onTail (maintains_mutate _)) ?_).mono ?_
    · rintro s _ rfl
      exact le_rfl
    · rintro s _ ⟨pre, old, new, rfl, hpre, hold, hnew⟩
      have := congrArg List.length hpre
      rw [List.length_append] at this ⊢
      omega
  cases a with
  | dataInt size generators => exact hplain.mono fun _ _ h => ⟨h, fun hd => by cases hd⟩
  | dataStruct size fields => exact hplain.mono fun _ _ h => ⟨h, fun hd => by cases hd⟩
  | dataVec sizeRange primitiveSize dtype =>
    rcases data with _ | ⟨lo, _ | ⟨hi, rest⟩⟩
    · exact appends_panic (S := S) .indexOutOfBounds
    · exact appends_panic (S := S) .indexOutOfBounds
    · have hbody := (appends_appendData (S := S) (lo :: hi :: rest)).retouch
        (retouches_onTail (k := rest.length) (maintains_mutate (some dict)))
        (by rintro s _ rfl; simp; omega)
      refine (appends_check_bind
        (fun _ => decide (lo.toNat + hi.toNat <<< 8 + 2 = (lo :: hi :: rest).length)) hbody).mono ?_
      rintro s _ ⟨-, pre, old, new, rfl, hpre, hold, hnew⟩
      have hpre' : pre ++ old = [lo, hi] ++ rest := hpre
      obtain ⟨rfl, rfl⟩ := List.append_inj' hpre' hold
      exact ⟨by simp [hnew], fun _ => rfl⟩

end Appends

end Nyx
