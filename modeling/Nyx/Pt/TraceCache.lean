import Nyx.Pt.TntCache
import Mathlib.Data.List.Count
import Mathlib.Data.List.Nodup
import Mathlib.Data.List.Perm.Subperm

/-!
# Tracelets

`pt/trace_cache.c`: the transitions of a piece of a trace are collected as offsets into the bitmap
with their number of hits, packed into 32 bits each, and added to the bitmap in one go.
-/

namespace Nyx.Pt

open Function

abbrev Transition := UInt64 × UInt64

abbrev FuzzBitmap := UInt32 → UInt8

def maxResultsPerCache : ℕ := 58

def mixBits (v : UInt64) : UInt64 :=
  let v := v ^^^ v >>> 31
  v * 0x7fb5d329728ea185

def generateResultOffset (src dst : UInt64) : UInt32 := (mixBits dst ^^^ mixBits src >>> 1).toUInt32

def fuzzBitmapSet (size : UInt32) (bitmap : FuzzBitmap) (t : Transition) : FuzzBitmap :=
  let transitionValue := (mixBits t.2 ^^^ mixBits t.1 >>> 1).toUInt32
  update bitmap (transitionValue &&& (size - 1))
    (bitmap (transitionValue &&& (size - 1)) + 1)

/-- The transitions of a piece, ready for the bitmap. -/
structure Tracelet where
  nextEntryAddress : UInt64
  tntBits : ℕ
  /-- The hits in the upper eight bits, the offset in the others. -/
  bitmapResults : List UInt32
  contExec : Bool

/-- The tracelet under construction: plain offsets, and the hits by offset. -/
structure TraceletTmp where
  nextEntryAddress : UInt64
  tntBits : ℕ
  bitmapResults : List UInt32
  lookupBitmap : UInt32 → UInt8

namespace TraceletTmp

def new : TraceletTmp where
  nextEntryAddress := 0
  tntBits := 0
  bitmapResults := []
  lookupBitmap _ := 0

def resetTraceletTmpCache (tmp : TraceletTmp) : TraceletTmp where
  nextEntryAddress := 0xFFFFFFFFFFFFFFFF
  tntBits := 0
  bitmapResults := []
  lookupBitmap := tmp.bitmapResults.foldl (fun lookup offset => update lookup offset 0)
    tmp.lookupBitmap

/-- `none` if the assertion on the number of results fails. -/
def addResultTraceletCache (size : UInt32) (tmp : TraceletTmp) (src dst : UInt64) :
    Option TraceletTmp :=
  if tmp.bitmapResults.length < maxResultsPerCache then
    let offset := generateResultOffset src dst &&& (size - 1)
    some { tmp with
      bitmapResults :=
        if tmp.lookupBitmap offset = 0 then tmp.bitmapResults ++ [offset] else tmp.bitmapResults
      lookupBitmap := update tmp.lookupBitmap offset (tmp.lookupBitmap offset + 1)
      tntBits := tmp.tntBits + 1 }
  else none

def newFromTraceletCacheTmp (tmp : TraceletTmp) (contExec : Bool) : Tracelet where
  nextEntryAddress := tmp.nextEntryAddress
  tntBits := tmp.tntBits
  bitmapResults := tmp.bitmapResults.map fun offset =>
    (tmp.lookupBitmap offset).toUInt32 <<< 24 ||| offset
  contExec := contExec

end TraceletTmp

namespace Tracelet

def setNextEntryAddres (tracelet : Tracelet) (nextEntryAddress : UInt64) : Tracelet :=
  { tracelet with nextEntryAddress := nextEntryAddress }

def applyResult (bitmap : FuzzBitmap) (packed : UInt32) : FuzzBitmap :=
  let result := (packed >>> 24).toUInt8
  let offset := packed &&& 0xFFFFFF
  update bitmap offset (bitmap offset + result)

def applyTraceCacheToBitmap (tracelet : Tracelet) (tnt : TntCache) (bitmap : FuzzBitmap)
    (adjust : Bool) : UInt64 × TntCache × FuzzBitmap :=
  (tracelet.nextEntryAddress, if adjust then tnt.adjustTntCache tracelet.tntBits else tnt,
    tracelet.bitmapResults.foldl applyResult bitmap)

end Tracelet

def hits (size : UInt32) (ts : List Transition) (offset : UInt32) : ℕ :=
  (ts.map fun t => generateResultOffset t.1 t.2 &&& (size - 1)).count offset

lemma hits_append_singleton (size : UInt32) (ts : List Transition) (t : Transition)
    (offset : UInt32) :
    hits size (ts ++ [t]) offset =
      hits size ts offset + if generateResultOffset t.1 t.2 &&& (size - 1) = offset then 1 else 0 := by
  simp [hits, List.count_append, List.count_singleton]

lemma hits_le_length (size : UInt32) (ts : List Transition) (offset : UInt32) :
    hits size ts offset ≤ ts.length := by
  have h := List.count_le_length (a := offset)
    (l := ts.map fun t => generateResultOffset t.1 t.2 &&& (size - 1))
  simpa [hits] using h

lemma hits_cons (size : UInt32) (t : Transition) (ts : List Transition) (offset : UInt32) :
    hits size (t :: ts) offset =
      hits size ts offset + if generateResultOffset t.1 t.2 &&& (size - 1) = offset then 1 else 0 := by
  simp [hits, List.count_cons]

lemma fuzzBitmapSet_eq (size : UInt32) (bitmap : FuzzBitmap) (t : Transition) :
    fuzzBitmapSet size bitmap t =
      update bitmap (generateResultOffset t.1 t.2 &&& (size - 1))
        (bitmap (generateResultOffset t.1 t.2 &&& (size - 1)) + 1) :=
  rfl

lemma foldl_fuzzBitmapSet (size : UInt32) (ts : List Transition) (bitmap : FuzzBitmap)
    (offset : UInt32) :
    ts.foldl (fuzzBitmapSet size) bitmap offset =
      bitmap offset + UInt8.ofNat (hits size ts offset) := by
  induction ts generalizing bitmap with
  | nil => simp [hits]
  | cons t ts ih =>
    rw [List.foldl_cons, ih, hits_cons]
    have hset : fuzzBitmapSet size bitmap t offset = bitmap offset +
        UInt8.ofNat (if generateResultOffset t.1 t.2 &&& (size - 1) = offset then 1 else 0) := by
      rw [fuzzBitmapSet_eq]
      by_cases ho : generateResultOffset t.1 t.2 &&& (size - 1) = offset
      · subst ho
        simp
      · rw [if_neg ho, update_of_ne (Ne.symm ho)]
        simp
    rw [hset, Nat.add_comm, UInt8.ofNat_add, UInt8.add_assoc]

/-- The tracelet under construction holds exactly these transitions. -/
structure Records (size : UInt32) (tmp : TraceletTmp) (ts : List Transition) : Prop where
  tntBits : tmp.tntBits = ts.length
  nodup : tmp.bitmapResults.Nodup
  mem_iff : ∀ offset, offset ∈ tmp.bitmapResults ↔ 0 < hits size ts offset
  lookup : ∀ offset, (tmp.lookupBitmap offset).toNat = hits size ts offset

/-- What `reset_tracelet_tmp_cache` relies on: there are hits at listed offsets only. -/
def TraceletTmp.Listed (tmp : TraceletTmp) : Prop :=
  ∀ offset, offset ∉ tmp.bitmapResults → tmp.lookupBitmap offset = 0

namespace TraceletTmp

lemma Listed.add {size : UInt32} {tmp tmp' : TraceletTmp} {src dst : UInt64} (h : tmp.Listed)
    (hadd : tmp.addResultTraceletCache size src dst = some tmp') : tmp'.Listed := by
  unfold addResultTraceletCache at hadd
  split at hadd
  · cases hadd
    intro offset hoffset
    dsimp only at hoffset ⊢
    by_cases heq : offset = generateResultOffset src dst &&& (size - 1)
    · subst heq
      split at hoffset
      · simp at hoffset
      · next hne => exact absurd (h _ hoffset) hne
    · rw [update_of_ne heq]
      apply h
      intro hmem
      apply hoffset
      split
      · exact List.mem_append_left _ hmem
      · exact hmem
  · cases hadd

end TraceletTmp

namespace Records

variable {size : UInt32} {tmp : TraceletTmp} {ts : List Transition}

lemma listed (h : Records size tmp ts) : tmp.Listed := by
  intro offset hoffset
  have hzero : hits size ts offset = 0 := by
    have hnot := mt (h.mem_iff offset).mpr hoffset
    omega
  apply UInt8.toNat_inj.mp
  rw [h.lookup, hzero]
  rfl

lemma length_le (h : Records size tmp ts) : tmp.bitmapResults.length ≤ ts.length := by
  have hsub : tmp.bitmapResults ⊆
      ts.map fun t => generateResultOffset t.1 t.2 &&& (size - 1) := by
    intro offset hoffset
    exact List.count_pos_iff.mp ((h.mem_iff offset).mp hoffset)
  simpa using (h.nodup.subperm hsub).length_le

lemma reset (h : tmp.Listed) : Records size tmp.resetTraceletTmpCache [] where
  tntBits := rfl
  nodup := List.nodup_nil
  mem_iff offset := by simp [TraceletTmp.resetTraceletTmpCache, hits]
  lookup offset := by
    have hcleared : ∀ (offsets : List UInt32) (lookup : UInt32 → UInt8),
        (offset ∉ offsets → lookup offset = 0) →
        offsets.foldl (fun l o => update l o 0) lookup offset = 0 := by
      intro offsets
      induction offsets with
      | nil =>
        intro lookup hlookup
        exact hlookup List.not_mem_nil
      | cons o offsets ih =>
        intro lookup hlookup
        apply ih
        intro hnot
        by_cases ho : offset = o
        · simp [ho]
        · have hsame : update lookup o 0 offset = lookup offset :=
            update_of_ne ho 0 lookup
          exact hsame.trans (hlookup (by simp [ho, hnot]))
    simp [TraceletTmp.resetTraceletTmpCache, hcleared tmp.bitmapResults tmp.lookupBitmap (h offset),
      hits]

lemma add (h : Records size tmp ts) (hroom : ts.length < maxResultsPerCache) (t : Transition) :
    ∃ tmp', tmp.addResultTraceletCache size t.1 t.2 = some tmp' ∧ Records size tmp' (ts ++ [t]) := by
  have hlen : tmp.bitmapResults.length < maxResultsPerCache := h.length_le.trans_lt hroom
  have hsmall := hits_le_length size ts (generateResultOffset t.1 t.2 &&& (size - 1))
  have hlookup := h.lookup (generateResultOffset t.1 t.2 &&& (size - 1))
  have hmem := h.mem_iff (generateResultOffset t.1 t.2 &&& (size - 1))
  refine ⟨_, if_pos hlen, ?_⟩
  generalize ho : generateResultOffset t.1 t.2 &&& (size - 1) = o at hsmall hlookup hmem ⊢
  have hzero : tmp.lookupBitmap o = 0 ↔ o ∉ tmp.bitmapResults := by
    rw [← UInt8.toNat_inj, hlookup, hmem]
    simp
  exact
    { tntBits := by simp [h.tntBits]
      nodup := by
        by_cases hnew : tmp.lookupBitmap o = 0
        · rw [if_pos hnew, ← List.concat_eq_append]
          exact h.nodup.concat (hzero.mp hnew)
        · simpa [hnew] using h.nodup
      mem_iff := by
        intro offset
        rw [hits_append_singleton, ho]
        by_cases hnew : tmp.lookupBitmap o = 0
        · by_cases hoff : o = offset
          · subst hoff
            simp [hnew]
          · simp [hnew, hoff, Ne.symm hoff, h.mem_iff]
        · by_cases hoff : o = offset
          · subst hoff
            simpa [hnew] using not_not.mp (mt hzero.mpr hnew)
          · simp [hnew, hoff, h.mem_iff]
      lookup := by
        intro offset
        rw [hits_append_singleton, ho]
        by_cases hoff : o = offset
        · subst hoff
          have hbound : (tmp.lookupBitmap o).toNat + 1 < 256 := by
            simp only [maxResultsPerCache] at hroom
            omega
          simp [UInt8.toNat_add, hlookup]
          omega
        · simp [hoff, update_of_ne (Ne.symm hoff), h.lookup] }

end Records

lemma applyResult_packed (bitmap : FuzzBitmap) (hit : UInt8) {offset : UInt32}
    (h : offset.toNat < 2 ^ 24) :
    Tracelet.applyResult bitmap (hit.toUInt32 <<< 24 ||| offset) =
      update bitmap offset (bitmap offset + hit) := by
  have hhit := hit.toNat_lt
  have hpacked : (hit.toUInt32 <<< 24 ||| offset).toNat = hit.toNat * 2 ^ 24 + offset.toNat := by
    have hshift : (hit.toUInt32 <<< 24).toNat = hit.toNat <<< 24 := by
      rw [UInt32.toNat_shiftLeft, UInt8.toNat_toUInt32]
      apply Nat.mod_eq_of_lt
      have hcount : (24 : UInt32).toNat % 32 = 24 := rfl
      rw [hcount]
      omega
    rw [UInt32.toNat_or, hshift, ← Nat.shiftLeft_add_eq_or_of_lt h, Nat.shiftLeft_eq]
  have hresult : ((hit.toUInt32 <<< 24 ||| offset) >>> 24).toUInt8 = hit := by
    apply UInt8.toNat_inj.mp
    have hcount : (24 : UInt32).toNat % 32 = 24 := rfl
    rw [UInt32.toNat_toUInt8, UInt32.toNat_shiftRight, hpacked, hcount, Nat.shiftRight_eq_div_pow]
    omega
  have hoffset : (hit.toUInt32 <<< 24 ||| offset) &&& 0xFFFFFF = offset := by
    apply UInt32.toNat_inj.mp
    have hmask : (0xFFFFFF : UInt32).toNat = 2 ^ 24 - 1 := rfl
    rw [UInt32.toNat_and, hpacked, hmask, Nat.and_two_pow_sub_one_eq_mod]
    omega
  simp only [Tracelet.applyResult, hresult, hoffset]

lemma foldl_applyResult (lookup : UInt32 → UInt8) {offsets : List UInt32} (hnodup : offsets.Nodup)
    (hsmall : ∀ o ∈ offsets, o.toNat < 2 ^ 24) (bitmap : FuzzBitmap) (offset : UInt32) :
    (offsets.map fun o => (lookup o).toUInt32 <<< 24 ||| o).foldl Tracelet.applyResult bitmap
        offset =
      bitmap offset + if offset ∈ offsets then lookup offset else 0 := by
  induction offsets generalizing bitmap with
  | nil => simp
  | cons o offsets ih =>
    obtain ⟨hnot, hrest⟩ := List.nodup_cons.mp hnodup
    rw [List.map_cons, List.foldl_cons, applyResult_packed _ _ (hsmall o List.mem_cons_self),
      ih hrest fun o' ho' => hsmall o' (List.mem_cons_of_mem o ho')]
    by_cases ho : offset = o
    · subst ho
      simp [hnot]
    · simp [ho]

lemma resultOffset_lt {size : UInt32} (hsize : (size - 1).toNat < 2 ^ 24) (x : UInt32) :
    (x &&& (size - 1)).toNat < 2 ^ 24 := by
  exact Nat.and_le_right.trans_lt hsize

/-- A tracelet does to the bitmap what its transitions do one by one. -/
theorem Records.foldl_bitmapResults {size : UInt32} {tmp : TraceletTmp} {ts : List Transition}
    (h : Records size tmp ts) (hsize : (size - 1).toNat < 2 ^ 24) (contExec : Bool)
    (bitmap : FuzzBitmap) :
    (tmp.newFromTraceletCacheTmp contExec).bitmapResults.foldl Tracelet.applyResult bitmap =
      ts.foldl (fuzzBitmapSet size) bitmap := by
  have hsmall : ∀ o ∈ tmp.bitmapResults, o.toNat < 2 ^ 24 := by
    intro o ho
    obtain ⟨t, -, rfl⟩ := List.mem_map.mp (List.count_pos_iff.mp ((h.mem_iff o).mp ho))
    exact resultOffset_lt hsize _
  funext offset
  rw [TraceletTmp.newFromTraceletCacheTmp, foldl_applyResult _ h.nodup hsmall, foldl_fuzzBitmapSet,
    ← h.lookup, UInt8.ofNat_toNat]
  by_cases ho : offset ∈ tmp.bitmapResults
  · rw [if_pos ho]
  · rw [if_neg ho, h.listed offset ho]

/-- A use of the temporary cache: it is reset and takes the edges, `none` if an assertion fails. -/
def TraceletTmp.recordEdges (size : UInt32) (tmp : TraceletTmp) (ts : List Transition) :
    Option TraceletTmp :=
  ts.foldlM (fun tmp t => tmp.addResultTraceletCache size t.1 t.2) tmp.resetTraceletTmpCache

lemma Records.foldlM_add {size : UInt32} {tmp : TraceletTmp} {done ts : List Transition}
    (h : Records size tmp done) (hlen : (done ++ ts).length ≤ maxResultsPerCache) :
    ∃ tmp', ts.foldlM (fun tmp t => tmp.addResultTraceletCache size t.1 t.2) tmp = some tmp' ∧
      Records size tmp' (done ++ ts) := by
  induction ts generalizing tmp done with
  | nil => exact ⟨tmp, rfl, by rwa [List.append_nil]⟩
  | cons t ts ih =>
    have hroom : done.length < maxResultsPerCache := by
      rw [List.length_append, List.length_cons] at hlen
      omega
    obtain ⟨tmp₁, hadd, h₁⟩ := h.add hroom t
    rw [List.append_cons] at hlen ⊢
    obtain ⟨tmp', hfold, h'⟩ := ih h₁ hlen
    refine ⟨tmp', ?_, h'⟩
    rw [List.foldlM_cons, hadd]
    exact hfold

lemma TraceletTmp.Listed.recordEdges {size : UInt32} {tmp : TraceletTmp} (h : tmp.Listed)
    {ts : List Transition} (hlen : ts.length ≤ maxResultsPerCache) :
    ∃ tmp', tmp.recordEdges size ts = some tmp' ∧ Records size tmp' ts :=
  (Records.reset h).foldlM_add hlen

lemma TraceletTmp.Listed.uses {size : UInt32} {tmp : TraceletTmp} (h : tmp.Listed)
    {uses : List (List Transition)} (huses : ∀ ts ∈ uses, ts.length ≤ maxResultsPerCache) :
    ∃ tmp', uses.foldlM (TraceletTmp.recordEdges size) tmp = some tmp' ∧ tmp'.Listed := by
  induction uses generalizing tmp with
  | nil => exact ⟨tmp, rfl, h⟩
  | cons ts uses ih =>
    obtain ⟨hts, huses⟩ := List.forall_mem_cons.mp huses
    obtain ⟨tmp₁, huse, h₁⟩ := h.recordEdges hts
    obtain ⟨tmp', hfold, h'⟩ := ih h₁.listed huses
    refine ⟨tmp', ?_, h'⟩
    rw [List.foldlM_cons, huse]
    exact hfold

/-- However the temporary cache was used before, the tracelet made from it changes a bitmap as its
edges do one by one, and a reset leaves no hits behind. -/
theorem recordEdges_exact (k : ℕ) (hk : k ≤ 24) (uses : List (List Transition))
    (huses : ∀ ts ∈ uses, ts.length ≤ maxResultsPerCache) (ts : List Transition)
    (hts : ts.length ≤ maxResultsPerCache) :
    ∃ tmp tmp', uses.foldlM (TraceletTmp.recordEdges (UInt32.ofNat (2 ^ k))) .new = some tmp ∧
      tmp.recordEdges (UInt32.ofNat (2 ^ k)) ts = some tmp' ∧
      (∀ contExec tnt bitmap adjust,
        ((tmp'.newFromTraceletCacheTmp contExec).applyTraceCacheToBitmap tnt bitmap adjust).2.2 =
          ts.foldl (fuzzBitmapSet (UInt32.ofNat (2 ^ k))) bitmap) ∧
      ∀ offset, tmp'.resetTraceletTmpCache.lookupBitmap offset = 0 := by
  have hnew : TraceletTmp.new.Listed := fun _ _ => rfl
  obtain ⟨tmp, hfold, hlisted⟩ := hnew.uses huses
  obtain ⟨tmp', huse, hrecords⟩ := hlisted.recordEdges hts
  refine ⟨tmp, tmp', hfold, huse, fun contExec tnt bitmap adjust => ?_, fun offset => ?_⟩
  · have hsize : (UInt32.ofNat (2 ^ k) - 1).toNat < 2 ^ 24 := by
      have hle : 2 ^ k ≤ 2 ^ 24 := Nat.pow_le_pow_right (by decide) hk
      have hpos := Nat.two_pow_pos k
      have hnat : (UInt32.ofNat (2 ^ k)).toNat = 2 ^ k := UInt32.toNat_ofNat_of_lt' (by
        rw [UInt32.size]
        omega)
      rw [UInt32.toNat_sub_of_le _ _ (by rw [UInt32.le_iff_toNat_le, hnat]; exact hpos), hnat]
      show 2 ^ k - 1 < 2 ^ 24
      omega
    exact hrecords.foldl_bitmapResults hsize contExec bitmap
  · have hreset : Records (UInt32.ofNat (2 ^ k)) tmp'.resetTraceletTmpCache [] :=
      Records.reset hrecords.listed
    exact UInt8.toNat_inj.mp (hreset.lookup offset)

theorem recordEdges_exact_threeEdges :
    ∃ tmp tmp', [[(1, 2)]].foldlM (TraceletTmp.recordEdges (UInt32.ofNat (2 ^ 16))) .new = some tmp ∧
      tmp.recordEdges (UInt32.ofNat (2 ^ 16)) [(5, 6), (1, 2), (5, 6)] = some tmp' ∧
      ∀ offset, tmp'.resetTraceletTmpCache.lookupBitmap offset = 0 := by
  obtain ⟨tmp, tmp', hfold, huse, -, hreset⟩ := recordEdges_exact 16 (by decide)
    [[(1, 2)]] (by decide) [(5, 6), (1, 2), (5, 6)] (by decide)
  exact ⟨tmp, tmp', hfold, huse, hreset⟩

end Nyx.Pt
