import Nyx.Lib.TwoLevel
import Mathlib.Order.Lattice.Nat

/-!
# Coverage bitmaps

`rust_fuzzer/src/bitmap.rs`: the largest value seen at every index, for each of the four ways a run
can end that are of interest. `check_new_bytes` reports what exceeds it.
-/

namespace Nyx.Fuzzer

inductive ExitReason where
  | normal (code : Int32)
  | timeout
  | signaled (signal : Int32)
  | crash (desc : List UInt8)
  | asan
  | stopped (signal : Int32)
  | fuzzerError
  | invalidWriteToPayload (desc : List UInt8)
  deriving DecidableEq

/-- A byte of a bitmap that a run has raised. -/
structure StorageReason where
  index : ℕ
  old : UInt8
  new : UInt8
  deriving DecidableEq, Repr

/-- The two sides of the assertion on the lengths. -/
structure LengthMismatch where
  left : ℕ
  right : ℕ
  deriving DecidableEq, Repr

/-- The highest count seen for each index. -/
structure Bitmap where
  bits : List UInt8
  deriving DecidableEq

namespace Bitmap

def new (size : ℕ) : Bitmap := ⟨List.replicate size 0⟩

/-- The loop of `check_new_bytes` from index `i` on: the bytes it leaves, and `res`. -/
def checkLoop : ℕ → List UInt8 → List UInt8 → Option (List StorageReason) →
    List UInt8 × Option (List StorageReason)
  | i, old :: olds, new :: news, res =>
    if new > old then
      let rest := checkLoop (i + 1) olds news (some (res.getD [] ++ [⟨i, old, new⟩]))
      (new :: rest.1, rest.2)
    else
      let rest := checkLoop (i + 1) olds news res
      (old :: rest.1, rest.2)
  | _, olds, _, res => (olds, res)

def checkNewBytes (b : Bitmap) (runBitmap : List UInt8) :
    Except LengthMismatch (Option (List StorageReason) × Bitmap) :=
  if b.bits.length = runBitmap.length then
    let r := checkLoop 0 b.bits runBitmap none
    .ok (r.2, ⟨r.1⟩)
  else
    .error ⟨b.bits.length, runBitmap.length⟩

end Bitmap

/-- The count at an index. -/
def byteAt (bits : List UInt8) (i : ℕ) : UInt8 := bits.getD i 0

@[simp] lemma byteAt_nil (i : ℕ) : byteAt [] i = 0 := rfl

@[simp] lemma byteAt_cons_zero (b : UInt8) (bits : List UInt8) : byteAt (b :: bits) 0 = b := rfl

@[simp] lemma byteAt_cons_succ (b : UInt8) (bits : List UInt8) (i : ℕ) :
    byteAt (b :: bits) (i + 1) = byteAt bits i := rfl

@[simp] lemma byteAt_replicate (n i : ℕ) : byteAt (List.replicate n 0) i = 0 := by
  simp [byteAt, List.getD_eq_getElem?_getD, List.getElem?_replicate]
  split <;> rfl

namespace Bitmap

/-- The bytes that are raised. -/
def newBytes : ℕ → List UInt8 → List UInt8 → List StorageReason
  | i, old :: olds, new :: news =>
    if new > old then ⟨i, old, new⟩ :: newBytes (i + 1) olds news else newBytes (i + 1) olds news
  | _, _, _ => []

def pushed (res : Option (List StorageReason)) (reasons : List StorageReason) :
    Option (List StorageReason) :=
  if reasons = [] then res else some (res.getD [] ++ reasons)

lemma pushed_some (rs reasons : List StorageReason) :
    pushed (some rs) reasons = some (rs ++ reasons) := by
  by_cases h : reasons = []
  · simp [pushed, h]
  · simp [pushed, h]

lemma checkLoop_res (i : ℕ) (olds news : List UInt8) (res : Option (List StorageReason)) :
    (checkLoop i olds news res).2 = pushed res (newBytes i olds news) := by
  induction olds generalizing i news res with
  | nil => simp [checkLoop, newBytes, pushed]
  | cons old olds ih =>
    cases news with
    | nil => simp [checkLoop, newBytes, pushed]
    | cons new news =>
      by_cases h : new > old
      · simp only [checkLoop, newBytes, h, if_true, ih, pushed_some]
        simp [pushed]
      · simp [checkLoop, newBytes, h, ih]

lemma length_checkLoop (i : ℕ) (olds news : List UInt8) (res : Option (List StorageReason)) :
    (checkLoop i olds news res).1.length = olds.length := by
  induction olds generalizing i news res with
  | nil => simp [checkLoop]
  | cons old olds ih =>
    cases news with
    | nil => simp [checkLoop]
    | cons new news =>
      by_cases h : new > old
      · simp [checkLoop, h, ih]
      · simp [checkLoop, h, ih]

variable {news olds : List UInt8}

lemma byteAt_checkLoop (hlen : olds.length = news.length) (i : ℕ)
    (res : Option (List StorageReason)) (j : ℕ) :
    (byteAt (checkLoop i olds news res).1 j).toNat =
      max (byteAt olds j).toNat (byteAt news j).toNat := by
  induction olds generalizing i news res j with
  | nil =>
    have hnews : news = [] := List.length_eq_zero_iff.mp hlen.symm
    simp [checkLoop, hnews]
  | cons old olds ih =>
    cases news with
    | nil => cases hlen
    | cons new news =>
      have hrest : olds.length = news.length := by simpa using hlen
      by_cases h : new > old
      · have hlt : old.toNat < new.toNat := UInt8.lt_iff_toNat_lt.mp h
        cases j with
        | zero => simp [checkLoop, h]; omega
        | succ j => simp [checkLoop, h, ih hrest]
      · have hle : new.toNat ≤ old.toNat := by
          rw [gt_iff_lt, UInt8.lt_iff_toNat_lt] at h
          omega
        cases j with
        | zero => simp [checkLoop, h]; omega
        | succ j => simp [checkLoop, h, ih hrest]

lemma le_index_newBytes (i : ℕ) (olds news : List UInt8) :
    ∀ r ∈ newBytes i olds news, i ≤ r.index := by
  induction olds generalizing i news with
  | nil => simp [newBytes]
  | cons old olds ih =>
    cases news with
    | nil => simp [newBytes]
    | cons new news =>
      intro r hr
      have hmem : r = ⟨i, old, new⟩ ∨ r ∈ newBytes (i + 1) olds news := by
        by_cases h : new > old
        · simpa [newBytes, h] using hr
        · exact .inr (by simpa [newBytes, h] using hr)
      rcases hmem with rfl | hmem
      · exact le_rfl
      · have hi := ih (i + 1) news r hmem
        omega

lemma getElem?_of_mem_newBytes {i : ℕ} {r : StorageReason}
    (hr : r ∈ newBytes i olds news) : news[r.index - i]? = some r.new := by
  induction olds generalizing i news with
  | nil => simp [newBytes] at hr
  | cons old olds ih =>
    cases news with
    | nil => simp [newBytes] at hr
    | cons new news =>
      have hmem : r = ⟨i, old, new⟩ ∨ r ∈ newBytes (i + 1) olds news := by
        by_cases h : new > old
        · simpa [newBytes, h] using hr
        · exact .inr (by simpa [newBytes, h] using hr)
      rcases hmem with rfl | hmem
      · simp
      · have hi := le_index_newBytes (i + 1) olds news r hmem
        have hsub : r.index - i = (r.index - (i + 1)) + 1 := by omega
        rw [hsub, List.getElem?_cons_succ]
        exact ih hmem

lemma filter_newBytes (hlen : olds.length = news.length) (i j : ℕ) :
    (newBytes i olds news).filter (·.index = i + j) =
      if byteAt olds j < byteAt news j then [⟨i + j, byteAt olds j, byteAt news j⟩] else [] := by
  induction olds generalizing i news j with
  | nil =>
    have hnews : news = [] := List.length_eq_zero_iff.mp hlen.symm
    simp [newBytes, hnews]
  | cons old olds ih =>
    cases news with
    | nil => cases hlen
    | cons new news =>
      have hrest : olds.length = news.length := by simpa using hlen
      cases j with
      | zero =>
        have hlater : (newBytes (i + 1) olds news).filter (·.index = i) = [] := by
          apply List.filter_eq_nil_iff.mpr
          intro r hr
          have hi := le_index_newBytes (i + 1) olds news r hr
          simp
          omega
        by_cases h : new > old
        · simp [newBytes, h, hlater]
        · simp [newBytes, h, hlater]
      | succ j =>
        have hstep := ih hrest (i + 1) j
        rw [show i + 1 + j = i + (j + 1) by omega] at hstep
        by_cases h : new > old
        · rw [newBytes, if_pos h, List.filter_cons_of_neg (by simp)]
          exact hstep
        · rw [newBytes, if_neg h]
          exact hstep

lemma newBytes_eq_nil_iff (hlen : olds.length = news.length) :
    newBytes 0 olds news = [] ↔ ∀ j, byteAt news j ≤ byteAt olds j := by
  constructor
  · intro hnil j
    have hat := filter_newBytes hlen 0 j
    rw [hnil] at hat
    by_contra hle
    rw [if_pos (UInt8.not_le.mp hle)] at hat
    cases hat
  · intro hle
    apply List.eq_nil_iff_forall_not_mem.mpr
    intro r hr
    have hat := filter_newBytes hlen 0 r.index
    rw [if_neg (UInt8.not_lt.mpr (hle r.index))] at hat
    have hnone := List.filter_eq_nil_iff.mp hat r hr
    simp at hnone

lemma checkNewBytes_spec (b : Bitmap) {run : List UInt8} (hlen : b.bits.length = run.length) :
    ∃ b' : Bitmap, b.checkNewBytes run = .ok (pushed none (newBytes 0 b.bits run), b') ∧
      b'.bits.length = b.bits.length ∧
      ∀ i, (byteAt b'.bits i).toNat = max (byteAt b.bits i).toNat (byteAt run i).toNat := by
  refine ⟨⟨(checkLoop 0 b.bits run none).1⟩, ?_, ?_, ?_⟩
  · simp only [checkNewBytes, if_pos hlen, checkLoop_res]
  · exact length_checkLoop 0 b.bits run none
  · exact byteAt_checkLoop hlen 0 none

end Bitmap

/-- One bitmap for each class of exits. -/
structure BitmapHandler where
  normal : Bitmap
  crash : Bitmap
  timeout : Bitmap
  invalidWriteToPayload : Bitmap
  size : ℕ
  deriving DecidableEq

namespace BitmapHandler

def new (size : ℕ) : BitmapHandler where
  normal := Bitmap.new size
  crash := Bitmap.new size
  timeout := Bitmap.new size
  invalidWriteToPayload := Bitmap.new size
  size := size

def checkNewBytes (h : BitmapHandler) (runBitmap : List UInt8) (etype : ExitReason) :
    Except LengthMismatch (Option (List StorageReason) × BitmapHandler) :=
  match etype with
  | .normal _ => (h.normal.checkNewBytes runBitmap).map fun r => (r.1, { h with normal := r.2 })
  | .crash _ => (h.crash.checkNewBytes runBitmap).map fun r => (r.1, { h with crash := r.2 })
  | .timeout => (h.timeout.checkNewBytes runBitmap).map fun r => (r.1, { h with timeout := r.2 })
  | .invalidWriteToPayload _ =>
    (h.invalidWriteToPayload.checkNewBytes runBitmap).map fun r =>
      (r.1, { h with invalidWriteToPayload := r.2 })
  | _ => .ok (none, h)

end BitmapHandler

inductive ExitClass where
  | normal
  | crash
  | timeout
  | invalidWriteToPayload
  deriving DecidableEq

/-- The bitmap that a run belongs to. -/
def ExitReason.exitClass : ExitReason → Option ExitClass
  | .normal _ => some .normal
  | .crash _ => some .crash
  | .timeout => some .timeout
  | .invalidWriteToPayload _ => some .invalidWriteToPayload
  | _ => none

namespace BitmapHandler

def bitmap (h : BitmapHandler) : ExitClass → Bitmap
  | .normal => h.normal
  | .crash => h.crash
  | .timeout => h.timeout
  | .invalidWriteToPayload => h.invalidWriteToPayload

def setBitmap (h : BitmapHandler) (b : Bitmap) : ExitClass → BitmapHandler
  | .normal => { h with normal := b }
  | .crash => { h with crash := b }
  | .timeout => { h with timeout := b }
  | .invalidWriteToPayload => { h with invalidWriteToPayload := b }

lemma bitmap_setBitmap (h : BitmapHandler) (b : Bitmap) (c d : ExitClass) :
    (h.setBitmap b c).bitmap d = if c = d then b else h.bitmap d := by
  cases c <;> cases d <;> rfl

@[simp] lemma bitmap_new (size : ℕ) (c : ExitClass) : (new size).bitmap c = Bitmap.new size := by
  cases c <;> rfl

lemma checkNewBytes_eq (h : BitmapHandler) (run : List UInt8) (etype : ExitReason) :
    h.checkNewBytes run etype =
      match etype.exitClass with
      | some c => ((h.bitmap c).checkNewBytes run).map fun r => (r.1, h.setBitmap r.2 c)
      | none => .ok (none, h) := by
  cases etype <;> rfl

def Sized (size : ℕ) (h : BitmapHandler) : Prop := ∀ c, (h.bitmap c).bits.length = size

lemma sized_new (size : ℕ) : (new size).Sized size := by
  intro c
  simp [Bitmap.new]

def level (h : BitmapHandler) : ExitClass → ℕ → ℕ := fun c i => (byteAt (h.bitmap c).bits i).toNat

end BitmapHandler

/-- What a run has at each class and index: nothing outside the class of its exit. -/
def runLevel (run : List UInt8) (etype : ExitReason) : ExitClass → ℕ → ℕ := fun c i =>
  if etype.exitClass = some c then (byteAt run i).toNat else 0

namespace BitmapHandler

def report (h : BitmapHandler) (run : List UInt8) (etype : ExitReason) :
    Option (List StorageReason) :=
  match etype.exitClass with
  | some c => Bitmap.pushed none (Bitmap.newBytes 0 (h.bitmap c).bits run)
  | none => none

lemma getElem?_of_mem_report {h : BitmapHandler} {run : List UInt8} {etype : ExitReason}
    {reasons : List StorageReason} (hreport : h.report run etype = some reasons)
    {r : StorageReason} (hr : r ∈ reasons) : run[r.index]? = some r.new := by
  rw [report] at hreport
  cases hc : etype.exitClass with
  | none => simp [hc] at hreport
  | some c =>
    by_cases hnil : Bitmap.newBytes 0 (h.bitmap c).bits run = []
    · simp [hc, Bitmap.pushed, hnil] at hreport
    · have heq : Bitmap.newBytes 0 (h.bitmap c).bits run = reasons := by
        simpa [hc, Bitmap.pushed, hnil] using hreport
      rw [← heq] at hr
      exact Bitmap.getElem?_of_mem_newBytes hr

lemma level_new (size : ℕ) : (new size).level = ⊥ := by
  funext c i
  simp [level, Bitmap.new]

lemma checkNewBytes_spec {size : ℕ} {h : BitmapHandler} (hs : h.Sized size) {run : List UInt8}
    (hrun : run.length = size) (etype : ExitReason) :
    ∃ h' : BitmapHandler, h.checkNewBytes run etype = .ok (h.report run etype, h') ∧
      h'.Sized size ∧ h'.level = h.level ⊔ runLevel run etype := by
  rw [checkNewBytes_eq, report]
  cases hc : etype.exitClass with
  | none =>
    refine ⟨h, rfl, hs, ?_⟩
    funext c i
    simp [runLevel, hc]
  | some c =>
    have hlen : (h.bitmap c).bits.length = run.length := by rw [hs c, hrun]
    obtain ⟨b, hcheck, hb, hbytes⟩ := (h.bitmap c).checkNewBytes_spec hlen
    refine ⟨h.setBitmap b c, by simp [hcheck, Except.map], ?_, ?_⟩
    · intro d
      by_cases hd : c = d
      · rw [bitmap_setBitmap, if_pos hd, hb, hs c]
      · rw [bitmap_setBitmap, if_neg hd, hs d]
    · funext d i
      by_cases hd : c = d
      · subst hd
        simp [level, runLevel, bitmap_setBitmap, hc, hbytes]
      · simp [level, runLevel, bitmap_setBitmap, hc, hd]

lemma report_eq_none_iff {size : ℕ} {h : BitmapHandler} (hs : h.Sized size) {run : List UInt8}
    (hrun : run.length = size) (etype : ExitReason) :
    h.report run etype = none ↔ runLevel run etype ≤ h.level := by
  rw [report]
  cases hc : etype.exitClass with
  | none =>
    constructor
    · intro _ c i
      simp [runLevel, hc]
    · intro _
      rfl
  | some c =>
    have hlen : (h.bitmap c).bits.length = run.length := by rw [hs c, hrun]
    have hnone : Bitmap.pushed none (Bitmap.newBytes 0 (h.bitmap c).bits run) = none ↔
        Bitmap.newBytes 0 (h.bitmap c).bits run = [] := by
      simp [Bitmap.pushed]
    refine hnone.trans ((Bitmap.newBytes_eq_nil_iff hlen).trans ?_)
    constructor
    · intro hle d i
      by_cases hd : c = d
      · subst hd
        simpa [runLevel, level, hc] using UInt8.le_iff_toNat_le.mp (hle i)
      · simp [runLevel, hc, hd]
    · intro hle i
      apply UInt8.le_iff_toNat_le.mpr
      simpa [runLevel, level, hc] using hle c i

end BitmapHandler

end Nyx.Fuzzer
