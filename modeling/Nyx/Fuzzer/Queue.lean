import Mathlib.Data.List.MinMax
import Nyx.Fuzzer.Bitmap
import Nyx.Graph.Storage

/-!
# The input queue

`rust_fuzzer/src/queue.rs`: the stored inputs, for every bitmap index the smallest input that was
stored because of it, and favourites that together hit everything.
-/

namespace Nyx.Fuzzer

open Exec (run_bind_ok run_gets_bind run_bind_error run_bind)

/-- The position of an input in the queue. -/
structure InputID where
  asUsize : ℕ
  deriving DecidableEq

def InputID.invalid : InputID := ⟨2 ^ 64 - 1⟩

/-- A stored input, with the run it was stored for. -/
structure Input where
  id : InputID
  data : VecGraph
  bitmap : Bitmap
  exitReason : ExitReason
  storageReasons : List StorageReason
  deriving DecidableEq

/-- The inputs, and the smallest one for each index. -/
structure QueueData where
  bitmapIndexToMinExample : ℕ → Option InputID
  favqueue : List InputID
  inputs : List Input
  bitmapBits : List ℕ
  bitmaps : BitmapHandler

abbrev QueueM := Exec Panic QueueData

namespace Input

def withId (inp : Input) (id : InputID) : Input := { inp with id := id }

def hasNewBytes (inp : Input) : Bool := inp.storageReasons.any (·.old = 0)

def reaches (k : ℕ) (inp : Input) : Bool := inp.storageReasons.any (·.index = k)

def hits (inp : Input) (i : ℕ) : Prop := byteAt inp.bitmap.bits i ≠ 0

end Input

namespace QueueData

def new (size : ℕ) : QueueData where
  bitmapIndexToMinExample _ := none
  favqueue := []
  inputs := []
  bitmapBits := []
  bitmaps := BitmapHandler.new size

def nodeLen {σ : Type} (g : GraphSpec) (data : VecGraph) : Exec Panic σ ℕ := do
  (GraphStorage.nodeIter g data).finish
  pure (GraphStorage.nodeIter g data).items.length

def setMinExample (d : QueueData) (index : ℕ) (id : InputID) : QueueData :=
  { d with bitmapIndexToMinExample := Function.update d.bitmapIndexToMinExample index (some id) }

def pushIndex (d : QueueData) (index : ℕ) (id : InputID) : QueueData :=
  { d with bitmapBits := d.bitmapBits ++ [index] }.setMinExample index id

def noteIndex (id : InputID) (index : ℕ) : QueueM Unit :=
  Exec.modify fun d =>
    if (d.bitmapIndexToMinExample index).isSome then d else d.pushIndex index id

def replaceLarger (g : GraphSpec) (id : InputID) (newLen index : ℕ) : QueueM Unit := do
  let entry ← Exec.gets fun d => d.bitmapIndexToMinExample index
  let oldEntry ← Exec.unwrap .unwrapNone entry
  let inputs ← Exec.gets (·.inputs)
  let old ← Exec.unwrap .indexOutOfBounds inputs[oldEntry.asUsize]?
  let oldLen ← nodeLen g old.data
  if oldLen > newLen then Exec.modify (·.setMinExample index id) else pure ()

def addReason (g : GraphSpec) (id : InputID) (newLen : ℕ) (reason : StorageReason) :
    QueueM Unit := do
  noteIndex id reason.index
  replaceLarger g id newLen reason.index

/-- The part of `add` under the first write lock. -/
def pushInput (g : GraphSpec) (input : Input) : QueueM InputID := do
  let len ← Exec.gets (·.inputs.length)
  let id : InputID := ⟨len⟩
  let newLen ← nodeLen g input.data
  Exec.modify fun d => { d with inputs := d.inputs ++ [input.withId id] }
  Exec.forEach input.storageReasons (addReason g id newLen)
  pure id

def anyNew : List UInt8 → List UInt8 → Except Panic Bool
  | _, [] => .ok false
  | [], _ :: _ => .error .indexOutOfBounds
  | b :: bits, v :: vs => if b = 0 ∧ v > 0 then .ok true else anyNew bits vs

def markBits : List UInt8 → List UInt8 → Except Panic (List UInt8)
  | bits, [] => .ok bits
  | [], v :: vs => if v ≠ 0 then .error .indexOutOfBounds else markBits [] vs
  | b :: bits, v :: vs => (markBits bits vs).map ((if v ≠ 0 then 1 else b) :: ·)

/-- The loop of `calc_fav_bits` over the inputs, the latest one first. -/
def favLoop : List UInt8 → List Input → Except Panic (List InputID)
  | _, [] => .ok []
  | bits, inp :: rest =>
    if inp.hasNewBytes then do
      let fresh ← anyNew bits inp.bitmap.bits
      if fresh then do
        let bits ← markBits bits inp.bitmap.bits
        let favids ← favLoop bits rest
        pure (inp.id :: favids)
      else favLoop bits rest
    else favLoop bits rest

/-- The part of `calc_fav_bits` under the read lock. -/
def computeFavs (d : QueueData) : Except Panic (List InputID) :=
  favLoop (List.replicate d.bitmaps.size 0) d.inputs.reverse

def calcFavBits : QueueM Unit := fun d =>
  match d.computeFavs with
  | .ok favids => (.ok (), { d with favqueue := favids })
  | .error e => (.error e, d)

def stores : ExitReason → Bool
  | .normal _ | .crash _ => true
  | _ => false

/-- The part of `add` before the first lock: does the input go to the queue? -/
def admits {σ : Type} (g : GraphSpec) (input : Input) : Exec Panic σ Bool :=
  if input.id ≠ InputID.invalid then Exec.panic .assertFailed
  else do
    let len ← nodeLen g input.data
    if len = 0 then pure false else pure (stores input.exitReason)

def add (g : GraphSpec) (input : Input) : QueueM (Option InputID) := do
  let go ← admits g input
  if go then do
    let id ← pushInput g input
    calcFavBits
    pure (some id)
  else pure none

def pick {α : Type} (l : List α) : Exec Panic Distributions α := do
  let i ← Distributions.genRange 0 l.length
  Exec.unwrap .indexOutOfBounds l[i]?

def getInput {σ : Type} (d : QueueData) (id : InputID) : Exec Panic σ Input :=
  Exec.unwrap .indexOutOfBounds d.inputs[id.asUsize]?

def drawFav (d : QueueData) : Exec Panic Distributions Bool :=
  if d.favqueue.length > 0 then do
    let x ← Distributions.gen (2 ^ 32)
    pure (decide (x % 10 ≤ 5))
  else pure false

/-- The part of `schedule` after the favourites. -/
def scheduleOther (d : QueueData) : Exec Panic Distributions Input := do
  let x ← Distributions.gen (2 ^ 32)
  if x % 8 ≤ 5 ∧ d.bitmapBits.length ≠ 0 then do
    let bit ← pick d.bitmapBits
    let id ← Exec.unwrap .unwrapNone (d.bitmapIndexToMinExample bit)
    d.getInput id
  else pick d.inputs

def schedule (d : QueueData) : Exec Panic Distributions Input := do
  let fav ← d.drawFav
  if fav then do
    let id ← pick d.favqueue
    d.getInput id
  else d.scheduleOther

/-! ### The smallest example of an index -/

def NodesOk (g : GraphSpec) (data : VecGraph) : Prop := (GraphStorage.nodeIter g data).stop = none

def nodeCount (g : GraphSpec) (data : VecGraph) : ℕ := (GraphStorage.nodeIter g data).items.length

variable {g : GraphSpec}

lemma run_nodeLen {σ : Type} {data : VecGraph} (h : NodesOk g data) (s : σ) :
    (nodeLen g data).run s = (.ok (nodeCount g data), s) := by
  have hstop : (GraphStorage.nodeIter g data).stop = none := h
  simp only [nodeLen, Iter.finish, hstop]
  rfl

lemma run_nodeLen_panic {σ : Type} {data : VecGraph} {e : Panic}
    (h : (GraphStorage.nodeIter g data).stop = some e) (s : σ) :
    (nodeLen g data).run s = (.error e, s) := by
  simp only [nodeLen, Iter.finish, h]
  rfl

/-- The smallest of the inputs that were stored because of an index, the earliest one of several. -/
def minExample (g : GraphSpec) (inputs : List Input) (k : ℕ) : Option Input :=
  (inputs.filter (·.reaches k)).argmin fun inp => nodeCount g inp.data

lemma minExample_concat_of_reaches (g : GraphSpec) (inputs : List Input) {inp : Input} {k : ℕ}
    (h : inp.reaches k) :
    minExample g (inputs ++ [inp]) k =
      match minExample g inputs k with
      | none => some inp
      | some c => if nodeCount g inp.data < nodeCount g c.data then some inp else some c := by
  rw [minExample, minExample, List.filter_append, List.filter_cons_of_pos h,
    List.filter_nil, List.argmin_concat]
  cases List.argmin (fun inp => nodeCount g inp.data) (inputs.filter (·.reaches k)) <;> rfl

lemma minExample_concat_of_not_reaches (g : GraphSpec) (inputs : List Input) {inp : Input} {k : ℕ}
    (h : ¬ inp.reaches k) : minExample g (inputs ++ [inp]) k = minExample g inputs k := by
  rw [minExample, minExample, List.filter_append, List.filter_cons_of_neg h,
    List.filter_nil, List.append_nil]

variable {inputs : List Input}

lemma minExample_isSome {k : ℕ} {inp : Input} (h : inp ∈ inputs) (hreach : inp.reaches k) :
    (minExample g inputs k).isSome := by
  rw [minExample, Option.isSome_iff_ne_none, ne_eq, List.argmin_eq_none]
  exact List.ne_nil_of_mem (List.mem_filter.mpr ⟨h, hreach⟩)

lemma mem_of_minExample {k : ℕ} {c : Input}
    (h : minExample g inputs k = some c) : c ∈ inputs ∧ c.reaches k :=
  List.mem_filter.mp (List.argmin_mem h)

def Numbered (inputs : List Input) : Prop :=
  ∀ (i : ℕ) (inp : Input), inputs[i]? = some inp → inp.id = ⟨i⟩

namespace Numbered

variable {inputs : List Input}

variable (h : Numbered inputs)
include h

lemma getElem?_id {inp : Input} (hmem : inp ∈ inputs) : inputs[inp.id.asUsize]? = some inp := by
  obtain ⟨i, hi⟩ := List.mem_iff_getElem?.mp hmem
  rw [h i inp hi]
  exact hi

lemma id_lt {inp : Input} (hmem : inp ∈ inputs) : inp.id.asUsize < inputs.length :=
  (List.getElem?_eq_some_iff.mp (h.getElem?_id hmem)).1

lemma pairwise : inputs.Pairwise fun inp inp' => inp.id.asUsize < inp'.id.asUsize := by
  rw [List.pairwise_iff_getElem]
  intro i j hi hj hij
  rw [h i _ (List.getElem?_eq_getElem hi), h j _ (List.getElem?_eq_getElem hj)]
  exact hij

lemma concat {inp : Input} (hid : inp.id = ⟨inputs.length⟩) : Numbered (inputs ++ [inp]) := by
  intro i c hi
  by_cases hlt : i < inputs.length
  · rw [List.getElem?_append_left hlt] at hi
    exact h i c hi
  · have hlt' := (List.getElem?_eq_some_iff.mp hi).1
    have hlen : i = inputs.length := by
      simp at hlt'
      omega
    subst hlen
    have hc : inp = c := by simpa using hi
    rw [← hc, hid]

end Numbered

lemma minExample_le (hn : Numbered inputs) {k : ℕ} {c : Input} (h : minExample g inputs k = some c)
    {inp : Input} (hmem : inp ∈ inputs) (hk : inp.reaches k) :
    nodeCount g c.data < nodeCount g inp.data ∨
      nodeCount g c.data = nodeCount g inp.data ∧ c.id.asUsize ≤ inp.id.asUsize := by
  have hc := List.argmin_mem h
  have hinp := List.mem_filter.mpr ⟨hmem, hk⟩
  have hle := List.le_of_mem_argmin hinp h
  by_cases hlt : nodeCount g c.data < nodeCount g inp.data
  · exact .inl hlt
  · refine .inr ⟨by omega, ?_⟩
    -- the list that is searched is in the order of the ids
    rcases (List.index_of_argmin h hinp (by omega)).lt_or_eq with hidx | hidx
    · have hlt := List.pairwise_iff_getElem.mp (hn.pairwise.filter _) _ _
        (List.idxOf_lt_length_of_mem hc) (List.idxOf_lt_length_of_mem hinp) hidx
      rw [List.getElem_idxOf, List.getElem_idxOf] at hlt
      exact hlt.le
    · rw [(List.idxOf_inj hc).mp hidx]

/-! ### The favourites -/

lemma uint8_pos_iff {v : UInt8} : v > 0 ↔ v ≠ 0 := by
  rw [gt_iff_lt, UInt8.lt_iff_toNat_lt, ne_eq, ← UInt8.toNat_inj]
  simp
  omega

variable {bits vs : List UInt8}

lemma anyNew_eq_ok {b : Bool} (h : anyNew bits vs = .ok b) :
    b ↔ ∃ i, byteAt bits i = 0 ∧ byteAt vs i ≠ 0 := by
  induction vs generalizing bits with
  | nil =>
    have hb : false = b := by simpa [anyNew] using h
    simp [← hb]
  | cons v vs ih =>
    cases bits with
    | nil => cases h
    | cons b₀ bits =>
      by_cases hnew : b₀ = 0 ∧ v > 0
      · have hb : true = b := by simpa [anyNew, hnew] using h
        rw [← hb]
        simp only [true_iff]
        exact ⟨0, hnew.1, uint8_pos_iff.mp hnew.2⟩
      · rw [anyNew, if_neg hnew] at h
        rw [ih h]
        constructor
        · rintro ⟨i, hi⟩
          exact ⟨i + 1, hi⟩
        · rintro ⟨i, hi⟩
          cases i with
          | zero => exact absurd ⟨hi.1, uint8_pos_iff.mpr hi.2⟩ hnew
          | succ i => exact ⟨i, hi⟩

lemma markBits_nil_eq_ok {bits' : List UInt8} (h : markBits [] vs = .ok bits') :
    bits' = [] ∧ ∀ i, byteAt vs i = 0 := by
  induction vs with
  | nil =>
    have hb : [] = bits' := by simpa [markBits] using h
    simp [← hb]
  | cons v vs ih =>
    by_cases hv : v = 0
    · obtain ⟨hbits, hzero⟩ := ih (by simpa [markBits, hv] using h)
      refine ⟨hbits, ?_⟩
      intro i
      cases i with
      | zero => exact hv
      | succ i => exact hzero i
    · simp [markBits, hv] at h

lemma markBits_eq_ok {bits' : List UInt8} (h : markBits bits vs = .ok bits') (i : ℕ) :
    byteAt bits' i ≠ 0 ↔ byteAt bits i ≠ 0 ∨ byteAt vs i ≠ 0 := by
  induction bits generalizing vs bits' i with
  | nil =>
    obtain ⟨hbits, hzero⟩ := markBits_nil_eq_ok h
    simp [hbits, hzero]
  | cons b bits ih =>
    cases vs with
    | nil =>
      have hb : b :: bits = bits' := by simpa [markBits] using h
      simp [hb]
    | cons v vs =>
      cases hmark : markBits bits vs with
      | error e => simp [markBits, hmark, Except.map] at h
      | ok rest =>
        have hb : (if v ≠ 0 then 1 else b) :: rest = bits' := by
          simpa [markBits, hmark, Except.map] using h
        rw [← hb]
        cases i with
        | zero =>
          by_cases hv : v = 0
          · simp [hv]
          · simp [hv]
        | succ i => exact ih hmark i

/-- The inputs with new bytes that are chosen one after the other to hit what is not yet covered. An
input that is skipped hits nothing but that and what is hit by chosen ones in front of it. -/
structure Chosen (covered : Set ℕ) (inputs chosen : List Input) : Prop where
  order : chosen.Sublist inputs
  new : ∀ c ∈ chosen, c.hasNewBytes
  union : ∀ i, (i ∈ covered ∨ ∃ c ∈ chosen, c.hits i) ↔
    i ∈ covered ∨ ∃ inp ∈ inputs, inp.hasNewBytes ∧ inp.hits i
  fresh : ∀ before c after, chosen = before ++ c :: after →
    ∃ i, c.hits i ∧ i ∉ covered ∧ ∀ b ∈ before, ¬b.hits i
  skipped : ∀ before inp after, inputs = before ++ inp :: after → inp.hasNewBytes → inp ∉ chosen →
    ∀ i, inp.hits i → i ∈ covered ∨ ∃ c ∈ chosen, c ∈ before ∧ c.hits i

section Chosen

variable {covered : Set ℕ} {inp : Input} {chosen : List Input}

lemma Chosen.skip (h : Chosen covered inputs chosen)
    (hcovered : inp.hasNewBytes → ∀ i, inp.hits i → i ∈ covered) :
    Chosen covered (inp :: inputs) chosen where
  order := h.order.cons inp
  new := h.new
  union := by
    intro i
    have hi := fun hnew => hcovered hnew i
    rw [h.union i, List.exists_mem_cons_iff]
    tauto
  fresh := h.fresh
  skipped := by
    rintro (_ | ⟨b, before⟩) c after hsplit hnew hnot i hhit
    · cases hsplit
      exact .inl (hcovered hnew i hhit)
    · obtain ⟨rfl, hrest⟩ := List.cons.inj hsplit
      apply (h.skipped before c after hrest hnew hnot i hhit).imp_right
      rintro ⟨b', hb', hbefore, hhit'⟩
      exact ⟨b', hb', List.mem_cons_of_mem _ hbefore, hhit'⟩

lemma Chosen.take (h : Chosen {i | i ∈ covered ∨ inp.hits i} inputs chosen)
    (hnew : inp.hasNewBytes) (hfresh : ∃ i, inp.hits i ∧ i ∉ covered) :
    Chosen covered (inp :: inputs) (inp :: chosen) where
  order := h.order.cons_cons inp
  new := List.forall_mem_cons.mpr ⟨hnew, h.new⟩
  union := by
    intro i
    have hi := h.union i
    simp only [Set.mem_ofPred_eq, or_assoc] at hi
    simpa only [List.exists_mem_cons_iff, hnew, true_and] using hi
  fresh := by
    rintro (_ | ⟨b, before⟩) c after hsplit
    · obtain ⟨i, hhit, hfree⟩ := hfresh
      cases hsplit
      exact ⟨i, hhit, hfree, by simp⟩
    · obtain ⟨rfl, hrest⟩ := List.cons.inj hsplit
      obtain ⟨i, hhit, hunmarked, hbefore⟩ := h.fresh before c after hrest
      -- what is not marked now was neither covered nor hit by the input
      obtain ⟨hfree, hnot⟩ := not_or.mp hunmarked
      exact ⟨i, hhit, hfree, List.forall_mem_cons.mpr ⟨hnot, hbefore⟩⟩
  skipped := by
    rintro (_ | ⟨b, before⟩) c after hsplit hc hnot i hhit
    · cases hsplit
      exact absurd List.mem_cons_self hnot
    · obtain ⟨rfl, hrest⟩ := List.cons.inj hsplit
      have hold := h.skipped before c after hrest hc (fun hmem => hnot (List.mem_cons_of_mem _ hmem))
        i hhit
      obtain (hcov | hinp) | ⟨b', hb', hbefore, hhit'⟩ := hold
      · exact .inl hcov
      · exact .inr ⟨inp, List.mem_cons_self, List.mem_cons_self, hinp⟩
      · exact .inr ⟨b', List.mem_cons_of_mem _ hb', List.mem_cons_of_mem _ hbefore, hhit'⟩

end Chosen

lemma favLoop_eq_ok {favids : List InputID} (h : favLoop bits inputs = .ok favids) :
    ∃ chosen : List Input, favids = chosen.map Input.id ∧
      Chosen {i | byteAt bits i ≠ 0} inputs chosen := by
  induction inputs generalizing bits favids with
  | nil =>
    have hfav : [] = favids := by simpa [favLoop] using h
    exact ⟨[], hfav.symm, .slnil, by simp, by simp, by simp, by simp⟩
  | cons inp rest ih =>
    by_cases hnew : inp.hasNewBytes
    · rw [favLoop, if_pos hnew] at h
      obtain ⟨fresh, hany, h⟩ := except_bind_eq_ok.mp h
      have hiff := anyNew_eq_ok hany
      cases fresh with
      | true =>
        obtain ⟨bits', hmark, h⟩ := except_bind_eq_ok.mp h
        obtain ⟨restids, hloop, h⟩ := except_bind_eq_ok.mp h
        obtain ⟨chosen, hids, hchosen⟩ := ih hloop
        obtain ⟨i, hzero, hhit⟩ := hiff.mp rfl
        have hfav : inp.id :: restids = favids := Except.ok.inj h
        have hmarked : {i | byteAt bits' i ≠ 0} =
            {i | i ∈ {i | byteAt bits i ≠ 0} ∨ inp.hits i} := by
          ext i
          exact markBits_eq_ok hmark i
        rw [hmarked] at hchosen
        exact ⟨inp :: chosen, by rw [← hfav, hids]; rfl,
          hchosen.take hnew ⟨i, hhit, not_not.mpr hzero⟩⟩
      | false =>
        obtain ⟨chosen, hids, hchosen⟩ := ih h
        refine ⟨chosen, hids, hchosen.skip fun _ i hhit hzero => ?_⟩
        -- all the input hits is there already
        have hfalse := hiff.mpr ⟨i, hzero, hhit⟩
        cases hfalse
    · rw [favLoop, if_neg hnew] at h
      obtain ⟨chosen, hids, hchosen⟩ := ih h
      exact ⟨chosen, hids, hchosen.skip fun hnew' => absurd hnew' hnew⟩

lemma exists_anyNew (h : vs.length = bits.length) : ∃ b, anyNew bits vs = .ok b := by
  fun_induction anyNew bits vs with
  | case1 => exact ⟨false, rfl⟩
  | case2 => cases h
  | case3 => exact ⟨true, rfl⟩
  | case4 b bits v vs hnot ih => exact ih (Nat.succ.inj h)

lemma exists_markBits (h : vs.length = bits.length) :
    ∃ bits', markBits bits vs = .ok bits' ∧ bits'.length = bits.length := by
  fun_induction markBits bits vs with
  | case1 bits => exact ⟨bits, rfl, rfl⟩
  | case2 => cases h
  | case3 => cases h
  | case4 b bits v vs ih =>
    obtain ⟨rest, hrest, hlen⟩ := ih (Nat.succ.inj h)
    exact ⟨(if v ≠ 0 then 1 else b) :: rest, by rw [hrest]; rfl, congrArg Nat.succ hlen⟩

lemma exists_favLoop (h : ∀ inp ∈ inputs, inp.bitmap.bits.length = bits.length) :
    ∃ favids, favLoop bits inputs = .ok favids := by
  induction inputs generalizing bits with
  | nil => exact ⟨[], rfl⟩
  | cons inp rest ih =>
    obtain ⟨hinp, hrest⟩ := List.forall_mem_cons.mp h
    obtain ⟨fresh, hany⟩ := exists_anyNew hinp
    obtain ⟨bits', hmark, hlen⟩ := exists_markBits hinp
    obtain ⟨skipped, hskip⟩ := ih hrest
    obtain ⟨favids, hloop⟩ := ih fun c hc => (hrest c hc).trans hlen.symm
    rw [favLoop, hany, except_ok_bind, hmark, except_ok_bind, hloop, hskip]
    split
    · split
      · exact ⟨_, rfl⟩
      · exact ⟨_, rfl⟩
    · exact ⟨_, rfl⟩

/-- The favourites are chosen from the latest input to the first one. -/
theorem calcFavBits_favourites (d : QueueData)
    (hsize : ∀ inp ∈ d.inputs, inp.bitmap.bits.length = d.bitmaps.size) :
    ∃ chosen, calcFavBits.run d = (.ok (), { d with favqueue := chosen.map Input.id }) ∧
      Chosen ∅ d.inputs.reverse chosen := by
  obtain ⟨favids, hfavs⟩ : ∃ favids, d.computeFavs = .ok favids := by
    apply exists_favLoop
    intro inp hinp
    rw [List.length_replicate, hsize inp (List.mem_reverse.mp hinp)]
  obtain ⟨chosen, rfl, hchosen⟩ := favLoop_eq_ok hfavs
  refine ⟨chosen, by rw [Exec.run, calcFavBits, hfavs], ?_⟩
  simpa only [byteAt_replicate, ne_eq, not_true_eq_false, Set.ofPred_false] using hchosen

/-- Two inputs for three indices: the later one hits two of them and both are chosen. -/
def twoInputs : QueueData :=
  { new 3 with inputs := [⟨⟨0⟩, ⟨[], []⟩, ⟨[1, 1, 0]⟩, .normal 0, [⟨0, 0, 1⟩]⟩,
      ⟨⟨1⟩, ⟨[], []⟩, ⟨[0, 2, 1]⟩, .normal 0, [⟨2, 0, 1⟩]⟩] }

theorem calcFavBits_favourites_twoInputs :
    ∃ chosen,
      calcFavBits.run twoInputs = (.ok (), { twoInputs with favqueue := chosen.map Input.id }) ∧
        Chosen ∅ twoInputs.inputs.reverse chosen :=
  calcFavBits_favourites twoInputs (by decide)

def CoversNew (favids : List InputID) (inputs : List Input) : Prop :=
  ∀ i, (∃ inp ∈ inputs, inp.id ∈ favids ∧ inp.hits i) ↔
    ∃ inp ∈ inputs, inp.hasNewBytes ∧ inp.hits i

variable {d : QueueData}

lemma computeFavs_eq_ok (hn : Numbered d.inputs) {favids : List InputID}
    (h : d.computeFavs = .ok favids) :
    (∀ id ∈ favids, id.asUsize < d.inputs.length) ∧ CoversNew favids d.inputs := by
  obtain ⟨chosen, rfl, hchosen⟩ := favLoop_eq_ok h
  have hmem : ∀ c ∈ chosen, c ∈ d.inputs := fun c hc =>
    List.mem_reverse.mp (hchosen.order.subset hc)
  constructor
  · intro id hid
    obtain ⟨c, hc, rfl⟩ := List.mem_map.mp hid
    exact hn.id_lt (hmem c hc)
  · intro i
    have hi := hchosen.union i
    simp only [byteAt_replicate, ne_eq, not_true_eq_false, Set.ofPred_false, Set.mem_empty_iff_false,
      false_or, List.mem_reverse] at hi
    rw [← hi]
    constructor
    · rintro ⟨inp, hinp, hid, hhit⟩
      obtain ⟨c, hc, hcid⟩ := List.mem_map.mp hid
      -- an input is known by its id
      have heq : some c = some inp := by
        rw [← hn.getElem?_id (hmem c hc), ← hn.getElem?_id hinp, hcid]
      exact ⟨c, hc, Option.some.inj heq ▸ hhit⟩
    · rintro ⟨c, hc, hhit⟩
      exact ⟨c, hmem c hc, List.mem_map_of_mem hc, hhit⟩

/-! ### Adding an input -/

/-- What the maps of the queue say about its inputs. -/
structure Represents (g : GraphSpec) (d : QueueData) : Prop where
  numbered : Numbered d.inputs
  favqueue : ∀ id ∈ d.favqueue, id.asUsize < d.inputs.length
  nodup : d.bitmapBits.Nodup
  keys : ∀ k, k ∈ d.bitmapBits ↔ (d.bitmapIndexToMinExample k).isSome
  entry : ∀ k, d.bitmapIndexToMinExample k = (minExample g d.inputs k).map (·.id)
  nodesOk : ∀ inp ∈ d.inputs, NodesOk g inp.data

lemma run_replaceLarger (id : InputID) (newLen : ℕ) {e : InputID} {k : ℕ}
    {old : Input} (hentry : d.bitmapIndexToMinExample k = some e)
    (hold : d.inputs[e.asUsize]? = some old) (hok : NodesOk g old.data) :
    (replaceLarger g id newLen k).run d =
      (.ok (), if nodeCount g old.data > newLen then d.setMinExample k id else d) := by
  have hlen := run_nodeLen hok d
  simp only [replaceLarger, run_gets_bind, hentry, Exec.unwrap]
  simp only [run_bind, Exec.run_pure', Exec.run_gets, hold, hlen]
  by_cases hgt : nodeCount g old.data > newLen
  · simp [hgt]
  · simp [hgt]

lemma run_addReason {id : InputID} {newLen : ℕ} {r : StorageReason} :
    (addReason g id newLen r).run d =
      (replaceLarger g id newLen r.index).run
        (if (d.bitmapIndexToMinExample r.index).isSome then d else d.pushIndex r.index id) := rfl

/-- The state inside the loop: the new input is in place, and the indices of the reasons that are
done take it into account. -/
structure Noted (g : GraphSpec) (d : QueueData) (inp : Input) (done : List StorageReason)
    (d' : QueueData) : Prop where
  inputs : d'.inputs = d.inputs ++ [inp]
  favqueue : d'.favqueue = d.favqueue
  bitmaps : d'.bitmaps = d.bitmaps
  nodup : d'.bitmapBits.Nodup
  keys : ∀ k, k ∈ d'.bitmapBits ↔ (d'.bitmapIndexToMinExample k).isSome
  entry : ∀ k, d'.bitmapIndexToMinExample k =
    (minExample g (if done.any (·.index = k) then d.inputs ++ [inp] else d.inputs) k).map (·.id)

namespace Noted

variable {g : GraphSpec} {d d' : QueueData} {inp : Input} {done : List StorageReason}
  {r : StorageReason}

variable (h : Noted g d inp done d')
include h

lemma setMinExample {bits : List ℕ} {id : InputID}
    (hid : (minExample g (d.inputs ++ [inp]) r.index).map (·.id) = some id)
    (hnodup : bits.Nodup) (hbits : ∀ k, k ∈ bits ↔ k ∈ d'.bitmapBits ∨ k = r.index) :
    Noted g d inp (done ++ [r]) ({ d' with bitmapBits := bits }.setMinExample r.index id) where
  inputs := h.inputs
  favqueue := h.favqueue
  bitmaps := h.bitmaps
  nodup := hnodup
  keys := by
    intro k
    by_cases hk : k = r.index
    · simp [QueueData.setMinExample, hbits, hk]
    · simp [QueueData.setMinExample, hbits, hk, h.keys k]
  entry := by
    intro k
    by_cases hk : k = r.index
    · subst hk
      simpa [QueueData.setMinExample] using hid.symm
    · simpa [QueueData.setMinExample, hk, Ne.symm hk] using h.entry k

lemma keep {id : InputID} (hid : (minExample g (d.inputs ++ [inp]) r.index).map (·.id) = some id)
    (hcur : d'.bitmapIndexToMinExample r.index = some id) : Noted g d inp (done ++ [r]) d' where
  inputs := h.inputs
  favqueue := h.favqueue
  bitmaps := h.bitmaps
  nodup := h.nodup
  keys := h.keys
  entry := by
    intro k
    by_cases hk : k = r.index
    · subst hk
      simpa using hcur.trans hid.symm
    · simpa [Ne.symm hk] using h.entry k

lemma replaceLarger (hn : Numbered (d.inputs ++ [inp]))
    (hok : ∀ c ∈ d.inputs ++ [inp], NodesOk g c.data)
    (hr : inp.reaches r.index) {e : InputID} (hcur : d'.bitmapIndexToMinExample r.index = some e) :
    ∃ d'', (QueueData.replaceLarger g inp.id (nodeCount g inp.data) r.index).run d' = (.ok (), d'') ∧
      Noted g d inp (done ++ [r]) d'' := by
  have hentry := h.entry r.index
  rw [hcur] at hentry
  obtain ⟨c, hc, rfl⟩ := Option.map_eq_some_iff.mp hentry.symm
  -- the comparison picks the smallest example of the longer list
  have hpick : c ∈ d.inputs ++ [inp] ∧ minExample g (d.inputs ++ [inp]) r.index =
      if nodeCount g c.data > nodeCount g inp.data then some inp else some c := by
    by_cases hany : done.any (·.index = r.index) = true
    · rw [if_pos hany] at hc
      have hle := minExample_le hn hc (by simp : inp ∈ d.inputs ++ [inp]) hr
      rw [if_neg (by omega), hc]
      exact ⟨(mem_of_minExample hc).1, rfl⟩
    · rw [if_neg hany] at hc
      rw [minExample_concat_of_reaches g d.inputs hr, hc]
      exact ⟨List.mem_append_left _ (mem_of_minExample hc).1, rfl⟩
  obtain ⟨hmem, hpick⟩ := hpick
  have hget : d'.inputs[c.id.asUsize]? = some c := by
    rw [h.inputs]
    exact hn.getElem?_id hmem
  refine ⟨_, run_replaceLarger _ _ hcur hget (hok c hmem), ?_⟩
  by_cases hgt : nodeCount g c.data > nodeCount g inp.data
  · rw [if_pos hgt] at hpick ⊢
    apply h.setMinExample (by rw [hpick]; rfl) h.nodup
    intro k
    have hkey : r.index ∈ d'.bitmapBits := by simp [h.keys, hcur]
    constructor
    · exact .inl
    · rintro (hk | rfl)
      · exact hk
      · exact hkey
  · rw [if_neg hgt] at hpick ⊢
    exact h.keep (by rw [hpick]; rfl) hcur

lemma pushIndex (hr : inp.reaches r.index) (hcur : d'.bitmapIndexToMinExample r.index = none) :
    Noted g d inp (done ++ [r]) (d'.pushIndex r.index inp.id) := by
  have hconcat := minExample_concat_of_reaches g d.inputs hr
  have hentry := h.entry r.index
  rw [hcur] at hentry
  have hnone : minExample g d.inputs r.index = none := by
    by_cases hany : done.any (·.index = r.index) = true
    · rw [if_pos hany, hconcat] at hentry
      cases hold : minExample g d.inputs r.index with
      | none => rfl
      | some c =>
        rw [hold] at hentry
        by_cases hlt : nodeCount g inp.data < nodeCount g c.data
        · simp [hlt] at hentry
        · simp [hlt] at hentry
    · rw [if_neg hany] at hentry
      exact Option.map_eq_none_iff.mp hentry.symm
  have hfresh : r.index ∉ d'.bitmapBits := by simp [h.keys, hcur]
  apply h.setMinExample
  · rw [hconcat, hnone]
    rfl
  · simpa using h.nodup.concat hfresh
  · simp

lemma addReason (hn : Numbered (d.inputs ++ [inp]))
    (hok : ∀ c ∈ d.inputs ++ [inp], NodesOk g c.data) (hr : inp.reaches r.index) :
    ∃ d'', (QueueData.addReason g inp.id (nodeCount g inp.data) r).run d' = (.ok (), d'') ∧
      Noted g d inp (done ++ [r]) d'' := by
  rw [run_addReason]
  cases hcur : d'.bitmapIndexToMinExample r.index with
  | none =>
    have hself : (d'.pushIndex r.index inp.id).bitmapIndexToMinExample r.index = some inp.id := by
      simp [QueueData.pushIndex, QueueData.setMinExample]
    obtain ⟨d'', hrun, h''⟩ := (h.pushIndex hr hcur).replaceLarger hn hok hr hself
    exact ⟨d'', hrun, { h'' with entry := fun k => by simpa using h''.entry k }⟩
  | some e => exact h.replaceLarger hn hok hr hcur

lemma forEach_addReason (hn : Numbered (d.inputs ++ [inp]))
    (hok : ∀ c ∈ d.inputs ++ [inp], NodesOk g c.data)
    {rest : List StorageReason} (hrest : ∀ r ∈ rest, inp.reaches r.index) :
    ∃ d'', (Exec.forEach rest (QueueData.addReason g inp.id (nodeCount g inp.data))).run d' = (.ok (), d'') ∧
      Noted g d inp (done ++ rest) d'' := by
  induction rest generalizing done d' with
  | nil => exact ⟨d', rfl, by rwa [List.append_nil]⟩
  | cons r rest ih =>
    obtain ⟨d₁, hrun, h₁⟩ := h.addReason hn hok (hrest r List.mem_cons_self)
    obtain ⟨d₂, hrun₂, h₂⟩ := ih h₁ fun r' hr' => hrest r' (List.mem_cons_of_mem r hr')
    refine ⟨d₂, ?_, ?_⟩
    · rw [Exec.forEach, Exec.run_bind', hrun]
      exact hrun₂
    · rwa [List.append_assoc] at h₂

end Noted

variable {input : Input}

lemma pushInput_spec (hd : d.Represents g) (hok : NodesOk g input.data) :
    ∃ d', (pushInput g input).run d = (.ok ⟨d.inputs.length⟩, d') ∧ d'.Represents g ∧
      d'.inputs = d.inputs ++ [input.withId ⟨d.inputs.length⟩] ∧
      d'.favqueue = d.favqueue ∧ d'.bitmaps = d.bitmaps := by
  have hn : Numbered (d.inputs ++ [input.withId ⟨d.inputs.length⟩]) :=
    hd.numbered.concat rfl
  have hall : ∀ c ∈ d.inputs ++ [input.withId ⟨d.inputs.length⟩], NodesOk g c.data := by
    intro c hc
    rcases List.mem_append.mp hc with hc | hc
    · exact hd.nodesOk c hc
    · rw [List.mem_singleton.mp hc]
      exact hok
  have hstart : Noted g d (input.withId ⟨d.inputs.length⟩) []
      { d with inputs := d.inputs ++ [input.withId ⟨d.inputs.length⟩] } :=
    ⟨rfl, rfl, rfl, hd.nodup, hd.keys, hd.entry⟩
  have hreasons : ∀ r ∈ input.storageReasons,
      (input.withId ⟨d.inputs.length⟩).reaches r.index := by
    intro r hr
    exact List.any_eq_true.mpr ⟨r, hr, by simp⟩
  obtain ⟨d', hrun, hnoted⟩ := hstart.forEach_addReason hn hall hreasons
  refine ⟨d', ?_, ?_, hnoted.inputs, hnoted.favqueue, hnoted.bitmaps⟩
  · rw [pushInput, run_gets_bind, run_bind_ok (run_nodeLen hok d),
      run_bind_ok (Exec.run_modify _ d)]
    exact run_bind_ok hrun
  · constructor
    case numbered => rwa [hnoted.inputs]
    case favqueue =>
      intro id hid
      rw [hnoted.favqueue] at hid
      have hlt := hd.favqueue id hid
      rw [hnoted.inputs, List.length_append]
      omega
    case nodup => exact hnoted.nodup
    case keys => exact hnoted.keys
    case entry =>
      intro k
      rw [hnoted.entry k, hnoted.inputs, List.nil_append]
      by_cases hk : input.storageReasons.any (·.index = k) = true
      · rw [if_pos hk]
      · have hlast : ¬ (input.withId ⟨d.inputs.length⟩).reaches k := hk
        rw [if_neg hk, minExample_concat_of_not_reaches g d.inputs hlast]
    case nodesOk => rwa [hnoted.inputs]

lemma represents_new (g : GraphSpec) (size : ℕ) : (new size).Represents g := by
  constructor <;> simp [new, Numbered, minExample]

lemma Represents.setFavqueue (hd : d.Represents g) {favids : List InputID}
    (h : d.computeFavs = .ok favids) : { d with favqueue := favids }.Represents g :=
  ⟨hd.numbered, (computeFavs_eq_ok hd.numbered h).1, hd.nodup, hd.keys, hd.entry, hd.nodesOk⟩

/-- `add` goes on to the queue for a graph with nodes that ended normally or in a crash. -/
def Accepted (g : GraphSpec) (input : Input) : Prop :=
  input.id = InputID.invalid ∧ NodesOk g input.data ∧ 0 < nodeCount g input.data ∧
    stores input.exitReason

lemma run_admits {σ : Type} (g : GraphSpec) (input : Input) (s : σ) :
    (∃ e, (admits g input).run s = (.error e, s) ∧ ¬Accepted g input) ∨
      ∃ go, (admits g input).run s = (.ok go, s) ∧ input.id = InputID.invalid ∧
        NodesOk g input.data ∧ (go ↔ Accepted g input) := by
  by_cases hid : input.id = InputID.invalid
  · rw [admits, if_neg (not_not.mpr hid)]
    cases hstop : (GraphStorage.nodeIter g input.data).stop with
    | some e =>
      have hnot : ¬Accepted g input := by simp [Accepted, NodesOk, hstop]
      exact .inl ⟨e, run_bind_error (run_nodeLen_panic hstop s), hnot⟩
    | none =>
      have hok : NodesOk g input.data := hstop
      rw [run_bind_ok (run_nodeLen hok s)]
      by_cases hzero : nodeCount g input.data = 0
      · rw [if_pos hzero]
        exact .inr ⟨false, rfl, hid, hok, by simp [Accepted, hzero]⟩
      · rw [if_neg hzero]
        exact .inr ⟨_, rfl, hid, hok, by simp [Accepted, hid, hok, Nat.pos_of_ne_zero hzero]⟩
  · rw [admits, if_pos hid]
    exact .inl ⟨_, rfl, fun hacc => hid hacc.1⟩

lemma run_admits_eq_ok {σ : Type} {s s' : σ} {go : Bool} (h : (admits g input).run s = (.ok go, s')) :
    input.id = InputID.invalid ∧ NodesOk g input.data ∧ (go ↔ Accepted g input) := by
  obtain ⟨e, hrun, -⟩ | ⟨go', hrun, hok⟩ := run_admits g input s
  · rw [hrun] at h
    cases h
  · rw [hrun] at h
    cases h
    exact hok

lemma run_add_of_accepted (h : Accepted g input) (d : QueueData) :
    (add g input).run d = (do
      let id ← pushInput g input
      calcFavBits
      pure (some id) : QueueM (Option InputID)).run d := by
  obtain ⟨e, -, hnot⟩ | ⟨go, hrun, -, -, hgo⟩ := run_admits g input d
  · exact absurd h hnot
  · rw [add, run_bind_ok hrun, if_pos (hgo.mpr h)]

lemma run_add_of_not_accepted (h : ¬ Accepted g input)
    (d : QueueData) : ((add g input).run d).2 = d := by
  obtain ⟨e, hrun, -⟩ | ⟨go, hrun, -, -, hgo⟩ := run_admits g input d
  · rw [add, run_bind_error hrun]
  · rw [add, run_bind_ok hrun, if_neg (mt hgo.mp h)]
    rfl

lemma Represents.add (hd : d.Represents g) (input : Input) :
    ((QueueData.add g input).run d).2.Represents g := by
  by_cases hacc : Accepted g input
  · obtain ⟨d₁, hpush, hd₁, -⟩ := pushInput_spec hd hacc.2.1
    rw [run_add_of_accepted hacc, run_bind_ok hpush]
    cases hfavs : d₁.computeFavs with
    | ok favids =>
      have hcalc : calcFavBits.run d₁ = (.ok (), { d₁ with favqueue := favids }) := by
        rw [Exec.run, calcFavBits, hfavs]
      rw [run_bind_ok hcalc]
      exact hd₁.setFavqueue hfavs
    | error e =>
      have hcalc : calcFavBits.run d₁ = (.error e, d₁) := by
        rw [Exec.run, calcFavBits, hfavs]
      rw [run_bind_error hcalc]
      exact hd₁
  · rw [run_add_of_not_accepted hacc]
    exact hd

def adds (g : GraphSpec) (d : QueueData) (calls : List Input) : QueueData :=
  calls.foldl (fun d input => ((add g input).run d).2) d

lemma Represents.adds (hd : d.Represents g) (calls : List Input) :
    (QueueData.adds g d calls).Represents g := by
  induction calls generalizing d with
  | nil => exact hd
  | cons input calls ih => exact ih (hd.add input)

/-! ### Scheduling -/

lemma run_pick {α : Type} {l : List α} (hl : l ≠ []) (x : ℕ) (xs : List ℕ) :
    ∃ a ∈ l, (pick l).run ⟨x :: xs⟩ = (.ok a, ⟨xs⟩) := by
  have hpos : 0 < l.length := List.length_pos_iff.mpr hl
  have hlt : x % l.length < l.length := Nat.mod_lt x hpos
  have hrange : (Distributions.genRange 0 l.length).run ⟨x :: xs⟩ = (.ok (x % l.length), ⟨xs⟩) := by
    rw [Distributions.genRange, if_pos hpos, Nat.sub_zero]
    show (Except.ok (0 + x % l.length), _) = _
    rw [Nat.zero_add]
  refine ⟨l[x % l.length], List.getElem_mem hlt, ?_⟩
  rw [pick, run_bind_ok hrange, List.getElem?_eq_getElem hlt]
  rfl

lemma run_getInput {σ : Type} {id : InputID} (h : id.asUsize < d.inputs.length)
    (s : σ) : ∃ inp ∈ d.inputs, (d.getInput id).run s = (.ok inp, s) := by
  refine ⟨d.inputs[id.asUsize], List.getElem_mem h, ?_⟩
  rw [getInput, List.getElem?_eq_getElem h]
  rfl

lemma run_scheduleOther (hd : d.Represents g) (hne : d.inputs ≠ []) (x y : ℕ) (draws : List ℕ) :
    ∃ inp ∈ d.inputs, d.scheduleOther.run ⟨x :: y :: draws⟩ = (.ok inp, ⟨draws⟩) := by
  have hgen : (Distributions.gen (2 ^ 32)).run ⟨x :: y :: draws⟩ =
      (.ok (x % 2 ^ 32), ⟨y :: draws⟩) := rfl
  rw [scheduleOther, run_bind_ok hgen]
  by_cases hbit : x % 2 ^ 32 % 8 ≤ 5 ∧ d.bitmapBits.length ≠ 0
  · rw [if_pos hbit]
    obtain ⟨bit, hmem, hpick⟩ := run_pick (List.length_pos_iff.mp (Nat.pos_of_ne_zero hbit.2))
      y draws
    obtain ⟨id, hid⟩ := Option.isSome_iff_exists.mp ((hd.keys bit).mp hmem)
    have hlt : id.asUsize < d.inputs.length := by
      rw [hd.entry bit] at hid
      obtain ⟨c, hc, rfl⟩ := Option.map_eq_some_iff.mp hid
      exact hd.numbered.id_lt (mem_of_minExample hc).1
    obtain ⟨inp, hinp, hget⟩ := run_getInput hlt (⟨draws⟩ : Distributions)
    refine ⟨inp, hinp, ?_⟩
    rw [run_bind_ok hpick, hid]
    exact hget
  · rw [if_neg hbit]
    exact run_pick hne y draws

lemma schedule_spec (hd : d.Represents g) (hne : d.inputs ≠ []) (x y z : ℕ) (draws : List ℕ) :
    ∃ inp ∈ d.inputs, ∃ rest, d.schedule.run ⟨x :: y :: z :: draws⟩ = (.ok inp, rest) := by
  by_cases hfav : d.favqueue.length > 0
  · have hflag : d.drawFav.run ⟨x :: y :: z :: draws⟩ =
        (.ok (decide (x % 2 ^ 32 % 10 ≤ 5)), ⟨y :: z :: draws⟩) := by
      rw [drawFav, if_pos hfav]
      rfl
    rw [schedule, run_bind_ok hflag]
    by_cases hx : x % 2 ^ 32 % 10 ≤ 5
    · rw [if_pos (decide_eq_true hx)]
      obtain ⟨id, hid, hpick⟩ := run_pick (List.length_pos_iff.mp hfav) y (z :: draws)
      obtain ⟨inp, hinp, hget⟩ := run_getInput (hd.favqueue id hid) (⟨z :: draws⟩ : Distributions)
      exact ⟨inp, hinp, _, by rw [run_bind_ok hpick, hget]⟩
    · rw [if_neg (by simpa using hx)]
      obtain ⟨inp, hinp, hrun⟩ := run_scheduleOther hd hne y z draws
      exact ⟨inp, hinp, _, hrun⟩
  · have hflag : d.drawFav.run ⟨x :: y :: z :: draws⟩ = (.ok false, ⟨x :: y :: z :: draws⟩) := by
      rw [drawFav, if_neg hfav]
      rfl
    rw [schedule, run_bind_ok hflag]
    obtain ⟨inp, hinp, hrun⟩ := run_scheduleOther hd hne x y (z :: draws)
    exact ⟨inp, hinp, _, hrun⟩

/-- The queue in terms of its fields: ids are positions, every id that is kept is one, and the
example of an index is the first of the smallest inputs stored because of it. -/
structure WellFormed (g : GraphSpec) (d : QueueData) : Prop where
  id : ∀ (i : ℕ) (inp : Input), d.inputs[i]? = some inp → inp.id = ⟨i⟩
  favqueue : ∀ id ∈ d.favqueue, id.asUsize < d.inputs.length
  stored : ∀ inp ∈ d.inputs, ∀ r ∈ inp.storageReasons, r.index ∈ d.bitmapBits
  minExample_lt : ∀ k id, d.bitmapIndexToMinExample k = some id → id.asUsize < d.inputs.length
  nodup : d.bitmapBits.Nodup
  keys : ∀ k, k ∈ d.bitmapBits ↔ (d.bitmapIndexToMinExample k).isSome
  minExample_first : ∀ k id, d.bitmapIndexToMinExample k = some id →
    ∃ inp, d.inputs[id.asUsize]? = some inp ∧ inp.reaches k ∧
      ∀ (j : ℕ) (other : Input), d.inputs[j]? = some other → other.reaches k →
        nodeCount g inp.data < nodeCount g other.data ∨
          nodeCount g inp.data = nodeCount g other.data ∧ id.asUsize ≤ j
  schedule : d.inputs ≠ [] → ∀ draws : List ℕ, 3 ≤ draws.length →
    ∃ inp ∈ d.inputs, ∃ rest, d.schedule.run ⟨draws⟩ = (.ok inp, rest)

lemma Represents.wellFormed (hd : d.Represents g) : d.WellFormed g where
  id := hd.numbered
  favqueue := hd.favqueue
  stored := by
    intro inp hinp r hr
    have hreach : inp.reaches r.index = true := List.any_eq_true.mpr ⟨r, hr, decide_eq_true rfl⟩
    rw [hd.keys, hd.entry, Option.isSome_map]
    exact minExample_isSome hinp hreach
  minExample_lt := by
    intro k id hid
    rw [hd.entry k] at hid
    obtain ⟨c, hc, rfl⟩ := Option.map_eq_some_iff.mp hid
    exact hd.numbered.id_lt (mem_of_minExample hc).1
  nodup := hd.nodup
  keys := hd.keys
  minExample_first := by
    intro k id hid
    rw [hd.entry k] at hid
    obtain ⟨c, hc, rfl⟩ := Option.map_eq_some_iff.mp hid
    obtain ⟨hmem, hreach⟩ := mem_of_minExample hc
    refine ⟨c, hd.numbered.getElem?_id hmem, hreach, ?_⟩
    intro j other hj hother
    have hle := minExample_le hd.numbered hc (List.mem_of_getElem? hj) hother
    rwa [hd.numbered j other hj] at hle
  schedule := by
    intro hne draws hdraws
    match draws, hdraws with
    | x :: y :: z :: rest, _ => exact schedule_spec hd hne x y z rest

theorem adds_wellFormed (g : GraphSpec) (size : ℕ) (calls : List Input) :
    (adds g (new size) calls).WellFormed g :=
  ((represents_new g size).adds calls).wellFormed

def tickSpec : GraphSpec where
  __ := GraphSpec.new
  nodeSpecs := [NodeSpec.new "tick" 0 none [] [] []]
  maxOps := 1
  nodes_le := by decide
  node_id := by
    intro i n hn
    cases i with
    | zero => cases hn; rfl
    | succ i => cases hn
  ops_bound := by
    intro n hn
    rw [List.mem_singleton.mp hn]
    decide

def tickInput (n : ℕ) (bits : List UInt8) (reasons : List StorageReason) : Input :=
  ⟨InputID.invalid, ⟨List.replicate n 0, []⟩, ⟨bits⟩, .normal 0, reasons⟩

def tickQueue : QueueData :=
  adds tickSpec (new 3) [tickInput 2 [1, 1, 0] [⟨0, 0, 1⟩, ⟨1, 0, 1⟩],
    tickInput 1 [0, 2, 1] [⟨1, 1, 2⟩, ⟨2, 0, 1⟩]]

/-- The second input is the smaller one and takes over the index they share. -/
theorem adds_wellFormed_tickQueue : tickQueue.WellFormed tickSpec ∧ tickQueue.inputs.length = 2 ∧
    tickQueue.bitmapBits = [0, 1, 2] ∧ tickQueue.bitmapIndexToMinExample 0 = some ⟨0⟩ ∧
      tickQueue.bitmapIndexToMinExample 1 = some ⟨1⟩ :=
  ⟨adds_wellFormed tickSpec 3 _, by decide +kernel⟩

end QueueData

end Nyx.Fuzzer
