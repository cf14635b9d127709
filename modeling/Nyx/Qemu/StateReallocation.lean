import Mathlib.Algebra.GroupWithZero.Nat
import Mathlib.Data.List.Basic
import Mathlib.Data.List.Induction
import Nyx.Lib.SlotTable

/-!
# Capturing and replaying the state of the devices

The recorder keeps tables of memory blocks, callbacks and field handlers. The contents of the blocks
go to one pre-allocated region that is handed out in order, so a block that begins where the last
one ended can be merged into it.

The storage of the recorder is apart from the memory it captures, and no range wraps around the end
of the address space.
-/

namespace Nyx

namespace StateReallocation

def REALLOC_SIZE : ℕ := 0x8000

def PRE_ALLOC_BLOCK_SIZE : ℕ := 0x8000000

/-- Parallel arrays with a fill position, grown as soon as they are full. Position and capacity are
`uint32_t` in the source; before they wrap, the arrays would have 80 GiB. -/
structure GrowTable (α : Type) where
  entries : List α
  capacity : ℕ
  room : entries.length < capacity

namespace GrowTable

variable {α : Type}

def new (α : Type) : GrowTable α where
  entries := []
  capacity := REALLOC_SIZE
  room := (by decide : 0 < REALLOC_SIZE)

def push (t : GrowTable α) (a : α) : GrowTable α where
  entries := t.entries ++ [a]
  capacity := if t.entries.length + 1 ≥ t.capacity then t.capacity + REALLOC_SIZE else t.capacity
  room := by
    have hroom := t.room
    have hsize : 1 < REALLOC_SIZE := by decide
    simp only [List.length_append, List.length_singleton]
    split <;> omega

def setLast (t : GrowTable α) (a : α) : GrowTable α where
  entries := t.entries.set (t.entries.length - 1) a
  capacity := t.capacity
  room := by
    rw [List.length_set]
    exact t.room

@[simp] lemma entries_new : (new α).entries = [] := rfl

@[simp] lemma entries_push (t : GrowTable α) (a : α) : (t.push a).entries = t.entries ++ [a] := rfl

lemma entries_setLast (t : GrowTable α) {init : List α} {last : α} (h : t.entries = init ++ [last])
    (a : α) : (t.setLast a).entries = init ++ [a] := by
  show t.entries.set (t.entries.length - 1) a = init ++ [a]
  simp [h]

end GrowTable

/-- The entry of `ptr`, `copy` and `size` for one block. `copy` is the offset into the region. -/
structure MBlock where
  ptr : ℕ
  copy : ℕ
  size : ℕ
  deriving DecidableEq

/-- A recorded callback. -/
structure PostFptr where
  fptr : ℕ
  opaquePtr : ℕ
  version : ℤ
  deriving DecidableEq

/-- `fast_timer_get`, `fast_get_pci_irq_state` or `fast_get_pci_config_device`, with the data
that is kept for it. -/
inductive FastGet
  | timer (expire : ℕ)
  | pciIrqState (irqState : List ℕ)
  | pciConfigDevice (config : List UInt8)
  deriving DecidableEq

/-- A recorded handler of a field. -/
structure GetFptr where
  handler : FastGet
  opaquePtr : ℕ
  size : ℕ
  deriving DecidableEq

end StateReallocation

open StateReallocation

/-- `state_reallocation_t`. -/
structure StateReallocation where
  fastState : GrowTable MBlock
  fastStateFptr : GrowTable PostFptr
  fastStateGetFptr : GrowTable GetFptr
  preAllocBlock : ℕ → UInt8
  preAllocBlockOffset : ℕ

namespace StateReallocation

def new : StateReallocation where
  fastState := GrowTable.new MBlock
  fastStateFptr := GrowTable.new PostFptr
  fastStateGetFptr := GrowTable.new GetFptr
  preAllocBlock := fun _ => 0
  preAllocBlockOffset := 0

def store (self : StateReallocation) (mem : ℕ → UInt8) (start size : ℕ) : StateReallocation :=
  { self with
    preAllocBlock := blit self.preAllocBlock self.preAllocBlockOffset mem start size
    preAllocBlockOffset := self.preAllocBlockOffset + size }

/-- `add_mblock`. The copy past the end of the region has no outcome. -/
def addMblock (self : StateReallocation) (mem : ℕ → UInt8) (start size : ℕ) :
    Option StateReallocation :=
  if self.preAllocBlockOffset + size ≤ PRE_ALLOC_BLOCK_SIZE then
    match self.fastState.entries.getLast? with
    | some last =>
      if last.ptr + last.size = start then
        some { self.store mem start size with
          fastState := self.fastState.setLast { last with size := size + last.size } }
      else
        some { self.store mem start size with
          fastState := self.fastState.push ⟨start, self.preAllocBlockOffset, size⟩ }
    | none =>
      some { self.store mem start size with
        fastState := self.fastState.push ⟨start, self.preAllocBlockOffset, size⟩ }
  else
    none

def blockStores (self : StateReallocation) (b : MBlock) : List (ℕ × UInt8) :=
  stores b.ptr self.preAllocBlock b.copy b.size

def copyLoop (self : StateReallocation) (mem : ℕ → UInt8) : ℕ → UInt8 :=
  self.fastState.entries.foldl (fun m b => blit m b.ptr self.preAllocBlock b.copy b.size) mem

/-! ## What a capture is for -/

/-- A range, and the memory when it was recorded. -/
structure Capture where
  start : ℕ
  size : ℕ
  mem : ℕ → UInt8

def Capture.Covers (c : Capture) (addr : ℕ) : Prop := c.start ≤ addr ∧ addr < c.start + c.size

instance (c : Capture) (addr : ℕ) : Decidable (c.Covers addr) :=
  inferInstanceAs (Decidable (_ ∧ _))

def Capture.restore (m : ℕ → UInt8) (c : Capture) : ℕ → UInt8 :=
  blit m c.start c.mem c.start c.size

def Capture.stores (c : Capture) : List (ℕ × UInt8) := Nyx.stores c.start c.mem c.start c.size

/-- Put all captured ranges back in the order of the captures, without any merging. -/
def restoreAll (cs : List Capture) (m : ℕ → UInt8) : ℕ → UInt8 := cs.foldl Capture.restore m

def lastCapture (cs : List Capture) (addr : ℕ) : Option Capture :=
  cs.reverse.find? fun c => c.Covers addr

def totalSize (cs : List Capture) : ℕ := (cs.map Capture.size).sum

lemma restore_apply (m : ℕ → UInt8) (c : Capture) (addr : ℕ) :
    Capture.restore m c addr = if c.Covers addr then c.mem addr else m addr := by
  by_cases h : c.Covers addr
  · have hin := blit_inside m c.mem c.start c.start (Nat.sub_lt_left_of_lt_add h.1 h.2)
    rw [Nat.add_sub_cancel' h.1] at hin
    rw [if_pos h]
    exact hin
  · rw [if_neg h]
    exact blit_outside _ _ _ (by unfold Capture.Covers at h; omega)

@[simp] lemma restoreAll_concat (cs : List Capture) (c : Capture) (m : ℕ → UInt8) :
    restoreAll (cs ++ [c]) m = Capture.restore (restoreAll cs m) c := by
  simp [restoreAll]

@[simp] lemma totalSize_concat (cs : List Capture) (c : Capture) :
    totalSize (cs ++ [c]) = totalSize cs + c.size := by
  simp [totalSize]

lemma lastCapture_concat (cs : List Capture) (c : Capture) (addr : ℕ) :
    lastCapture (cs ++ [c]) addr = if c.Covers addr then some c else lastCapture cs addr := by
  unfold lastCapture
  by_cases h : c.Covers addr <;> simp [h]

lemma restoreAll_apply (cs : List Capture) (m : ℕ → UInt8) (addr : ℕ) :
    restoreAll cs m addr = ((lastCapture cs addr).map fun c => c.mem addr).getD (m addr) := by
  induction cs using List.reverseRecOn with
  | nil => rfl
  | append_singleton cs c ih =>
    rw [restoreAll_concat, restore_apply, lastCapture_concat]
    by_cases h : c.Covers addr
    · rw [if_pos h, if_pos h]
      rfl
    · rw [if_neg h, if_neg h, ih]

/-! ## The recorder -/

def record (cs : List Capture) (self : StateReallocation) : Option StateReallocation :=
  cs.foldlM (fun self c => self.addMblock c.mem c.start c.size) self

/-- The blocks hold the captures. -/
structure Records (recorder : StateReallocation) (cs : List Capture) : Prop where
  offset : recorder.preAllocBlockOffset = totalSize cs
  /-- The region is handed out in order, so the last block ends where the free part begins. -/
  last : ∀ b, recorder.fastState.entries.getLast? = some b →
    b.copy + b.size = recorder.preAllocBlockOffset
  inside : ∀ b ∈ recorder.fastState.entries, b.copy + b.size ≤ recorder.preAllocBlockOffset
  replay : recorder.fastState.entries.flatMap recorder.blockStores = cs.flatMap Capture.stores

lemma records_new : Records new [] where
  offset := rfl
  last := by
    intro b hb
    exact absurd hb (by simp [new])
  inside := by
    intro b hb
    exact absurd hb (by simp [new])
  replay := rfl

variable {self : StateReallocation}

lemma addMblock_cases {self' : StateReallocation} {mem : ℕ → UInt8} {start size : ℕ}
    (h : self.addMblock mem start size = some self') :
    (∃ init last, self.fastState.entries = init ++ [last] ∧ last.ptr + last.size = start ∧
      self' = { self.store mem start size with
        fastState := self.fastState.setLast { last with size := size + last.size } }) ∨
    self' = { self.store mem start size with
      fastState := self.fastState.push ⟨start, self.preAllocBlockOffset, size⟩ } := by
  unfold addMblock at h
  split at h
  · split at h
    · rename_i last hlast
      obtain ⟨init, hinit⟩ := List.getLast?_eq_some_iff.mp hlast
      split at h
      · rename_i hstart
        exact .inl ⟨init, last, hinit, hstart, (Option.some.inj h).symm⟩
      · exact .inr (Option.some.inj h).symm
    · exact .inr (Option.some.inj h).symm
  · cases h

lemma addMblock_isSome {size : ℕ} (h : self.preAllocBlockOffset + size ≤ PRE_ALLOC_BLOCK_SIZE)
    (mem : ℕ → UInt8) (start : ℕ) : ∃ self', self.addMblock mem start size = some self' := by
  unfold addMblock
  rw [if_pos h]
  split
  · split
    · exact ⟨_, rfl⟩
    · exact ⟨_, rfl⟩
  · exact ⟨_, rfl⟩

lemma blockStores_store {b : MBlock}
    (h : b.copy + b.size ≤ self.preAllocBlockOffset) (mem : ℕ → UInt8) (start size : ℕ) :
    stores b.ptr (self.store mem start size).preAllocBlock b.copy b.size = self.blockStores b := by
  apply stores_congr
  intro i hi
  exact blit_outside _ _ _ (.inl (by omega))

lemma stores_store (self : StateReallocation) (mem : ℕ → UInt8) (start size : ℕ) :
    stores start (self.store mem start size).preAllocBlock self.preAllocBlockOffset size =
      Capture.stores ⟨start, size, mem⟩ := by
  apply stores_congr
  intro i hi
  exact blit_inside _ _ _ _ hi

variable {cs : List Capture}

lemma Records.push (h : self.Records cs) (mem : ℕ → UInt8) (start size : ℕ) :
    Records { self.store mem start size with
      fastState := self.fastState.push ⟨start, self.preAllocBlockOffset, size⟩ }
      (cs ++ [⟨start, size, mem⟩]) where
  offset := by
    rw [totalSize_concat, ← h.offset]
    rfl
  last := by
    intro b hb
    rw [GrowTable.entries_push, List.getLast?_concat] at hb
    obtain rfl := Option.some.inj hb
    rfl
  inside := by
    intro b hb
    rw [GrowTable.entries_push, List.mem_append, List.mem_singleton] at hb
    cases hb with
    | inl hb => exact Nat.le_add_right_of_le (h.inside b hb)
    | inr hb =>
      subst hb
      exact Nat.le_refl _
  replay := by
    rw [List.flatMap_append, List.flatMap_singleton, ← h.replay, ← stores_store self,
      GrowTable.entries_push, List.flatMap_append, List.flatMap_singleton]
    congr 1
    apply List.flatMap_congr
    intro b hb
    exact blockStores_store (h.inside b hb) mem start size

lemma Records.merge (h : self.Records cs)
    (mem : ℕ → UInt8) {start : ℕ} (size : ℕ) {init : List MBlock} {last : MBlock}
    (hinit : self.fastState.entries = init ++ [last]) (hstart : last.ptr + last.size = start) :
    Records { self.store mem start size with
      fastState := self.fastState.setLast { last with size := size + last.size } }
      (cs ++ [⟨start, size, mem⟩]) := by
  have hlast : last.copy + last.size = self.preAllocBlockOffset :=
    h.last last (by rw [hinit, List.getLast?_concat])
  have hentries := self.fastState.entries_setLast hinit { last with size := size + last.size }
  constructor
  · rw [totalSize_concat, ← h.offset]
    rfl
  · intro b hb
    rw [hentries, List.getLast?_concat] at hb
    obtain rfl := Option.some.inj hb
    show last.copy + (size + last.size) = self.preAllocBlockOffset + size
    omega
  · intro b hb
    show b.copy + b.size ≤ self.preAllocBlockOffset + size
    rw [hentries, List.mem_append, List.mem_singleton] at hb
    cases hb with
    | inl hb =>
      have hb' := h.inside b (by rw [hinit]; exact List.mem_append_left _ hb)
      omega
    | inr hb =>
      subst hb
      show last.copy + (size + last.size) ≤ self.preAllocBlockOffset + size
      omega
  · have hold : ∀ b ∈ init ++ [last], b.copy + b.size ≤ self.preAllocBlockOffset := by
      rw [← hinit]
      exact h.inside
    have hnew : stores last.ptr (self.store mem start size).preAllocBlock last.copy
        (size + last.size) = self.blockStores last ++ Capture.stores ⟨start, size, mem⟩ := by
      rw [Nat.add_comm size, stores_add, hlast, hstart, stores_store,
        blockStores_store (hold last (by simp))]
    rw [List.flatMap_append, List.flatMap_singleton, ← h.replay, hentries, hinit,
      List.flatMap_append, List.flatMap_append, List.flatMap_singleton, List.flatMap_singleton,
      List.append_assoc, ← hnew]
    congr 1
    apply List.flatMap_congr
    intro b hb
    exact blockStores_store (hold b (List.mem_append_left _ hb)) mem start size

lemma Records.addMblock {self' : StateReallocation} (h : self.Records cs) (c : Capture)
    (hadd : self.addMblock c.mem c.start c.size = some self') : self'.Records (cs ++ [c]) := by
  obtain ⟨init, last, hinit, hstart, rfl⟩ | rfl := addMblock_cases hadd
  · exact h.merge c.mem c.size hinit hstart
  · exact h.push c.mem c.start c.size

lemma Records.record (h : self.Records cs)
    (cs' : List Capture) (hsize : totalSize (cs ++ cs') ≤ PRE_ALLOC_BLOCK_SIZE) :
    ∃ self', record cs' self = some self' ∧ self'.Records (cs ++ cs') := by
  induction cs' generalizing self cs with
  | nil => exact ⟨self, rfl, by rwa [List.append_nil]⟩
  | cons c cs' ih =>
    have hroom : self.preAllocBlockOffset + c.size ≤ PRE_ALLOC_BLOCK_SIZE := by
      rw [h.offset]
      simp only [totalSize, List.map_append, List.map_cons, List.sum_append, List.sum_cons]
        at hsize ⊢
      omega
    obtain ⟨self₁, hadd⟩ := addMblock_isSome hroom c.mem c.start
    obtain ⟨self', hrec, h'⟩ := ih (h.addMblock c hadd) (by simpa using hsize)
    refine ⟨self', ?_, by simpa using h'⟩
    show (self.addMblock c.mem c.start c.size >>= StateReallocation.record cs') = some self'
    rw [hadd]
    exact hrec

lemma foldl_blit {α : Type} (as : List α) (ptr copy size : α → ℕ) (src : α → ℕ → UInt8)
    (m : ℕ → UInt8) :
    as.foldl (fun m a => blit m (ptr a) (src a) (copy a) (size a)) m =
      applyStores m (as.flatMap fun a => stores (ptr a) (src a) (copy a) (size a)) := by
  induction as generalizing m with
  | nil => rfl
  | cons a as ih =>
    rw [List.foldl_cons, ih, List.flatMap_cons, applyStores_append, blit_eq_applyStores]

lemma Records.copyLoop_eq (h : self.Records cs)
    (m : ℕ → UInt8) : self.copyLoop m = restoreAll cs m :=
  calc self.copyLoop m
      = applyStores m (self.fastState.entries.flatMap self.blockStores) :=
        foldl_blit _ MBlock.ptr MBlock.copy MBlock.size (fun _ => self.preAllocBlock) m
    _ = applyStores m (cs.flatMap Capture.stores) := by rw [h.replay]
    _ = restoreAll cs m :=
        (foldl_blit cs Capture.start Capture.start Capture.size Capture.mem m).symm

/-- Every byte that was captured gets the value of its last capture, every other byte is left
as it is. -/
theorem copyLoop_record (cs : List Capture) (hsize : totalSize cs ≤ PRE_ALLOC_BLOCK_SIZE) :
    ∃ self, record cs new = some self ∧ ∀ (m : ℕ → UInt8) (addr : ℕ),
      self.copyLoop m addr =
        ((lastCapture cs addr).map fun c => c.mem addr).getD (m addr) := by
  obtain ⟨self, hrec, h⟩ := records_new.record cs hsize
  refine ⟨self, hrec, ?_⟩
  intro m addr
  rw [h.copyLoop_eq m]
  exact restoreAll_apply cs m addr

def overlapping : List Capture :=
  [⟨100, 2, fun _ => 1⟩, ⟨102, 2, fun _ => 2⟩, ⟨101, 2, fun _ => 3⟩]

theorem copyLoop_overlapping :
    totalSize overlapping ≤ PRE_ALLOC_BLOCK_SIZE ∧
    ∃ self, record overlapping new = some self ∧ ∀ (m : ℕ → UInt8) (addr : ℕ),
      self.copyLoop m addr =
        ((lastCapture overlapping addr).map fun c => c.mem addr).getD (m addr) :=
  ⟨by decide, copyLoop_record overlapping (by decide)⟩

end StateReallocation

end Nyx
