import Mathlib.Data.Int.Notation
import Nyx.Lib.Machine

/-!
# The log of dirty pages of the kernel

`vmx_fdl.c`: the kernel adds the address of a page when the guest first writes to it, and QEMU
flushes the log. The number of entries is compared with a size in bytes.
-/

namespace Nyx.Kvm.Fdl

def MAX_DIRTY_BUFFER : ℕ := 0x1000000000

def PAGE_SIZE : ℕ := 4096

def EINVAL : ℤ := 22

/-- `struct vm_vmx_fdl`. The buffer is the memory from its start on, as entries of 8 bytes. -/
structure VmVmxFdl where
  index : ℕ
  buf : Option (ℕ → UInt64)
  bufSize : ℕ
  allocSize : ℕ

/-- `vmx_fdl_setup`; `alloc_size` is left as `kmalloc` returns it. -/
def vmxFdlSetup (allocSize : ℕ) : VmVmxFdl where
  index := 0
  buf := none
  bufSize := 0
  allocSize := allocSize

def vmxFdlSetAddr (data : VmVmxFdl) (gpfn : UInt64) : Option ℕ × VmVmxFdl :=
  match data.buf with
  | some buf =>
    if data.index < data.bufSize then
      (some data.index,
        { data with buf := some (Function.update buf data.index gpfn), index := data.index + 1 })
    else (none, data)
  | none => (none, data)

/-- `vmx_fdl_realloc_memory`; whether `vmalloc` finds memory is up to the kernel. -/
def vmxFdlReallocMemory (data : VmVmxFdl) (size : ℕ) (vmalloc : Bool) : ℤ × VmVmxFdl :=
  if size ≤ MAX_DIRTY_BUFFER ∧ data.buf.isNone ∧ 8 ≤ size then
    let allocSize := size + (PAGE_SIZE - size % PAGE_SIZE)
    if vmalloc then
      (0, { index := 0, buf := some fun _ => 0, bufSize := size, allocSize := allocSize })
    else
      (-EINVAL, { data with bufSize := size, allocSize := allocSize })
  else
    (-EINVAL, data)

inductive Ioctl where
  | set (size : ℕ) (vmalloc : Bool)
  | flush
  | getIndex
  | other

def vmxFdlIoctl (data : VmVmxFdl) : Ioctl → ℤ × VmVmxFdl
  | .set size vmalloc => vmxFdlReallocMemory data size vmalloc
  | .flush => (0, { data with index := 0 })
  | .getIndex => (data.index, { data with index := 0 })
  | .other => (-EINVAL, data)

inductive Event where
  | setAddr (gpfn : UInt64)
  | ioctl (c : Ioctl)

inductive Answer where
  | stored (entry : Option ℕ)
  | returned (r : ℤ)
  deriving DecidableEq

def fdl : Machine Event Answer VmVmxFdl
  | data, .setAddr gpfn =>
    some (.stored (vmxFdlSetAddr data gpfn).1, (vmxFdlSetAddr data gpfn).2)
  | data, .ioctl c => some (.returned (vmxFdlIoctl data c).1, (vmxFdlIoctl data c).2)

def Accepts (data : VmVmxFdl) (size : ℕ) (data' : VmVmxFdl) : Prop :=
  vmxFdlIoctl data (.set size true) = (0, data')

/-- Every store of every sequence of events lies in the memory that was allocated. -/
def StaysInside (data : VmVmxFdl) : Prop :=
  ∀ events answers, fdl.answers data events = some answers →
    ∀ entry, .stored (some entry) ∈ answers → 8 * entry + 8 ≤ data.allocSize

section

variable {data data' : VmVmxFdl} {size : ℕ}

/-- The log is allocated with these sizes. -/
structure Ready (size allocSize : ℕ) (data : VmVmxFdl) : Prop where
  buf : data.buf.isSome
  bufSize : data.bufSize = size
  allocSize : data.allocSize = allocSize

lemma accepts_cases (h : Accepts data size data') :
    8 ≤ size ∧ data'.index = 0 ∧ Ready size (size + (PAGE_SIZE - size % PAGE_SIZE)) data' := by
  rw [Accepts, vmxFdlIoctl, vmxFdlReallocMemory] at h
  split at h
  · next hset =>
    cases h
    exact ⟨hset.2.2, rfl, rfl, rfl, rfl⟩
  · cases h

lemma Ready.setAddr {allocSize : ℕ} (h : Ready size allocSize data) (gpfn : UInt64) :
    (data.index < size ∧ (vmxFdlSetAddr data gpfn).1 = some data.index ∧
        (vmxFdlSetAddr data gpfn).2.index = data.index + 1 ∧
        Ready size allocSize (vmxFdlSetAddr data gpfn).2) ∨
      (size ≤ data.index ∧ vmxFdlSetAddr data gpfn = (none, data)) := by
  obtain ⟨buf, hbuf⟩ := Option.isSome_iff_exists.mp h.buf
  by_cases hlt : data.index < data.bufSize
  · left
    have hstep : vmxFdlSetAddr data gpfn = (some data.index,
        { data with buf := some (Function.update buf data.index gpfn)
                    index := data.index + 1 }) := by
      rw [vmxFdlSetAddr, hbuf]
      exact if_pos hlt
    rw [hstep]
    exact ⟨h.bufSize ▸ hlt, rfl, rfl, rfl, h.bufSize, h.allocSize⟩
  · right
    refine ⟨h.bufSize ▸ Nat.le_of_not_lt hlt, ?_⟩
    rw [vmxFdlSetAddr, hbuf]
    exact if_neg hlt

lemma Ready.ioctl {allocSize : ℕ} (h : Ready size allocSize data) (c : Ioctl) :
    Ready size allocSize (vmxFdlIoctl data c).2 := by
  cases c with
  | set size' vmalloc =>
    have hnone : ¬ (size' ≤ MAX_DIRTY_BUFFER ∧ data.buf.isNone = true ∧ 8 ≤ size') := by
      rintro ⟨-, hbuf, -⟩
      have hsome := h.buf
      rw [Option.isNone_iff_eq_none.mp hbuf] at hsome
      cases hsome
    rw [vmxFdlIoctl, vmxFdlReallocMemory, if_neg hnone]
    exact h
  | flush => exact ⟨h.buf, h.bufSize, h.allocSize⟩
  | getIndex => exact ⟨h.buf, h.bufSize, h.allocSize⟩
  | other => exact h

lemma Ready.stored_lt {allocSize : ℕ} {events : List Event} {answers : List Answer} {entry : ℕ}
    (h : Ready size allocSize data) (hrun : fdl.answers data events = some answers)
    (hentry : .stored (some entry) ∈ answers) : entry < size := by
  induction events generalizing data answers with
  | nil =>
    cases hrun
    cases hentry
  | cons event events ih =>
    cases event with
    | setAddr gpfn =>
      rw [Machine.answers_cons (m := fdl) rfl, Option.map_eq_some_iff] at hrun
      obtain ⟨rest, hrest, rfl⟩ := hrun
      obtain ⟨hlt, hstored, -, hready⟩ | ⟨-, hnone⟩ := h.setAddr gpfn
      · rcases List.mem_cons.mp hentry with heq | hmem
        · rw [hstored, Answer.stored.injEq, Option.some.injEq] at heq
          exact heq ▸ hlt
        · exact ih hready hrest hmem
      · rw [hnone] at hrest hentry
        exact ih h hrest (by simpa using hentry)
    | ioctl c =>
      rw [Machine.answers_cons (m := fdl) rfl, Option.map_eq_some_iff] at hrun
      obtain ⟨rest, hrest, rfl⟩ := hrun
      exact ih (h.ioctl c) hrest (by simpa using hentry)

lemma Ready.fill {allocSize : ℕ} (h : Ready size allocSize data) {n : ℕ}
    (hn : data.index + n < size) :
    ∃ answers, fdl.answers data (List.replicate (n + 1) (.setAddr 0)) = some answers ∧
      .stored (some (data.index + n)) ∈ answers := by
  induction n generalizing data with
  | zero =>
    obtain ⟨-, hstored, -, -⟩ | ⟨hge, -⟩ := h.setAddr 0
    · refine ⟨[.stored (vmxFdlSetAddr data 0).1], rfl, ?_⟩
      rw [hstored]
      exact List.mem_singleton.mpr rfl
    · omega
  | succ n ih =>
    obtain ⟨-, -, hindex, hready⟩ | ⟨hge, -⟩ := h.setAddr 0
    · obtain ⟨answers, hrun, hmem⟩ := ih hready (by omega)
      refine ⟨.stored (vmxFdlSetAddr data 0).1 :: answers, ?_, ?_⟩
      · rw [List.replicate_succ, Machine.answers_cons (m := fdl) rfl, hrun]
        rfl
      · rw [hindex] at hmem
        rw [show data.index + (n + 1) = data.index + 1 + n by omega]
        exact List.mem_cons_of_mem _ hmem
    · omega

end

/-- The log stays inside of its buffer exactly if a page has room for as many entries as the size
has bytes. -/
theorem staysInside_iff (data data' : VmVmxFdl) (size : ℕ) (haccepts : Accepts data size data') :
    StaysInside data' ↔ size ≤ 512 := by
  obtain ⟨hsize, hindex, hready⟩ := accepts_cases haccepts
  rw [StaysInside, hready.allocSize]
  constructor
  · intro h
    by_contra hlarge
    obtain ⟨answers, hrun, hmem⟩ := hready.fill (n := size - 1) (by omega)
    have hinside := h _ _ hrun _ hmem
    simp only [PAGE_SIZE] at hinside
    omega
  · intro hsmall events answers hrun entry hmem
    have hlt := hready.stored_lt hrun hmem
    simp only [PAGE_SIZE]
    omega

theorem staysInside_smallLog : StaysInside (vmxFdlIoctl (vmxFdlSetup 0) (.set 512 true)).2 :=
  (staysInside_iff (vmxFdlSetup 0) _ 512 rfl).mpr (Nat.le_refl 512)

theorem staysInside_oneMore :
    Accepts (vmxFdlSetup 0) 513 (vmxFdlIoctl (vmxFdlSetup 0) (.set 513 true)).2 ∧
      (vmxFdlIoctl (vmxFdlSetup 0) (.set 513 true)).2.allocSize = 4096 ∧
      ¬ StaysInside (vmxFdlIoctl (vmxFdlSetup 0) (.set 513 true)).2 := by
  have haccepts : Accepts (vmxFdlSetup 0) 513 (vmxFdlIoctl (vmxFdlSetup 0) (.set 513 true)).2 := rfl
  refine ⟨haccepts, rfl, ?_⟩
  intro h
  obtain ⟨-, -, hready⟩ := accepts_cases haccepts
  obtain ⟨answers, hrun, hmem⟩ := hready.fill (n := 512) (by decide)
  exact absurd (h _ _ hrun _ hmem) (by decide)

end Nyx.Kvm.Fdl
