import Mathlib.Data.Fin.VecNotation
import Nyx.Lib.Machine

/-!
# The Intel PT driver of the kernel

`vmx_pt.c`: ioctls set filters and ask for tracing, and the next vm-entry carries the request out.
The vCPU holds the lock while the guest runs with tracing. A step is a whole ioctl, although
`vmx_pt_ioctl` samples `configured` before it takes the lock.
-/

namespace Nyx.Kvm

open Function

def bitUll (n : UInt64) : UInt64 := 1 <<< n

def TRACE_EN : UInt64 := bitUll 0

def CTL_OS : UInt64 := bitUll 2

def CTL_USER : UInt64 := bitUll 3

def CR3_FILTER : UInt64 := bitUll 7

def TO_PA : UInt64 := bitUll 8

def DIS_RETC : UInt64 := bitUll 11

def BRANCH_EN : UInt64 := bitUll 13

def ADDR0_EN : UInt64 := bitUll 32

def ADDR1_EN : UInt64 := bitUll 36

def ADDR2_EN : UInt64 := bitUll 40

def ADDR3_EN : UInt64 := bitUll 44

def addrEn : Fin 4 → UInt64 := ![ADDR0_EN, ADDR1_EN, ADDR2_EN, ADDR3_EN]

def PT_TRACE_END : UInt8 := 0b01010101

def TOPA_MASK_OR_TABLE_OFFSET : UInt64 := 0x00000000FFFFFF80

def TOPA_MAIN_SIZE : UInt64 := bitUll 10 * bitUll 12

def TOPA_FALLBACK_SIZE : UInt64 := bitUll 4 * bitUll 12

def EINVAL : ℤ := 22

/-- What the processor supports. -/
structure Platform where
  enabled : Bool
  supportedAddrn : ℕ

inductive Msr where
  | cr3Match
  | addrStart (n : Fin 4)
  | addrEnd (n : Fin 4)
  | outputBase
  | outputMaskPtrs
  deriving DecidableEq

/-- The part of `struct vcpu_vmx_pt` that says what is traced. -/
structure Filters where
  ctrlMsr : UInt64
  addrConfigured : Fin 4 → Bool × Bool
  addr : Fin 4 → UInt64 × UInt64
  cr3Match : UInt64
  multiCr3Match : Fin 4 → UInt64
  multiCr3Num : UInt8
  multiCr3Enabled : Bool

/-- The tracing state of a vCPU. -/
structure VcpuVmxPt where
  filters : Filters
  outputBase : UInt64
  outputMaskPtrs : UInt64
  outputBaseInit : UInt64
  outputMaskPtrsInit : UInt64
  topaMain : ℕ → UInt8
  topaFallback : ℕ → UInt8
  configured : Bool
  cpu : UInt8
  reset : Bool
  stateChangePending : Bool
  state : Bool
  spinlock : Bool
  /-- The values of the control register for the guest and for the host, once they are set. -/
  autoload : Option (UInt64 × UInt64)

/-- The ends of a range, from user space. -/
structure FilterIprs where
  a : UInt64
  b : UInt64

/-- The CR3 values to trace, from user space. -/
structure MultiCr3 where
  cr3 : Fin 4 → UInt64
  num : UInt8

/-- The ioctls that set filters; an argument that `copy_from_user` cannot read is `none`. -/
inductive FilterIoctl where
  | configureAddr (n : Fin 4) (arg : Option FilterIprs)
  | enableAddr (n : Fin 4)
  | disableAddr (n : Fin 4)
  | configureMultiCr3 (arg : Option MultiCr3)
  | enableMultiCr3
  | disableMultiCr3
  | configureCr3 (arg : UInt64)
  | enableCr3
  | disableCr3

inductive Ioctl where
  | filter (c : FilterIoctl)
  | enable
  | disable
  | checkTopaOverflow
  | getTopaSize
  | other

def X64_48_BIT_HOLE_START : UInt64 := 0x0000800000000000

def X64_48_BIT_HOLE_END : UInt64 := 0xffff800000000000

def rangeCheck (addrA addrB : UInt64) : Bool :=
  if addrA = addrB ∨ addrA > addrB then false
  else if addrA ≥ X64_48_BIT_HOLE_START ∧ addrA < X64_48_BIT_HOLE_END then false
  else if addrB ≥ X64_48_BIT_HOLE_START ∧ addrB < X64_48_BIT_HOLE_END then false
  else true

namespace Filters

def addrEnabled (f : Filters) (n : Fin 4) : Bool := f.ctrlMsr &&& addrEn n != 0

def cr3Filter (f : Filters) : Bool := f.ctrlMsr &&& CR3_FILTER != 0

/-- What an ioctl that sets filters does while nothing is traced; `none` is `-EINVAL`. -/
def ioctl (supportedAddrn : ℕ) (f : Filters) : FilterIoctl → Option Filters
  | .configureAddr n arg =>
    if supportedAddrn ≥ n + 1 then
      match arg with
      | some iprs =>
        if rangeCheck iprs.a iprs.b then
          some { f with
            addr := update f.addr n (iprs.a, iprs.b)
            addrConfigured := update f.addrConfigured n (true, true) }
        else none
      | none => none
    else none
  | .enableAddr n =>
    if (f.addrConfigured n).1 ∧ (f.addrConfigured n).2 ∧ supportedAddrn ≥ n + 1 then
      some { f with ctrlMsr := f.ctrlMsr ||| addrEn n }
    else none
  | .disableAddr n =>
    if f.addrEnabled n then some { f with ctrlMsr := f.ctrlMsr ^^^ addrEn n } else none
  | .configureMultiCr3 arg =>
    arg.map fun m => { f with multiCr3Match := m.cr3, multiCr3Num := m.num }
  | .enableMultiCr3 =>
    if ¬f.cr3Filter ∧ f.multiCr3Num ≠ 0 ∧ ¬f.multiCr3Enabled then
      some { f with multiCr3Enabled := true }
    else none
  | .disableMultiCr3 =>
    if f.multiCr3Enabled then some { f with multiCr3Enabled := false } else none
  | .configureCr3 arg => some { f with cr3Match := arg }
  -- a CR3 of zero is taken for one that was never set
  | .enableCr3 =>
    if f.cr3Match ≠ 0 ∧ ¬f.multiCr3Enabled then
      some { f with ctrlMsr := f.ctrlMsr ||| CR3_FILTER }
    else none
  | .disableCr3 =>
    if f.cr3Filter then some { f with ctrlMsr := f.ctrlMsr ^^^ CR3_FILTER } else none

end Filters

def toInt (n : UInt64) : ℤ := n.toUInt32.toInt32.toInt

/-- The end of the trace is marked in the buffer that is written at the moment. -/
def vmxPtGetDataSize (v : VcpuVmxPt) : ℤ × VcpuVmxPt :=
  let offset := v.outputMaskPtrs >>> 32
  if v.outputMaskPtrs &&& TOPA_MASK_OR_TABLE_OFFSET ≠ 0 then
    (toInt (TOPA_MAIN_SIZE + offset),
      if offset < TOPA_FALLBACK_SIZE then
        { v with topaFallback := update v.topaFallback offset.toNat PT_TRACE_END }
      else v)
  else
    (toInt offset, { v with topaMain := update v.topaMain offset.toNat PT_TRACE_END })

def topaReset (v : VcpuVmxPt) : VcpuVmxPt :=
  { v with outputBase := v.outputBaseInit, outputMaskPtrs := v.outputMaskPtrsInit }

def vmxPtCheckOverflow (v : VcpuVmxPt) : ℤ × VcpuVmxPt :=
  let (bytes, v) := vmxPtGetDataSize v
  if bytes ≥ toInt TOPA_MAIN_SIZE then (bytes, topaReset v) else (0, v)

/-- The return value is the last one that `r` gets: `KVM_VMX_PT_ENABLE` always ends with `r = 0`. -/
def vmxPtIoctl (p : Platform) (v : VcpuVmxPt) : Ioctl → ℤ × VcpuVmxPt
  | .filter c =>
    if ¬v.configured then
      match v.filters.ioctl p.supportedAddrn c with
      | some f => (0, { v with filters := f })
      | none => (-EINVAL, v)
    else (-EINVAL, v)
  | .enable =>
    if ¬v.configured ∧ ¬v.stateChangePending then
      (0, { v with stateChangePending := true, state := true })
    else (0, v)
  | .disable =>
    if v.configured ∧ ¬v.stateChangePending then
      let (r, v) := vmxPtGetDataSize v
      (r, { v with stateChangePending := true, state := false, reset := true })
    else (-EINVAL, v)
  | .checkTopaOverflow =>
    let (r, v) := vmxPtCheckOverflow v
    (r, if r ≠ 0 then { v with reset := true } else v)
  | .getTopaSize => (toInt (TOPA_MAIN_SIZE + TOPA_FALLBACK_SIZE), v)
  | .other => (-EINVAL, v)

def Filters.hostVal (f : Filters) : UInt64 :=
  if f.ctrlMsr &&& TRACE_EN ≠ 0 then f.ctrlMsr ^^^ TRACE_EN else f.ctrlMsr

def vmxPtSetupVmxAutoloadMsr (v : VcpuVmxPt) (enableVmxPt : Bool) : VcpuVmxPt :=
  let hostVal := v.filters.hostVal
  { v with autoload := some (if enableVmxPt then hostVal ||| TRACE_EN else hostVal, hostVal) }

def vmxPtEnable (v : VcpuVmxPt) : VcpuVmxPt :=
  if ¬v.configured then vmxPtSetupVmxAutoloadMsr { v with configured := true } true else v

def vmxPtDisable (v : VcpuVmxPt) : VcpuVmxPt :=
  if v.configured then
    topaReset (vmxPtSetupVmxAutoloadMsr { v with configured := false } false)
  else v

def vmxPtReconfigureCpu (v : VcpuVmxPt) (msr : Msr → UInt64) : Msr → UInt64
  | .cr3Match => if v.filters.cr3Match ≠ 0 then v.filters.cr3Match else msr .cr3Match
  | .addrStart n =>
    if (v.filters.addrConfigured n).1 then (v.filters.addr n).1 else msr (.addrStart n)
  | .addrEnd n =>
    if (v.filters.addrConfigured n).1 then (v.filters.addr n).2 else msr (.addrEnd n)
  | .outputBase => v.outputBase
  | .outputMaskPtrs => v.outputMaskPtrs

/-- The first half of `vmx_pt_vmentry`. -/
def applyStateChange (p : Platform) (v : VcpuVmxPt) : VcpuVmxPt :=
  if p.enabled ∧ v.stateChangePending then
    { (if v.state then vmxPtEnable v else vmxPtDisable v) with stateChangePending := false }
  else v

/-- Without an answer when the lock is not free. -/
def vmxPtVmentry (p : Platform) (cpu : UInt8) (v : VcpuVmxPt) (msr : Msr → UInt64) :
    Option (VcpuVmxPt × (Msr → UInt64)) :=
  let v := applyStateChange p v
  if p.enabled ∧ v.configured then
    if v.spinlock then none
    else some ({ v with spinlock := true, cpu := cpu }, vmxPtReconfigureCpu v msr)
  else some (v, msr)

def vmxPtVmexit (p : Platform) (v : VcpuVmxPt) (msr : Msr → UInt64) : VcpuVmxPt :=
  if p.enabled ∧ v.configured then
    { v with
      outputBase := msr .outputBase
      outputMaskPtrs := msr .outputMaskPtrs
      spinlock := false }
  else v

def vmxPtSetupMsrs : Filters where
  ctrlMsr := CTL_OS ||| CTL_USER ||| TO_PA ||| BRANCH_EN ||| DIS_RETC
  addrConfigured := fun _ => (false, false)
  addr := fun _ => (0, 0)
  cr3Match := 0
  multiCr3Match := fun _ => 0
  multiCr3Num := 0
  multiCr3Enabled := false

/-- The table of the trace buffers is at `topa`, unless there is no memory for it. -/
def vmxPtSetup (p : Platform) (topa : Option UInt64) : Option VcpuVmxPt :=
  if p.enabled then
    topa.map fun base =>
      { filters := vmxPtSetupMsrs
        outputBase := base
        outputMaskPtrs := 0x7f
        outputBaseInit := base
        outputMaskPtrsInit := 0x7f
        topaMain := fun _ => 0
        topaFallback := fun _ => 0
        configured := false
        cpu := 0
        reset := true
        stateChangePending := false
        state := false
        spinlock := false
        autoload := none }
  else none

/-- A vCPU with the registers of the processor. -/
structure Vcpu where
  vmxPt : Option VcpuVmxPt
  inGuest : Bool
  msr : Msr → UInt64

def Vcpu.new (p : Platform) (topa : Option UInt64) : Vcpu := ⟨vmxPtSetup p topa, false, fun _ => 0⟩

/-- The trace that the guest leaves moves the output registers until the vm-exit. -/
inductive Event where
  | ioctl (c : Ioctl)
  | vmentry (cpu : UInt8)
  | vmexit (outputBase outputMaskPtrs : UInt64)

def Event.traced (outputBase outputMaskPtrs : UInt64) (msr : Msr → UInt64) : Msr → UInt64 :=
  update (update msr .outputBase outputBase) .outputMaskPtrs outputMaskPtrs

/-- An ioctl is answered with its return value. Entries and exits of a vCPU alternate. -/
def vcpu (p : Platform) : Machine Event (Option ℤ) Vcpu
  | s, .ioctl c =>
    match s.vmxPt with
    | none => some (some (-EINVAL), s)
    | some v =>
      if v.spinlock then none
      else some (some (vmxPtIoctl p v c).1, { s with vmxPt := some (vmxPtIoctl p v c).2 })
  | s, .vmentry cpu =>
    if s.inGuest then none
    else
      match s.vmxPt with
      | none => some (none, { s with inGuest := true })
      | some v =>
        (vmxPtVmentry p cpu v s.msr).map fun (v, msr) => (none, ⟨some v, true, msr⟩)
  | s, .vmexit outputBase outputMaskPtrs =>
    if s.inGuest then
      match s.vmxPt with
      | none => some (none, { s with inGuest := false })
      | some v =>
        let msr := Event.traced outputBase outputMaskPtrs s.msr
        some (none, ⟨some (vmxPtVmexit p v msr), false, msr⟩)
    else none

def Vcpu.Configured (s : Vcpu) : Prop := ∃ v, s.vmxPt = some v ∧ v.configured = true

def Vcpu.DisablePending (s : Vcpu) : Prop :=
  ∃ v, s.vmxPt = some v ∧ v.stateChangePending = true ∧ v.state = false

end Nyx.Kvm
