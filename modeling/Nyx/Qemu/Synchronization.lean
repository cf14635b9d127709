import Mathlib.Tactic.Common

/-!
# The hypervisor's side of a run

`pt/synchronization.c` and `pt/auxiliary_buffer.c` with their callers. A run starts when
`synchronization_lock` returns; what happens in it is recorded in the result buffer, which the
fuzzer reads at the next `PING`.
-/

namespace Nyx.Sync

/-- `auxilary_buffer_result_t`, without the runtime. -/
structure AuxResult where
  state : ℕ
  hprintf : Bool
  execDone : Bool
  crashFound : Bool
  asanFound : Bool
  timeoutFound : Bool
  reloaded : Bool
  ptOverflow : Bool
  pageNotFound : Bool
  pageAddr : UInt64
  success : Bool
  payloadWriteFound : Bool
  deriving DecidableEq

/-- `auxilary_buffer_config_t`, without the timeout, the trace mode and the verbosity. -/
structure AuxConfig where
  changed : Bool
  redqueenMode : Bool
  reloadMode : Bool
  pageDumpMode : Bool
  pageAddr : UInt64
  protectPayloadBuffer : Bool
  deriving DecidableEq

/-- The hypervisor's state in a run. -/
structure Vm where
  result : AuxResult
  config : AuxConfig
  misc : List UInt8
  shadowRedqueenMode : Bool
  intelPtRunTrashed : Bool
  ptIpFilterConfigured : Bool
  ptDecoderState : Bool
  decoderPageFault : Bool
  decoderPageFaultAddr : UInt64
  dumpPage : Bool
  dumpPageAddr : UInt64
  inFuzzingLoop : Bool
  inFuzzingMode : Bool
  inReloadMode : Bool
  inRedqueenReloadMode : Bool
  redqueenEnablePending : Bool
  redqueenDisablePending : Bool
  interceptMode : Bool
  protectPayloadBuffer : Bool
  initState : Bool
  setupSnapshotOnce : Bool
  snapshotExists : Bool
  acquired : Bool
  nestedHypercallsEnabled : Bool
  timeoutReloadPending : Bool
  shutdownRequested : Bool
  cowCacheFull : Bool
  deriving DecidableEq

inductive DecoderResult where
  | success
  | successPtOverflow
  | pageFault (addr : UInt64)
  | error
  deriving DecidableEq

def miscSize : ℕ := 4096 - (128 + 256 + 512 + 512)

namespace Vm

def init : Vm where
  result := ⟨0, false, false, false, false, false, false, false, false, 0, false, false⟩
  config := ⟨false, false, false, false, 0, false⟩
  misc := []
  shadowRedqueenMode := false
  intelPtRunTrashed := false
  ptIpFilterConfigured := false
  ptDecoderState := false
  decoderPageFault := false
  decoderPageFaultAddr := 0
  dumpPage := false
  dumpPageAddr := 0
  inFuzzingLoop := false
  inFuzzingMode := false
  inReloadMode := false
  inRedqueenReloadMode := false
  redqueenEnablePending := false
  redqueenDisablePending := false
  interceptMode := false
  protectPayloadBuffer := false
  initState := true
  setupSnapshotOnce := false
  snapshotExists := false
  acquired := false
  nestedHypercallsEnabled := false
  timeoutReloadPending := false
  shutdownRequested := false
  cowCacheFull := false

def writeMisc (vm : Vm) (msg : List UInt8) : Vm := { vm with misc := msg.take (miscSize - 2) }

def setSuccess (vm : Vm) (success : Bool) : Vm :=
  { vm with result := { vm.result with success := success } }

def setHprintf (vm : Vm) (msg : List UInt8) : Vm :=
  { vm.writeMisc msg with result := { vm.result with hprintf := true } }

def setCrashReason (vm : Vm) (msg : List UInt8) : Vm :=
  { vm.writeMisc msg with result := { vm.result with crashFound := true } }

def flushResult (r : AuxResult) : AuxResult :=
  { r with
    execDone := false
    hprintf := false
    crashFound := false
    asanFound := false
    timeoutFound := false
    reloaded := false
    ptOverflow := false
    pageNotFound := false
    pageAddr := 0
    payloadWriteFound := false }

def checkConfig (vm : Vm) : Vm :=
  if vm.config.changed then
    let switched := vm.config.redqueenMode != vm.shadowRedqueenMode
    { vm with
      inRedqueenReloadMode := if switched then vm.config.redqueenMode else vm.inRedqueenReloadMode
      redqueenEnablePending := vm.redqueenEnablePending || (switched && vm.config.redqueenMode)
      redqueenDisablePending := vm.redqueenDisablePending || (switched && !vm.config.redqueenMode)
      dumpPage := vm.dumpPage || vm.config.pageDumpMode
      dumpPageAddr := if vm.config.pageDumpMode then vm.config.pageAddr else vm.dumpPageAddr
      inReloadMode := vm.config.reloadMode
      protectPayloadBuffer := vm.config.protectPayloadBuffer
      shadowRedqueenMode := vm.config.redqueenMode
      config := { vm.config with
        changed := false
        pageDumpMode := false
        pageAddr := if vm.config.pageDumpMode then 0 else vm.config.pageAddr } }
  else vm

def decodes (vm : Vm) : Bool :=
  !vm.interceptMode && vm.inFuzzingMode && !vm.decoderPageFault && vm.ptDecoderState && !vm.dumpPage

def ptDump (vm : Vm) (r : DecoderResult) : Vm :=
  if vm.decodes then
    match r with
    | .success => vm
    | .successPtOverflow => { vm with intelPtRunTrashed := true }
    | .pageFault addr => { vm with decoderPageFault := true, decoderPageFaultAddr := addr }
    | .error => vm
  else vm

/-- `pt_disable`; the trace that is left in the buffer, if any, is dumped. -/
def ptDisable (vm : Vm) (left : Option DecoderResult) : Vm :=
  match left with
  | some r => vm.ptDump r
  | none => vm

/-- What the abort handlers have in common. Some take the success back outside of the fuzzing loop;
all stop the trace, mark the result and go back to the snapshot, which empties the cow cache. -/
def abortRun (clearsSuccess : Bool) (mark : AuxResult → AuxResult) (vm : Vm)
    (left : Option DecoderResult) : Vm :=
  let vm := if !vm.inFuzzingLoop && clearsSuccess then vm.setSuccess false else vm
  let vm := vm.ptDisable left
  { vm with
    result := { mark vm.result with reloaded := true }
    cowCacheFull := false
    inFuzzingLoop := false }

def lockCrashFound (vm : Vm) (left : Option DecoderResult) : Vm :=
  vm.abortRun false (fun r => { r with crashFound := true }) left

def lockAsanFound (vm : Vm) (left : Option DecoderResult) : Vm :=
  vm.abortRun true (fun r => { r with asanFound := true }) left

def lockTimeoutFound (vm : Vm) (left : Option DecoderResult) : Vm :=
  vm.abortRun true (fun r => { r with timeoutFound := true }) left

def payloadBufferWriteDetected (vm : Vm) (reason : List UInt8) (left : Option DecoderResult) : Vm :=
  (vm.abortRun false (fun r => { r with payloadWriteFound := true }) left).writeMisc reason

def cowFullDetected (vm : Vm) (left : Option DecoderResult) : Vm := vm.abortRun false id left

def reloads (vm : Vm) : Bool := vm.inReloadMode || vm.inRedqueenReloadMode || vm.dumpPage

def disablePt (vm : Vm) (left : Option DecoderResult) : Vm :=
  let vm := if !vm.inFuzzingLoop then vm.setSuccess false else vm
  let vm := vm.ptDisable left
  { vm with
    result := { vm.result with reloaded := vm.result.reloaded || vm.reloads }
    cowCacheFull := vm.cowCacheFull && !vm.reloads
    inFuzzingLoop := false }

def enterFuzzingLoop (vm : Vm) : Vm := { vm with inFuzzingLoop := true }

def acquire (vm : Vm) : Vm := if !vm.initState then vm.enterFuzzingLoop else vm

def release (vm : Vm) (left : Option DecoderResult) : Vm :=
  if vm.initState then { vm with initState := false } else vm.disablePt left

def nestedEarlyRelease (vm : Vm) (left : Option DecoderResult) : Vm :=
  if !vm.nestedHypercallsEnabled then vm
  else if !vm.inReloadMode then
    { { vm with inReloadMode := true }.disablePt left with inReloadMode := false }
  else vm.disablePt left

/-- The snapshot is taken and the fuzzing mode begins, in `handle_hypercall_kafl_next_payload` and
`handle_hypercall_kafl_nested_acquire`. -/
def beginFuzzing (vm : Vm) : Vm :=
  { vm with
    snapshotExists := true
    ptDecoderState := vm.ptDecoderState || vm.ptIpFilterConfigured
    cowCacheFull := false
    inFuzzingMode := true
    result := { vm.result with state := 3 } }

/-- A processor that halts counts as a request to shut down. -/
def checkHalted (vm : Vm) (halted : Bool) : Vm :=
  { vm with shutdownRequested := vm.shutdownRequested || (vm.inFuzzingMode && halted) }

def checkShutdown (vm : Vm) (left : Option DecoderResult) : Vm :=
  if vm.inFuzzingMode && vm.shutdownRequested then
    { vm.lockCrashFound left with shutdownRequested := false }
  else vm

def exitHandled (vm : Vm) (halted : Bool) (left : Option DecoderResult) : Vm :=
  if vm.inFuzzingMode && vm.cowCacheFull then
    { vm.cowFullDetected left with cowCacheFull := false }
  else (vm.checkHalted halted).checkShutdown left

/-- `synchronization_check_page_not_found` and what `synchronization_lock` makes of it. -/
def checkPageNotFound (vm : Vm) : Vm :=
  let failure := vm.decoderPageFault || vm.dumpPage
  { vm with
    result := { vm.result with
      pageNotFound := vm.result.pageNotFound || vm.decoderPageFault
      pageAddr := if vm.decoderPageFault then vm.decoderPageFaultAddr else vm.result.pageAddr
      success := if failure then false else vm.result.success }
    decoderPageFault := false
    decoderPageFaultAddr := if vm.decoderPageFault then 0 else vm.decoderPageFaultAddr }

def lockPing (vm : Vm) : Vm :=
  let vm := { vm with
    result := { vm.result with
      ptOverflow := vm.result.ptOverflow || vm.intelPtRunTrashed
      execDone := true } }
  let vm := vm.checkPageNotFound
  { vm with dumpPage := false, dumpPageAddr := if vm.dumpPage then 0 else vm.dumpPageAddr }

def lockReturn (vm : Vm) : Vm :=
  ({ vm with result := flushResult vm.result }.checkConfig).setSuccess true

def preKvmRun (vm : Vm) : Vm :=
  { vm with
    interceptMode := (vm.interceptMode || vm.redqueenEnablePending) && !vm.redqueenDisablePending
    redqueenEnablePending := false
    redqueenDisablePending := false }

end Vm

/-- What can happen while the guest runs: the loop in `kvm_cpu_exec`, requests of other threads, and
the exits. The trace that is left when a handler stops it comes with the event. -/
inductive VmEvent where
  | loadSnapshot (nested filters protect : Bool)
  | rangeSubmit
  | kvmCpuExec (left : Option DecoderResult)
  | preKvmRun
  | timerExpired
  | topaFull (r : DecoderResult)
  | cowCacheFull
  | shutdownRequest
  | exitHandled (halted : Bool) (left : Option DecoderResult)
  | payloadWrite (reason : List UInt8) (left : Option DecoderResult)
  | shutdown (left : Option DecoderResult)
  | nextPayload
  | printf (msg : List UInt8)
  | acquire
  | release (left : Option DecoderResult)
  | panic (reason : List UInt8) (left : Option DecoderResult)
  | kasan (left : Option DecoderResult)
  | nestedAcquire
  | nestedRelease (left : Option DecoderResult)
  | nestedEarlyRelease (left : Option DecoderResult)
  | nestedPrintf (msg : List UInt8)
  deriving DecidableEq

namespace Vm

def handle (vm : Vm) : VmEvent → Vm
  | .loadSnapshot nested filters protect =>
    { vm with
      snapshotExists := true
      ptIpFilterConfigured := filters
      inFuzzingMode := vm.inFuzzingMode || nested
      protectPayloadBuffer := if nested then protect else vm.protectPayloadBuffer }
  | .rangeSubmit => { vm with ptIpFilterConfigured := true }
  | .kvmCpuExec left =>
    { if vm.timeoutReloadPending then vm.lockTimeoutFound left else vm with
      timeoutReloadPending := false }
  | .preKvmRun => vm.preKvmRun
  | .timerExpired => { vm with timeoutReloadPending := true }
  | .topaFull r => vm.ptDump r
  | .cowCacheFull => { vm with cowCacheFull := true }
  | .shutdownRequest =>
    if vm.inFuzzingMode then { vm with shutdownRequested := true } else vm
  | .exitHandled halted left => vm.exitHandled halted left
  | .payloadWrite reason left =>
    if vm.protectPayloadBuffer && vm.inFuzzingMode then vm.payloadBufferWriteDetected reason left
    else vm
  -- the guest turns the machine off: the loop calls the handler of the hypercall
  | .shutdown left => if vm.inFuzzingMode then vm.release left else vm
  | .nextPayload =>
    if vm.initState then { vm with result := { vm.result with state := 2 } }
    else if !vm.setupSnapshotOnce then { vm.beginFuzzing with setupSnapshotOnce := true }
    else vm
  | .printf msg | .nestedPrintf msg => vm.setHprintf msg
  | .acquire => vm.acquire
  | .release left => vm.release left
  | .panic reason left =>
    if vm.snapshotExists then (vm.setCrashReason reason).lockCrashFound left else vm
  | .kasan left => if vm.snapshotExists then vm.lockAsanFound left else vm
  | .nestedAcquire =>
    if !vm.acquired then { vm.beginFuzzing with acquired := true } else vm
  | .nestedRelease left => { vm with nestedHypercallsEnabled := true }.disablePt left
  | .nestedEarlyRelease left => vm.nestedEarlyRelease left

def pings (vm : Vm) : VmEvent → Bool
  | .nextPayload => vm.initState || vm.setupSnapshotOnce
  | .printf _ | .nestedAcquire | .nestedPrintf _ => true
  | _ => false

/-- What the fuzzer finds when it gets the `PING`; `synchronization_lock_hprintf` changes nothing
before it. -/
def ping (vm : Vm) (e : VmEvent) : Vm :=
  match e with
  | .nestedPrintf _ => vm.handle e
  | _ => (vm.handle e).lockPing

/-- What the caller of `synchronization_lock` does when it returns. -/
def afterLock (vm : Vm) : VmEvent → Vm
  | .nextPayload => if vm.initState then vm else { vm with inFuzzingMode := true }
  | .nestedAcquire => vm.enterFuzzingLoop
  | _ => vm

end Vm

/-- A process: the event it waits in, the state in which `synchronization_lock` last returned, and
what has happened since, each event with the state in which it happened. -/
structure Session where
  vm : Vm
  wait : VmEvent
  start : Vm
  since : List (Vm × VmEvent)
  deriving DecidableEq

namespace Session

def boot : Session := ⟨Vm.init, .preKvmRun, Vm.init, []⟩

/-- The fuzzer answers: `synchronization_lock` or `synchronization_lock_hprintf` returns. -/
def resume (s : Session) : Session :=
  match s.wait with
  | .nestedPrintf _ => { s with vm := { s.vm with result := { s.vm.result with hprintf := false } } }
  | wait =>
    let vm := s.vm.lockReturn.afterLock wait
    ⟨vm, wait, vm, []⟩

/-- Run until the next `PING`; the events that follow are left over. -/
def run : Session → List VmEvent → Option (Session × List VmEvent)
  | _, [] => none
  | s, e :: es =>
    if s.vm.pings e then
      some ({ s with vm := s.vm.ping e, wait := e, since := s.since ++ [(s.vm, e)] }, es)
    else run { s with vm := s.vm.handle e, since := s.since ++ [(s.vm, e)] } es

def configure (s : Session) (config : AuxConfig) : Session := { s with vm := { s.vm with config } }

end Session

/-! ### What the flags report -/

inductive Flag where
  | crash
  | asan
  | timeout
  | ptOverflow
  | pageNotFound
  | reloaded
  | payloadWrite
  deriving DecidableEq

def AuxResult.flag (r : AuxResult) : Flag → Bool
  | .crash => r.crashFound
  | .asan => r.asanFound
  | .timeout => r.timeoutFound
  | .ptOverflow => r.ptOverflow
  | .pageNotFound => r.pageNotFound
  | .reloaded => r.reloaded
  | .payloadWrite => r.payloadWriteFound

def VmEvent.left : VmEvent → Option DecoderResult
  | .topaFull r => some r
  | .kvmCpuExec left | .exitHandled _ left | .payloadWrite _ left | .shutdown left | .release left
  | .panic _ left | .kasan left | .nestedRelease left | .nestedEarlyRelease left => left
  | _ => none

/-- Whether a result of the decoder is what a flag reports. -/
def DecoderResult.reports : DecoderResult → Flag → Bool
  | .successPtOverflow, .ptOverflow => true
  | .pageFault _, .pageNotFound => true
  | _, _ => false

namespace Vm

def aborts (vm : Vm) : VmEvent → Bool
  | .kvmCpuExec _ => vm.timeoutReloadPending
  | .exitHandled halted _ => vm.inFuzzingMode && (vm.cowCacheFull || vm.shutdownRequested || halted)
  | .payloadWrite _ _ => vm.protectPayloadBuffer && vm.inFuzzingMode
  | .panic _ _ | .kasan _ => vm.snapshotExists
  | _ => false

def ends (vm : Vm) : VmEvent → Bool
  | .release _ => !vm.initState
  | .shutdown _ => vm.inFuzzingMode && !vm.initState
  | .nestedRelease _ => true
  | .nestedEarlyRelease _ => vm.nestedHypercallsEnabled
  | _ => false

def restores (vm : Vm) (e : VmEvent) : Bool :=
  vm.aborts e || (vm.ends e && (e matches .nestedEarlyRelease _ || vm.reloads))

def dumps (vm : Vm) (e : VmEvent) : Bool :=
  e matches .topaFull _ || vm.aborts e || vm.ends e

def decoded (vm : Vm) (e : VmEvent) (p : DecoderResult → Bool) : Bool :=
  vm.decodes && vm.dumps e && e.left.any p

def causes (vm : Vm) (e : VmEvent) (f : Flag) : Bool :=
  match f with
  | .crash =>
    match e with
    | .panic _ _ => vm.snapshotExists
    | .shutdownRequest => vm.inFuzzingMode
    | .exitHandled halted _ => vm.inFuzzingMode && !vm.cowCacheFull && halted
    | _ => false
  | .asan => e matches .kasan _ && vm.aborts e
  | .timeout => (e matches .timerExpired)
  | .payloadWrite => e matches .payloadWrite _ _ && vm.aborts e
  | .reloaded => vm.restores e
  | .ptOverflow | .pageNotFound => vm.decoded e (·.reports f)

/-- Whether a flag is set, or something is noted that will set it. -/
def raised (vm : Vm) (f : Flag) : Bool :=
  vm.result.flag f ||
    match f with
    | .crash => vm.shutdownRequested
    | .timeout => vm.timeoutReloadPending
    | .ptOverflow => vm.intelPtRunTrashed
    | .pageNotFound => vm.decoderPageFault
    | _ => false

variable {vm : Vm} {f : Flag}

lemma raised_ptDump (r : DecoderResult) :
    (vm.ptDump r).raised f = (vm.raised f || (vm.decodes && r.reports f)) := by
  unfold ptDump
  cases vm.decodes <;> cases r <;> cases f <;> simp [raised, DecoderResult.reports]

lemma raised_ptDisable (left : Option DecoderResult) :
    (vm.ptDisable left).raised f = (vm.raised f || (vm.decodes && left.any (·.reports f))) := by
  cases left with
  | none => simp [ptDisable]
  | some r => exact raised_ptDump r

lemma reloads_ptDisable (left : Option DecoderResult) :
    (vm.ptDisable left).reloads = vm.reloads := by
  unfold ptDisable ptDump
  grind [reloads]

@[simp] lemma raised_setSuccess (b : Bool) : (vm.setSuccess b).raised f = vm.raised f := by
  cases f <;> rfl

lemma raised_abortRun {c b : Bool} {mark : AuxResult → AuxResult}
    (hmark : ∀ r : AuxResult, (mark r).flag f = (r.flag f || b)) (left : Option DecoderResult) :
    (vm.abortRun c mark left).raised f = (vm.raised f || (b || (decide (f = .reloaded) ||
      (vm.decodes && left.any (·.reports f))))) := by
  generalize hvm : (if !vm.inFuzzingLoop && c then vm.setSuccess false else vm) = vm₀
  have hraised : vm₀.raised f = vm.raised f := by
    rw [← hvm]
    split <;> simp
  have hdecodes : vm₀.decodes = vm.decodes := by
    rw [← hvm]
    split <;> rfl
  have hleft : (vm₀.ptDisable left).raised f = _ := raised_ptDisable left
  simp only [abortRun, hvm]
  cases f <;> simp_all [raised, AuxResult.flag] <;> grind

lemma raised_disablePt (left : Option DecoderResult) :
    (vm.disablePt left).raised f = (vm.raised f || ((decide (f = .reloaded) && vm.reloads) ||
      (vm.decodes && left.any (·.reports f)))) := by
  generalize hvm : (if !vm.inFuzzingLoop then vm.setSuccess false else vm) = vm₀
  have hraised : vm₀.raised f = vm.raised f := by
    rw [← hvm]
    split <;> simp
  have hdecodes : vm₀.decodes = vm.decodes := by
    rw [← hvm]
    split <;> rfl
  have hreloads : (vm₀.ptDisable left).reloads = vm.reloads := by
    rw [reloads_ptDisable, ← hvm]
    split <;> rfl
  have hleft : (vm₀.ptDisable left).raised f = _ := raised_ptDisable left
  simp only [disablePt, hvm]
  cases f <;> simp_all [raised, AuxResult.flag]
  grind

/-- The flags that an event raises apart from what it decodes and restores. -/
def marks (vm : Vm) : VmEvent → Flag → Bool
  | .panic _ _, f => vm.snapshotExists && decide (f = .crash)
  | .shutdownRequest, f => vm.inFuzzingMode && decide (f = .crash)
  | .exitHandled halted _, f => vm.inFuzzingMode && !vm.cowCacheFull && halted && decide (f = .crash)
  | .kasan _, f => vm.snapshotExists && decide (f = .asan)
  | .timerExpired, f => decide (f = .timeout)
  | .payloadWrite _ _, f => vm.protectPayloadBuffer && vm.inFuzzingMode && decide (f = .payloadWrite)
  | _, _ => false

lemma causes_eq (e : VmEvent) : vm.causes e f = (vm.marks e f || ((decide (f = .reloaded) &&
    vm.restores e) || (vm.decodes && vm.dumps e && e.left.any (·.reports f)))) := by
  cases f with
  | crash => cases e <;> simp [causes, marks, DecoderResult.reports]
  | asan => cases e <;> simp [causes, marks, aborts, DecoderResult.reports]
  | timeout => cases e <;> simp [causes, marks, DecoderResult.reports]
  | payloadWrite => cases e <;> simp [causes, marks, aborts, DecoderResult.reports]
  | reloaded => cases e <;> simp [causes, marks, DecoderResult.reports]
  | ptOverflow | pageNotFound => cases e <;> simp [causes, marks, decoded]

lemma raised_release (left : Option DecoderResult) :
    (vm.release left).raised f = (vm.raised f || (!vm.initState &&
      ((decide (f = .reloaded) && vm.reloads) || (vm.decodes && left.any (·.reports f))))) := by
  unfold release
  cases hinit : vm.initState with
  | true => cases f <;> simp [raised]
  | false => simp [raised_disablePt]

lemma raised_lockCrashFound (left : Option DecoderResult) : (vm.lockCrashFound left).raised f =
    (vm.raised f || (decide (f = .crash) || (decide (f = .reloaded) ||
      (vm.decodes && left.any (·.reports f))))) :=
  raised_abortRun (fun r => by cases f <;> simp [AuxResult.flag]) left

lemma raised_checkShutdown (left : Option DecoderResult) :
    (vm.checkShutdown left).raised f = (vm.raised f || (vm.inFuzzingMode && vm.shutdownRequested &&
      (decide (f = .reloaded) || (vm.decodes && left.any (·.reports f))))) := by
  have hfound : (vm.lockCrashFound left).raised f = _ := raised_lockCrashFound left
  have hcrash : (vm.lockCrashFound left).result.flag .crash = true := rfl
  unfold checkShutdown
  split
  next hreq => cases f <;> simp_all [raised]
  next hreq => simp [hreq]

lemma raised_exitHandled (halted : Bool) (left : Option DecoderResult) :
    (vm.exitHandled halted left).raised f =
      (vm.raised f || vm.causes (.exitHandled halted left) f) := by
  have hfull : (vm.cowFullDetected left).raised f = _ :=
    raised_abortRun (b := false) (fun r => by simp) left
  have hhalted : (vm.checkHalted halted).raised f =
      (vm.raised f || (decide (f = .crash) && vm.inFuzzingMode && halted)) := by
    cases f <;> simp [raised, checkHalted, Bool.or_assoc]
  have hdecodes : (vm.checkHalted halted).decodes = vm.decodes := rfl
  rw [causes_eq]
  unfold exitHandled
  split
  next hcow =>
    cases f <;> simp_all [raised, marks, restores, dumps, aborts, ends, VmEvent.left]
  next hcow =>
    rw [raised_checkShutdown, hhalted, hdecodes]
    cases f <;>
      simp_all [checkHalted, marks, restores, dumps, aborts, ends, VmEvent.left] <;> grind

lemma raised_handle (e : VmEvent) : (vm.handle e).raised f = (vm.raised f || vm.causes e f) := by
  rw [causes_eq]
  cases e with
  | loadSnapshot | rangeSubmit | preKvmRun | cowCacheFull | printf | nestedPrintf =>
    cases f <;> simp [marks, restores, dumps, aborts, ends] <;> rfl
  | timerExpired => cases f <;> simp [handle, raised, marks, restores, dumps, aborts, ends]
  | topaFull r => simp [handle, raised_ptDump, marks, restores, dumps, aborts, ends, VmEvent.left]
  | shutdownRequest =>
    cases f <;> simp [handle, raised, marks, restores, dumps, aborts, ends] <;> grind
  | nextPayload =>
    simp only [handle, marks, restores, dumps, aborts, ends]
    split
    · cases f <;> simp [raised, AuxResult.flag]
    · split <;> cases f <;> simp [raised, beginFuzzing, AuxResult.flag]
  | acquire =>
    simp only [handle, acquire]
    split <;> cases f <;> simp [raised, marks, restores, dumps, aborts, ends, enterFuzzingLoop]
  | nestedAcquire =>
    simp only [handle, marks, restores, dumps, aborts, ends]
    split <;> cases f <;> simp [raised, beginFuzzing, AuxResult.flag]
  | exitHandled halted left => rw [← causes_eq, handle, raised_exitHandled]
  | kvmCpuExec left =>
    have hfound : (vm.lockTimeoutFound left).raised f = _ :=
      raised_abortRun (b := decide (f = .timeout)) (fun r => by cases f <;> simp [AuxResult.flag])
        left
    have htimeout : (vm.lockTimeoutFound left).result.flag .timeout = true := rfl
    cases hpending : vm.timeoutReloadPending <;> cases f <;>
      simp_all [handle, raised, marks, restores, dumps, aborts, ends, VmEvent.left]
  | payloadWrite reason left =>
    have hfound : (vm.abortRun false (fun r => { r with payloadWriteFound := true }) left).raised f =
        _ :=
      raised_abortRun (b := decide (f = .payloadWrite))
        (fun r => by cases f <;> simp [AuxResult.flag]) left
    have hmisc : (vm.payloadBufferWriteDetected reason left).raised f = _ :=
      Eq.trans (by cases f <;> rfl) hfound
    simp only [handle, marks, restores, dumps, aborts, ends, VmEvent.left]
    split <;> simp [*]
  | panic reason left =>
    have hreason : (vm.setCrashReason reason).raised f = (vm.raised f || decide (f = .crash)) := by
      cases f <;> simp [raised, setCrashReason, AuxResult.flag, writeMisc]
    have hdecodes : (vm.setCrashReason reason).decodes = vm.decodes := rfl
    simp only [handle]
    split <;> cases f <;>
      simp_all [raised_lockCrashFound, marks, restores, dumps, aborts, ends, VmEvent.left]
  | kasan left =>
    have hfound : (vm.lockAsanFound left).raised f = _ :=
      raised_abortRun (b := decide (f = .asan)) (fun r => by cases f <;> simp [AuxResult.flag]) left
    simp only [handle]
    split <;> simp_all [marks, restores, dumps, aborts, ends, VmEvent.left]
  | release left =>
    simp only [handle, raised_release, marks, restores, dumps, aborts, ends, VmEvent.left]
    cases vm.initState <;> simp
  | shutdown left =>
    simp only [handle]
    split <;> cases hinit : vm.initState <;>
      simp_all [raised_release, marks, restores, dumps, aborts, ends, VmEvent.left]
  | nestedRelease left =>
    have hraised : { vm with nestedHypercallsEnabled := true }.raised f = vm.raised f := by
      cases f <;> rfl
    rw [handle, raised_disablePt, hraised]
    simp [marks, restores, dumps, aborts, ends, VmEvent.left]
    rfl
  | nestedEarlyRelease left =>
    have hraised : { vm with inReloadMode := true }.raised f = vm.raised f := by
      cases f <;> rfl
    have hmode : Vm.raised { { vm with inReloadMode := true }.disablePt left with
        inReloadMode := false } f = ({ vm with inReloadMode := true }.disablePt left).raised f := by
      cases f <;> rfl
    simp only [handle, nestedEarlyRelease]
    split
    next henabled => simp_all [marks, restores, dumps, aborts, ends, VmEvent.left]
    split
    next hreload =>
      rw [hmode, raised_disablePt, hraised]
      simp_all [marks, restores, dumps, aborts, ends, VmEvent.left, reloads, decodes]
    next hreload =>
      simp_all [raised_disablePt, marks, restores, dumps, aborts, ends, VmEvent.left, reloads]

lemma raised_lockPing : vm.lockPing.raised f = vm.raised f := by
  cases f <;> simp [raised, lockPing, checkPageNotFound, AuxResult.flag]

lemma raised_ping (e : VmEvent) : (vm.ping e).raised f = (vm.raised f || vm.causes e f) := by
  rw [← raised_handle]
  unfold ping
  split
  · rfl
  · exact raised_lockPing

lemma raised_of_flag (h : vm.result.flag f) : vm.raised f := by
  simp only [raised, h, Bool.true_or]

/-- Nothing is noted that belongs to a later run. -/
structure Settled (vm : Vm) : Prop where
  overflow : vm.intelPtRunTrashed = false
  timeout : vm.timeoutReloadPending = false
  shutdown : vm.shutdownRequested = false

lemma raised_lockReturn (hsettled : vm.Settled) (hfault : vm.decoderPageFault = false)
    (e : VmEvent) (f : Flag) : (vm.lockReturn.afterLock e).raised f = false := by
  have hreturn : vm.lockReturn.raised f = false := by
    rw [lockReturn, raised_setSuccess, checkConfig]
    cases f <;> split <;>
      simp [raised, AuxResult.flag, flushResult, hsettled.overflow, hsettled.timeout,
        hsettled.shutdown, hfault]
  rw [← hreturn]
  unfold afterLock
  split
  · split <;> cases f <;> rfl
  · cases f <;> rfl
  · rfl

end Vm

namespace Session

/-- Every flag that is set or will be set is explained by what has happened since the last return of
`synchronization_lock`. -/
def Explained (s : Session) : Prop :=
  ∀ f, s.vm.raised f = true → ∃ x ∈ s.since, x.1.causes x.2 f = true

variable {s : Session}

lemma Explained.event {s' : Session} {e : VmEvent} (h : s.Explained)
    (hsince : s'.since = s.since ++ [(s.vm, e)])
    (hraised : ∀ f, s'.vm.raised f = (s.vm.raised f || s.vm.causes e f)) : s'.Explained := by
  intro f hf
  rw [hsince]
  rw [hraised, Bool.or_eq_true] at hf
  rcases hf with hold | hnew
  · obtain ⟨x, hx, hcauses⟩ := h f hold
    exact ⟨x, List.mem_append_left _ hx, hcauses⟩
  · exact ⟨(s.vm, e), by simp, hnew⟩

lemma Explained.run {es rest : List VmEvent} {s' : Session} (h : s.Explained)
    (hrun : s.run es = some (s', rest)) : s'.Explained := by
  induction es generalizing s with
  | nil => cases hrun
  | cons e es ih =>
    unfold Session.run at hrun
    split at hrun
    · cases hrun
      exact h.event rfl fun _ => Vm.raised_ping e
    · exact ih (h.event rfl fun _ => Vm.raised_handle e) hrun

def InLock (s : Session) : Prop := ∀ msg, s.wait ≠ .nestedPrintf msg

lemma pages_run {es rest : List VmEvent} {s' : Session} (hrun : s.run es = some (s', rest))
    (hlock : s'.InLock) : s'.vm.decoderPageFault = false ∧ s'.vm.dumpPage = false := by
  induction es generalizing s with
  | nil => cases hrun
  | cons e es ih =>
    unfold Session.run at hrun
    split at hrun
    · cases hrun
      unfold Vm.ping
      split
      · exact absurd rfl (hlock _)
      · exact ⟨rfl, rfl⟩
    · exact ih hrun

/-- A process at one of its `PING`s, when every return of `synchronization_lock` before it meets
`ok`. -/
inductive Reachable (ok : Session → Prop) : Session → Prop where
  | boot {es rest : List VmEvent} {s : Session} (hrun : boot.run es = some (s, rest)) :
    Reachable ok s
  | next {es rest : List VmEvent} {s s' : Session} (config : AuxConfig) (h : Reachable ok s)
    (hok : ok s) (hrun : (s.configure config).resume.run es = some (s', rest)) : Reachable ok s'

/-- Nothing is noted for a later run when `synchronization_lock` returns. -/
def Clean (s : Session) : Prop := s.InLock → s.vm.Settled

lemma Explained.resume (h : s.Explained) (hclean : s.Clean)
    (hfault : s.InLock → s.vm.decoderPageFault = false) (config : AuxConfig) :
    (s.configure config).resume.Explained := by
  intro f hf
  unfold Session.resume at hf ⊢
  split at hf
  next msg hwait =>
    apply h f
    cases f <;> exact hf
  next wait hwait =>
    have hlock : s.InLock := hwait
    have hsettled : (s.configure config).vm.Settled :=
      ⟨(hclean hlock).overflow, (hclean hlock).timeout, (hclean hlock).shutdown⟩
    have hnone := Vm.raised_lockReturn hsettled (hfault hlock) (s.configure config).wait f
    exact absurd hf (by simp [hnone])

lemma Reachable.pages {ok : Session → Prop} (h : Reachable ok s) (hlock : s.InLock) :
    s.vm.decoderPageFault = false ∧ s.vm.dumpPage = false := by
  cases h with
  | boot hrun => exact pages_run hrun hlock
  | next config h hok hrun => exact pages_run hrun hlock

lemma Reachable.explained (h : Reachable Clean s) : s.Explained := by
  induction h with
  | boot hrun =>
    have hboot : Session.boot.Explained := by
      intro f hf
      cases f <;> cases hf
    exact hboot.run hrun
  | next config h hok hrun ih =>
    exact (ih.resume hok (fun hlock => (h.pages hlock).1) config).run hrun

/-- Every flag that the fuzzer sees at a `PING` reports something that has happened since the last
return of `synchronization_lock`, provided that no overflow, timeout or shutdown request was on
record at the returns. -/
theorem flag_caused {s : Session} (h : Reachable Clean s) (f : Flag)
    (hflag : s.vm.result.flag f = true) : ∃ x ∈ s.since, x.1.causes x.2 f = true :=
  h.explained f (Vm.raised_of_flag hflag)

def bootEvents : List VmEvent :=
  [.rangeSubmit, .release none, .exitHandled false none, .nextPayload, .exitHandled false none,
    .nextPayload]

def releaseEvents (r : DecoderResult) : List VmEvent :=
  [.exitHandled false none, .acquire, .exitHandled false none, .release (some r),
    .exitHandled false none, .nextPayload]

def keepConfig : AuxConfig := Vm.init.config

theorem flag_caused_overflow : ∃ s, Reachable Clean s ∧ s.vm.result.ptOverflow = true ∧
    ∃ x ∈ s.since, x.1.causes x.2 .ptOverflow = true := by
  have hboot := @Reachable.boot Clean bootEvents _ _ rfl
  have hreach := @Reachable.next Clean (releaseEvents .successPtOverflow) _ _ _ keepConfig hboot
    (fun _ => ⟨rfl, rfl, rfl⟩) rfl
  exact ⟨_, hreach, rfl, flag_caused hreach .ptOverflow rfl⟩

/-- The note of an overflow is never taken back: the run after the one that overflows reports an
overflow too. -/
theorem not_flag_caused_overflow : ∃ s, Reachable (fun _ => True) s ∧
    s.vm.result.ptOverflow = true ∧ ∀ x ∈ s.since, x.1.causes x.2 .ptOverflow = false := by
  have hboot := @Reachable.boot (fun _ => True) bootEvents _ _ rfl
  have hfirst := @Reachable.next _ (releaseEvents .successPtOverflow) _ _ _ keepConfig hboot
    trivial rfl
  have hnext := @Reachable.next _ (releaseEvents .success) _ _ _ keepConfig hfirst trivial rfl
  exact ⟨_, hnext, rfl, by decide⟩

end Session

end Nyx.Sync
