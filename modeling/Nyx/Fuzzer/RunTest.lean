import Nyx.Fuzzer.Bitmap
import Nyx.Qemu.Synchronization

/-!
# The fuzzer's side of a run

`send_payload` and `run_test` of `QemuProcess`: the fuzzer answers a `PING`, waits for the next one
and makes an exit reason of the flags in the result buffer.
-/

namespace Nyx.Sync

namespace Session

/-- The loop of `send_payload`; the process has not sent its last `PING` yet if the events run out. -/
def sendPayload : ℕ → UInt64 → Session → List VmEvent → Option (Session × List VmEvent)
  | 0, _, _, _ => none
  | fuel + 1, oldAddress, s, es =>
    match s.resume.run es with
    | none => none
    | some (s, es) =>
      let result := s.vm.result
      if result.hprintf then sendPayload fuel oldAddress s es
      else if result.success || result.crashFound || result.asanFound ||
          result.payloadWriteFound then
        some (s, es)
      else if result.pageNotFound then
        if oldAddress = result.pageAddr then some (s, es)
        else
          let config := { s.vm.config with
            pageAddr := result.pageAddr
            pageDumpMode := true
            changed := true }
          sendPayload fuel result.pageAddr (s.configure config) es
      else sendPayload fuel oldAddress s es

end Session

def Vm.exitReason (vm : Vm) : Fuzzer.ExitReason :=
  if vm.result.crashFound then .crash vm.misc
  else if vm.result.payloadWriteFound then .invalidWriteToPayload vm.misc
  else if vm.result.timeoutFound then .timeout
  else if vm.result.asanFound then .asan
  else if vm.result.success then .normal 0
  else .fuzzerError

/-- `run_test`, with the process and the events that are left. Every turn of the loop takes at least
one event. -/
def Session.runTest (s : Session) (es : List VmEvent) :
    Option (Fuzzer.ExitReason × Session × List VmEvent) :=
  (s.sendPayload es.length 0 es).map fun (s, rest) => (s.vm.exitReason, s, rest)

/-! ### What rules a normal exit out -/

def DecoderResult.isPageFault : DecoderResult → Bool
  | .pageFault _ => true
  | _ => false

def AuxResult.bad (r : AuxResult) : Bool :=
  r.crashFound || r.asanFound || r.timeoutFound || r.payloadWriteFound || !r.success

namespace Vm

def bad (vm : Vm) : Bool := vm.result.bad || vm.decoderPageFault

/-- Whether an event rules a normal exit out: a missing page, an abort that leaves a mark in the
result, or the end of a run outside of the fuzzing loop. An abort because the cow cache is full
leaves no mark. -/
def spoils (vm : Vm) (e : VmEvent) : Bool :=
  vm.decoded e (·.isPageFault) ||
    match e with
    | .exitHandled _ _ => vm.aborts e && !vm.cowCacheFull
    | _ => vm.aborts e || (vm.ends e && !vm.inFuzzingLoop)

variable {vm : Vm}

lemma bad_ptDump (r : DecoderResult) :
    (vm.ptDump r).bad = (vm.bad || (vm.decodes && r.isPageFault)) := by
  unfold ptDump
  cases hd : vm.decodes <;> cases r <;> simp [bad, DecoderResult.isPageFault]

lemma bad_ptDisable (left : Option DecoderResult) :
    (vm.ptDisable left).bad = (vm.bad || (vm.decodes && left.any (·.isPageFault))) := by
  cases left with
  | none => simp [ptDisable]
  | some r => exact bad_ptDump r

@[simp] lemma bad_setSuccess_false : (vm.setSuccess false).bad := by
  simp [bad, AuxResult.bad, setSuccess]

lemma bad_abortRun {c : Bool} (mark : AuxResult → AuxResult) (left : Option DecoderResult)
    (hmark : ∀ r : AuxResult, (mark r).bad) : (vm.abortRun c mark left).bad := by
  rw [bad, Bool.or_eq_true]
  exact .inl (hmark _)

lemma bad_cowFullDetected (left : Option DecoderResult) :
    (vm.cowFullDetected left).bad = (vm.bad || (vm.decodes && left.any (·.isPageFault))) := by
  rw [← bad_ptDisable]
  simp only [cowFullDetected, abortRun, Bool.and_false, Bool.false_eq_true, if_false]
  rfl

lemma bad_lockCrashFound (left : Option DecoderResult) : (vm.lockCrashFound left).bad :=
  bad_abortRun _ left fun r => by simp [AuxResult.bad]

lemma bad_lockAsanFound (left : Option DecoderResult) : (vm.lockAsanFound left).bad :=
  bad_abortRun _ left fun r => by simp [AuxResult.bad]

lemma bad_lockTimeoutFound (left : Option DecoderResult) : (vm.lockTimeoutFound left).bad :=
  bad_abortRun _ left fun r => by simp [AuxResult.bad]

lemma bad_payloadBufferWriteDetected (reason : List UInt8) (left : Option DecoderResult) :
    (vm.payloadBufferWriteDetected reason left).bad :=
  bad_abortRun (fun r => { r with payloadWriteFound := true }) left fun r => by simp [AuxResult.bad]

lemma bad_disablePt (left : Option DecoderResult) :
    (vm.disablePt left).bad = (vm.bad || ((vm.decodes && left.any (·.isPageFault)) ||
      !vm.inFuzzingLoop)) := by
  generalize hvm : (if !vm.inFuzzingLoop then vm.setSuccess false else vm) = vm₀
  have hbad : vm₀.bad = (vm.bad || !vm.inFuzzingLoop) := by
    rw [← hvm]
    cases vm.inFuzzingLoop <;> simp
  have hdecodes : vm₀.decodes = vm.decodes := by
    rw [← hvm]
    split <;> rfl
  calc (vm.disablePt left).bad = (vm₀.ptDisable left).bad := by
        simp only [disablePt, hvm]
        rfl
    _ = _ := by
        rw [bad_ptDisable, hbad, hdecodes]
        ac_rfl

lemma spoils_of_quiet {e : VmEvent} (habort : vm.aborts e = false) (hend : vm.ends e = false)
    (htopa : ∀ r, e ≠ .topaFull r) : vm.spoils e = false := by
  cases e <;> simp_all [spoils, decoded, dumps]

lemma spoils_of_ends {e : VmEvent} (hend : vm.ends e) :
    vm.spoils e = ((vm.decodes && e.left.any (·.isPageFault)) || !vm.inFuzzingLoop) := by
  cases e <;> simp_all [spoils, decoded, dumps, ends, aborts]

lemma bad_marked {e : VmEvent} {vm' : Vm} (hbad : vm'.bad) (hend : vm.ends e = false)
    (htopa : ∀ r, e ≠ .topaFull r) (hexit : ∀ halted left, e ≠ .exitHandled halted left) :
    (if vm.aborts e then vm' else vm).bad = (vm.bad || vm.spoils e) := by
  cases habort : vm.aborts e with
  | true =>
    have hspoils : vm.spoils e = true := by
      cases e <;> simp_all [spoils]
    rw [if_pos rfl, hbad, hspoils, Bool.or_true]
  | false => rw [if_neg (by decide), spoils_of_quiet habort hend htopa, Bool.or_false]

lemma bad_release {e : VmEvent} {left : Option DecoderResult} (hleft : e.left = left)
    (habort : vm.aborts e = false) (hend : vm.ends e = !vm.initState)
    (htopa : ∀ r, e ≠ .topaFull r) : (vm.release left).bad = (vm.bad || vm.spoils e) := by
  unfold release
  cases hinit : vm.initState with
  | true =>
    rw [spoils_of_quiet habort (by simp [hend, hinit]) htopa, if_pos rfl, Bool.or_false]
    rfl
  | false =>
    rw [spoils_of_ends (by simp [hend, hinit]), hleft, if_neg (by decide), bad_disablePt]

lemma bad_nestedEarlyRelease (left : Option DecoderResult) :
    (vm.nestedEarlyRelease left).bad = (vm.bad || vm.spoils (.nestedEarlyRelease left)) := by
  unfold nestedEarlyRelease
  by_cases henabled : vm.nestedHypercallsEnabled = true
  · rw [if_neg (by simp [henabled]), spoils_of_ends (e := .nestedEarlyRelease left) henabled]
    split
    · exact bad_disablePt left
    · exact bad_disablePt left
  · have hend : vm.ends (.nestedEarlyRelease left) = false := by simpa [ends] using henabled
    rw [if_pos (by simp [henabled]), spoils_of_quiet rfl hend (by simp), Bool.or_false]

lemma bad_exitHandled (halted : Bool) (left : Option DecoderResult) :
    (vm.exitHandled halted left).bad = (vm.bad || vm.spoils (.exitHandled halted left)) := by
  unfold exitHandled
  cases hmode : vm.inFuzzingMode with
  | false =>
    rw [spoils_of_quiet (by simp [aborts, hmode]) rfl (by simp), Bool.or_false]
    simp only [Bool.false_and, Bool.false_eq_true, if_false, checkShutdown, checkHalted, hmode]
    rfl
  | true =>
    cases hcow : vm.cowCacheFull with
    | true =>
      have hspoils : vm.spoils (.exitHandled halted left) =
          (vm.decodes && left.any (·.isPageFault)) := by
        simp [spoils, decoded, dumps, aborts, hmode, hcow, VmEvent.left]
      rw [hspoils, ← bad_cowFullDetected]
      rfl
    | false =>
      cases hreq : vm.shutdownRequested || halted with
      | true =>
        have hspoils : vm.spoils (.exitHandled halted left) = true := by
          simp [spoils, aborts, hmode, hcow, hreq]
        have hcheck : ((vm.checkHalted halted).inFuzzingMode &&
            (vm.checkHalted halted).shutdownRequested) = true := by
          simp [checkHalted, hmode, hreq]
        rw [hspoils, Bool.or_true, if_neg (by decide), checkShutdown, if_pos hcheck]
        exact bad_lockCrashFound left
      | false =>
        have habort : vm.aborts (.exitHandled halted left) = false := by
          simp [aborts, hcow, hreq]
        have hcheck : ((vm.checkHalted halted).inFuzzingMode &&
            (vm.checkHalted halted).shutdownRequested) = false := by
          simp [checkHalted, hmode, hreq]
        rw [spoils_of_quiet habort rfl (by simp), Bool.or_false, if_neg (by decide), checkShutdown,
          if_neg (by simp [hcheck])]
        rfl

lemma bad_handle (e : VmEvent) : (vm.handle e).bad = (vm.bad || vm.spoils e) := by
  cases e with
  | loadSnapshot | rangeSubmit | preKvmRun | timerExpired | cowCacheFull | printf | nestedPrintf =>
    rw [spoils_of_quiet rfl rfl (by simp), Bool.or_false]
    rfl
  | kvmCpuExec left =>
    rw [← bad_marked (e := .kvmCpuExec left) (bad_lockTimeoutFound left) rfl (by simp) (by simp)]
    rfl
  | topaFull r =>
    have hspoils : vm.spoils (.topaFull r) = (vm.decodes && r.isPageFault) := by
      simp [spoils, decoded, dumps, VmEvent.left, aborts, ends]
    rw [hspoils]
    exact bad_ptDump r
  | shutdownRequest =>
    rw [spoils_of_quiet rfl rfl (by simp), Bool.or_false]
    simp only [handle]
    split <;> rfl
  | exitHandled halted left => exact bad_exitHandled halted left
  | payloadWrite reason left =>
    exact bad_marked (e := .payloadWrite reason left) (bad_payloadBufferWriteDetected reason left)
      rfl (by simp) (by simp)
  | shutdown left =>
    cases hmode : vm.inFuzzingMode with
    | false =>
      rw [spoils_of_quiet rfl (by simp [ends, hmode]) (by simp), Bool.or_false]
      simp only [handle, hmode, Bool.false_eq_true, if_false]
    | true =>
      rw [← bad_release rfl rfl (by simp [ends, hmode]) (by simp)]
      simp only [handle, hmode, if_true]
      rfl
  | nextPayload =>
    rw [spoils_of_quiet rfl rfl (by simp), Bool.or_false]
    simp only [handle]
    split
    · rfl
    · split <;> rfl
  | acquire =>
    rw [spoils_of_quiet rfl rfl (by simp), Bool.or_false]
    simp only [handle, acquire]
    split <;> rfl
  | release left => exact bad_release rfl rfl rfl (by simp)
  | panic reason left =>
    exact bad_marked (e := .panic reason left) (bad_lockCrashFound left) rfl (by simp) (by simp)
  | kasan left =>
    exact bad_marked (e := .kasan left) (bad_lockAsanFound left) rfl (by simp) (by simp)
  | nestedAcquire =>
    rw [spoils_of_quiet rfl rfl (by simp), Bool.or_false]
    simp only [handle]
    split <;> rfl
  | nestedRelease left =>
    rw [spoils_of_ends rfl]
    exact bad_disablePt left
  | nestedEarlyRelease left => exact bad_nestedEarlyRelease left

@[simp] lemma dumpPage_ptDisable (left : Option DecoderResult) :
    (vm.ptDisable left).dumpPage = vm.dumpPage := by
  unfold ptDisable ptDump
  grind

@[simp] lemma dumpPage_abortRun (c : Bool) (mark : AuxResult → AuxResult)
    (left : Option DecoderResult) : (vm.abortRun c mark left).dumpPage = vm.dumpPage := by
  simp only [abortRun, dumpPage_ptDisable]
  split <;> rfl

@[simp] lemma dumpPage_disablePt (left : Option DecoderResult) :
    (vm.disablePt left).dumpPage = vm.dumpPage := by
  simp only [disablePt, dumpPage_ptDisable]
  split <;> rfl

lemma dumpPage_handle (e : VmEvent) : (vm.handle e).dumpPage = vm.dumpPage := by
  cases e with
  | loadSnapshot | rangeSubmit | preKvmRun | timerExpired | cowCacheFull | printf | nestedPrintf =>
    rfl
  | topaFull r => exact dumpPage_ptDisable (some r)
  | nestedRelease left => exact dumpPage_disablePt left
  | kvmCpuExec left =>
    simp only [handle, lockTimeoutFound]
    split <;> simp
  | exitHandled halted left =>
    simp only [handle, exitHandled, checkShutdown, cowFullDetected, lockCrashFound]
    split
    · simp
    · split <;> simp [checkHalted]
  | payloadWrite reason left =>
    simp only [handle, payloadBufferWriteDetected, writeMisc]
    split <;> simp
  | shutdown left =>
    simp only [handle, release]
    split
    · split <;> simp
    · rfl
  | release left =>
    simp only [handle, release]
    split <;> simp
  | panic reason left =>
    simp only [handle, lockCrashFound]
    split <;> simp [setCrashReason, writeMisc]
  | kasan left =>
    simp only [handle, lockAsanFound]
    split <;> simp
  | nestedEarlyRelease left =>
    simp only [handle, nestedEarlyRelease]
    split
    · rfl
    · split <;> simp
  | shutdownRequest | acquire | nestedAcquire =>
    simp only [handle, acquire]
    split <;> rfl
  | nextPayload =>
    simp only [handle]
    split
    · rfl
    · split <;> rfl

lemma exitReason_lockPing :
    vm.lockPing.exitReason = .normal 0 ↔ (vm.bad || vm.dumpPage) = false := by
  simp only [exitReason, lockPing, checkPageNotFound, bad, AuxResult.bad]
  grind

end Vm

namespace Session

/-- What the state of a running process says about a normal exit is what the events since the last
return of `synchronization_lock` say. -/
structure Tracks (s : Session) : Prop where
  bad : s.vm.bad = s.since.any fun x => x.1.spoils x.2
  dumpPage : s.vm.dumpPage = s.start.dumpPage

/-- Whether a normal exit is ruled out by what has happened since the last return of
`synchronization_lock`. -/
def ruledOut (s : Session) : Bool := (s.since.any fun x => x.1.spoils x.2) || s.start.dumpPage

lemma Tracks.event {s : Session} (h : s.Tracks) (e : VmEvent) :
    Tracks { s with vm := s.vm.handle e, since := s.since ++ [(s.vm, e)] } := by
  constructor
  · simp only [List.any_append, List.any_cons, List.any_nil, Bool.or_false]
    rw [Vm.bad_handle, h.bad]
  · exact (Vm.dumpPage_handle e).trans h.dumpPage

lemma Tracks.run {es rest : List VmEvent} {s s' : Session} (h : s.Tracks)
    (hrun : s.run es = some (s', rest)) :
    ((∃ msg, s'.wait = .nestedPrintf msg) ∧ s'.Tracks ∧ s'.vm.result.hprintf) ∨
      (s'.InLock ∧ (s'.vm.exitReason = .normal 0 ↔ s'.ruledOut = false)) := by
  induction es generalizing s with
  | nil => cases hrun
  | cons e es ih =>
    unfold Session.run at hrun
    split at hrun
    · cases hrun
      have hevent := h.event e
      by_cases hprintf : ∃ msg, e = .nestedPrintf msg
      · left
        obtain ⟨msg, rfl⟩ := hprintf
        exact ⟨⟨msg, rfl⟩, ⟨hevent.bad, hevent.dumpPage⟩, rfl⟩
      · right
        refine ⟨fun msg hmsg => hprintf ⟨msg, hmsg⟩, ?_⟩
        have hping : s.vm.ping e = (s.vm.handle e).lockPing := by
          unfold Vm.ping
          split
          · exact absurd ⟨_, rfl⟩ hprintf
          · rfl
        rw [hping, Vm.exitReason_lockPing, ruledOut, ← hevent.bad, ← hevent.dumpPage]
    · exact ih (h.event e) hrun

def Waits (s : Session) : Prop :=
  (s.InLock ∧ s.vm.decoderPageFault = false ∧ s.vm.dumpPage = false) ∨
    ((∃ msg, s.wait = .nestedPrintf msg) ∧ s.Tracks)

lemma Waits.configure {s : Session} (h : s.Waits) (config : AuxConfig) :
    (s.configure config).Waits := by
  rcases h with h | ⟨hwait, htracks⟩
  · exact .inl h
  · exact .inr ⟨hwait, htracks.bad, htracks.dumpPage⟩

lemma Waits.resume {s : Session} (h : s.Waits) : s.resume.Tracks := by
  unfold Session.resume
  rcases h with ⟨hlock, hfault, hdump⟩ | ⟨⟨msg, hwait⟩, htracks⟩
  · split
    next msg hwait => exact absurd hwait (hlock msg)
    next wait hwait =>
      refine ⟨?_, rfl⟩
      have hreturn : s.vm.lockReturn.bad = false := by
        unfold Vm.lockReturn Vm.checkConfig
        split <;> simp [Vm.bad, AuxResult.bad, Vm.setSuccess, Vm.flushResult, hfault]
      rw [List.any_nil, ← hreturn]
      unfold Vm.afterLock
      split
      · split <;> rfl
      · rfl
      · rfl
  · rw [hwait]
    exact ⟨htracks.bad, htracks.dumpPage⟩

lemma Reachable.waits {ok : Session → Prop} {s : Session} (h : Reachable ok s) (hlock : s.InLock) :
    s.Waits :=
  .inl ⟨hlock, h.pages hlock⟩

lemma Waits.sendPayload {fuel : ℕ} {oldAddress : UInt64} {es rest : List VmEvent} {s s' : Session}
    (h : s.Waits) (hsend : s.sendPayload fuel oldAddress es = some (s', rest)) :
    s'.vm.exitReason = .normal 0 ↔ s'.ruledOut = false := by
  induction fuel generalizing s oldAddress es with
  | zero => cases hsend
  | succ fuel ih =>
    unfold Session.sendPayload at hsend
    split at hsend
    · cases hsend
    next s₁ es₁ hrun =>
      have hwaits : s₁.Waits := by
        rcases h.resume.run hrun with ⟨hwait, htracks, _⟩ | ⟨hlock, _⟩
        · exact .inr ⟨hwait, htracks⟩
        · exact .inl ⟨hlock, pages_run hrun hlock⟩
      dsimp only at hsend
      split at hsend
      · exact ih hwaits hsend
      next hprintf =>
        -- the loop only ends at a `PING` without a message
        have hexit : s₁.vm.exitReason = .normal 0 ↔ s₁.ruledOut = false := by
          rcases h.resume.run hrun with ⟨_, _, hset⟩ | ⟨_, hexit⟩
          · exact absurd hset hprintf
          · exact hexit
        split at hsend
        · cases hsend
          exact hexit
        · split at hsend
          · split at hsend
            · cases hsend
              exact hexit
            · exact ih (hwaits.configure _) hsend
          · exact ih hwaits hsend

/-! ### The classification -/

def ending (s : Session) : Option (Vm × VmEvent) :=
  s.since.reverse.find? fun x => x.1.aborts x.2 || x.1.ends x.2

end Session

def Vm.releasesInLoop (vm : Vm) (e : VmEvent) : Bool :=
  match e with
  | .release _ | .nestedRelease _ | .nestedEarlyRelease _ => vm.ends e && vm.inFuzzingLoop
  | _ => false

namespace Session

def ReleasedInLoop (s : Session) : Prop :=
  ∃ x, s.ending = some x ∧ x.1.releasesInLoop x.2 = true

/-- The last execution ended by a release in the fuzzing loop, no page was missing in it and no dump
of a page was asked for. -/
structure EndedByRelease (s : Session) : Prop where
  released : s.ReleasedInLoop
  noPageFault : ∀ x ∈ s.since, x.1.decoded x.2 (·.isPageFault) = false
  noDump : s.start.dumpPage = false

lemma code_of_exitReason {vm : Vm} {code : Int32} (h : vm.exitReason = .normal code) :
    vm.exitReason = .normal 0 := by
  unfold Vm.exitReason at h ⊢
  grind

/-- A normal exit means that the last execution ended by a release in the fuzzing loop exactly if it
did end so or something in it rules a normal exit out. -/
theorem runTest_normal_iff {s s' : Session} (h : Reachable (fun _ => True) s) (hlock : s.InLock)
    (config : AuxConfig) {es rest : List VmEvent} {reason : Fuzzer.ExitReason}
    (hrun : (s.configure config).runTest es = some (reason, s', rest)) :
    ((∃ code, reason = .normal code) → s'.EndedByRelease) ↔
      (s'.ruledOut = true ∨ s'.ReleasedInLoop) := by
  obtain ⟨⟨s₁, rest₁⟩, hsend, heq⟩ := Option.map_eq_some_iff.mp hrun
  cases heq
  have hexit := ((h.waits hlock).configure config).sendPayload hsend
  constructor
  · intro hnormal
    cases hruled : s'.ruledOut with
    | true => exact .inl rfl
    | false => exact .inr (hnormal ⟨0, hexit.mpr hruled⟩).released
  · rintro hcond ⟨code, hcode⟩
    have hruled := hexit.mp (code_of_exitReason hcode)
    have hreleased := hcond.resolve_left (by simp [hruled])
    simp only [ruledOut, Bool.or_eq_false_iff, List.any_eq_false] at hruled
    refine ⟨hreleased, ?_, hruled.2⟩
    intro x hx
    have hspoils := hruled.1 x hx
    simp only [Vm.spoils, Bool.or_eq_true, not_or, Bool.not_eq_true] at hspoils
    exact hspoils.1

def readyConfig : AuxConfig := ⟨true, false, true, false, 0, true⟩

def readySession : Session × List VmEvent := (boot.run bootEvents).get (by decide)

lemma run_bootEvents : boot.run bootEvents = some readySession := (Option.some_get _).symm

lemma reachable_readySession : Reachable (fun _ => True) readySession.1 :=
  Reachable.boot run_bootEvents

lemma inLock_readySession : readySession.1.InLock := by
  intro msg
  exact VmEvent.noConfusion

def releaseExit : Fuzzer.ExitReason × Session × List VmEvent :=
  ((readySession.1.configure readyConfig).runTest (releaseEvents .success)).get (by decide)

theorem runTest_normal_iff_release : releaseExit.1 = .normal 0 ∧ releaseExit.2.1.EndedByRelease := by
  have hrun : (readySession.1.configure readyConfig).runTest (releaseEvents .success) =
    some releaseExit := (Option.some_get _).symm
  have hnormal : releaseExit.1 = .normal 0 := rfl
  have hcond : releaseExit.2.1.ReleasedInLoop :=
    ⟨releaseExit.2.1.ending.get (by decide), (Option.some_get _).symm, by decide⟩
  exact ⟨hnormal, (runTest_normal_iff reachable_readySession inLock_readySession readyConfig
    hrun).mpr (.inr hcond) ⟨0, hnormal⟩⟩

def cowFullEvents : List VmEvent :=
  [.exitHandled false none, .acquire, .exitHandled false none, .cowCacheFull,
    .exitHandled false none, .nextPayload]

def cowFullExit : Fuzzer.ExitReason × Session × List VmEvent :=
  ((readySession.1.configure readyConfig).runTest cowFullEvents).get (by decide)

theorem not_endedByRelease_cowFull :
    Reachable (fun _ => True) readySession.1 ∧ readySession.1.InLock ∧
      (readySession.1.configure readyConfig).runTest cowFullEvents = some cowFullExit ∧
      cowFullExit.1 = .normal 0 ∧ ¬cowFullExit.2.1.EndedByRelease := by
  refine ⟨reachable_readySession, inLock_readySession, (Option.some_get _).symm, rfl, ?_⟩
  rintro ⟨⟨x, hending, hrelease⟩, _, _⟩
  have hnone : cowFullExit.2.1.ending.all (fun x => !x.1.releasesInLoop x.2) = true := by decide
  simp [hending, hrelease] at hnone

end Session

end Nyx.Sync
