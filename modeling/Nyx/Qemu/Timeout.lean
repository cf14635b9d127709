import Mathlib.Data.List.Induction

/-!
# The timeout of a run

The timeout detector of `pt/synchronization.c`. When the kernel's timer is disarmed, the time that
was left on it comes with the event.
-/

namespace Nyx.Sync

/-- `timeval`. -/
structure Time where
  sec : ℕ
  usec : ℕ
  deriving DecidableEq

namespace Time

def zero : Time := ⟨0, 0⟩

def IsSet (t : Time) : Prop := t.sec ≠ 0 ∨ t.usec ≠ 0

instance (t : Time) : Decidable t.IsSet := inferInstanceAs (Decidable (_ ∨ _))

end Time

/-- `itimerval`. -/
structure Itimer where
  interval : Time
  value : Time
  deriving DecidableEq

/-- `timeout_detector_t`. -/
structure TimeoutDetector where
  kvmTid : ℕ
  reloadPending : Bool
  detectionEnabled : Bool
  timeout : Time
  armTimeout : Itimer
  disarmTimeout : Itimer
  deriving DecidableEq

namespace TimeoutDetector

def init : TimeoutDetector where
  kvmTid := 0
  reloadPending := false
  detectionEnabled := false
  timeout := .zero
  armTimeout := ⟨.zero, .zero⟩
  disarmTimeout := ⟨.zero, .zero⟩

def installTimeoutDetector (d : TimeoutDetector) (tid : ℕ) : TimeoutDetector := { d with kvmTid := tid }

def resetTimeoutDetector (d : TimeoutDetector) : TimeoutDetector :=
  let d := { d with reloadPending := false }
  if d.timeout.IsSet then
    { d with
      armTimeout := { d.armTimeout with value := d.timeout }
      detectionEnabled := true }
  else { d with detectionEnabled := false }

/-- A timeout of zero leaves the stored one as it is. -/
def updateItimer (d : TimeoutDetector) (sec : UInt8) (usec : UInt32) : TimeoutDetector :=
  if sec ≠ 0 ∨ usec ≠ 0 then
    { d with
      timeout := ⟨sec.toNat, usec.toNat⟩
      detectionEnabled := true }
  else { d with detectionEnabled := false }

def expired (d : TimeoutDetector) : Bool := d.reloadPending || !d.armTimeout.value.IsSet

/-- The result is true if there was no time left; `kvm_cpu_exec` asserts that there is. -/
def armSigprofTimer (d : TimeoutDetector) : Bool × TimeoutDetector :=
  if d.detectionEnabled then
    if d.expired then (true, d.resetTimeoutDetector)
    else (false, { d with armTimeout := { d.armTimeout with interval := .zero } })
  else (false, d)

/-- `left` is what `setitimer` returns as the old value of the timer. -/
def disarmSigprofTimer (d : TimeoutDetector) (left : Time) : Bool × TimeoutDetector :=
  if d.detectionEnabled then
    let d := { d with
      disarmTimeout := { d.disarmTimeout with interval := .zero }
      armTimeout := { d.armTimeout with value := left } }
    if d.expired then (true, d.resetTimeoutDetector) else (false, d)
  else (false, d)

end TimeoutDetector

/-- The timeout in the configuration buffer. -/
structure TimeoutConfig where
  changed : UInt8
  timeoutSec : UInt8
  timeoutUsec : UInt32
  deriving DecidableEq

def TimeoutConfig.timeout (c : TimeoutConfig) : Time := ⟨c.timeoutSec.toNat, c.timeoutUsec.toNat⟩

/-- The detector, and the timeout it was last given. -/
structure TimeoutState where
  detector : TimeoutDetector
  shadowTimeout : Time
  deriving DecidableEq

/-- What happens to the detector. Configurations come with the buffer that the fuzzer has left. -/
inductive TimeoutEvent where
  | install (tid : ℕ)
  | checkConfig (config : TimeoutConfig)
  | lock (config : TimeoutConfig)
  | nextPayload (config : TimeoutConfig)
  | enterFuzzingLoop
  | timeoutFound
  | arm
  | disarm (left : Time)
  deriving DecidableEq

namespace TimeoutState

def init : TimeoutState := ⟨.init, .zero⟩

def resetTimeoutDetector (s : TimeoutState) : TimeoutState :=
  { s with detector := s.detector.resetTimeoutDetector }

def checkConfig (s : TimeoutState) (config : TimeoutConfig) : TimeoutState :=
  if config.changed ≠ 0 then
    ⟨s.detector.updateItimer config.timeoutSec config.timeoutUsec, config.timeout⟩
  else s

def lock (s : TimeoutState) (config : TimeoutConfig) : TimeoutState :=
  s.resetTimeoutDetector.checkConfig config

def enterFuzzingLoop (s : TimeoutState) : TimeoutState := s.resetTimeoutDetector

def handle (s : TimeoutState) : TimeoutEvent → TimeoutState
  | .install tid => { s with detector := s.detector.installTimeoutDetector tid }
  | .checkConfig config => s.checkConfig config
  | .lock config => s.lock config
  -- `handle_hypercall_kafl_next_payload` in the fuzzing mode
  | .nextPayload config => (s.lock config).resetTimeoutDetector
  | .enterFuzzingLoop => s.enterFuzzingLoop
  -- `synchronization_lock_timeout_found`
  | .timeoutFound => s.resetTimeoutDetector
  | .arm => { s with detector := s.detector.armSigprofTimer.2 }
  | .disarm left => { s with detector := (s.detector.disarmSigprofTimer left).2 }

def run (es : List TimeoutEvent) : TimeoutState := es.foldl handle init

end TimeoutState

def TimeoutEvent.applied : TimeoutEvent → Option Time
  | .checkConfig config | .lock config | .nextPayload config =>
    if config.changed ≠ 0 then some config.timeout else none
  | _ => none

def applied (es : List TimeoutEvent) : List Time := es.filterMap TimeoutEvent.applied

def configured (es : List TimeoutEvent) : Time := (applied es).getLastD .zero

/-- The timer is armed with the timeout, if one is set. -/
structure TimeoutDetector.Obeys (d : TimeoutDetector) (timeout : Time) : Prop where
  enabled : d.detectionEnabled = true ↔ timeout.IsSet
  loaded : timeout.IsSet → d.armTimeout.value = timeout

/-! ### The stored timeout -/

def Time.store (stored : Time) (applied : Option Time) : Time :=
  match applied with
  | some t => if t.IsSet then t else stored
  | none => stored

namespace TimeoutDetector

variable (d : TimeoutDetector)

@[simp] lemma timeout_resetTimeoutDetector : d.resetTimeoutDetector.timeout = d.timeout := by
  unfold resetTimeoutDetector
  dsimp only
  split_ifs <;> rfl

lemma timeout_updateItimer (sec : UInt8) (usec : UInt32) :
    (d.updateItimer sec usec).timeout = d.timeout.store (some ⟨sec.toNat, usec.toNat⟩) := by
  have hset : (⟨sec.toNat, usec.toNat⟩ : Time).IsSet ↔ sec ≠ 0 ∨ usec ≠ 0 := by
    simp [Time.IsSet, ← UInt8.toNat_inj, ← UInt32.toNat_inj]
  unfold updateItimer Time.store
  by_cases h : sec ≠ 0 ∨ usec ≠ 0
  · rw [if_pos h]
    exact (if_pos (hset.mpr h)).symm
  · rw [if_neg h]
    exact (if_neg (fun hs => h (hset.mp hs))).symm

lemma timeout_armSigprofTimer : d.armSigprofTimer.2.timeout = d.timeout := by
  unfold armSigprofTimer
  split_ifs <;> simp

lemma timeout_disarmSigprofTimer (left : Time) :
    (d.disarmSigprofTimer left).2.timeout = d.timeout := by
  unfold disarmSigprofTimer
  dsimp only
  split_ifs <;> simp

lemma obeys_resetTimeoutDetector : d.resetTimeoutDetector.Obeys d.timeout := by
  unfold resetTimeoutDetector
  dsimp only
  split_ifs with h
  · exact ⟨⟨fun _ => h, fun _ => rfl⟩, fun _ => rfl⟩
  · exact ⟨⟨fun hfalse => (by cases hfalse), fun hset => absurd hset h⟩, fun hset => absurd hset h⟩

end TimeoutDetector

namespace TimeoutState

lemma timeout_checkConfig (s : TimeoutState) (config : TimeoutConfig) :
    (s.checkConfig config).detector.timeout =
      s.detector.timeout.store (if config.changed ≠ 0 then some config.timeout else none) := by
  unfold checkConfig
  split_ifs
  · exact s.detector.timeout_updateItimer config.timeoutSec config.timeoutUsec
  · rfl

lemma timeout_handle (s : TimeoutState) (e : TimeoutEvent) :
    (s.handle e).detector.timeout = s.detector.timeout.store e.applied := by
  have hlock : ∀ config, (s.lock config).detector.timeout =
      s.detector.timeout.store (if config.changed ≠ 0 then some config.timeout else none) := by
    intro config
    rw [lock, timeout_checkConfig, resetTimeoutDetector, s.detector.timeout_resetTimeoutDetector]
  cases e with
  | install tid => rfl
  | checkConfig config => exact s.timeout_checkConfig config
  | lock config => exact hlock config
  | nextPayload config =>
    exact ((s.lock config).detector.timeout_resetTimeoutDetector).trans (hlock config)
  | enterFuzzingLoop => exact s.detector.timeout_resetTimeoutDetector
  | timeoutFound => exact s.detector.timeout_resetTimeoutDetector
  | arm => exact s.detector.timeout_armSigprofTimer
  | disarm left => exact s.detector.timeout_disarmSigprofTimer left

lemma run_append (es : List TimeoutEvent) (e : TimeoutEvent) : run (es ++ [e]) = (run es).handle e := by
  rw [run, List.foldl_append]
  rfl

end TimeoutState

lemma applied_append (es : List TimeoutEvent) (e : TimeoutEvent) :
    applied (es ++ [e]) = applied es ++ e.applied.toList := by
  cases h : e.applied <;> simp [applied, h]

lemma timeout_run (es : List TimeoutEvent) :
    (TimeoutState.run es).detector.timeout =
      ((applied es).filter fun t => t.IsSet).getLastD .zero := by
  induction es using List.reverseRecOn with
  | nil => rfl
  | append_singleton es e ih =>
    rw [TimeoutState.run_append, TimeoutState.timeout_handle, ih, applied_append, List.filter_append]
    cases he : e.applied with
    | none => simp [Time.store]
    | some t => by_cases ht : t.IsSet <;> simp [Time.store, ht]

lemma isSet_getLastD_filter_iff (ts : List Time) :
    ((ts.filter fun t => t.IsSet).getLastD .zero).IsSet ↔ ∃ t ∈ ts, t.IsSet := by
  induction ts using List.reverseRecOn with
  | nil => simp [Time.IsSet, Time.zero]
  | append_singleton ts t ih =>
    rw [List.filter_append]
    by_cases ht : t.IsSet
    · simp [ht]
    · have hnone : [t].filter (fun t => t.IsSet) = [] := by simp [ht]
      rw [hnone, List.append_nil, ih]
      simp [ht]

lemma getLastD_filter_of_isSet {ts : List Time} (h : (ts.getLastD .zero).IsSet) :
    (ts.filter fun t => t.IsSet).getLastD .zero = ts.getLastD .zero := by
  induction ts using List.reverseRecOn with
  | nil => rfl
  | append_singleton ts t _ =>
    rw [List.getLastD_concat] at h
    simp [List.filter_append, h]

/-- Whatever has happened before a run, its timeout is obeyed if and only if the configuration that
was applied last has a timeout or none of them had one. -/
theorem obeys_configured_iff (es : List TimeoutEvent) :
    (TimeoutState.run es).enterFuzzingLoop.detector.Obeys (configured es) ↔
      (configured es).IsSet ∨ ∀ t ∈ applied es, ¬t.IsSet := by
  have hreset := (TimeoutState.run es).detector.obeys_resetTimeoutDetector
  rw [timeout_run] at hreset
  have hstored := isSet_getLastD_filter_iff (applied es)
  constructor
  · intro h
    rw [or_iff_not_imp_left]
    intro hunset t ht hset
    have henabled := hreset.enabled.mpr (hstored.mpr ⟨t, ht, hset⟩)
    exact hunset (h.enabled.mp henabled)
  · intro h
    by_cases hset : (configured es).IsSet
    · rw [getLastD_filter_of_isSet hset] at hreset
      exact hreset
    · have hnone := h.resolve_left hset
      have hunset : ¬(((applied es).filter fun t => t.IsSet).getLastD .zero).IsSet := by
        intro hs
        obtain ⟨t, ht, hts⟩ := hstored.mp hs
        exact hnone t ht hts
      have hdisabled := mt hreset.enabled.mp hunset
      exact ⟨⟨fun henabled => absurd henabled hdisabled, fun h => absurd h hset⟩,
        fun h => absurd h hset⟩

def timeoutOff : List TimeoutEvent := [.lock ⟨1, 1, 0⟩, .enterFuzzingLoop, .lock ⟨1, 0, 0⟩]

theorem not_obeys_configured_off :
    configured timeoutOff = .zero ∧
      (TimeoutState.run timeoutOff).enterFuzzingLoop.detector.detectionEnabled = true ∧
      ¬(TimeoutState.run timeoutOff).enterFuzzingLoop.detector.Obeys (configured timeoutOff) := by
  have hzero : configured timeoutOff = .zero := by decide
  have henabled : (TimeoutState.run timeoutOff).enterFuzzingLoop.detector.detectionEnabled = true := by
    decide
  refine ⟨hzero, henabled, fun h => ?_⟩
  have hset := h.enabled.mp henabled
  rw [hzero] at hset
  exact absurd hset (by decide)

end Nyx.Sync
