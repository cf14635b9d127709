import Nyx.Kvm.VmxPt
import Nyx.Lib.Bits

/-!
# Tracing over whole runs of a vCPU

The filters are set by many ioctls, each with its own guard, and `configured` is set and cleared at
vm-entries. What holds of all of it in every run is collected in `Vcpu.Ok`.
-/

namespace Nyx.Kvm

lemma addrEn_disjoint {n k : Fin 4} (h : n ≠ k) : addrEn n &&& addrEn k = 0 := by
  revert n k
  decide

lemma addrEn_disjoint_cr3 (n : Fin 4) : addrEn n &&& CR3_FILTER = 0 := by
  revert n
  decide

lemma cr3_disjoint_addrEn (n : Fin 4) : CR3_FILTER &&& addrEn n = 0 := by
  revert n
  decide

/-- Single and multiple CR3 filtering exclude each other, and an address filter that is enabled has a
range that was given to it. -/
structure Filters.Sound (supportedAddrn : ℕ) (given : Fin 4 → FilterIprs → Prop) (f : Filters) :
    Prop where
  exclusive : ¬(f.cr3Filter = true ∧ f.multiCr3Enabled = true)
  configured : ∀ n, (f.addrConfigured n).1 = true →
    n.val < supportedAddrn ∧ f.addrConfigured n = (true, true) ∧
      ∃ iprs, given n iprs ∧ f.addr n = (iprs.a, iprs.b) ∧ rangeCheck iprs.a iprs.b = true
  enabled : ∀ n, f.addrEnabled n = true → (f.addrConfigured n).1 = true

namespace Filters.Sound

variable {supportedAddrn : ℕ} {given given' : Fin 4 → FilterIprs → Prop} {f f' : Filters}

variable (h : f.Sound supportedAddrn given)
include h

lemma mono (hgiven : ∀ n iprs, given n iprs → given' n iprs) : f.Sound supportedAddrn given' where
  exclusive := h.exclusive
  configured n hn := by
    obtain ⟨hlt, hboth, iprs, hg, haddr, hrange⟩ := h.configured n hn
    exact ⟨hlt, hboth, iprs, hgiven n iprs hg, haddr, hrange⟩
  enabled := h.enabled

lemma configureAddr {n : Fin 4} {iprs : FilterIprs} (hn : supportedAddrn ≥ n + 1)
    (hrange : rangeCheck iprs.a iprs.b) (hgiven : given n iprs) :
    Filters.Sound supportedAddrn given { f with
      addr := Function.update f.addr n (iprs.a, iprs.b)
      addrConfigured := Function.update f.addrConfigured n (true, true) } where
  exclusive := h.exclusive
  configured k hk := by
    by_cases hkn : k = n
    · subst hkn
      exact ⟨by omega, by simp, iprs, hgiven, by simp, hrange⟩
    · simpa [hkn] using h.configured k (by simpa [hkn] using hk)
  enabled k hk := by
    by_cases hkn : k = n
    · subst hkn
      simp
    · simpa [hkn] using h.enabled k hk

lemma setCtrl {ctrl : UInt64} {n : Fin 4}
    (hn : (f.addrConfigured n).1) (hcr3 : ctrl &&& CR3_FILTER = f.ctrlMsr &&& CR3_FILTER)
    (haddr : ∀ k, k ≠ n → ctrl &&& addrEn k = f.ctrlMsr &&& addrEn k) :
    Filters.Sound supportedAddrn given { f with ctrlMsr := ctrl } where
  exclusive := by simpa [cr3Filter, hcr3] using h.exclusive
  configured := h.configured
  enabled k hk := by
    by_cases hkn : k = n
    · exact hkn ▸ hn
    · apply h.enabled k
      simpa [addrEnabled, haddr k hkn] using hk

lemma setCr3 {ctrl : UInt64} (hmulti : f.multiCr3Enabled = false)
    (haddr : ∀ k, ctrl &&& addrEn k = f.ctrlMsr &&& addrEn k) :
    Filters.Sound supportedAddrn given { f with ctrlMsr := ctrl } where
  exclusive := by simp [hmulti]
  configured := h.configured
  enabled k hk := h.enabled k (by simpa [addrEnabled, haddr k] using hk)

lemma ioctl {c : FilterIoctl} (hgiven : ∀ n iprs, c = .configureAddr n (some iprs) → given n iprs)
    (hc : f.ioctl supportedAddrn c = some f') : f'.Sound supportedAddrn given := by
  cases c with
  | configureAddr n arg =>
    simp only [Filters.ioctl] at hc
    split at hc <;> try cases hc
    next hn =>
    split at hc <;> try cases hc
    next iprs =>
    split at hc <;> cases hc
    next hrange => exact h.configureAddr hn hrange (hgiven n iprs rfl)
  | enableAddr n =>
    simp only [Filters.ioctl] at hc
    split at hc <;> cases hc
    next hn =>
    exact h.setCtrl hn.1 (or_and_of_disjoint (addrEn_disjoint_cr3 n))
      fun k hk => or_and_of_disjoint (addrEn_disjoint hk.symm)
  | disableAddr n =>
    simp only [Filters.ioctl] at hc
    split at hc <;> cases hc
    next hn =>
    exact h.setCtrl (h.enabled n hn) (xor_and_of_disjoint (addrEn_disjoint_cr3 n))
      fun k hk => xor_and_of_disjoint (addrEn_disjoint hk.symm)
  | configureMultiCr3 arg =>
    obtain ⟨m, -, rfl⟩ := Option.map_eq_some_iff.mp hc
    exact ⟨h.exclusive, h.configured, h.enabled⟩
  | enableMultiCr3 =>
    simp only [Filters.ioctl] at hc
    split at hc <;> cases hc
    next hoff => exact ⟨fun hboth => hoff.1 hboth.1, h.configured, h.enabled⟩
  | disableMultiCr3 =>
    simp only [Filters.ioctl] at hc
    split at hc <;> cases hc
    exact ⟨by simp, h.configured, h.enabled⟩
  | configureCr3 arg =>
    cases hc
    exact ⟨h.exclusive, h.configured, h.enabled⟩
  | enableCr3 =>
    simp only [Filters.ioctl] at hc
    split at hc <;> cases hc
    next hoff =>
    exact h.setCr3 (by simpa using hoff.2) fun k => or_and_of_disjoint (cr3_disjoint_addrEn k)
  | disableCr3 =>
    simp only [Filters.ioctl] at hc
    split at hc <;> cases hc
    next hon =>
    have hmulti : f.multiCr3Enabled = false := by
      simpa using fun hm => h.exclusive ⟨hon, hm⟩
    exact h.setCr3 hmulti fun k => xor_and_of_disjoint (cr3_disjoint_addrEn k)

end Filters.Sound

lemma Filters.sound_setup (supportedAddrn : ℕ) (given : Fin 4 → FilterIprs → Prop) :
    vmxPtSetupMsrs.Sound supportedAddrn given where
  exclusive := by simp [vmxPtSetupMsrs]
  configured n hn := by simp [vmxPtSetupMsrs] at hn
  enabled n hn := by
    revert n
    decide

/-- Nothing changes but the trace buffers and the output registers. -/
structure VcpuVmxPt.Frame (v v' : VcpuVmxPt) : Prop where
  filters : v'.filters = v.filters
  configured : v'.configured = v.configured
  stateChangePending : v'.stateChangePending = v.stateChangePending
  state : v'.state = v.state
  spinlock : v'.spinlock = v.spinlock
  autoload : v'.autoload = v.autoload

lemma frame_vmxPtGetDataSize (v : VcpuVmxPt) : v.Frame (vmxPtGetDataSize v).2 := by
  unfold vmxPtGetDataSize
  split
  · dsimp only
    split <;> constructor <;> rfl
  · constructor <;> rfl

lemma frame_vmxPtCheckOverflow (v : VcpuVmxPt) : v.Frame (vmxPtCheckOverflow v).2 := by
  obtain ⟨hf, hc, hp, hs, hl, ha⟩ := frame_vmxPtGetDataSize v
  unfold vmxPtCheckOverflow
  dsimp only
  split
  · exact ⟨hf, hc, hp, hs, hl, ha⟩
  · exact ⟨hf, hc, hp, hs, hl, ha⟩

inductive IoctlEffect (p : Platform) (v : VcpuVmxPt) : Ioctl → VcpuVmxPt → Prop where
  | frame {c v'} : v.Frame v' → IoctlEffect p v c v'
  | filter {c f} : v.configured = false → v.filters.ioctl p.supportedAddrn c = some f →
      IoctlEffect p v (.filter c) { v with filters := f }
  | enable : v.configured = false → v.stateChangePending = false →
      IoctlEffect p v .enable { v with stateChangePending := true, state := true }
  | disable {w} : v.configured = true → v.stateChangePending = false → v.Frame w →
      IoctlEffect p v .disable { w with stateChangePending := true, state := false, reset := true }

lemma ioctlEffect (p : Platform) (v : VcpuVmxPt) (c : Ioctl) :
    IoctlEffect p v c (vmxPtIoctl p v c).2 := by
  have hframe : v.Frame v := ⟨rfl, rfl, rfl, rfl, rfl, rfl⟩
  cases c with
  | filter c =>
    simp only [vmxPtIoctl]
    split
    · next hc =>
      cases hf : v.filters.ioctl p.supportedAddrn c with
      | none => exact .frame hframe
      | some f => exact .filter (by simpa using hc) hf
    · exact .frame hframe
  | enable =>
    simp only [vmxPtIoctl]
    split
    · next h => exact .enable (by simpa using h.1) (by simpa using h.2)
    · exact .frame hframe
  | disable =>
    simp only [vmxPtIoctl]
    split
    · next h => exact .disable h.1 (by simpa using h.2) (frame_vmxPtGetDataSize v)
    · exact .frame hframe
  | checkTopaOverflow =>
    obtain ⟨hf, hc, hp, hs, hl, ha⟩ := frame_vmxPtCheckOverflow v
    simp only [vmxPtIoctl]
    split <;> exact .frame ⟨hf, hc, hp, hs, hl, ha⟩
  | getTopaSize => exact .frame hframe
  | other => exact .frame hframe

/-- Whether tracing is on after the request that is pending has been carried out. -/
def VcpuVmxPt.wanted (v : VcpuVmxPt) : Bool := if v.stateChangePending then v.state else v.configured

/-- What the vCPU is like after the events `es`. -/
structure Vcpu.OkAt (p : Platform) (es : List Event) (s : Vcpu) (v : VcpuVmxPt) : Prop where
  enabled : p.enabled = true
  lock : v.spinlock = (s.inGuest && v.configured)
  pending : v.stateChangePending = true → v.state = !v.configured
  filters : v.filters.Sound p.supportedAddrn fun n iprs =>
    .ioctl (.filter (.configureAddr n (some iprs))) ∈ es
  autoload : v.configured = true → v.autoload = some (v.filters.hostVal ||| TRACE_EN, v.filters.hostVal)
  addr : s.inGuest = true → v.configured = true → ∀ n, (v.filters.addrConfigured n).1 = true →
    (s.msr (.addrStart n), s.msr (.addrEnd n)) = v.filters.addr n
  cr3 : s.inGuest = true → v.configured = true → v.filters.cr3Match ≠ 0 →
    s.msr .cr3Match = v.filters.cr3Match

def Vcpu.Ok (p : Platform) (es : List Event) (s : Vcpu) : Prop :=
  ∀ v, s.vmxPt = some v → s.OkAt p es v

variable {p : Platform} {es : List Event} {s s' : Vcpu} {v v' : VcpuVmxPt}

lemma Vcpu.OkAt.ioctl (h : s.OkAt p es v) {c : Ioctl} (hv : IoctlEffect p v c v') :
    Vcpu.OkAt p (es ++ [.ioctl c]) { s with vmxPt := some v' } v' := by
  have hfilters := h.filters.mono (fun n iprs hg => List.mem_append_left [Event.ioctl c] hg)
  cases hv with
  | frame hv =>
    exact ⟨h.enabled, by rw [hv.spinlock, hv.configured, h.lock],
      by rw [hv.stateChangePending, hv.state, hv.configured]; exact h.pending,
      by rw [hv.filters]; exact hfilters,
      by rw [hv.configured, hv.autoload, hv.filters]; exact h.autoload,
      by rw [hv.configured, hv.filters]; exact h.addr,
      by rw [hv.configured, hv.filters]; exact h.cr3⟩
  | filter hoff hf =>
    have hsound := hfilters.ioctl (fun n iprs hc => by simp [hc]) hf
    exact ⟨h.enabled, h.lock, h.pending, hsound,
      fun hon => by simp [hoff] at hon, fun _ hon => by simp [hoff] at hon,
      fun _ hon => by simp [hoff] at hon⟩
  | enable hoff hpending =>
    exact ⟨h.enabled, h.lock, fun _ => by simp [hoff], hfilters, h.autoload, h.addr, h.cr3⟩
  | disable hon hpending hw =>
    exact ⟨h.enabled, by rw [hw.spinlock, hw.configured, h.lock],
      fun _ => by rw [hw.configured, hon]; rfl,
      by rw [hw.filters]; exact hfilters,
      by rw [hw.configured, hw.autoload, hw.filters]; exact h.autoload,
      by rw [hw.configured, hw.filters]; exact h.addr,
      by rw [hw.configured, hw.filters]; exact h.cr3⟩

lemma applyStateChange_fields (h : s.OkAt p es v) :
    (applyStateChange p v).filters = v.filters ∧ (applyStateChange p v).configured = v.wanted ∧
      (applyStateChange p v).stateChangePending = false ∧
      (applyStateChange p v).spinlock = v.spinlock ∧
      (v.wanted → (applyStateChange p v).autoload =
        some (v.filters.hostVal ||| TRACE_EN, v.filters.hostVal)) := by
  cases hp : v.stateChangePending with
  | false => simpa [applyStateChange, VcpuVmxPt.wanted, hp] using h.autoload
  | true =>
    cases hc : v.configured with
    | false =>
      have hstate : v.state = true := by simpa [hc] using h.pending hp
      simp [applyStateChange, VcpuVmxPt.wanted, hp, hstate, h.enabled, vmxPtEnable, hc,
        vmxPtSetupVmxAutoloadMsr]
    | true =>
      have hstate : v.state = false := by simpa [hc] using h.pending hp
      simp [applyStateChange, VcpuVmxPt.wanted, hp, hstate, h.enabled, vmxPtDisable, hc,
        vmxPtSetupVmxAutoloadMsr, topaReset]

lemma vmxPtVmentry_eq (h : s.OkAt p es v) (hout : s.inGuest = false) (cpu : UInt8) :
    ∃ v' msr', vmxPtVmentry p cpu v s.msr = some (v', msr') ∧ v'.configured = v.wanted ∧
      Vcpu.OkAt p (es ++ [.vmentry cpu]) ⟨some v', true, msr'⟩ v' ∧ v'.filters = v.filters := by
  have hsound := h.filters.mono (fun n iprs hg => List.mem_append_left [Event.vmentry cpu] hg)
  obtain ⟨hfilters, hconfigured, hpending, hlock, hautoload⟩ := applyStateChange_fields h
  unfold vmxPtVmentry
  generalize applyStateChange p v = w at hfilters hconfigured hpending hlock hautoload ⊢
  have hfree : ¬w.spinlock = true := by simp [hlock, h.lock, hout]
  cases hw : v.wanted with
  | true =>
    have hon : w.configured = true := hconfigured.trans hw
    rw [if_pos ⟨h.enabled, hon⟩, if_neg hfree]
    refine ⟨_, _, rfl, hon, ⟨h.enabled, ?_, ?_, hfilters ▸ hsound, ?_, ?_, ?_⟩, hfilters⟩
    · simp [hon]
    · simp [hpending]
    · intro _
      rw [hfilters]
      exact hautoload hw
    · intro _ _ n hn
      simp only [vmxPtReconfigureCpu]
      rw [if_pos hn, if_pos hn]
    · intro _ _ hn
      simp only [vmxPtReconfigureCpu]
      rw [if_pos hn]
  | false =>
    have hoff : w.configured = false := hconfigured.trans hw
    rw [if_neg (by simp [hoff])]
    refine ⟨_, _, rfl, hoff, ⟨h.enabled, ?_, ?_, hfilters ▸ hsound, ?_, ?_, ?_⟩, hfilters⟩
    · simpa [hoff] using hfree
    · simp [hpending]
    all_goals simp [hoff]

lemma Vcpu.OkAt.vmexit (h : s.OkAt p es v) (outputBase outputMaskPtrs : UInt64) :
    Vcpu.OkAt p (es ++ [.vmexit outputBase outputMaskPtrs])
      ⟨some (vmxPtVmexit p v (Event.traced outputBase outputMaskPtrs s.msr)), false,
        Event.traced outputBase outputMaskPtrs s.msr⟩
      (vmxPtVmexit p v (Event.traced outputBase outputMaskPtrs s.msr)) := by
  have hsound := h.filters.mono
    (fun n iprs hg => List.mem_append_left [Event.vmexit outputBase outputMaskPtrs] hg)
  unfold vmxPtVmexit
  split
  · exact ⟨h.enabled, rfl, h.pending, hsound, h.autoload, (fun hin => by cases hin),
      (fun hin => by cases hin)⟩
  · next hoff =>
    have hoff : v.configured = false := by simpa [h.enabled] using hoff
    exact ⟨h.enabled, by rw [h.lock, hoff]; simp, h.pending, hsound, h.autoload,
      (fun hin => by cases hin), (fun hin => by cases hin)⟩

inductive StepEffect (p : Platform) (v v' : VcpuVmxPt) : Event → Prop where
  | ioctl {c} : IoctlEffect p v c v' → StepEffect p v v' (.ioctl c)
  | vmentry {cpu} : v'.configured = v.wanted → v'.filters = v.filters → StepEffect p v v' (.vmentry cpu)
  | vmexit {outputBase outputMaskPtrs} : v'.configured = v.configured →
      v'.stateChangePending = v.stateChangePending → v'.state = v.state → v'.filters = v.filters →
      StepEffect p v v' (.vmexit outputBase outputMaskPtrs)

lemma stepEffect (h : s.Ok p es) (hv : s.vmxPt = some v) {e : Event} {o : Option ℤ}
    (hs : vcpu p s e = some (o, s')) :
    ∃ v', s'.vmxPt = some v' ∧ s'.OkAt p (es ++ [e]) v' ∧ StepEffect p v v' e := by
  cases e with
  | ioctl c =>
    simp only [vcpu, hv] at hs
    split at hs <;> cases hs
    exact ⟨_, rfl, (h v hv).ioctl (ioctlEffect p v c), .ioctl (ioctlEffect p v c)⟩
  | vmentry cpu =>
    simp only [vcpu] at hs
    split at hs
    · cases hs
    · next hout =>
      obtain ⟨v', msr', heq, hconfigured, hok, hfilters⟩ :=
        vmxPtVmentry_eq (h v hv) (by simpa using hout) cpu
      simp only [hv, heq, Option.map_some] at hs
      cases hs
      exact ⟨v', rfl, hok, .vmentry hconfigured hfilters⟩
  | vmexit outputBase outputMaskPtrs =>
    simp only [vcpu, hv] at hs
    split at hs <;> cases hs
    refine ⟨_, rfl, (h v hv).vmexit outputBase outputMaskPtrs, ?_⟩
    unfold vmxPtVmexit
    split <;> exact .vmexit rfl rfl rfl rfl

lemma vcpu_none (hv : s.vmxPt = none) {e : Event} {o : Option ℤ} (hs : vcpu p s e = some (o, s')) :
    s'.vmxPt = none ∧ o ≠ some 0 := by
  cases e with
  | ioctl c =>
    simp only [vcpu, hv] at hs
    cases hs
    exact ⟨hv, by decide⟩
  | vmentry cpu =>
    simp only [vcpu, hv] at hs
    split at hs <;> cases hs
    exact ⟨rfl, by decide⟩
  | vmexit outputBase outputMaskPtrs =>
    simp only [vcpu, hv] at hs
    split at hs <;> cases hs
    exact ⟨rfl, by decide⟩

lemma Vcpu.Ok.step (h : s.Ok p es) {e : Event} {o : Option ℤ} (hs : vcpu p s e = some (o, s')) :
    s'.Ok p (es ++ [e]) := by
  intro w hw
  cases hv : s.vmxPt with
  | none =>
    rw [(vcpu_none hv hs).1] at hw
    cases hw
  | some v =>
    obtain ⟨v', hv', hok, -⟩ := stepEffect h hv hs
    rw [hv'] at hw
    cases hw
    exact hok

lemma Vcpu.ok_new (p : Platform) (topa : Option UInt64) : (Vcpu.new p topa).Ok p [] := by
  intro v hv
  simp only [Vcpu.new, vmxPtSetup] at hv
  split at hv
  · next henabled =>
    obtain ⟨base, -, rfl⟩ := Option.map_eq_some_iff.mp hv
    exact ⟨henabled, rfl, (fun hp => by cases hp), Filters.sound_setup _ _, (fun hc => by cases hc),
      (fun hin => by cases hin), (fun hin => by cases hin)⟩
  · cases hv

lemma Vcpu.ok_of_final {topa : Option UInt64} (h : (vcpu p).final (Vcpu.new p topa) es = some s) :
    s.Ok p es :=
  Machine.final_invariant (Vcpu.ok_new p topa) (fun _ _ _ _ _ hok hs => hok.step hs) h

/-- The filters in every state of every run, with the ranges traced back to the ioctls that gave
them, and what any further step leaves of them while tracing is configured. -/
theorem filters_sound_of_final {topa : Option UInt64}
    (h : (vcpu p).final (Vcpu.new p topa) es = some s) :
    (∀ v, s.vmxPt = some v →
      ¬(v.filters.cr3Filter = true ∧ v.filters.multiCr3Enabled = true) ∧
        ∀ n, v.filters.addrEnabled n = true →
          n.val < p.supportedAddrn ∧ v.filters.addrConfigured n = (true, true) ∧
            ∃ iprs, Event.ioctl (.filter (.configureAddr n (some iprs))) ∈ es ∧
              v.filters.addr n = (iprs.a, iprs.b) ∧ rangeCheck iprs.a iprs.b = true) ∧
      ∀ e o s', vcpu p s e = some (o, s') → s.Configured →
        s'.vmxPt.map VcpuVmxPt.filters = s.vmxPt.map VcpuVmxPt.filters := by
  have hok := Vcpu.ok_of_final h
  refine ⟨fun v hv => ⟨(hok v hv).filters.exclusive, fun n hn => ?_⟩, fun e o s' hs hc => ?_⟩
  · have hsound := (hok v hv).filters
    exact hsound.configured n (hsound.enabled n hn)
  · obtain ⟨v, hv, hon⟩ := hc
    obtain ⟨v', hv', -, heffect⟩ := stepEffect hok hv hs
    suffices v'.filters = v.filters by simp [hv, hv', this]
    cases heffect with
    | ioctl hio =>
      cases hio with
      | frame hf => exact hf.filters
      | filter hoff => simp [hon] at hoff
      | enable => rfl
      | disable _ _ hf => exact hf.filters
    | vmentry _ hf => exact hf
    | vmexit _ _ _ hf => exact hf

def traceOneRange : List Event :=
  [.ioctl (.filter (.configureAddr 1 (some ⟨0x1000, 0x2000⟩))), .ioctl (.filter (.enableAddr 1)),
    .ioctl .enable, .vmentry 3]

theorem filters_sound_of_traceOneRange :
    ∃ s, (vcpu ⟨true, 2⟩).final (Vcpu.new ⟨true, 2⟩ (some 0x5000)) traceOneRange = some s ∧
      s.vmxPt.map (fun v => (v.configured, v.filters.addrEnabled 1, v.filters.addr 1)) =
        some (true, true, (0x1000, 0x2000)) ∧
      ∀ e o s', vcpu ⟨true, 2⟩ s e = some (o, s') → s.Configured →
        s'.vmxPt.map VcpuVmxPt.filters = s.vmxPt.map VcpuVmxPt.filters := by
  have hrun : ((vcpu ⟨true, 2⟩).final (Vcpu.new ⟨true, 2⟩ (some 0x5000)) traceOneRange).map
      (fun s => s.vmxPt.map fun v => (v.configured, v.filters.addrEnabled 1, v.filters.addr 1)) =
      some (some (true, true, (0x1000, 0x2000))) := by decide +kernel
  obtain ⟨s, hs, hv⟩ := Option.map_eq_some_iff.mp hrun
  exact ⟨s, hs, hv, (filters_sound_of_final hs).2⟩

/-- While the guest runs with tracing, the CPU filters by the ranges that were given, and the control
register that it switches to is the one that was set up. -/
theorem loaded_of_final {topa : Option UInt64} (h : (vcpu p).final (Vcpu.new p topa) es = some s)
    (hv : s.vmxPt = some v) (hin : s.inGuest = true) (hon : v.configured = true) :
    v.autoload = some (v.filters.hostVal ||| TRACE_EN, v.filters.hostVal) ∧
      ∀ n, v.filters.addrEnabled n = true →
        (s.msr (.addrStart n), s.msr (.addrEnd n)) = v.filters.addr n := by
  have hok := Vcpu.ok_of_final h v hv
  exact ⟨hok.autoload hon, fun n hn => hok.addr hin hon n (hok.filters.enabled n hn)⟩

theorem loaded_of_traceOneRange :
    ∃ s v, (vcpu ⟨true, 2⟩).final (Vcpu.new ⟨true, 2⟩ (some 0x5000)) traceOneRange = some s ∧
      s.vmxPt = some v ∧ (s.msr (.addrStart 1), s.msr (.addrEnd 1)) = v.filters.addr 1 := by
  have hrun : (((vcpu ⟨true, 2⟩).final (Vcpu.new ⟨true, 2⟩ (some 0x5000)) traceOneRange).bind
      fun s => s.vmxPt.map fun v => (s.inGuest, v.configured, v.filters.addrEnabled 1)) =
      some (true, true, true) := by decide +kernel
  obtain ⟨s, hs, hv⟩ := Option.bind_eq_some_iff.mp hrun
  obtain ⟨v, hv, heq⟩ := Option.map_eq_some_iff.mp hv
  simp only [Prod.mk.injEq] at heq
  exact ⟨s, v, hs, hv, (loaded_of_final hs hv heq.1 heq.2.1).2 1 heq.2.2⟩

lemma StepEffect.keeps {e : Event} (h : StepEffect p v v' e) (hentry : ∀ cpu, e ≠ .vmentry cpu)
    (hdisable : e ≠ .ioctl .disable) :
    (v.wanted → v'.wanted) ∧
      (v.stateChangePending ∧ v.state = false →
        v'.stateChangePending ∧ v'.state = false) := by
  cases h with
  | ioctl hio =>
    cases hio with
    | frame hf => simp [VcpuVmxPt.wanted, hf.stateChangePending, hf.state, hf.configured]
    | filter => exact ⟨id, id⟩
    | enable hoff hnone => simp [VcpuVmxPt.wanted, hnone]
    | disable => exact absurd rfl hdisable
  | vmentry => exact absurd rfl (hentry _)
  | vmexit hc hp hs => simp [VcpuVmxPt.wanted, hc, hp, hs]

lemma keeps_of_final {es' : List Event} (hok : s.Ok p es) (hv : s.vmxPt = some v)
    (hes : ∀ e ∈ es', (∀ cpu, e ≠ .vmentry cpu) ∧ e ≠ .ioctl .disable)
    (h : (vcpu p).final s es' = some s') :
    ∃ v', s'.vmxPt = some v' ∧ s'.Ok p (es ++ es') ∧ (v.wanted → v'.wanted) ∧
      (v.stateChangePending ∧ v.state = false →
        v'.stateChangePending ∧ v'.state = false) := by
  induction es' generalizing es s v with
  | nil =>
    cases h
    exact ⟨v, hv, by simpa using hok, id, id⟩
  | cons e es' ih =>
    simp only [Machine.final] at h
    split at h
    · cases h
    · next o s₁ hs =>
      obtain ⟨v₁, hv₁, -, heffect⟩ := stepEffect hok hv hs
      obtain ⟨hentry, hdisable⟩ := hes e List.mem_cons_self
      obtain ⟨hwanted, hpending⟩ := heffect.keeps hentry hdisable
      obtain ⟨v', hv', hok', hwanted', hpending'⟩ :=
        ih (hok.step hs) hv₁ (fun e' he' => hes e' (List.mem_cons_of_mem e he')) h
      exact ⟨v', hv', by simpa using hok', hwanted' ∘ hwanted, hpending' ∘ hpending⟩

/-- `KVM_VMX_PT_ENABLE` promises tracing with the next vm-entry exactly when no request to switch it
off is pending. -/
theorem configured_after_enable_iff {topa : Option UInt64} {before between : List Event}
    {s₁ s₂ s₃ : Vcpu} {cpu : UInt8} {o : Option ℤ}
    (hbefore : (vcpu p).final (Vcpu.new p topa) before = some s)
    (henable : vcpu p s (.ioctl .enable) = some (some 0, s₁))
    (hbetween : ∀ e ∈ between, (∀ cpu, e ≠ .vmentry cpu) ∧ e ≠ .ioctl .disable)
    (hrun : (vcpu p).final s₁ between = some s₂) (hentry : vcpu p s₂ (.vmentry cpu) = some (o, s₃)) :
    s₃.Configured ↔ ¬s.DisablePending := by
  have hok := Vcpu.ok_of_final hbefore
  cases hv : s.vmxPt with
  | none => exact absurd rfl (vcpu_none hv henable).2
  | some v =>
    have henabled : s₁.vmxPt = some (vmxPtIoctl p v .enable).2 := by
      simp only [vcpu, hv] at henable
      split at henable
      · cases henable
      · simp only [Option.some.injEq, Prod.mk.injEq] at henable
        rw [← henable.2]
    obtain ⟨v₂, hv₂, hok₂, hwanted, hdisable⟩ :=
      keeps_of_final (hok.step henable) henabled hbetween hrun
    obtain ⟨v₃, hv₃, -, heffect⟩ := stepEffect hok₂ hv₂ hentry
    have hconfigured : s₃.Configured ↔ v₂.wanted = true := by
      cases heffect with
      | vmentry hc => simp [Vcpu.Configured, hv₃, hc]
    have hoff : s.DisablePending ↔ v.stateChangePending = true ∧ v.state = false := by
      simp [Vcpu.DisablePending, hv]
    rw [hconfigured, hoff]
    constructor
    · -- a pending request survives `KVM_VMX_PT_ENABLE`, which only looks at `configured`
      rintro hw ⟨hp, hs⟩
      have hsame : (vmxPtIoctl p v .enable).2 = v := by
        simp [vmxPtIoctl, hp]
      rw [hsame] at hdisable
      obtain ⟨hp₂, hs₂⟩ := hdisable ⟨hp, hs⟩
      simp [VcpuVmxPt.wanted, hp₂, hs₂] at hw
    · intro hnone
      apply hwanted
      cases hp : v.stateChangePending with
      | true =>
        have hs : v.state = true := by simpa [hp] using hnone
        simp [vmxPtIoctl, VcpuVmxPt.wanted, hp, hs]
      | false =>
        cases hc : v.configured with
        | true => simp [vmxPtIoctl, VcpuVmxPt.wanted, hp, hc]
        | false => simp [vmxPtIoctl, VcpuVmxPt.wanted, hp, hc]

theorem configured_after_first_enable :
    ∃ s₁ s₃, vcpu ⟨true, 4⟩ (Vcpu.new ⟨true, 4⟩ (some 0x5000)) (.ioctl .enable) = some (some 0, s₁) ∧
      vcpu ⟨true, 4⟩ s₁ (.vmentry 0) = some (none, s₃) ∧ s₃.Configured := by
  have hbefore : (vcpu ⟨true, 4⟩).final (Vcpu.new ⟨true, 4⟩ (some 0x5000)) [] = some _ := rfl
  refine ⟨_, _, rfl, rfl, ?_⟩
  apply (configured_after_enable_iff hbefore rfl (List.forall_mem_nil _) rfl rfl).mpr
  rintro ⟨v, hv, hp, -⟩
  cases hv
  cases hp

/-- Tracing is on, and the request to switch it off has not been carried out yet. -/
def disableRequested : List Event :=
  [.ioctl .enable, .vmentry 0, .vmexit 0x5000 0x7f, .ioctl .disable]

theorem enable_after_disableRequested :
    ∃ s s₁ s₃, (vcpu ⟨true, 4⟩).final (Vcpu.new ⟨true, 4⟩ (some 0x5000)) disableRequested = some s ∧
      vcpu ⟨true, 4⟩ s (.ioctl .enable) = some (some 0, s₁) ∧
      vcpu ⟨true, 4⟩ s₁ (.vmentry 0) = some (none, s₃) ∧ ¬s₃.Configured := by
  refine ⟨_, _, _, rfl, rfl, rfl, ?_⟩
  rintro ⟨v, hv, hon⟩
  cases hv
  cases hon

end Nyx.Kvm
