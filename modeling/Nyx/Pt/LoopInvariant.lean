import Nyx.Pt.SweepInvariant

/-!
# The list under any trace

`trace_disassembler_loop` decodes on demand and writes the links it has found into the list. The
list describes the code afterwards, whatever the bits are.
-/

namespace Nyx.Pt

section Loop

variable {img : Image} {filter : AddrFilter} (size : UInt32) {limit : UInt64}

lemma Sound.setCofiPtr {d : CofiMap} (h : Sound img filter d) {r : Ref} (hr : Loose img filter d r)
    (target : Ref) : Sound img filter (d.setCofiPtr r target) := by
  refine ⟨h.toShape.setCofiPtr r target, fun a ins q hcode hget => ?_, h.loose⟩
  have hq := h.describes a ins q hcode hget
  by_cases heq : q = r
  · subst heq
    apply hq.of_loose _ _ _ hr hcode hget
    · exact fun _ _ hb => hb
    · exact CofiMap.cofi_setCofiPtr d q target q
    · simp [CofiMap.setCofiPtr]
  · apply hq.frame
    · exact fun _ _ hb => hb
    · simp [CofiMap.setCofiPtr, heq]

lemma Sound.setCofiTargetPtr {d : CofiMap} (h : Sound img filter d) {r target : Ref}
    (htarget : d.mapGet (d.heap r).cofi.targetAddr = some target ∨
      (target = .oobObj ∨ target = .pageCacheFailedObj) ∧
        Outside img filter (d.heap r).cofi.targetAddr) :
    Sound img filter (d.setCofiTargetPtr r target) := by
  refine ⟨h.toShape.setCofiTargetPtr r target, fun a ins q hcode hget => ?_, h.loose⟩
  have hq := h.describes a ins q hcode hget
  by_cases heq : q = r
  · subst heq
    rw [Describes] at hq ⊢
    rw [CofiMap.cofi_setCofiTargetPtr]
    cases hclass : ins.opcodeAnalyzer with
    | unconditionalDirectBranch =>
      simp only [hclass] at hq ⊢
      obtain ⟨hheader, -⟩ := hq
      rw [hheader] at htarget
      refine ⟨hheader, target, ?_, .inr htarget⟩
      simp [CofiMap.setCofiTargetPtr]
    | noCofiType =>
      simp only [hclass] at hq ⊢
      have hptr : ((d.setCofiTargetPtr q target).heap q).cofiPtr = (d.heap q).cofiPtr := by
        simp [CofiMap.setCofiTargetPtr]
      rw [hptr]
      exact hq
    | _ =>
      simp only [hclass] at hq ⊢
      exact hq
  · apply hq.frame
    · exact fun _ _ hb => hb
    · simp [CofiMap.setCofiTargetPtr, heq]

lemma CofiType.Live.ne_pending {t : CofiType} (h : t.Live) : t ≠ .disassemblyPending := by
  rintro rfl
  exact h

lemma Finds.type_ne {d : CofiMap} {addr : UInt64} {f : Fetch} (h : Finds img filter d addr f) :
    (f.dis.heap f.obj).cofi.type ≠ .disassemblyPending := by
  rcases h.obj with hget | ⟨hobj | hobj, -⟩
  · exact (h.sound.live addr f.obj hget).ne_pending
  · rw [hobj, h.sound.oob]
    decide
  · rw [hobj, h.sound.failed]
    decide

/-- The invariant of the loop, without the label. -/
structure LoopBody (img : Image) (filter : AddrFilter) (s : LoopState) : Prop where
  sound : Sound img filter s.dis
  listed : s.tmp.Listed
  last : ∀ l, s.lastObj = some l → (s.dis.heap l).cofi.type ≠ .disassemblyPending

/-- A pending object is only decoded, and its predecessor's `cofi_ptr` leads nowhere. -/
structure LoopOk (img : Image) (filter : AddrFilter) (s : LoopState) : Prop
    extends LoopBody img filter s where
  visits : s.label = .conditionalBranch ∨ s.label = .unconditionalBranch ∨ s.label = .noCofi →
    s.header.type ≠ .disassemblyPending
  loose : s.label = .disassembleNt → ∀ l, s.lastObj = some l → Loose img filter s.dis l

abbrev StepOk (img : Image) (filter : AddrFilter) : LoopState ⊕ Option LoopExit → Prop :=
  Sum.elim (LoopOk img filter) fun e => ∀ x, e = some x → Sound img filter x.dis ∧ x.tmp.Listed

variable {s : LoopState}

lemma dispatchTableT_ne (type : CofiType) :
    ¬(dispatchTableT type = .conditionalBranch ∨ dispatchTableT type = .unconditionalBranch ∨
      dispatchTableT type = .noCofi) ∧ dispatchTableT type ≠ .disassembleNt := by
  cases type <;> simp [dispatchTableT]

namespace LoopBody

lemma dispatchT (h : LoopBody img filter s) : LoopOk img filter s.dispatchT := by
  refine ⟨⟨h.sound, h.listed, h.last⟩, fun hlabel => ?_, fun hlabel => ?_⟩
  · exact absurd hlabel (dispatchTableT_ne _).1
  · exact absurd hlabel (dispatchTableT_ne _).2

lemma dispatchNt (h : LoopBody img filter s)
    (hloose : s.header.type = .disassemblyPending → ∀ l, s.lastObj = some l → Loose img filter s.dis l) :
    LoopOk img filter s.dispatchNt := by
  refine ⟨⟨h.sound, h.listed, h.last⟩, fun hlabel => ?_, fun hlabel => ?_⟩
  · cases htype : s.header.type <;> simp [LoopState.dispatchNt, htype, dispatchTableNt] at hlabel
  · apply hloose
    cases htype : s.header.type <;> simp [LoopState.dispatchNt, htype, dispatchTableNt] at hlabel ⊢

lemma dispatch (h : LoopBody img filter s) {type : CofiType}
    (htype : type = .outOfBounds ∨ type = s.header.type) : LoopOk img filter (s.dispatch type) := by
  refine ⟨⟨h.sound, h.listed, h.last⟩, fun hlabel => ?_, fun hlabel => ?_⟩
  · rcases htype with rfl | rfl
    · simp [LoopState.dispatch, dispatchTable] at hlabel
    · intro hpending
      have hheader : s.header.type = .disassemblyPending := hpending
      simp [LoopState.dispatch, hheader, dispatchTable] at hlabel
  · cases type <;> simp [LoopState.dispatch, dispatchTable] at hlabel

lemma fetch (hcode : Placed img filter) (h : LoopBody img filter s) (addr : UInt64) :
    LoopBody img filter (s.fetch img filter addr) ∧
      (s.fetch img filter addr).header.type ≠ .disassemblyPending := by
  have hfinds := getObj_finds hcode h.sound addr
  refine ⟨⟨hfinds.sound, h.listed, fun l hl => ?_⟩, hfinds.type_ne⟩
  have hold := h.last l hl
  have hheader : ((s.fetch img filter addr).dis.heap l).cofi = (s.dis.heap l).cofi :=
    hfinds.grows.headers l hold
  rwa [hheader]

end LoopBody

namespace LoopOk

variable (h : LoopOk img filter s)
include h

lemma leave (result : DisasResult) (tracelet : Option Tracelet) :
    StepOk img filter (s.leave result tracelet) := by
  intro x hx
  cases hx
  exact ⟨h.sound, h.listed⟩

lemma follow (hcode : Placed img filter) (hlabel : s.label = .conditionalBranch)
    {tnt : TntCache} {dst : UInt64} {t : LoopState} (ht : s.follow img filter size tnt dst = some t) :
    LoopBody img filter t ∧ t.header.type ≠ .disassemblyPending := by
  unfold LoopState.follow at ht
  cases hadd : s.tmp.addResultTraceletCache size s.header.insAddr dst with
  | none =>
    rw [hadd] at ht
    cases ht
  | some tmp =>
    rw [hadd] at ht
    cases ht
    apply LoopBody.fetch hcode
    refine ⟨h.sound, h.listed.add hadd, fun l hl => ?_⟩
    cases hl
    exact h.visits (.inl hlabel)

lemma doConditionalBranch (hcode : Placed img filter) (hlabel : s.label = .conditionalBranch) :
    StepOk img filter (s.doConditionalBranch img filter size) := by
  unfold LoopState.doConditionalBranch
  split
  · exact fun x hx => by cases hx; exact ⟨h.sound, h.listed⟩
  · split
    · exact fun x hx => by cases hx; exact ⟨h.sound, h.listed⟩
    · split
      · next t ht => exact (h.follow size hcode hlabel ht).1.dispatchT
      · exact fun x hx => by cases hx
    · split
      · next t ht =>
        obtain ⟨hbody, htype⟩ := h.follow size hcode hlabel ht
        exact hbody.dispatchNt fun hpending => absurd hpending htype
      · exact fun x hx => by cases hx

lemma branchCheck (start : CofiHeader → UInt64) :
    StepOk img filter (s.branchCheck limit start) := by
  unfold LoopState.branchCheck
  cases s.lastObj with
  | none => exact fun x hx => by cases hx
  | some last =>
    apply h.toLoopBody.dispatch
    split
    · exact .inl rfl
    · exact .inr rfl

lemma loose_of_pending {next : Ref} (hnext : (s.dis.heap s.obj).cofiPtr = some next)
    (hpending : (s.dis.heap next).cofi.type = .disassemblyPending) :
    Loose img filter s.dis s.obj := by
  intro a ins hins hget hclass
  have hdescribes := (describes_plain hclass).mp (h.sound.describes a ins s.obj hins hget)
  rcases hdescribes with hrun | ⟨-, next', hnext', hmapped⟩ | hleaves
  · exact .inl hrun
  · rw [hnext, Option.some.injEq] at hnext'
    rw [← hnext'] at hmapped
    exact absurd hpending (h.sound.live _ _ hmapped).ne_pending
  · exact .inr hleaves

theorem step (hcode : Placed img filter) : StepOk img filter (s.step img filter size limit) := by
  unfold LoopState.step
  cases hlabel : s.label with
  | conditionalBranch => exact h.doConditionalBranch size hcode hlabel
  | unconditionalBranch =>
    cases (s.dis.heap s.obj).cofiTargetPtr with
    | none => exact fun x hx => by cases hx
    | some target =>
      have hlast : ∀ l, some s.obj = some l → (s.dis.heap l).cofi.type ≠ .disassemblyPending := by
        intro l hl
        cases hl
        exact h.visits (.inr (.inl hlabel))
      refine ⟨⟨h.sound, h.listed, hlast⟩, fun hc => ?_, fun hc => ?_⟩
      · exact absurd hc (dispatchTableT_ne _).1
      · exact absurd hc (dispatchTableT_ne _).2
  | nearRet => exact h.leave _ _
  | farTransfers => exact h.leave _ _
  | noCofi =>
    cases hnext : (s.dis.heap s.obj).cofiPtr with
    | none => exact fun x hx => by cases hx
    | some next =>
      apply LoopBody.dispatchNt
      · refine ⟨h.sound, h.listed, fun l hl => ?_⟩
        cases hl
        exact h.visits (.inr (.inr hlabel))
      · intro hpending l hl
        cases hl
        exact h.loose_of_pending hnext hpending
  | disassembleT =>
    cases hlast : s.lastObj with
    | none => exact fun x hx => by cases hx
    | some last =>
      have hfinds := getObj_finds hcode h.sound (s.dis.heap last).cofi.targetAddr
      obtain ⟨hbody, -⟩ := h.toLoopBody.fetch hcode (s.dis.heap last).cofi.targetAddr
      have hheader := hfinds.grows.headers last (h.last last hlast)
      apply LoopBody.dispatchT
      refine ⟨?_, h.listed, fun l hl => ?_⟩
      · apply hfinds.sound.setCofiTargetPtr
        rw [hheader]
        exact hfinds.obj
      · rw [CofiMap.cofi_setCofiTargetPtr]
        exact hbody.last l hl
  | branchCheckT => exact h.branchCheck _
  | disassembleNt =>
    cases hlast : s.lastObj with
    | none => exact fun x hx => by cases hx
    | some last =>
      have hfinds := getObj_finds hcode h.sound (s.header.insAddr + s.header.insSize.toUInt64)
      obtain ⟨hbody, htype⟩ :=
        h.toLoopBody.fetch hcode (s.header.insAddr + s.header.insSize.toUInt64)
      -- new entries go to elements that were not in use, so the old one stays loose
      have hloose := (h.loose hlabel last hlast).frame hfinds.grows.keeps (by
        intro a ins _ hget
        rcases hfinds.grows.entries a last hget with hold | hpending
        · exact hold
        · exact absurd hpending (h.last last hlast))
      apply LoopBody.dispatchNt
      · refine ⟨hfinds.sound.setCofiPtr hloose _, h.listed, fun l hl => ?_⟩
        rw [CofiMap.cofi_setCofiPtr]
        exact hbody.last l hl
      · intro hpending
        dsimp only [LoopState.header] at hpending
        rw [CofiMap.cofi_setCofiPtr] at hpending
        exact absurd hpending htype
  | branchCheckNt => exact h.branchCheck _
  | outOfBounds => exact h.leave _ _
  | infiniteLoop => exact h.leave _ _
  | pageCacheFailed => exact h.leave _ _

end LoopOk

end Loop

end Nyx.Pt
