import Nyx.Pt.PacketTrace

/-!
# Going on after an overflow

After an `OVF` the decoder drops the last address and the state machine and waits for a `FUP` or
`TIP.PGE`. It keeps the outstanding branches, and a `FUP` that waits for its packet.
-/

namespace Nyx.Pt

variable {σ : Type} (trace : Tracer σ)

def ovf : List UInt8 := [0x02, 0xF3]

def DecodeRun.decode (r : DecodeRun σ) : Option (Decoded σ) :=
  (iterate (DecodeRun.step trace) (r.p.length + 1) r).join

/-- A packet that says where the program is after an overflow. -/
def Packet.Syncs : Packet → Prop
  | .fup _ => True
  | .pge _ => True
  | _ => False

/-- The rest of a buffer that begins with such a packet and ends with the end mark. -/
structure Resumes (s : List UInt8) : Prop where
  length_le : s.length ≤ topaSize
  ended : (packets (s.length + 1) s).2 = true
  syncs : ∃ packet rest, nextPacket s = .packet packet rest ∧ packet.Syncs

/-- What follows an `OVF` leads to the requests that it leads to after a flush. -/
def Resynchronises (r : DecodeRun σ) : Prop :=
  ∀ s, Resumes s →
    (DecodeRun.decode trace { r with p := ovf ++ s }).map Decoded.requests =
      (DecodeRun.decode trace { r with p := ovf ++ s, self := ptDecoderFlush r.self }).map
        Decoded.requests

def DecodeRun.overflowFlow (r : DecodeRun σ) : Flow σ where
  dis := r.self.disassemblerState
  mode := r.self.mode
  queue := r.self.tntCacheState.content
  ip := 0
  origin := none
  pending := if r.self.fupBindPending then some r.self.lastFupSrc else none
  resync := true
  overflowed := true
  fault := false
  requests := r.requests

variable {trace} {r : DecodeRun σ}

lemma refines_overflowFlow (hfault : r.self.pageFaultFound = false) (s : List UInt8) :
    Refines { r with p := s }.overflowHandler r.overflowFlow :=
  ⟨rfl, rfl, rfl, rfl, .inl ⟨rfl, rfl⟩, rfl, rfl, rfl, hfault, rfl⟩

lemma decode_ovf (r : DecodeRun σ) (s : List UInt8) :
    DecodeRun.decode trace { r with p := ovf ++ s } =
      (iterate (DecodeRun.step trace) (s.length + 2) { r with p := s }.overflowHandler).join :=
  rfl

lemma requests_decode_ovf (hfault : r.self.pageFaultFound = false)
    (hempty : r.self.tntCacheState.content = []) {s : List UInt8} (hs : Resumes s) :
    (DecodeRun.decode trace { r with p := ovf ++ s }).map Decoded.requests =
      some (r.overflowFlow.read trace (packets (s.length + 1) s).1).requests := by
  have hroom : r.overflowFlow.queue.length + 6 * s.length ≤ 2 ^ 29 - 64 := by
    have hlength := hs.length_le
    rw [show r.overflowFlow.queue = [] from hempty]
    simp only [topaSize] at hlength
    simp only [List.length_nil]
    omega
  obtain ⟨o, ho, houtcome⟩ :=
    (refines_overflowFlow hfault s).iterate trace rfl hroom (Nat.lt_succ_self s.length)
  rw [Outcome, if_pos (by rw [Bool.or_eq_true]; exact .inr hs.ended)] at houtcome
  obtain ⟨decoded, rfl, hreads⟩ := houtcome
  rw [decode_ovf, iterate_mono ho (Nat.le_succ _)]
  exact congrArg some hreads.requests

lemma apply_overflowFlow {packet : Packet} (h : packet.Syncs) (f : Flow σ) (hresync : f.resync)
    (horigin : f.origin = none) :
    f.apply trace packet = Flow.apply trace { f with pending := none } packet := by
  cases packet with
  | fup u => simp [Flow.apply, Flow.fup, hresync]
  | pge u =>
    have hpending : Flow.toPending trace { f with resync := false } =
        Flow.toPending trace { f with resync := false, pending := none } := by
      unfold Flow.toPending
      cases f.pending <;> simp [horigin]
    simp only [Flow.apply, hpending]
  | _ => exact h.elim

lemma resynchronises_of_empty (hfault : r.self.pageFaultFound = false)
    (hempty : r.self.tntCacheState.content = []) : Resynchronises trace r := by
  intro s hs
  have hflush : (ptDecoderFlush r.self).tntCacheState.content = [] := rfl
  rw [requests_decode_ovf hfault hempty hs,
    requests_decode_ovf (r := { r with self := ptDecoderFlush r.self }) hfault hflush hs]
  have hflow : DecodeRun.overflowFlow { r with self := ptDecoderFlush r.self } =
      { r.overflowFlow with pending := none } := by
    unfold DecodeRun.overflowFlow
    rw [hempty, hflush]
    rfl
  obtain ⟨packet, rest, hnext, hsyncs⟩ := hs.syncs
  have hpackets : (packets (s.length + 1) s).1 = packet :: (packets s.length rest).1 := by
    rw [packets, hnext]
  rw [hflow, hpackets, Flow.read_cons trace rfl, Flow.read_cons trace rfl,
    apply_overflowFlow hsyncs _ rfl rfl]

def fupTip : List UInt8 :=
  [0x7D, 0x00, 0x10, 0, 0, 0, 0, 0x6D, 0x00, 0x20, 0, 0, 0, 0, ptTraceEnd]

lemma resumes_fupTip : Resumes fupTip where
  length_le := by decide
  ended := by decide +kernel
  syncs := ⟨.fup (.update 3 (readU64 (fupTip.drop 1))), fupTip.drop 7, by decide +kernel, trivial⟩

lemma requests_tipHandler (trace : Tracer σ) (hfault : r.self.pageFaultFound = false)
    (hbind : r.self.fupBindPending = false) {addr : UInt64}
    (hstate : r.self.decoderState = ⟨.traceEnabledWithLastIP, addr⟩) :
    (r.tipHandler trace).requests =
        r.requests ++ [⟨addr, 0, r.self.tntCacheState.content, r.self.mode⟩] ∧
      (r.tipHandler trace).p = (getIpVal r.p r.self.lastTip).2.2 := by
  have hpending : r.bindFup trace = r := by simp [DecodeRun.bindFup, hbind]
  simp [DecodeRun.tipHandler, hpending, hfault, DecodeRun.readTip, DecodeRun.advance, hstate,
    DecoderStateMachine.handleTip, DecodeRun.disasm, setDisasm]

lemma requests_afterTip (hp : r.p = [ptTraceEnd]) (n : ℕ) {r₀ : DecodeRun σ}
    (hstep : r₀.step trace = r.afterTip) :
    (iterate (DecodeRun.step trace) (n + 2) r₀).join.map Decoded.requests = some r.requests := by
  unfold DecodeRun.afterTip at hstep
  split at hstep
  · rw [iterate_of_inr hstep]
    rfl
  · rw [iterate_of_inl hstep, iterate_of_inr (step_finish trace (by rw [hp]; rfl))]
    simp only [Option.join_some, Option.map_some, DecodeRun.exit]
    split <;> rfl

lemma requests_fupTip (hfault : r.self.pageFaultFound = false) :
    (DecodeRun.decode trace { r with p := ovf ++ fupTip }).map Decoded.requests =
      some (r.requests ++ [⟨0x1000, 0, r.self.tntCacheState.content, r.self.mode⟩]) := by
  let r₁ : DecodeRun σ := { r with p := fupTip }.overflowHandler.tipFupHandler
  have hfup : DecodeRun.step trace { r with p := fupTip }.overflowHandler = .inl r₁ := rfl
  have htip : r₁.step trace = (r₁.tipHandler trace).afterTip := rfl
  have hstate : r₁.self.decoderState = ⟨.traceEnabledWithLastIP, 0x1000⟩ := by
    show (⟨.traceEnabledWithLastIP, (getIpVal fupTip 0).1⟩ : DecoderStateMachine) = _
    rw [show (getIpVal fupTip 0).1 = 0x1000 by decide +kernel]
  obtain ⟨hrequests, hp⟩ := requests_tipHandler trace (r := r₁) hfault rfl hstate
  have hend : (r₁.tipHandler trace).p = [ptTraceEnd] := hp.trans rfl
  exact (requests_afterTip hend 14 htip).trans (congrArg some hrequests)

/-- At every place of every buffer, whatever the decoder held before: the packets behind an `OVF`
are decoded as after a flush if and only if no branch is outstanding. -/
theorem resynchronises_iff {d : Decoder σ} {p : List UInt8}
    (hr : Visits (DecodeRun.step trace) ⟨p, { d with pageFaultFound := false }, false, []⟩ r) :
    Resynchronises trace r ↔ r.self.tntCacheState.isEmptyTntCache = true := by
  have hfault : r.self.pageFaultFound = false :=
    hr.invariant (P := fun r => r.self.pageFaultFound = false)
      (fun _ _ hfault hstep => pageFaultFound_step trace hfault hstep) rfl
  rw [TntCache.isEmptyTntCache_iff]
  constructor
  · intro h
    have hsame := h fupTip resumes_fupTip
    rw [requests_fupTip hfault,
      requests_fupTip (r := { r with self := ptDecoderFlush r.self }) hfault] at hsame
    have hlast := List.append_cancel_left (Option.some.inj hsame)
    exact congrArg Request.tnt (List.head_eq_of_cons_eq hlast)
  · exact resynchronises_of_empty hfault

/-- A branch, whose bit is used at the next address, before an `OVF`. -/
def branchOvf : List UInt8 := [0x31, 0x00, 0x10] ++ [0x06] ++ [0x2D, 0x00, 0x20] ++ ovf ++ fupTip

theorem resynchronises_branchOvf :
    ∃ r, Visits (DecodeRun.step (takes 1)) ⟨branchOvf, ptDecoderInit (), false, []⟩ r ∧
      r.p = ovf ++ fupTip ∧ r.requests.length = 1 ∧ Resynchronises (takes 1) r := by
  let r₁ := DecodeRun.tipPgeHandler (takes 1) ⟨branchOvf, ptDecoderInit (), false, []⟩
  have hpge : Visits (DecodeRun.step (takes 1)) ⟨branchOvf, ptDecoderInit (), false, []⟩ r₁ :=
    .next .start rfl
  have htnt : DecodeRun.step (takes 1) r₁ = .inl _ := rfl
  have htip : Visits (DecodeRun.step (takes 1)) ⟨branchOvf, ptDecoderInit (), false, []⟩ _ :=
    (hpge.next htnt).next rfl
  exact ⟨_, htip, rfl, rfl, (resynchronises_iff (d := ptDecoderInit ()) htip).mpr (by decide +kernel)⟩

def tntOvf : List UInt8 := [0x06] ++ ovf ++ fupTip

theorem not_resynchronises_tntOvf :
    ∃ r, Visits (DecodeRun.step (takes 1)) ⟨tntOvf, ptDecoderInit (), false, []⟩ r ∧
      r.p = ovf ++ fupTip ∧ ¬Resynchronises (takes 1) r := by
  refine ⟨_, .next .start rfl, rfl, ?_⟩
  intro h
  have hsame := h fupTip resumes_fupTip
  exact absurd hsame (by decide +kernel)

end Nyx.Pt
