import Nyx.Kvm.VmxPt
import Nyx.Pt.IpCompression

/-!
# The end of a trace

The driver marks the end of the trace in the region that the processor writes to, and QEMU maps a
page full of the same byte behind both regions. Bytes of an older trace may follow the mark.
-/

namespace Nyx.Pt

open Kvm

/-! ### The mark -/

/-- The output position lies in one of the two regions, or both are full. -/
inductive OutputPosition (v : VcpuVmxPt) : Prop
  | main (hentry : v.outputMaskPtrs &&& TOPA_MASK_OR_TABLE_OFFSET = 0)
    (hoffset : v.outputMaskPtrs >>> 32 < TOPA_MAIN_SIZE)
  | fallback (hentry : v.outputMaskPtrs &&& TOPA_MASK_OR_TABLE_OFFSET ≠ 0)
    (hoffset : v.outputMaskPtrs >>> 32 < TOPA_FALLBACK_SIZE)
  | full (hentry : v.outputMaskPtrs &&& TOPA_MASK_OR_TABLE_OFFSET ≠ 0)
    (hoffset : v.outputMaskPtrs >>> 32 = TOPA_FALLBACK_SIZE)

/-- A byte of `pt_mmap`: the two regions, then the page that `memset` has filled with `0x55`. -/
def mmapByte (v : VcpuVmxPt) (i : ℕ) : UInt8 :=
  if i < TOPA_MAIN_SIZE.toNat then v.topaMain i
  else if i < TOPA_MAIN_SIZE.toNat + TOPA_FALLBACK_SIZE.toNat then
    v.topaFallback (i - TOPA_MAIN_SIZE.toNat)
  else 0x55

def mmapSize : ℕ := TOPA_MAIN_SIZE.toNat + TOPA_FALLBACK_SIZE.toNat + 0x1000

def ptMmap (v : VcpuVmxPt) : List UInt8 := (List.range mmapSize).map (mmapByte v)

lemma toInt_of_lt {n : UInt64} (h : n.toNat < 2 ^ 31) : toInt n = n.toNat := by
  have hword : n.toUInt32.toNat = n.toNat := by
    rw [UInt64.toNat_toUInt32]
    omega
  unfold toInt
  rw [← Int32.toInt_toBitVec, UInt32.toBitVec_toInt32, BitVec.toInt_eq_toNat_cond]
  simp only [UInt32.toNat_toBitVec, hword]
  rw [if_pos (by omega)]

lemma toNat_main : TOPA_MAIN_SIZE.toNat = 4194304 := by decide

lemma toNat_fallback : TOPA_FALLBACK_SIZE.toNat = 65536 := by decide

lemma toInt_main_add {n : UInt64} (h : n.toNat ≤ 65536) :
    toInt (TOPA_MAIN_SIZE + n) = (TOPA_MAIN_SIZE.toNat + n.toNat : ℕ) := by
  have hsum : (TOPA_MAIN_SIZE + n).toNat = TOPA_MAIN_SIZE.toNat + n.toNat := by
    rw [UInt64.toNat_add, toNat_main]
    omega
  rw [toInt_of_lt, hsum]
  rw [hsum, toNat_main]
  omega

lemma mmapByte_vmxPtGetDataSize {v : VcpuVmxPt} (h : OutputPosition v) :
    ∃ r : ℕ, (vmxPtGetDataSize v).1 = r ∧ r < mmapSize ∧
      mmapByte (vmxPtGetDataSize v).2 r = ptTraceEnd := by
  have hmain := toNat_main
  have hfallback := toNat_fallback
  unfold vmxPtGetDataSize
  cases h with
  | main hentry hoffset =>
    have hlt := UInt64.lt_iff_toNat_lt.mp hoffset
    simp only [if_neg (not_not.mpr hentry)]
    refine ⟨(v.outputMaskPtrs >>> 32).toNat, toInt_of_lt (by omega), ?_, ?_⟩
    · exact Nat.lt_add_right _ (Nat.lt_add_right _ hlt)
    · rw [mmapByte, if_pos hlt]
      exact Function.update_self ..
  | fallback hentry hoffset =>
    have hlt := UInt64.lt_iff_toNat_lt.mp hoffset
    simp only [if_pos hentry, if_pos hoffset]
    refine ⟨TOPA_MAIN_SIZE.toNat + (v.outputMaskPtrs >>> 32).toNat, toInt_main_add (by omega),
      ?_, ?_⟩
    · unfold mmapSize
      omega
    · rw [mmapByte, if_neg (by omega), if_pos (by omega), Nat.add_sub_cancel_left]
      exact Function.update_self ..
  | full hentry hoffset =>
    -- nothing is written here: the mark is the first byte of the page behind the regions
    simp only [if_pos hentry, hoffset]
    refine ⟨TOPA_MAIN_SIZE.toNat + TOPA_FALLBACK_SIZE.toNat, toInt_main_add (by omega), ?_, ?_⟩
    · unfold mmapSize
      omega
    · rfl

/-! ### The packets -/

/-- The packets of two bytes of head, with their lengths. -/
def extendedLengths : List (UInt8 × ℕ) :=
  [(0x03, 4), (0x23, 2), (0x43, 8), (0x82, 16), (0xC8, 7), (0xF3, 2)]

/-- The number of address bytes for each value of the field `IPBytes`; two values are reserved. -/
def ipBytesLength (ipBytes : UInt8) : Option ℕ :=
  if ipBytes = 0 then some 0 else if ipBytes = 1 then some 2 else if ipBytes = 2 then some 4
  else if ipBytes = 3 then some 6 else if ipBytes = 4 then some 6
  else if ipBytes = 6 then some 8 else none

/-- The packets with an address: `TIP.PGD`, `TIP`, `TIP.PGE` and `FUP`. -/
def ipKinds : List UInt8 := [0x01, 0x0D, 0x11, 0x1D]

/-- The bytes of one complete packet of a kind that the decoder knows. -/
inductive IsPacket : List UInt8 → Prop
  | pad : IsPacket [0x00]
  | tnt8 {byte : UInt8} (h0 : byte ≠ 0x00) (h2 : byte ≠ 0x02) (heven : byte &&& 0x01 = 0x00) :
    IsPacket [byte]
  | ip {head : UInt8} {payload : List UInt8}
    (hkind : head &&& 0x1F ∈ ipKinds) (hlen : ipBytesLength (head >>> 5) = some payload.length) :
    IsPacket (head :: payload)
  | mode (byte : UInt8) : IsPacket [0x99, byte]
  | extended {code : UInt8} {n : ℕ} {rest : List UInt8} (hcode : (code, n) ∈ extendedLengths)
    (hlen : rest.length + 2 = n) : IsPacket (0x02 :: code :: rest)

/-- The packet has no address, or one with `IPBytes` up to 3. -/
def Narrow : List UInt8 → Prop
  | [] => True
  | head :: _ => head &&& 0x1F ∈ ipKinds → head >>> 5 ≤ 3

instance : DecidablePred Narrow
  | [] => isTrue trivial
  | head :: _ => inferInstanceAs (Decidable (head &&& 0x1F ∈ ipKinds → head >>> 5 ≤ 3))

/-- The decoder takes two bytes for each unit of `IPBytes`. -/
lemma ipBytesLength_cases {ipBytes : UInt8} {n : ℕ} (h : ipBytesLength ipBytes = some n) :
    (ipBytes ≤ 3 ∧ n = ipBytes.toNat * 2) ∨ (¬ ipBytes ≤ 3 ∧ n < ipBytes.toNat * 2) := by
  unfold ipBytesLength at h
  split_ifs at h with h0 h1 h2 h3 h4 h6
  all_goals
    cases h
    subst_vars
    decide

lemma afterIp_append {head : UInt8} {payload : List UInt8}
    (hlen : payload.length = (head >>> 5).toNat * 2) (rest : List UInt8) :
    afterIp (head :: (payload ++ rest)) = rest := by
  by_cases hzero : head >>> 5 = 0
  · rw [hzero] at hlen
    rw [afterIp, if_pos hzero, List.eq_nil_of_length_eq_zero hlen, List.nil_append]
  · rw [afterIp, if_neg hzero, ← hlen, List.drop_left]

/-- An address packet is dispatched as one, and the next dispatch is where `get_ip_val` ends. -/
lemma nextPacket_ip {head : UInt8} (hkind : head &&& 0x1F ∈ ipKinds) (rest : List UInt8) :
    ∃ packet, nextPacket (head :: rest) = .packet packet (afterIp (head :: rest)) := by
  have hand : head &&& 0x01 = (head &&& 0x1F) &&& 0x01 := by
    rw [UInt8.and_assoc]
    rfl
  have h0 : head ≠ 0x00 := by
    rintro rfl
    revert hkind
    decide
  have h2 : head ≠ 0x02 := by
    rintro rfl
    revert hkind
    decide
  simp only [ipKinds, List.mem_cons, List.not_mem_nil, or_false] at hkind
  have hodd : head &&& 0x01 ≠ 0x00 := by
    rw [hand]
    rcases hkind with hkind | hkind | hkind | hkind <;> rw [hkind] <;> decide
  rcases hkind with hkind | hkind | hkind | hkind
  all_goals simp [nextPacket, dispatchTableLevel1, h0, h2, hodd, hkind]

/-- A packet that is no padding is read to its end, whatever follows. -/
lemma nextPacket_append {bytes : List UInt8} (h : IsPacket bytes) (hnarrow : Narrow bytes)
    (hpad : bytes ≠ [0x00]) (rest : List UInt8) :
    ∃ packet, nextPacket (bytes ++ rest) = .packet packet rest := by
  cases h with
  | pad => exact absurd rfl hpad
  | @tnt8 byte h0 h2 heven => exact ⟨.tnt byte, by simp [nextPacket, dispatchTableLevel1, h0, h2, heven]⟩
  | @ip head payload hkind hlen =>
    obtain ⟨-, hbytes⟩ | ⟨hwide, -⟩ := ipBytesLength_cases hlen
    · have hnext := nextPacket_ip hkind (payload ++ rest)
      rwa [afterIp_append hbytes] at hnext
    · exact absurd (hnarrow hkind) hwide
  | mode byte => exact ⟨_, rfl⟩
  | @extended code n tail hcode hlen =>
    have hdrop : ((0x02 : UInt8) :: code :: (tail ++ rest)).drop n = rest := by
      rw [← hlen]
      simp
    simp only [extendedLengths, List.mem_cons, List.not_mem_nil, or_false, Prod.mk.injEq] at hcode
    rcases hcode with ⟨rfl, rfl⟩ | ⟨rfl, rfl⟩ | ⟨rfl, rfl⟩ | ⟨rfl, rfl⟩ | ⟨rfl, rfl⟩ | ⟨rfl, rfl⟩
    all_goals exact ⟨_, congrArg (NextPacket.packet _) hdrop⟩

lemma head_ne_zero {bytes : List UInt8} (h : IsPacket bytes) (hpad : bytes ≠ [0x00]) :
    ∃ head tail, bytes = head :: tail ∧ head ≠ 0 := by
  cases h with
  | pad => exact absurd rfl hpad
  | tnt8 h0 => exact ⟨_, _, rfl, h0⟩
  | ip hkind =>
    refine ⟨_, _, rfl, ?_⟩
    rintro rfl
    revert hkind
    decide
  | mode => exact ⟨_, _, rfl, by decide⟩
  | extended => exact ⟨_, _, rfl, by decide⟩

/-! ### The dispatch loop -/

/-- The bytes at each dispatch for the packets and what follows them. A run of padding is one
dispatch. -/
def dispatches (tail : List UInt8) : Bool → List (List UInt8) → List (List UInt8)
  | _, [] => [tail]
  | inPad, bytes :: packets =>
    if inPad ∧ bytes = [0x00] then dispatches tail true packets
    else ((bytes :: packets).flatten ++ tail) :: dispatches tail (bytes = [0x00]) packets

section Decode

variable {σ : Type} (trace : Tracer σ)

/-- `decode_buffer` on a mapping of which `len` bytes are the trace. -/
def decodeMap (self : Decoder σ) (map : List UInt8) (len : ℕ) : Option (Decoded σ) :=
  let self := { self with pageFaultFound := false }
  match memmemPsb (map.take len) with
  | none => some (DecodeRun.exit ⟨[], self, false, []⟩)
  | some p => (iterate (DecodeRun.step trace) (map.length + 1) ⟨p ++ map.drop len, self, false, []⟩).join

def dispatched (self : Decoder σ) (map : List UInt8) (len : ℕ) : List (List UInt8) :=
  match memmemPsb (map.take len) with
  | none => []
  | some p =>
    (trail (DecodeRun.step trace) (map.length + 1)
      ⟨p ++ map.drop len, { self with pageFaultFound := false }, false, []⟩).map DecodeRun.p

variable {r : DecodeRun σ} {rest : List UInt8}

def GoesOn (turn : DecodeRun σ ⊕ Option (Decoded σ)) (rest : List UInt8) : Prop :=
  (∃ r, turn = .inl r ∧ r.p = rest) ∨ ∃ d, turn = .inr (some d) ∧ d.result = .pageFault

lemma goesOn_afterTip (h : r.self.pageFaultFound = false → r.p = rest) : GoesOn r.afterTip rest := by
  unfold DecodeRun.afterTip
  cases hfault : r.self.pageFaultFound with
  | true => exact .inr ⟨_, rfl, rfl⟩
  | false => exact .inl ⟨r, rfl, h hfault⟩

/-- The handlers of addresses: `finish` is what they do once the address is read. -/
lemma goesOn_tip (finish : DecodeRun σ → DecodeRun σ) (hfinish : ∀ t, (finish t).p = t.p)
    {bound : DecodeRun σ} (hp : bound.p = r.p) :
    GoesOn (if bound.self.pageFaultFound then bound else finish bound.readTip).afterTip
      (afterIp r.p) := by
  apply goesOn_afterTip
  split
  next hfault => exact fun hnone => absurd hnone (by simp [hfault])
  · intro _
    rw [hfinish, DecodeRun.readTip, getIpVal_eq, hp]

lemma goesOn_step {packet : Packet} (h : nextPacket r.p = .packet packet rest) :
    GoesOn (r.step trace) rest := by
  unfold DecodeRun.step
  cases hp : r.p with
  | nil =>
    rw [hp] at h
    cases h
  | cons byte p =>
    rw [hp] at h
    simp only [nextPacket] at h
    cases hlabel : dispatchTableLevel1 byte with
    | pad | tnt8 =>
      simp only [hlabel] at h ⊢
      cases h
      exact .inl ⟨_, rfl, rfl⟩
    | tip =>
      simp only [hlabel] at h ⊢
      cases h
      rw [← hp]
      exact goesOn_tip (fun t => (t.advance _).disasm trace) (fun t => Refines.p_disasm trace)
        (Refines.p_bindFup trace)
    | tipPgd =>
      simp only [hlabel] at h ⊢
      cases h
      rw [← hp]
      exact goesOn_tip (fun t => (t.advance _).disasm trace) (fun t => Refines.p_disasm trace)
        (Refines.p_bindFup trace)
    | tipPge =>
      simp only [hlabel] at h ⊢
      cases h
      rw [← hp]
      exact goesOn_tip (fun t => t.advance _) (fun t => rfl) (Refines.p_bindFup trace)
    | tipFup =>
      simp only [hlabel] at h ⊢
      cases h
      exact .inl ⟨_, rfl, by rw [Refines.p_tipFupHandler, hp]⟩
    | mode =>
      simp only [hlabel] at h ⊢
      cases p with
      | nil => cases h
      | cons next p =>
        cases h
        exact .inl ⟨_, rfl, rfl⟩
    | level2 =>
      simp only [hlabel] at h ⊢
      cases p with
      | nil => cases h
      | cons next p =>
        simp only [extendedPacket] at h
        simp only [DecodeRun.level2, hp]
        split_ifs at h ⊢
        all_goals
          cases h
          exact .inl ⟨_, rfl, rfl⟩
    | exit | error =>
      simp only [hlabel] at h
      cases h

def afterPadding (inPad : Bool) (p : List UInt8) : List UInt8 :=
  if inPad then p.dropWhile (· = 0) else p

lemma afterPadding_of_ne {head : UInt8} (h : head ≠ 0) (inPad : Bool) (p : List UInt8) :
    afterPadding inPad (head :: p) = head :: p := by
  cases inPad with
  | false => rfl
  | true => simp [afterPadding, h]

lemma afterPadding_append {bytes : List UInt8} (h : IsPacket bytes) {inPad : Bool}
    (hskip : ¬ (inPad = true ∧ bytes = [0x00])) (rest : List UInt8) :
    afterPadding inPad (bytes ++ rest) = bytes ++ rest := by
  by_cases hpad : bytes = [0x00]
  · have hout : inPad = false := by simpa [hpad] using hskip
    rw [hout]
    rfl
  · obtain ⟨head, tail, rfl, hne⟩ := head_ne_zero h hpad
    exact afterPadding_of_ne hne inPad _

/-- Where the packet ends the next dispatch is, behind any padding. -/
lemma nextPacket_eq {bytes : List UInt8} (h : IsPacket bytes) (hnarrow : Narrow bytes)
    (rest : List UInt8) :
    ∃ packet, nextPacket (bytes ++ rest) = .packet packet (afterPadding (bytes = [0x00]) rest) := by
  by_cases hpad : bytes = [0x00]
  · subst hpad
    exact ⟨.silent, rfl⟩
  · rw [decide_eq_false hpad]
    exact nextPacket_append h hnarrow hpad rest

lemma run_packets (beyond : List UInt8) (packets : List (List UInt8))
    (hpackets : ∀ bytes ∈ packets, IsPacket bytes) (hnarrow : ∀ bytes ∈ packets, Narrow bytes)
    (inPad : Bool) {r : DecodeRun σ}
    (hp : r.p = afterPadding inPad (packets.flatten ++ ptTraceEnd :: beyond)) {n : ℕ}
    (hn : packets.length < n) :
    ∃ d, iterate (DecodeRun.step trace) n r = some (some d) ∧
      (trail (DecodeRun.step trace) n r).map DecodeRun.p <+:
        dispatches (ptTraceEnd :: beyond) inPad packets ∧
      (d.result ≠ .pageFault → (trail (DecodeRun.step trace) n r).map DecodeRun.p =
        dispatches (ptTraceEnd :: beyond) inPad packets) := by
  obtain ⟨n, rfl⟩ : ∃ k, n = k + 1 := ⟨n - 1, by omega⟩
  induction packets generalizing inPad r n with
  | nil =>
    rw [List.flatten_nil, List.nil_append, afterPadding_of_ne (by decide)] at hp
    have hexit : r.step trace = .inr (some r.exit) := step_finish trace (by rw [hp]; rfl)
    have htrail : (trail (DecodeRun.step trace) (n + 1) r).map DecodeRun.p =
        dispatches (ptTraceEnd :: beyond) inPad [] := by
      simp [trail, hexit, dispatches, hp]
    exact ⟨r.exit, iterate_of_inr hexit n, htrail ▸ List.prefix_rfl, fun _ => htrail⟩
  | cons bytes packets ih =>
    rw [List.length_cons] at hn
    obtain ⟨n, rfl⟩ : ∃ k, n = k + 1 := ⟨n - 1, by omega⟩
    obtain ⟨hbytes, hrest⟩ := List.forall_mem_cons.mp hpackets
    obtain ⟨hfirst, hothers⟩ := List.forall_mem_cons.mp hnarrow
    rw [List.flatten_cons, List.append_assoc] at hp
    by_cases hskip : inPad = true ∧ bytes = [0x00]
    · -- the padding goes on: nothing is dispatched here
      obtain ⟨rfl, rfl⟩ := hskip
      have hp' : r.p = afterPadding true (packets.flatten ++ ptTraceEnd :: beyond) := hp
      have hrun := ih hrest hothers true hp' (n + 1) (by omega)
      rwa [dispatches, if_pos ⟨rfl, rfl⟩]
    · rw [afterPadding_append hbytes hskip] at hp
      obtain ⟨packet, hnext⟩ := nextPacket_eq hbytes hfirst (packets.flatten ++ ptTraceEnd :: beyond)
      rw [← hp] at hnext
      rw [dispatches, if_neg hskip, List.flatten_cons, List.append_assoc]
      rcases goesOn_step trace hnext with ⟨r', hgo, hp'⟩ | ⟨d, hfault, hresult⟩
      · obtain ⟨d, hends, hpre, heq⟩ := ih hrest hothers _ hp' n (by omega)
        refine ⟨d, (iterate_of_inl hgo (n + 1)).trans hends, ?_, fun hne => ?_⟩
        · simp only [trail, hgo, List.map_cons, hp]
          exact (List.prefix_cons_inj _).mpr hpre
        · simp only [trail, hgo, List.map_cons, hp]
          exact congrArg _ (heq hne)
      · refine ⟨d, iterate_of_inr hfault (n + 1), ?_, fun hne => absurd hresult hne⟩
        simp only [trail, hfault, List.map_cons, List.map_nil, hp]
        exact (List.prefix_cons_inj _).mpr List.nil_prefix

lemma GoesOn.of_quiet (h : GoesOn (r.step trace) rest) (hquiet : Quiet trace r) :
    ∃ r', r.step trace = .inl r' ∧ r'.p = rest := by
  obtain hgo | ⟨d, hfault, hresult⟩ := h
  · exact hgo
  · exact absurd hresult (hquiet r d .start hfault)

lemma Quiet.result_ne {r : DecodeRun σ} (h : Quiet trace r) {n : ℕ} {d : Decoded σ}
    (hends : iterate (DecodeRun.step trace) n r = some (some d)) : d.result ≠ .pageFault := by
  refine iterate_elim (P := Quiet trace) (Q := fun o => ∀ d, o = some d → d.result ≠ .pageFault)
    (fun r hr => ?_) h hends d rfl
  cases hstep : r.step trace with
  | inl r' => exact hr.next hstep
  | inr o =>
    rintro d rfl
    exact hr r d .start hstep

/-- After a wide address the decoder goes on behind the end of the packet. -/
lemma step_wide {bytes : List UInt8} (hbytes : IsPacket bytes) (hwide : ¬ Narrow bytes)
    (hquiet : Quiet trace r) (hp : r.p = bytes ++ rest) (hrest : rest ≠ []) :
    ∃ r', r.step trace = .inl r' ∧ r'.p.length < rest.length := by
  cases hbytes with
  | @ip head payload hkind hlen =>
    obtain ⟨hle, -⟩ | ⟨hlarge, hlt⟩ := ipBytesLength_cases hlen
    · exact absurd (fun _ => hle) hwide
    · obtain ⟨packet, hnext⟩ := nextPacket_ip hkind (payload ++ rest)
      rw [← List.cons_append, ← hp] at hnext
      obtain ⟨r', hgo, hp'⟩ := (goesOn_step trace hnext).of_quiet trace hquiet
      have hne : head >>> 5 ≠ 0 := fun hzero => hlarge (by rw [hzero]; decide)
      have hpos := List.length_pos_iff.mpr hrest
      refine ⟨r', hgo, ?_⟩
      rw [hp', hp, List.cons_append, afterIp, if_neg hne, List.length_drop, List.length_append]
      omega
  | pad => exact absurd (fun h => absurd h (by decide)) hwide
  | @tnt8 byte h0 h2 heven =>
    refine absurd (fun hkind => ?_) hwide
    have hand : byte &&& 0x01 = (byte &&& 0x1F) &&& 0x01 := by
      rw [UInt8.and_assoc]
      rfl
    simp only [ipKinds, List.mem_cons, List.not_mem_nil, or_false] at hkind
    rw [heven] at hand
    rcases hkind with hkind | hkind | hkind | hkind <;> rw [hkind] at hand <;> cases hand
  | mode => exact absurd (fun h => absurd h (by decide)) hwide
  | extended => exact absurd (fun h => absurd h (by decide)) hwide

lemma dispatches_false_cons (tail : List UInt8) (packets : List (List UInt8)) :
    ∃ others, dispatches tail false packets = (packets.flatten ++ tail) :: others := by
  cases packets with
  | nil => exact ⟨[], rfl⟩
  | cons bytes packets => exact ⟨_, if_neg (by simp)⟩

lemma trail_ne_dispatches (beyond : List UInt8) (packets : List (List UInt8))
    (hpackets : ∀ bytes ∈ packets, IsPacket bytes) (hwide : ∃ bytes ∈ packets, ¬ Narrow bytes)
    (inPad : Bool) {r : DecodeRun σ} (hquiet : Quiet trace r)
    (hp : r.p = afterPadding inPad (packets.flatten ++ ptTraceEnd :: beyond)) {n : ℕ}
    (hn : packets.length < n) :
    (trail (DecodeRun.step trace) n r).map DecodeRun.p ≠
      dispatches (ptTraceEnd :: beyond) inPad packets := by
  obtain ⟨n, rfl⟩ : ∃ k, n = k + 1 := ⟨n - 1, by omega⟩
  induction packets generalizing inPad r n with
  | nil => simp at hwide
  | cons bytes packets ih =>
    rw [List.length_cons] at hn
    obtain ⟨n, rfl⟩ : ∃ k, n = k + 1 := ⟨n - 1, by omega⟩
    obtain ⟨hbytes, hrest⟩ := List.forall_mem_cons.mp hpackets
    simp only [List.mem_cons, exists_eq_or_imp] at hwide
    rw [List.flatten_cons, List.append_assoc] at hp
    by_cases hskip : inPad = true ∧ bytes = [0x00]
    · obtain ⟨rfl, rfl⟩ := hskip
      have hothers := hwide.resolve_left (not_not.mpr fun h => absurd h (by decide))
      rw [dispatches, if_pos ⟨rfl, rfl⟩]
      exact ih hrest hothers true hquiet hp (n + 1) (by omega)
    · rw [afterPadding_append hbytes hskip] at hp
      rw [dispatches, if_neg hskip]
      by_cases hfirst : Narrow bytes
      · obtain ⟨packet, hnext⟩ := nextPacket_eq hbytes hfirst (packets.flatten ++ ptTraceEnd :: beyond)
        rw [← hp] at hnext
        obtain ⟨r', hgo, hp'⟩ := (goesOn_step trace hnext).of_quiet trace hquiet
        simp only [trail, hgo, List.map_cons]
        intro heq
        exact ih hrest (hwide.resolve_left (not_not.mpr hfirst)) _ (hquiet.next hgo) hp' n
          (by omega) (List.cons.inj heq).2
      · obtain ⟨r', hgo, hlt⟩ := step_wide trace hbytes hfirst hquiet hp (by simp)
        have hpad : decide (bytes = [0x00]) = false :=
          decide_eq_false fun h => hfirst (by rw [h]; exact fun h => absurd h (by decide))
        obtain ⟨others, hothers⟩ := dispatches_false_cons (ptTraceEnd :: beyond) packets
        simp only [trail, hgo, List.map_cons, hpad, hothers]
        intro heq
        rw [(List.cons.inj (List.cons.inj heq).2).1] at hlt
        exact Nat.lt_irrefl _ hlt

end Decode

lemma tail_suffix_of_mem_dispatches {tail : List UInt8} {packets : List (List UInt8)} {inPad : Bool}
    {p : List UInt8} (h : p ∈ dispatches tail inPad packets) : tail <:+ p := by
  induction packets generalizing inPad with
  | nil =>
    rw [dispatches, List.mem_singleton] at h
    subst h
    exact List.suffix_rfl
  | cons bytes packets ih =>
    rw [dispatches] at h
    split at h
    · exact ih h
    · rcases List.mem_cons.mp h with rfl | h
      · exact List.suffix_append _ _
      · exact ih h

lemma length_le_length_flatten {packets : List (List UInt8)}
    (h : ∀ bytes ∈ packets, IsPacket bytes) : packets.length ≤ packets.flatten.length := by
  induction packets with
  | nil => rfl
  | cons bytes packets ih =>
    have hrest := ih fun bytes' hmem => h bytes' (List.mem_cons_of_mem _ hmem)
    have hpos : 0 < bytes.length := by
      cases h bytes List.mem_cons_self <;> exact Nat.succ_pos _
    rw [List.length_cons, List.flatten_cons, List.length_append]
    omega

/-- The state of a virtual CPU that has traced the packets into the first region. -/
def traced (packets : List (List UInt8)) (output : UInt64) : VcpuVmxPt :=
  { (vmxPtSetup ⟨true, 2⟩ (some 0x1000)).get rfl with
    outputMaskPtrs := output
    topaMain := fun i => packets.flatten.getD i 0x2D }

def shortPackets : List (List UInt8) := [psb, [0x00], [0x00], [0x99, 0x01], [0x2D, 0x00, 0x10], [0x06]]

def shortTrace : VcpuVmxPt := traced shortPackets 0x180000007f

lemma take_ptMmap (v : VcpuVmxPt) {r : ℕ} (h : r ≤ mmapSize) :
    (ptMmap v).take r = (List.range r).map (mmapByte v) := by
  rw [ptMmap, ← List.map_take, List.take_range, Nat.min_eq_left h]

def widePackets : List (List UInt8) := [psb, [0xCD, 0x00, 0x10, 0x00, 0x00, 0x00, 0x00, 0x00, 0x00]]

def wideTrace : VcpuVmxPt := traced widePackets 0x190000007f

end Nyx.Pt
