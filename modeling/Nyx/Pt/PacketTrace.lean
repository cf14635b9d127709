import Nyx.Pt.Decoder

/-!
# What a trace says

The reading of a trace as a list of packets, each of which changes what is known about the traced
program and what the disassembler is asked for. `decode_buffer` is compared with this reading.
-/

namespace Nyx.Pt

open DecodeRun (advance)

/-- The address in a packet: left out, or `len` groups of two bytes that replace the lower part of
the last address. -/
inductive IpField where
  | suppressed
  | update (len payload : UInt64)
  deriving DecidableEq

namespace IpField

def last (u : IpField) (ip : UInt64) : UInt64 :=
  match u with
  | suppressed => ip
  | update len payload => ipValue len payload ip

def value (u : IpField) (ip : UInt64) : UInt64 :=
  match u with
  | suppressed => 0
  | update len payload => ipValue len payload ip

end IpField

inductive Packet where
  | mode (m : Option DisassemblerMode)
  | tnt (data : UInt8)
  | tip (u : IpField)
  | pge (u : IpField)
  | pgd (u : IpField)
  | fup (u : IpField)
  | overflow
  /-- Packets that say nothing about the program's way. -/
  | silent
  deriving DecidableEq

inductive NextPacket where
  | malformed
  | finish
  | packet (packet : Packet) (rest : List UInt8)
  deriving DecidableEq

def ipField : List UInt8 → IpField
  | [] => .suppressed
  | head :: p =>
    if head >>> 5 = 0 then .suppressed else .update (head >>> 5).toUInt64 (readU64 p)

def afterIp : List UInt8 → List UInt8
  | [] => []
  | head :: p => if head >>> 5 = 0 then p else p.drop ((head >>> 5).toNat * 2)

def modeOf (byte : UInt8) : Option DisassemblerMode :=
  if byte >>> 5 = 0 then
    if byte &&& 3 = 0 then some .mode16
    else if byte &&& 3 = 1 then some .mode64
    else if byte &&& 3 = 2 then some .mode32
    else none
  else none

def extendedPacket (p : List UInt8) (byte : UInt8) : NextPacket :=
  if byte = 0x03 then .packet .silent (p.drop 4)
  else if byte = 0x23 then .packet .silent (p.drop 2)
  else if byte = 0x43 then .packet .silent (p.drop 8)
  else if byte = 0x82 then .packet .silent (p.drop 16)
  else if byte = 0xC8 then .packet .silent (p.drop 7)
  else if byte = 0xF3 then .packet .overflow (p.drop 2)
  else .malformed

def nextPacket (p : List UInt8) : NextPacket :=
  match p with
  | [] => .malformed
  | byte :: rest =>
    match dispatchTableLevel1 byte with
    | .pad => .packet .silent (rest.dropWhile (· = 0))
    | .tnt8 => .packet (.tnt byte) rest
    | .tip => .packet (.tip (ipField p)) (afterIp p)
    | .tipPge => .packet (.pge (ipField p)) (afterIp p)
    | .tipPgd => .packet (.pgd (ipField p)) (afterIp p)
    | .tipFup => .packet (.fup (ipField p)) (afterIp p)
    | .mode =>
      match rest with
      | [] => .malformed
      | next :: rest => .packet (.mode (modeOf next)) rest
    | .level2 =>
      match rest with
      | [] => .malformed
      | next :: _ => extendedPacket p next
    | .exit => .finish
    | .error => .malformed

/-- The packets up to the end mark, and whether it is reached. -/
def packets : ℕ → List UInt8 → List Packet × Bool
  | 0, _ => ([], false)
  | n + 1, p =>
    match nextPacket p with
    | .malformed => ([], false)
    | .finish => ([], true)
    | .packet packet rest => (packet :: (packets n rest).1, (packets n rest).2)

def TraceBuffer.packets (b : TraceBuffer) : List Packet × Bool :=
  match b.start with
  | none => ([], true)
  | some p => Pt.packets (p.length + 1) p

section Reading

variable {σ : Type} (trace : Tracer σ)

/-- What the packets so far say, without the decoder's encoding. -/
structure Flow (σ : Type) where
  dis : σ
  mode : DisassemblerMode
  /-- The branches that no request has used. -/
  queue : List Bool
  ip : UInt64
  /-- Where the program is, if it is traced. -/
  origin : Option UInt64
  /-- The source of an event whose packet is still to come. -/
  pending : Option UInt64
  resync : Bool
  overflowed : Bool
  fault : Bool
  requests : List Request

namespace Flow

def begin (dis : σ) (mode : DisassemblerMode) : Flow σ :=
  ⟨dis, mode, [], 0, none, none, false, false, false, []⟩

def ask (f : Flow σ) (start limit : UInt64) : Flow σ :=
  let request : Request := ⟨start, limit, f.queue, f.mode⟩
  let answer := trace f.dis request
  { f with
    dis := answer.state
    queue := f.queue.drop answer.consumed
    fault := f.fault || answer.missing.isSome
    requests := f.requests ++ [request] }

def toPending (f : Flow σ) : Flow σ :=
  match f.pending with
  | none => f
  | some src =>
    match f.origin with
    | none => { f with pending := none }
    | some start => ask trace { f with pending := none, origin := some src } start src

def tip (f : Flow σ) (u : IpField) : Flow σ :=
  ask trace { f with ip := u.last f.ip, origin := some (u.last f.ip) }
    (f.origin.getD (u.last f.ip)) 0

def pge (f : Flow σ) (u : IpField) : Flow σ :=
  { f with ip := u.last f.ip, origin := some (f.origin.getD (u.last f.ip)) }

def pgd (f : Flow σ) (u : IpField) : Flow σ :=
  match f.origin with
  | none => { f with ip := u.last f.ip }
  | some start => ask trace { f with ip := u.last f.ip, origin := none } start (u.last f.ip)

def fup (f : Flow σ) (u : IpField) : Flow σ :=
  if f.resync then
    { f with
      ip := u.last f.ip
      origin := some (u.value f.ip)
      resync := false
      pending := none }
  else { f with ip := u.last f.ip, pending := some (u.value f.ip) }

def apply (f : Flow σ) : Packet → Flow σ
  | .mode m => { f with mode := m.getD f.mode }
  | .tnt data => { f with queue := f.queue ++ branches data }
  | .tip u =>
    let f := f.toPending trace
    if f.fault then f else f.tip trace u
  | .pge u =>
    let f := toPending trace { f with resync := false }
    if f.fault then f else f.pge u
  | .pgd u =>
    let f := f.toPending trace
    if f.fault then f else f.pgd trace u
  | .fup u => f.fup u
  | .overflow =>
    { f with
      resync := true
      ip := 0
      origin := none
      overflowed := true }
  | .silent => f

/-- Nothing is read after a missing page. -/
def step (f : Flow σ) (packet : Packet) : Flow σ := if f.fault then f else f.apply trace packet

def read (f : Flow σ) (packets : List Packet) : Flow σ := packets.foldl (step trace) f

end Flow

/-! ### The decoder reads the trace -/

/-- The decoder is where the flow is. -/
structure Refines (r : DecodeRun σ) (f : Flow σ) : Prop where
  dis : r.self.disassemblerState = f.dis
  mode : r.self.mode = f.mode
  queue : r.self.tntCacheState.content = f.queue
  ip : r.self.lastTip = f.ip
  origin : (r.self.decoderState.state = .traceDisabled ∧ f.origin = none) ∨
    (r.self.decoderState.state = .traceEnabledWithLastIP ∧
      f.origin = some r.self.decoderState.lastIp)
  pending : f.pending = if r.self.fupBindPending then some r.self.lastFupSrc else none
  resync : r.self.ovpState = f.resync
  overflowed : r.ptOverflowed = f.overflowed
  fault : r.self.pageFaultFound = f.fault
  requests : r.requests = f.requests

variable {r : DecodeRun σ} {f : Flow σ}

namespace Refines

lemma disasm (h : Refines r f) {start limit : UInt64}
    (hres : r.self.decoderStateResult = setDisasm start limit) :
    Refines (r.disasm trace) (f.ask trace start limit) := by
  have hvalid : r.self.decoderStateResult.valid = true := by rw [hres]; rfl
  have hrequest : (⟨r.self.decoderStateResult.start, r.self.decoderStateResult.endAddr,
      r.self.tntCacheState.content, r.self.mode⟩ : Request) = ⟨start, limit, f.queue, f.mode⟩ := by
    rw [hres, h.queue, h.mode]
    rfl
  simp only [DecodeRun.disasm, if_pos hvalid, hrequest, h.dis, Flow.ask]
  exact { h with
    dis := rfl
    queue := by simp only [TntCache.content_adjustTntCache_drop, h.queue]
    fault := by simp only [h.fault]
    requests := by simp only [h.requests] }

lemma disasm_of_invalid (h : Refines r f) (hres : r.self.decoderStateResult.valid = false) :
    Refines (r.disasm trace) f := by
  have heq : r.disasm trace = r := by simp [DecodeRun.disasm, hres]
  rw [heq]
  exact h

lemma bindFup (h : Refines r f) : Refines (r.bindFup trace) (f.toPending trace) := by
  have hpending := h.pending
  unfold DecodeRun.bindFup Flow.toPending
  cases hbind : r.self.fupBindPending with
  | false =>
    rw [hbind, if_neg (by decide)] at hpending
    rw [hpending]
    exact h
  | true =>
    rw [hbind, if_pos rfl] at hpending
    rw [if_pos rfl, hpending]
    rcases h.origin with ⟨hstate, horigin⟩ | ⟨hstate, horigin⟩
    · simp only [horigin, advance, DecoderStateMachine.handleFup, hstate]
      apply disasm_of_invalid trace _ rfl
      exact { h with origin := .inl ⟨hstate, rfl⟩, pending := rfl }
    · simp only [horigin, advance, DecoderStateMachine.handleFup, hstate]
      apply disasm trace _ rfl
      exact { h with origin := .inr ⟨rfl, rfl⟩, pending := rfl }

end Refines

lemma getIpVal_eq (p : List UInt8) (ip : UInt64) :
    getIpVal p ip = ((ipField p).value ip, (ipField p).last ip, afterIp p) := by
  cases p with
  | nil => rfl
  | cons head p =>
    by_cases hlen : head >>> 5 = 0
    · simp [getIpVal, ipField, afterIp, hlen, IpField.value, IpField.last]
    · simp [getIpVal, ipField, afterIp, hlen, IpField.value, IpField.last]

namespace Refines

lemma readTip (h : Refines r f) : Refines r.readTip { f with ip := (ipField r.p).last f.ip } := by
  simp only [DecodeRun.readTip, getIpVal_eq, h.ip]
  exact { h with ip := rfl }

lemma p_disasm : (r.disasm trace).p = r.p := by
  unfold DecodeRun.disasm
  dsimp only
  split <;> rfl

lemma p_bindFup : (r.bindFup trace).p = r.p := by
  unfold DecodeRun.bindFup
  split
  · exact p_disasm trace
  · rfl

variable (h : Refines r f)
include h

lemma tip :
    Refines ((r.advance (·.handleTip r.self.lastTip)).disasm trace)
      (Flow.ask trace { f with origin := some f.ip } (f.origin.getD f.ip) 0) := by
  rcases h.origin with ⟨hstate, horigin⟩ | ⟨hstate, horigin⟩
  · simp only [horigin, advance, DecoderStateMachine.handleTip, hstate]
    apply disasm trace _ (by rw [h.ip]; rfl)
    exact { h with origin := .inr ⟨rfl, by rw [h.ip]⟩ }
  · simp only [horigin, advance, DecoderStateMachine.handleTip, hstate]
    apply disasm trace _ rfl
    exact { h with origin := .inr ⟨rfl, by rw [h.ip]⟩ }

lemma pge :
    Refines (r.advance (·.handlePge r.self.lastTip))
      { f with origin := some (f.origin.getD f.ip) } := by
  rcases h.origin with ⟨hstate, horigin⟩ | ⟨hstate, horigin⟩
  · simp only [horigin, advance, DecoderStateMachine.handlePge, hstate]
    exact { h with origin := .inr ⟨rfl, by simp [h.ip]⟩ }
  · simp only [horigin, advance, DecoderStateMachine.handlePge, hstate]
    exact { h with origin := .inr ⟨hstate, rfl⟩ }

lemma pgd :
    Refines ((r.advance (·.handlePgd r.self.lastTip)).disasm trace)
      (match f.origin with
        | none => f
        | some start => Flow.ask trace { f with origin := none } start f.ip) := by
  rcases h.origin with ⟨hstate, horigin⟩ | ⟨hstate, horigin⟩
  · simp only [horigin, advance, DecoderStateMachine.handlePgd, hstate]
    apply disasm_of_invalid trace _ rfl
    exact { h with origin := .inl ⟨hstate, horigin⟩ }
  · simp only [horigin, advance, DecoderStateMachine.handlePgd, hstate]
    apply disasm trace _ (by rw [h.ip])
    exact { h with origin := .inl ⟨rfl, rfl⟩ }

lemma tipFupHandler : Refines r.tipFupHandler (f.apply trace (.fup (ipField r.p))) := by
  simp only [DecodeRun.tipFupHandler, getIpVal_eq, h.ip, h.resync, Flow.apply, Flow.fup]
  split
  · exact { h with ip := rfl, origin := .inr ⟨rfl, rfl⟩, pending := rfl, resync := rfl }
  · exact { h with ip := rfl, pending := rfl, resync := rfl }

end Refines

lemma shortTnt_of_dispatch {byte : UInt8} (h : dispatchTableLevel1 byte = .tnt8) :
    ShortTnt byte := by
  have hcases : byte ≠ 0x00 ∧ byte ≠ 0x02 ∧ byte &&& 0x01 = 0x00 := by
    unfold dispatchTableLevel1 at h
    split_ifs at h with h0 h2 heven
    exact ⟨h0, h2, heven⟩
  obtain ⟨hne0, hne2, heven⟩ := hcases
  have hmod : byte.toNat % 2 = 0 := by
    have hand := congrArg UInt8.toNat heven
    rw [← Nat.and_one_is_mod]
    exact hand
  have h0 : byte.toNat ≠ 0 := fun heq => hne0 (UInt8.toNat_inj.mp heq)
  have h2 : byte.toNat ≠ 2 := fun heq => hne2 (UInt8.toNat_inj.mp heq)
  exact ⟨hmod, by omega⟩

lemma length_drop_lt {p : List UInt8} (hp : 0 < p.length) {n : ℕ} (hn : 0 < n) :
    (p.drop n).length < p.length := by
  rw [List.length_drop]
  omega

lemma length_afterIp (head : UInt8) (p : List UInt8) :
    (afterIp (head :: p)).length < (head :: p).length := by
  by_cases hlen : head >>> 5 = 0
  · simp [afterIp, hlen]
  · simp only [afterIp, if_neg hlen, List.length_drop, List.length_cons]
    omega

lemma length_extendedPacket {p rest : List UInt8} {byte : UInt8} {packet : Packet}
    (hp : 0 < p.length) (h : extendedPacket p byte = .packet packet rest) :
    rest.length < p.length := by
  unfold extendedPacket at h
  split_ifs at h
  all_goals
    cases h
    apply length_drop_lt hp
    decide

lemma length_nextPacket {p rest : List UInt8} {packet : Packet}
    (h : nextPacket p = .packet packet rest) : rest.length < p.length := by
  cases p with
  | nil => cases h
  | cons byte p =>
    simp only [nextPacket] at h
    split at h
    · cases h
      exact Nat.lt_succ_of_le (List.dropWhile_suffix _).length_le
    · cases h
      exact Nat.lt_succ_self _
    · cases h
      exact length_afterIp byte p
    · cases h
      exact length_afterIp byte p
    · cases h
      exact length_afterIp byte p
    · cases h
      exact length_afterIp byte p
    · split at h
      · cases h
      · cases h
        simp only [List.length_cons]
        omega
    · split at h
      · cases h
      · exact length_extendedPacket (Nat.succ_pos _) h
    · cases h
    · cases h

/-- A turn of the loop that reads what `f` says, up to `rest`. -/
def Turn (turn : DecodeRun σ ⊕ Option (Decoded σ)) (f : Flow σ) (rest : List UInt8) : Prop :=
  if f.fault then ∃ self, turn = .inr (some ⟨.pageFault, f.requests, ptDecoderFlush self⟩)
  else ∃ r, turn = .inl r ∧ r.p = rest ∧ Refines r f

namespace Refines

variable {rest : List UInt8}

section

variable (h : Refines r f)
include h

lemma turn (hfault : f.fault = false) (hp : r.p = rest) : Turn (.inl r) f rest := by
  rw [Turn, if_neg (by simp [hfault])]
  exact ⟨r, rfl, hp, h⟩

lemma afterTip (hp : f.fault = false → r.p = rest) : Turn r.afterTip f rest := by
  unfold DecodeRun.afterTip Turn
  rw [h.fault, h.requests]
  split
  · exact ⟨r.self, rfl⟩
  next hfault => exact ⟨r, rfl, hp (by simpa using hfault), h⟩

/-- A handler that goes on unless the pending event has missed a page. -/
lemma afterTip_ite {r' : DecodeRun σ} {f' : Flow σ} (h' : Refines r' f') (hp : r'.p = rest) :
    Turn (if f.fault then r else r').afterTip (if f.fault then f else f') rest := by
  cases hfault : f.fault with
  | true => exact h.afterTip fun hnone => absurd (hfault.symm.trans hnone) (by decide)
  | false => exact h'.afterTip fun _ => hp

lemma tipHandler :
    Turn (r.tipHandler trace).afterTip (f.apply trace (.tip (ipField r.p))) (afterIp r.p) := by
  have hbind := h.bindFup trace
  have hread := hbind.readTip.tip trace
  rw [p_bindFup] at hread
  simp only [Flow.apply, DecodeRun.tipHandler, hbind.fault]
  apply hbind.afterTip_ite hread
  simp only [p_disasm, advance, DecodeRun.readTip, getIpVal_eq, p_bindFup]

lemma tipPgdHandler :
    Turn (r.tipPgdHandler trace).afterTip (f.apply trace (.pgd (ipField r.p))) (afterIp r.p) := by
  have hbind := h.bindFup trace
  have hread := hbind.readTip.pgd trace
  rw [p_bindFup] at hread
  simp only [Flow.apply, DecodeRun.tipPgdHandler, hbind.fault]
  apply hbind.afterTip_ite hread
  simp only [p_disasm, advance, DecodeRun.readTip, getIpVal_eq, p_bindFup]

lemma tipPgeHandler :
    Turn (r.tipPgeHandler trace).afterTip (f.apply trace (.pge (ipField r.p))) (afterIp r.p) := by
  have hsync : Refines { r with self := { r.self with ovpState := false } }
      { f with resync := false } := { h with resync := rfl }
  have hbind := hsync.bindFup trace
  have hread := hbind.readTip.pge
  rw [p_bindFup] at hread
  simp only [Flow.apply, DecodeRun.tipPgeHandler, hbind.fault]
  apply hbind.afterTip_ite hread
  simp only [advance, DecodeRun.readTip, getIpVal_eq, p_bindFup]

end

lemma p_tipFupHandler : r.tipFupHandler.p = afterIp r.p := by
  simp only [DecodeRun.tipFupHandler, getIpVal_eq]
  split <;> rfl

variable (h : Refines r f)
include h

lemma modeHandler (byte : UInt8) :
    Refines (r.modeHandler byte) (f.apply trace (.mode (modeOf byte))) := by
  have hmode : (r.modeHandler byte).self.mode = (modeOf byte).getD f.mode := by
    simp only [DecodeRun.modeHandler, modeOf, h.mode]
    split_ifs <;> rfl
  exact { h with mode := hmode }

lemma overflowHandler : Refines r.overflowHandler (f.apply trace .overflow) :=
  { h with ip := rfl, origin := .inl ⟨rfl, rfl⟩, resync := rfl, overflowed := rfl }

lemma moveTo (p : List UInt8) : Refines { r with p := p } f := { h with }

lemma appendTnt {byte : UInt8} (hbyte : ShortTnt byte)
    (hroom : f.queue.length ≤ 2 ^ 29 - 64) (p : List UInt8) :
    Refines { r with
      p := p
      self := { r.self with tntCacheState := r.self.tntCacheState.appendTntCache byte } }
      (f.apply trace (.tnt byte)) := by
  have hlength : r.self.tntCacheState.blTnt ≤ 2 ^ 29 - 64 := by
    rw [← TntCache.length_content, h.queue]
    exact hroom
  have hqueue := TntCache.content_appendTntCache hbyte hlength
  rw [h.queue] at hqueue
  exact { h with queue := hqueue }

lemma level2 (hfault : f.fault = false) {byte : UInt8} {packet : Packet}
    (hnext : extendedPacket r.p byte = .packet packet rest) :
    ∃ r', r.level2 byte = some r' ∧ Turn (.inl r') (f.apply trace packet) rest := by
  unfold extendedPacket at hnext
  unfold DecodeRun.level2
  split_ifs at hnext ⊢
  · cases hnext
    exact ⟨_, rfl, (h.moveTo _).turn hfault rfl⟩
  · cases hnext
    exact ⟨_, rfl, (h.moveTo _).turn hfault rfl⟩
  · cases hnext
    exact ⟨_, rfl, (h.moveTo _).turn hfault rfl⟩
  · cases hnext
    exact ⟨_, rfl, (h.moveTo _).turn hfault rfl⟩
  · cases hnext
    exact ⟨_, rfl, (h.moveTo _).turn hfault rfl⟩
  · cases hnext
    exact ⟨_, rfl, ((h.moveTo _).overflowHandler trace).turn hfault rfl⟩

lemma step (hfault : f.fault = false) (hroom : f.queue.length ≤ 2 ^ 29 - 64)
    {packet : Packet} (hnext : nextPacket r.p = .packet packet rest) :
    Turn (r.step trace) (f.apply trace packet) rest := by
  unfold DecodeRun.step
  cases hp : r.p with
  | nil =>
    rw [hp] at hnext
    cases hnext
  | cons byte p =>
    rw [hp] at hnext
    simp only [nextPacket] at hnext
    cases hlabel : dispatchTableLevel1 byte with
    | pad =>
      simp only [hlabel] at hnext ⊢
      cases hnext
      exact (h.moveTo _).turn hfault rfl
    | tnt8 =>
      simp only [hlabel] at hnext ⊢
      cases hnext
      exact (h.appendTnt trace (shortTnt_of_dispatch hlabel) hroom _).turn hfault rfl
    | tip =>
      simp only [hlabel] at hnext ⊢
      cases hnext
      rw [← hp]
      exact h.tipHandler trace
    | tipPge =>
      simp only [hlabel] at hnext ⊢
      cases hnext
      rw [← hp]
      exact h.tipPgeHandler trace
    | tipPgd =>
      simp only [hlabel] at hnext ⊢
      cases hnext
      rw [← hp]
      exact h.tipPgdHandler trace
    | tipFup =>
      simp only [hlabel] at hnext ⊢
      cases hnext
      rw [← hp]
      have hfup : (f.apply trace (.fup (ipField r.p))).fault = false := by
        simp only [Flow.apply, Flow.fup]
        split <;> exact hfault
      exact (h.tipFupHandler trace).turn hfup p_tipFupHandler
    | mode =>
      simp only [hlabel] at hnext ⊢
      cases p with
      | nil => cases hnext
      | cons next p =>
        cases hnext
        exact ((h.moveTo _).modeHandler trace next).turn hfault rfl
    | level2 =>
      simp only [hlabel] at hnext ⊢
      cases p with
      | nil => cases hnext
      | cons next p =>
        rw [← hp] at hnext
        obtain ⟨r', hr', hturn⟩ := h.level2 trace hfault hnext
        simp only [hr']
        exact hturn
    | exit =>
      simp only [hlabel] at hnext
      cases hnext
    | error =>
      simp only [hlabel] at hnext
      cases hnext

end Refines

lemma level2_malformed {byte : UInt8} (h : extendedPacket r.p byte = .malformed) :
    r.level2 byte = none := by
  unfold extendedPacket at h
  unfold DecodeRun.level2
  split_ifs at h ⊢
  rfl

lemma step_malformed (h : nextPacket r.p = .malformed) : r.step trace = .inr none := by
  unfold DecodeRun.step
  cases hp : r.p with
  | nil => rfl
  | cons byte p =>
    rw [hp] at h
    simp only [nextPacket] at h
    cases hlabel : dispatchTableLevel1 byte with
    | error => simp only [hlabel]
    | mode =>
      simp only [hlabel] at h ⊢
      cases p with
      | nil => rfl
      | cons next p => cases h
    | level2 =>
      simp only [hlabel] at h ⊢
      cases p with
      | nil => rfl
      | cons next p =>
        rw [← hp] at h
        simp only [level2_malformed h]
    | _ =>
      simp only [hlabel] at h
      cases h

lemma step_finish (h : nextPacket r.p = .finish) : r.step trace = .inr (some r.exit) := by
  unfold DecodeRun.step
  cases hp : r.p with
  | nil =>
    rw [hp] at h
    cases h
  | cons byte p =>
    rw [hp] at h
    simp only [nextPacket] at h
    cases hlabel : dispatchTableLevel1 byte with
    | exit => simp only [hlabel]
    | mode =>
      simp only [hlabel] at h
      split at h <;> cases h
    | level2 =>
      simp only [hlabel, extendedPacket] at h
      split at h
      · cases h
      · split_ifs at h
    | _ =>
      simp only [hlabel] at h
      cases h

lemma pageFaultFound_step {r r' : DecodeRun σ} (hfault : r.self.pageFaultFound = false)
    (hstep : r.step trace = .inl r') : r'.self.pageFaultFound = false := by
  have hafter : ∀ r₁ : DecodeRun σ, r₁.afterTip = .inl r' → r'.self.pageFaultFound = false := by
    intro r₁ h
    unfold DecodeRun.afterTip at h
    split at h
    · cases h
    · rename_i hnone
      cases h
      simpa using hnone
  unfold DecodeRun.step at hstep
  split at hstep
  · cases hstep
  · split at hstep
    · cases hstep
      exact hfault
    · cases hstep
      exact hfault
    · exact hafter _ hstep
    · exact hafter _ hstep
    · exact hafter _ hstep
    · cases hstep
      unfold DecodeRun.tipFupHandler
      dsimp only
      split <;> exact hfault
    · split at hstep
      · cases hstep
      · cases hstep
        exact hfault
    · split at hstep
      · cases hstep
      · split at hstep
        · rename_i hlevel
          cases hstep
          unfold DecodeRun.level2 at hlevel
          split_ifs at hlevel
          all_goals
            cases hlevel
            exact hfault
        · cases hstep
    · cases hstep
    · cases hstep

/-- The packet state is the one after `pt_decoder_flush`. -/
def Decoder.Flushed (d : Decoder σ) : Prop := ptDecoderFlush d = d

lemma flushed_flush (d : Decoder σ) : (ptDecoderFlush d).Flushed := rfl

namespace Flow

def Spent (f : Flow σ) : Prop := f.fault = true ∨ f.queue = []

def result (f : Flow σ) : DecoderResult :=
  if f.fault then .pageFault
  else if f.queue = [] then (if f.overflowed then .successPtOverflow else .success)
  else .error

end Flow

/-- The decoder has done what the flow says. -/
structure Reads (f : Flow σ) (decoded : Decoded σ) : Prop where
  result : decoded.result = f.result
  requests : decoded.requests = f.requests
  flushed : decoded.self.Flushed ↔ f.Spent

lemma Refines.exit (h : Refines r f) (hfault : f.fault = false) : Reads f r.exit := by
  have hlength : r.self.tntCacheState.blTnt = f.queue.length := by
    rw [← TntCache.length_content, h.queue]
  unfold DecodeRun.exit
  by_cases hempty : f.queue = []
  · rw [hempty] at hlength
    rw [if_neg (by simpa using hlength)]
    constructor
    · simp [Flow.result, hfault, hempty, h.overflowed]
    · exact h.requests
    · exact iff_of_true (flushed_flush _) (.inr hempty)
  · have hne : r.self.tntCacheState.blTnt ≠ 0 := by
      rw [hlength]
      simpa using hempty
    rw [if_pos hne]
    constructor
    · simp [Flow.result, hfault, hempty]
    · exact h.requests
    · constructor
      · intro hflushed
        have htnt := congrArg (fun d : Decoder σ => d.tntCacheState.blTnt) hflushed
        exact absurd htnt.symm hne
      · rintro (hf | hq)
        · simp [hfault] at hf
        · exact absurd hq hempty

namespace Flow

lemma queue_ask_le (f : Flow σ) (start limit : UInt64) :
    (f.ask trace start limit).queue.length ≤ f.queue.length := by
  simp [ask]

lemma queue_toPending_le (f : Flow σ) : (f.toPending trace).queue.length ≤ f.queue.length := by
  unfold toPending
  split
  · exact Nat.le_refl _
  · split
    · exact Nat.le_refl _
    · exact queue_ask_le trace _ _ _

lemma queue_apply_le (f : Flow σ) {packet : Packet} (hpacket : ∀ data, packet ≠ .tnt data) :
    (f.apply trace packet).queue.length ≤ f.queue.length := by
  have hpending := f.queue_toPending_le trace
  cases packet with
  | tnt data => exact absurd rfl (hpacket data)
  | mode m => exact Nat.le_refl _
  | tip u =>
    simp only [apply]
    split
    · exact hpending
    · exact (queue_ask_le trace _ _ _).trans hpending
  | pge u =>
    simp only [apply]
    split
    · exact queue_toPending_le trace _
    · exact queue_toPending_le trace { f with resync := false }
  | pgd u =>
    simp only [apply, pgd]
    split
    · exact hpending
    · split
      · exact hpending
      · exact (queue_ask_le trace _ _ _).trans hpending
  | fup u =>
    simp only [apply, fup]
    split <;> exact Nat.le_refl _
  | overflow => exact Nat.le_refl _
  | silent => exact Nat.le_refl _

end Flow

lemma shortTnt_of_nextPacket {p rest : List UInt8} {data : UInt8}
    (h : nextPacket p = .packet (.tnt data) rest) : ShortTnt data := by
  cases p with
  | nil => cases h
  | cons byte p =>
    simp only [nextPacket] at h
    cases hlabel : dispatchTableLevel1 byte with
    | tnt8 =>
      simp only [hlabel] at h
      cases h
      exact shortTnt_of_dispatch hlabel
    | mode =>
      simp only [hlabel] at h
      split at h <;> cases h
    | level2 =>
      simp only [hlabel, extendedPacket] at h
      split at h
      · cases h
      · split_ifs at h <;> cases h
    | _ =>
      simp only [hlabel] at h
      cases h

lemma queue_apply_le {p rest : List UInt8} {packet : Packet}
    (h : nextPacket p = .packet packet rest) (f : Flow σ) :
    (f.apply trace packet).queue.length ≤ f.queue.length + 6 := by
  by_cases htnt : ∃ data, packet = .tnt data
  · obtain ⟨data, rfl⟩ := htnt
    have hbits := (shortTntBits_spec (shortTnt_of_nextPacket h)).2.1
    simp only [Flow.apply, List.length_append, branches, List.length_map, List.length_range]
    omega
  · have hpacket : ∀ data, packet ≠ .tnt data := fun data hdata => htnt ⟨data, hdata⟩
    exact (f.queue_apply_le trace hpacket).trans (Nat.le_add_right _ _)

namespace Flow

lemma read_of_fault (hfault : f.fault) (packets : List Packet) : f.read trace packets = f := by
  induction packets with
  | nil => rfl
  | cons packet packets ih =>
    have hstep : f.step trace packet = f := if_pos hfault
    rw [read, List.foldl_cons, hstep]
    exact ih

lemma read_cons (hfault : f.fault = false) (packet : Packet) (packets : List Packet) :
    f.read trace (packet :: packets) = (f.apply trace packet).read trace packets := by
  have hstep : f.step trace packet = f.apply trace packet := if_neg (by simp [hfault])
  rw [read, List.foldl_cons, hstep]
  rfl

end Flow

/-- What the loop leaves when the packets end, or end in something that is none. -/
def Outcome (f : Flow σ) (ended : Bool) (o : Option (Decoded σ)) : Prop :=
  if f.fault || ended then ∃ decoded, o = some decoded ∧ Reads f decoded else o = none

lemma Refines.iterate {n : ℕ} (h : Refines r f) (hfault : f.fault = false)
    (hroom : f.queue.length + 6 * r.p.length ≤ 2 ^ 29 - 64) (hn : r.p.length < n) :
    ∃ o, iterate (DecodeRun.step trace) n r = some o ∧
      Outcome (f.read trace (packets n r.p).1) (packets n r.p).2 o := by
  induction n generalizing r f with
  | zero => omega
  | succ n ih =>
    unfold packets
    cases hnext : nextPacket r.p with
    | malformed =>
      refine ⟨none, iterate_of_inr (step_malformed trace hnext) n, ?_⟩
      simp [Outcome, Flow.read, hfault]
    | finish =>
      refine ⟨some r.exit, iterate_of_inr (step_finish trace hnext) n, ?_⟩
      rw [Outcome, if_pos (by simp)]
      exact ⟨r.exit, rfl, h.exit hfault⟩
    | packet packet rest =>
      have hturn := h.step trace hfault (by omega) hnext
      rw [Flow.read_cons trace hfault]
      unfold Turn at hturn
      cases hmissing : (f.apply trace packet).fault with
      | true =>
        rw [if_pos hmissing] at hturn
        obtain ⟨self, hstep⟩ := hturn
        refine ⟨_, iterate_of_inr hstep n, ?_⟩
        rw [Flow.read_of_fault trace hmissing, Outcome, if_pos (by simp [hmissing])]
        refine ⟨_, rfl, ?_, rfl, ?_⟩
        · simp [Flow.result, hmissing]
        · exact iff_of_true (flushed_flush self) (.inl hmissing)
      | false =>
        rw [if_neg (by simp [hmissing])] at hturn
        obtain ⟨r', hstep, hp, hrefines⟩ := hturn
        have hlength := length_nextPacket hnext
        have hqueue := queue_apply_le trace hnext f
        obtain ⟨o, ho, houtcome⟩ := ih hrefines hmissing (by rw [hp]; omega) (by rw [hp]; omega)
        rw [hp] at houtcome
        exact ⟨o, (iterate_of_inl hstep n).trans ho, houtcome⟩

/-- What the packets of a buffer say if nothing else is known. -/
def TraceBuffer.reading (b : TraceBuffer) (dis : σ) (mode : DisassemblerMode) : Flow σ :=
  (Flow.begin dis mode).read trace b.packets.1

lemma refines_begin {d : Decoder σ} (h : d.Flushed) (p : List UInt8) :
    Refines ⟨p, { d with pageFaultFound := false }, false, []⟩
      (Flow.begin d.disassemblerState d.mode) := by
  have hempty : d.tntCacheState.content = [] := by
    have htnt := congrArg (fun d : Decoder σ => d.tntCacheState.blTnt) h
    rw [← List.length_eq_zero_iff, TntCache.length_content]
    exact htnt.symm
  have hip := congrArg Decoder.lastTip h
  have hstate := congrArg (fun d : Decoder σ => d.decoderState.state) h
  have hpending := congrArg Decoder.fupBindPending h
  have hresync := congrArg Decoder.ovpState h
  constructor
  · rfl
  · rfl
  · exact hempty
  · exact hip.symm
  · exact .inl ⟨hstate.symm, rfl⟩
  · rw [show d.fupBindPending = false from hpending.symm]
    rfl
  · exact hresync.symm
  · rfl
  · rfl
  · rfl

lemma length_memmemPsb {bytes p : List UInt8} (h : memmemPsb bytes = some p) :
    p.length ≤ bytes.length := by
  induction bytes with
  | nil => cases h
  | cons byte bytes ih =>
    unfold memmemPsb at h
    split at h
    · cases h
      exact Nat.le_refl _
    · exact (ih h).trans (Nat.le_succ _)

/-- `decode_buffer` returns what the packets of the buffer say, from any state in which nothing of an
earlier buffer is left. -/
theorem decodeBuffer_reads {d : Decoder σ} (h : d.Flushed) (b : TraceBuffer) :
    Outcome (b.reading trace d.disassemblerState d.mode) b.packets.2 (decodeBuffer trace d b) := by
  unfold TraceBuffer.reading TraceBuffer.packets decodeBuffer
  cases hstart : b.start with
  | none =>
    exact ⟨_, rfl, (refines_begin h []).exit rfl⟩
  | some p =>
    have hlength : p.length ≤ topaSize + 1 := by
      obtain ⟨q, hq, rfl⟩ := Option.map_eq_some_iff.mp hstart
      have hle := (length_memmemPsb hq).trans b.length_le
      rw [List.length_append, List.length_singleton]
      omega
    have hroom : 0 + 6 * p.length ≤ 2 ^ 29 - 64 := by
      simp only [topaSize] at hlength
      omega
    obtain ⟨o, ho, houtcome⟩ := (refines_begin h p).iterate trace rfl hroom (Nat.lt_succ_self _)
    simp only [ho, Option.join_some]
    exact houtcome

/-! ### Independence of earlier buffers -/

/-- The disassembler cannot tell states in the relation `E` from each other. -/
def Respects (E : σ → σ → Prop) : Prop :=
  ∀ s s' request, E s s' → (trace s request).consumed = (trace s' request).consumed ∧
    (trace s request).missing = (trace s' request).missing ∧
    E (trace s request).state (trace s' request).state

/-- Two readings that differ in the mode and in related states of the disassembler only. -/
structure Alike (E : σ → σ → Prop) (f f' : Flow σ) : Prop where
  dis : E f.dis f'.dis
  queue : f.queue = f'.queue
  ip : f.ip = f'.ip
  origin : f.origin = f'.origin
  pending : f.pending = f'.pending
  resync : f.resync = f'.resync
  overflowed : f.overflowed = f'.overflowed
  fault : f.fault = f'.fault
  requests : f.requests = f'.requests

/-- A mode is named before a packet can lead to a request. -/
def modeFirst : List Packet → Bool
  | [] => true
  | .mode (some _) :: _ => true
  | .tip _ :: _ | .pge _ :: _ | .pgd _ :: _ => false
  | _ :: packets => modeFirst packets

namespace Alike

variable {trace} {E : σ → σ → Prop} (hE : Respects trace E) {f f' : Flow σ}
include hE

lemma ask (h : Alike E f f') (hmode : f.mode = f'.mode) (start limit : UInt64) :
    Alike E (f.ask trace start limit) (f'.ask trace start limit) := by
  obtain ⟨hconsumed, hmissing, hstate⟩ := hE _ _ ⟨start, limit, f'.queue, f'.mode⟩ h.dis
  simp only [Flow.ask, h.queue, hmode]
  exact { h with
    dis := hstate
    queue := by rw [hconsumed]
    fault := by rw [h.fault, hmissing]
    requests := by rw [h.requests] }

lemma toPending (h : Alike E f f') (hmode : f.mode = f'.mode) :
    Alike E (f.toPending trace) (f'.toPending trace) := by
  unfold Flow.toPending
  rw [h.pending, h.origin]
  cases hpending : f'.pending with
  | none => exact h
  | some src =>
    cases horigin : f'.origin with
    | none => exact { h with origin := rfl, pending := rfl }
    | some start =>
      have hnext : Alike E { f with pending := none, origin := some src }
          { f' with pending := none, origin := some src } :=
        { h with origin := rfl, pending := rfl }
      exact hnext.ask hE hmode start src

omit hE in
lemma pge (h : Alike E f f') (u : IpField) : Alike E (f.pge u) (f'.pge u) := by
  simp only [Flow.pge, h.ip, h.origin]
  exact { h with ip := rfl, origin := rfl }

omit hE in
lemma fup (h : Alike E f f') (u : IpField) : Alike E (f.fup u) (f'.fup u) := by
  simp only [Flow.fup, h.ip, h.resync]
  split
  · exact { h with ip := rfl, origin := rfl, pending := rfl, resync := rfl }
  · exact { h with ip := rfl, pending := rfl, resync := rfl }

lemma tip (h : Alike E f f') (hmode : f.mode = f'.mode) (u : IpField) :
    Alike E (f.tip trace u) (f'.tip trace u) := by
  simp only [Flow.tip, h.ip, h.origin]
  apply ask hE
  · exact { h with ip := rfl, origin := rfl }
  · exact hmode

lemma pgd (h : Alike E f f') (hmode : f.mode = f'.mode) (u : IpField) :
    Alike E (f.pgd trace u) (f'.pgd trace u) := by
  simp only [Flow.pgd, h.ip, h.origin]
  cases horigin : f'.origin with
  | none => exact { h with ip := rfl, origin := rfl }
  | some start =>
    apply ask hE
    · exact { h with ip := rfl, origin := rfl }
    · exact hmode

end Alike

namespace Flow

lemma mode_toPending (f : Flow σ) : (f.toPending trace).mode = f.mode := by
  unfold toPending
  split
  · rfl
  · split <;> rfl

lemma mode_apply (f : Flow σ) {packet : Packet} (h : ∀ m, packet ≠ .mode m) :
    (f.apply trace packet).mode = f.mode := by
  cases packet with
  | mode m => exact absurd rfl (h m)
  | tnt data => rfl
  | tip u =>
    simp only [apply]
    split <;> exact mode_toPending trace f
  | pge u =>
    simp only [apply]
    split <;> exact mode_toPending trace { f with resync := false }
  | pgd u =>
    simp only [apply, pgd]
    split
    · exact mode_toPending trace f
    · split <;> exact mode_toPending trace f
  | fup u =>
    simp only [apply, fup]
    split <;> rfl
  | overflow => rfl
  | silent => rfl

end Flow

namespace Alike

variable {trace} {E : σ → σ → Prop} (hE : Respects trace E) {f f' : Flow σ}

lemma mode_toPending (hmode : f.mode = f'.mode) :
    (f.toPending trace).mode = (f'.toPending trace).mode := by
  rw [Flow.mode_toPending, Flow.mode_toPending, hmode]

include hE

-- only the packets that lead to a request can tell the modes apart
lemma apply (h : Alike E f f') {packet : Packet} {packets : List Packet}
    (hmode : f.mode = f'.mode ∨ modeFirst (packet :: packets) = true) :
    Alike E (f.apply trace packet) (f'.apply trace packet) := by
  cases packet with
  | mode m => exact { h with }
  | tnt data => exact { h with queue := by simp only [Flow.apply, h.queue] }
  | tip u =>
    have hmode := hmode.resolve_right Bool.false_ne_true
    have hpending := h.toPending hE hmode
    simp only [Flow.apply, hpending.fault]
    split
    · exact hpending
    · exact hpending.tip hE (mode_toPending hmode) u
  | pge u =>
    have hmode := hmode.resolve_right Bool.false_ne_true
    have hresync : Alike E { f with resync := false } { f' with resync := false } :=
      { h with resync := rfl }
    have hpge := hresync.toPending hE hmode
    simp only [Flow.apply, hpge.fault]
    split
    · exact hpge
    · exact hpge.pge u
  | pgd u =>
    have hmode := hmode.resolve_right Bool.false_ne_true
    have hpending := h.toPending hE hmode
    simp only [Flow.apply, hpending.fault]
    split
    · exact hpending
    · exact hpending.pgd hE (mode_toPending hmode) u
  | fup u => exact h.fup u
  | overflow => exact { h with ip := rfl, origin := rfl, resync := rfl, overflowed := rfl }
  | silent => exact h

lemma read {packets : List Packet} (h : Alike E f f') (hmode : f.mode = f'.mode ∨ modeFirst packets) :
    Alike E (f.read trace packets) (f'.read trace packets) := by
  induction packets generalizing f f' with
  | nil => exact h
  | cons packet packets ih =>
    cases hfault : f.fault with
    | true =>
      rw [Flow.read_of_fault trace hfault, Flow.read_of_fault trace (h.fault.symm.trans hfault)]
      exact h
    | false =>
      rw [Flow.read_cons trace hfault, Flow.read_cons trace (h.fault.symm.trans hfault)]
      apply ih (h.apply hE hmode)
      rcases hmode with hmode | hfirst
      · left
        cases packet with
        | mode m => simp only [Flow.apply, hmode]
        | _ => rw [Flow.mode_apply, Flow.mode_apply, hmode] <;> simp
      · cases packet with
        | mode m =>
          cases m with
          | none => exact .inr hfirst
          | some m => exact .inl rfl
        | tip u => cases hfirst
        | pge u => cases hfirst
        | pgd u => cases hfirst
        | _ => exact .inr hfirst

end Alike

/-- The states after `pt_decoder_init` and calls of `decode_buffer` on buffers that `ok` admits; the
disassembler may change in between, when its filters or its pages do. -/
inductive Reachable (ok : Decoder σ → TraceBuffer → Prop) : Decoder σ → Prop
  | init (dis : σ) : Reachable ok (ptDecoderInit dis)
  | decode {d : Decoder σ} {b : TraceBuffer} {decoded : Decoded σ} (h : Reachable ok d)
      (hok : ok d b) (hdecode : decodeBuffer trace d b = some decoded) : Reachable ok decoded.self
  | disassembler {d : Decoder σ} (h : Reachable ok d) (dis : σ) :
      Reachable ok { d with disassemblerState := dis }

/-- The requests use every branch of the buffer, or one of them misses a page. -/
def Spends (d : Decoder σ) (b : TraceBuffer) : Prop :=
  (b.reading trace d.disassemblerState d.mode).Spent

def Decoded.observed (decoded : Decoded σ) : DecoderResult × List Request :=
  (decoded.result, decoded.requests)

lemma Outcome.observed_eq {f f' : Flow σ} {ended : Bool} {o o' : Option (Decoded σ)}
    (h : Outcome f ended o) (h' : Outcome f' ended o') (hfault : f.fault = f'.fault)
    (hresult : f.result = f'.result) (hrequests : f.requests = f'.requests) :
    o.map Decoded.observed = o'.map Decoded.observed := by
  unfold Outcome at h h'
  rw [hfault] at h
  split at h
  case isTrue hend =>
    rw [if_pos hend] at h'
    obtain ⟨decoded, rfl, hreads⟩ := h
    obtain ⟨decoded', rfl, hreads'⟩ := h'
    simp only [Option.map_some, Decoded.observed, hreads.result, hreads.requests, hreads'.result,
      hreads'.requests, hresult, hrequests]
  case isFalse hend =>
    rw [if_neg hend] at h'
    rw [h, h']

lemma flushed_decodeBuffer {d : Decoder σ} (h : d.Flushed) {b : TraceBuffer} {decoded : Decoded σ}
    (hdecode : decodeBuffer trace d b = some decoded) :
    decoded.self.Flushed ↔ Spends trace d b := by
  have houtcome := decodeBuffer_reads trace h b
  unfold Outcome at houtcome
  split at houtcome
  · obtain ⟨decoded', hdecoded, hreads⟩ := houtcome
    rw [hdecode, Option.some.injEq] at hdecoded
    rw [hdecoded]
    exact hreads.flushed
  · rw [hdecode] at houtcome
    cases houtcome

lemma Reachable.flushed {d : Decoder σ} (h : Reachable trace (Spends trace) d) : d.Flushed := by
  induction h with
  | init dis => rfl
  | decode _ hok hdecode ih => exact (flushed_decodeBuffer trace ih hdecode).mpr hok
  | disassembler _ dis ih =>
    have hfields := congrArg (fun d : Decoder σ => { d with disassemblerState := dis }) ih
    exact hfields

/-- Trace buffers are decoded independently as long as every branch is used. -/
theorem Reachable.decodeBuffer_independent {E : σ → σ → Prop} (hE : Respects trace E)
    {d d' : Decoder σ} (h : Reachable trace (Spends trace) d)
    (h' : Reachable trace (Spends trace) d') (hdis : E d.disassemblerState d'.disassemblerState) :
    d.Flushed ∧ ∀ b : TraceBuffer, modeFirst b.packets.1 = true →
      (decodeBuffer trace d b).map Decoded.observed =
        (decodeBuffer trace d' b).map Decoded.observed := by
  refine ⟨h.flushed, fun b hfirst => ?_⟩
  have hbegin : Alike E (Flow.begin d.disassemblerState d.mode)
      (Flow.begin d'.disassemblerState d'.mode) :=
    ⟨hdis, rfl, rfl, rfl, rfl, rfl, rfl, rfl, rfl⟩
  have hread : Alike E (b.reading trace d.disassemblerState d.mode)
      (b.reading trace d'.disassemblerState d'.mode) := hbegin.read hE (.inr hfirst)
  apply (decodeBuffer_reads trace h.flushed b).observed_eq (decodeBuffer_reads trace h'.flushed b)
  · exact hread.fault
  · simp only [Flow.result, hread.fault, hread.queue, hread.overflowed]
  · exact hread.requests

def takes (n : ℕ) : Tracer Unit := fun _ request => ⟨(), min n request.tnt.length, none⟩

def tntBuffer : TraceBuffer := ⟨psb ++ [0x99, 0x01, 0x06], by decide⟩

/-- A trace that names the 64 bit mode and reports two indirect branches, with a taken conditional
branch in between. -/
def tipBuffer : TraceBuffer :=
  ⟨psb ++ [0x99, 0x01, 0x2D, 0x00, 0x10, 0x06, 0x2D, 0x00, 0x20], by decide⟩

def afterTipBuffer : Decoded Unit :=
  (decodeBuffer (takes 1) (ptDecoderInit ()) tipBuffer).get (by decide +kernel)

def afterTntBuffer : Decoded Unit :=
  (decodeBuffer (takes 0) (ptDecoderInit ()) tntBuffer).get (by decide +kernel)

theorem Reachable.decodeBuffer_independent_tip :
    afterTipBuffer.requests =
        [⟨0x1000, 0, [], .mode64⟩, ⟨0x1000, 0, [true], .mode64⟩] ∧
      afterTipBuffer.self.Flushed ∧
      (decodeBuffer (takes 1) afterTipBuffer.self tipBuffer).map Decoded.observed =
        (decodeBuffer (takes 1) (ptDecoderInit ()) tipBuffer).map Decoded.observed := by
  have hrespects : Respects (takes 1) (· = ·) := by
    rintro s _ request rfl
    exact ⟨rfl, rfl, rfl⟩
  have hspends : Spends (takes 1) (ptDecoderInit ()) tipBuffer := .inr (by decide +kernel)
  have hinit : Reachable (takes 1) (Spends (takes 1)) (ptDecoderInit ()) := .init ()
  have hreach : Reachable (takes 1) (Spends (takes 1)) afterTipBuffer.self :=
    hinit.decode hspends (Option.some_get _).symm
  have hindependent := hreach.decodeBuffer_independent (takes 1) hrespects hinit rfl
  exact ⟨by decide +kernel, hindependent.1, hindependent.2 tipBuffer (by decide +kernel)⟩

theorem Reachable.not_decodeBuffer_independent_tnt :
    Reachable (takes 0) (fun _ _ => True) afterTntBuffer.self ∧
      afterTntBuffer.result = .error ∧ ¬ afterTntBuffer.self.Flushed ∧
      modeFirst tipBuffer.packets.1 = true ∧
      (decodeBuffer (takes 0) (ptDecoderInit ()) tipBuffer).map Decoded.requests =
        some [⟨0x1000, 0, [], .mode64⟩, ⟨0x1000, 0, [true], .mode64⟩] ∧
      (decodeBuffer (takes 0) afterTntBuffer.self tipBuffer).map Decoded.requests =
        some [⟨0x1000, 0, [true], .mode64⟩, ⟨0x1000, 0, [true, true], .mode64⟩] := by
  have hinit : Reachable (takes 0) (fun _ _ => True) (ptDecoderInit ()) := .init ()
  refine ⟨hinit.decode trivial (Option.some_get _).symm, by decide +kernel, ?_, by decide +kernel,
    by decide +kernel, by decide +kernel⟩
  intro hflushed
  have hcount : afterTntBuffer.self.tntCacheState.blTnt = 0 :=
    (congrArg (fun d : Decoder Unit => d.tntCacheState.blTnt) hflushed).symm
  exact absurd hcount (by decide +kernel)

end Reading

end Nyx.Pt
