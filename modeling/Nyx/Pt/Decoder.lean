import Nyx.Lib.Iterate
import Nyx.Pt.TntFifo

/-!
# The packet decoder

`decode_buffer` of `pt/decoder.c` walks over the packets of a trace, collects the taken and
not-taken bits and asks the disassembler, a parameter, to follow the code. The buffer ends after one
`PT_TRACE_END`; what a longer trace before has left behind that mark is not modelled here.
-/

namespace Nyx.Pt

inductive DisassemblerMode where
  | mode16
  | mode32
  | mode64
  deriving DecidableEq

/-- The arguments of `trace_disassembler`; the bits are the content of the TNT cache. -/
structure Request where
  start : UInt64
  limit : UInt64
  tnt : List Bool
  mode : DisassemblerMode
  deriving DecidableEq

/-- What `trace_disassembler` leaves: its own state, the number of bits it took from the cache, and
the missing page if it returns `disas_page_fault`. -/
structure Answer (σ : Type) where
  state : σ
  consumed : ℕ
  missing : Option UInt64

abbrev Tracer (σ : Type) := σ → Request → Answer σ

inductive DecoderStateE where
  | traceDisabled
  | traceEnabledWithLastIP
  | traceEnabledWOLastIP
  deriving DecidableEq

/-- `decoder_state_machine_t`. -/
structure DecoderStateMachine where
  state : DecoderStateE
  lastIp : UInt64
  deriving DecidableEq

/-- `should_disasm_t`. -/
structure ShouldDisasm where
  start : UInt64
  endAddr : UInt64
  valid : Bool
  deriving DecidableEq

def setDisasm (start endAddr : UInt64) : ShouldDisasm := ⟨start, endAddr, true⟩

namespace DecoderStateMachine

/-- `decoder_statemachine_new`, and what `decoder_statemachine_reset` goes back to. -/
def new : DecoderStateMachine := ⟨.traceDisabled, 0⟩

def handleTip (self : DecoderStateMachine) (addr : UInt64) (res : ShouldDisasm) :
    DecoderStateMachine × ShouldDisasm :=
  let res := { res with valid := false }
  match self.state with
  | .traceDisabled => (⟨.traceEnabledWithLastIP, addr⟩, setDisasm addr 0)
  | .traceEnabledWithLastIP => (⟨.traceEnabledWithLastIP, addr⟩, setDisasm self.lastIp 0)
  | .traceEnabledWOLastIP => (⟨.traceEnabledWithLastIP, addr⟩, res)

def handlePgd (self : DecoderStateMachine) (addr : UInt64) (res : ShouldDisasm) :
    DecoderStateMachine × ShouldDisasm :=
  let res := { res with valid := false }
  match self.state with
  | .traceDisabled => (self, res)
  | .traceEnabledWithLastIP => (⟨.traceDisabled, 0⟩, setDisasm self.lastIp addr)
  | .traceEnabledWOLastIP => ({ self with state := .traceDisabled }, res)

def handlePge (self : DecoderStateMachine) (addr : UInt64) (res : ShouldDisasm) :
    DecoderStateMachine × ShouldDisasm :=
  let res := { res with valid := false }
  match self.state with
  | .traceDisabled => (⟨.traceEnabledWithLastIP, addr⟩, res)
  | .traceEnabledWithLastIP => (self, res)
  | .traceEnabledWOLastIP => (⟨.traceEnabledWithLastIP, addr⟩, res)

def handleFup (self : DecoderStateMachine) (fupSrc : UInt64) (res : ShouldDisasm) :
    DecoderStateMachine × ShouldDisasm :=
  let res := { res with valid := false }
  match self.state with
  | .traceDisabled => (self, res)
  | .traceEnabledWithLastIP => ({ self with lastIp := fupSrc }, setDisasm self.lastIp fupSrc)
  | .traceEnabledWOLastIP => (self, res)

end DecoderStateMachine

/-- `decoder_t`. -/
structure Decoder (σ : Type) where
  pageFaultFound : Bool
  pageFaultAddr : UInt64
  ovpState : Bool
  lastTip : UInt64
  lastFupSrc : UInt64
  fupBindPending : Bool
  disassemblerState : σ
  tntCacheState : TntCache
  decoderState : DecoderStateMachine
  decoderStateResult : ShouldDisasm
  mode : DisassemblerMode

/-- `pt_decoder_init`; what `malloc` leaves in `end` is zero here. -/
def ptDecoderInit {σ : Type} (disassemblerState : σ) : Decoder σ where
  pageFaultFound := false
  pageFaultAddr := 0
  ovpState := false
  lastTip := 0
  lastFupSrc := 0
  fupBindPending := false
  disassemblerState := disassemblerState
  tntCacheState := TntCache.tntCacheInit
  decoderState := DecoderStateMachine.new
  decoderStateResult := ⟨0, 0, false⟩
  mode := .mode64

/-- `pt_decoder_flush`; `disassembler_flush` does nothing. -/
def ptDecoderFlush {σ : Type} (self : Decoder σ) : Decoder σ :=
  { self with
    ovpState := false
    lastTip := 0
    lastFupSrc := 0
    fupBindPending := false
    tntCacheState := self.tntCacheState.tntCacheFlush
    decoderState := DecoderStateMachine.new
    decoderStateResult := { self.decoderStateResult with start := 0, valid := false } }

inductive DecoderResult where
  | success
  | successPtOverflow
  | pageFault
  | error
  deriving DecidableEq

/-- The eight bytes from a place on; behind the end of the buffer they are masked out. -/
def readU64 (p : List UInt8) : UInt64 :=
  (p.take 8).foldr (fun byte value => (value <<< 8) ||| byte.toUInt64) 0

/-- The address of a packet with `len` groups of two bytes; the shifts count modulo 64 as the
processor does. -/
def ipValue (len : UInt64) (payload lastIp : UInt64) : UInt64 :=
  let ones : UInt64 := 0xFFFFFFFFFFFFFFFF
  let value := (payload &&& (ones >>> ((4 - len) * 16))) ||| (lastIp &&& (ones <<< (len * 16)))
  ((value <<< (64 - 48)).toInt64 >>> (64 - 48)).toUInt64

/-- `get_ip_val`: the value it returns, the last address, and the place behind the packet. -/
def getIpVal (p : List UInt8) (lastIp : UInt64) : UInt64 × UInt64 × List UInt8 :=
  match p with
  | [] => (0, lastIp, [])
  | head :: p =>
    let len := head >>> 5
    if len = 0 then (0, lastIp, p)
    else
      let ip := ipValue len.toUInt64 (readU64 p) lastIp
      (ip, ip, p.drop (len.toNat * 2))

def psb : List UInt8 :=
  [0x02, 0x82, 0x02, 0x82, 0x02, 0x82, 0x02, 0x82, 0x02, 0x82, 0x02, 0x82, 0x02, 0x82, 0x02, 0x82]

def ptTraceEnd : UInt8 := 0x55

def memmemPsb : List UInt8 → Option (List UInt8)
  | [] => none
  | byte :: bytes =>
    if psb.isPrefixOf (byte :: bytes) then some (byte :: bytes) else memmemPsb bytes

inductive PtLabel where
  | pad
  | tipPgd
  | level2
  | tnt8
  | tip
  | tipPge
  | tipFup
  | mode
  | exit
  /-- `handle_pt_error`, `handle_pt_cyc`, `handle_pt_mtc` and `handle_pt_tsc`, which abort. -/
  | error
  deriving DecidableEq

def dispatchTableLevel1 (byte : UInt8) : PtLabel :=
  if byte = 0x00 then .pad
  else if byte = 0x02 then .level2
  else if byte &&& 0x01 = 0x00 then .tnt8
  else if byte &&& 0x1F = 0x01 then .tipPgd
  else if byte &&& 0x1F = 0x0D then .tip
  else if byte &&& 0x1F = 0x11 then .tipPge
  else if byte &&& 0x1F = 0x1D then .tipFup
  else if byte = 0x99 then .mode
  else if byte = ptTraceEnd then .exit
  else .error

section Decode

variable {σ : Type} (trace : Tracer σ)

/-- `decode_buffer` in front of the bytes `p`. -/
structure DecodeRun (σ : Type) where
  p : List UInt8
  self : Decoder σ
  ptOverflowed : Bool
  requests : List Request

/-- What `decode_buffer` leaves. -/
structure Decoded (σ : Type) where
  result : DecoderResult
  requests : List Request
  self : Decoder σ

namespace DecodeRun

def disasm (r : DecodeRun σ) : DecodeRun σ :=
  let res := r.self.decoderStateResult
  if res.valid then
    let request : Request := ⟨res.start, res.endAddr, r.self.tntCacheState.content, r.self.mode⟩
    let answer := trace r.self.disassemblerState request
    { r with
      self := { r.self with
        disassemblerState := answer.state
        tntCacheState := r.self.tntCacheState.adjustTntCache answer.consumed
        pageFaultFound := r.self.pageFaultFound || answer.missing.isSome
        pageFaultAddr := answer.missing.getD r.self.pageFaultAddr }
      requests := r.requests ++ [request] }
  else r

def advance (r : DecodeRun σ)
    (handle : DecoderStateMachine → ShouldDisasm → DecoderStateMachine × ShouldDisasm) :
    DecodeRun σ :=
  let next := handle r.self.decoderState r.self.decoderStateResult
  { r with self := { r.self with decoderState := next.1, decoderStateResult := next.2 } }

/-- The beginning of the handlers: a `FUP` that waits for its packet. -/
def bindFup (r : DecodeRun σ) : DecodeRun σ :=
  if r.self.fupBindPending then
    let src := r.self.lastFupSrc
    let r := { r with self := { r.self with fupBindPending := false, lastFupSrc := 0 } }
    (r.advance (·.handleFup src)).disasm trace
  else r

def readTip (r : DecodeRun σ) : DecodeRun σ :=
  let v := getIpVal r.p r.self.lastTip
  { r with p := v.2.2, self := { r.self with lastTip := v.2.1 } }

def tipHandler (r : DecodeRun σ) : DecodeRun σ :=
  let r := r.bindFup trace
  if r.self.pageFaultFound then r
  else
    let r := r.readTip
    (r.advance (·.handleTip r.self.lastTip)).disasm trace

def tipPgeHandler (r : DecodeRun σ) : DecodeRun σ :=
  let r := { r with self := { r.self with ovpState := false } }.bindFup trace
  if r.self.pageFaultFound then r
  else
    let r := r.readTip
    r.advance (·.handlePge r.self.lastTip)

def tipPgdHandler (r : DecodeRun σ) : DecodeRun σ :=
  let r := r.bindFup trace
  if r.self.pageFaultFound then r
  else
    let r := r.readTip
    (r.advance (·.handlePgd r.self.lastTip)).disasm trace

def tipFupHandler (r : DecodeRun σ) : DecodeRun σ :=
  let v := getIpVal r.p r.self.lastTip
  let self := { r.self with lastTip := v.2.1 }
  if self.ovpState then
    { r with
      p := v.2.2
      self := { self with
        decoderState := ⟨.traceEnabledWithLastIP, v.1⟩
        ovpState := false
        fupBindPending := false } }
  else
    { r with
      p := v.2.2
      self := { self with lastFupSrc := v.1, fupBindPending := true } }

def modeHandler (r : DecodeRun σ) (byte : UInt8) : DecodeRun σ :=
  let mode :=
    if byte >>> 5 = 0 then
      if byte &&& 3 = 0 then .mode16
      else if byte &&& 3 = 1 then .mode64
      else if byte &&& 3 = 2 then .mode32
      else r.self.mode
    else r.self.mode
  { r with self := { r.self with mode := mode } }

def overflowHandler (r : DecodeRun σ) : DecodeRun σ :=
  { r with
    self := { r.self with
      ovpState := true
      lastTip := 0
      decoderState := DecoderStateMachine.new }
    ptOverflowed := true }

/-- `handle_pt_level_2`; `none` where the code aborts. The packet for 47 bits ends in an assertion of
the TNT cache. -/
def level2 (r : DecodeRun σ) (byte : UInt8) : Option (DecodeRun σ) :=
  if byte = 0x03 then some { r with p := r.p.drop 4 }
  else if byte = 0x23 then some { r with p := r.p.drop 2 }
  else if byte = 0x43 then some { r with p := r.p.drop 8 }
  else if byte = 0x82 then some { r with p := r.p.drop 16 }
  else if byte = 0xC8 then some { r with p := r.p.drop 7 }
  else if byte = 0xF3 then some { r with p := r.p.drop 2 }.overflowHandler
  else none

/-- `return decoder_page_fault` after a handler, or the next packet. -/
def afterTip (r : DecodeRun σ) : DecodeRun σ ⊕ Option (Decoded σ) :=
  if r.self.pageFaultFound then .inr (some ⟨.pageFault, r.requests, ptDecoderFlush r.self⟩)
  else .inl r

def exit (r : DecodeRun σ) : Decoded σ :=
  if r.self.tntCacheState.blTnt ≠ 0 then ⟨.error, r.requests, r.self⟩
  else ⟨if r.ptOverflowed then .successPtOverflow else .success, r.requests, ptDecoderFlush r.self⟩

/-- The code from one dispatch to the next. The decoder leaves the buffer or aborts with nothing. -/
def step (r : DecodeRun σ) : DecodeRun σ ⊕ Option (Decoded σ) :=
  match r.p with
  | [] => .inr none
  | byte :: p =>
    match dispatchTableLevel1 byte with
    | .pad => .inl { r with p := p.dropWhile (· = 0) }
    | .tnt8 =>
      .inl { r with
        p := p
        self := { r.self with tntCacheState := r.self.tntCacheState.appendTntCache byte } }
    | .tip => (r.tipHandler trace).afterTip
    | .tipPge => (r.tipPgeHandler trace).afterTip
    | .tipPgd => (r.tipPgdHandler trace).afterTip
    | .tipFup => .inl r.tipFupHandler
    | .mode =>
      match p with
      | [] => .inr none
      | next :: p => .inl ({ r with p := p }.modeHandler next)
    | .level2 =>
      match p with
      | [] => .inr none
      | next :: _ =>
        match r.level2 next with
        | some r => .inl r
        | none => .inr none
    | .exit => .inr (some r.exit)
    | .error => .inr none

end DecodeRun

/-- `TOPA_MAIN_SIZE + TOPA_FALLBACK_SIZE`, the size of the memory that the processor writes to. -/
def topaSize : ℕ := 2 ^ 10 * 2 ^ 12 + 2 ^ 4 * 2 ^ 12

/-- The trace in the buffer; the module of the kernel puts `PT_TRACE_END` behind it. -/
structure TraceBuffer where
  bytes : List UInt8
  length_le : bytes.length ≤ topaSize

def TraceBuffer.start (b : TraceBuffer) : Option (List UInt8) :=
  (memmemPsb b.bytes).map (· ++ [ptTraceEnd])

/-- `decode_buffer`. Every packet takes a byte at least. -/
def decodeBuffer (self : Decoder σ) (b : TraceBuffer) : Option (Decoded σ) :=
  let self := { self with pageFaultFound := false }
  match b.start with
  | none => some (DecodeRun.exit ⟨[], self, false, []⟩)
  | some p => (iterate (DecodeRun.step trace) (p.length + 1) ⟨p, self, false, []⟩).join

end Decode

end Nyx.Pt
