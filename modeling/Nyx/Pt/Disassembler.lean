import Nyx.Lib.Iterate
import Nyx.Pt.Instruction
import Nyx.Pt.TraceCache

/-!
# The disassembler

`pt/disassembler.c` without redqueen's trace mode. Instructions are decoded once, in linear sweeps,
into a list of elements, and `trace_disassembler_loop` follows these with the bits of the trace.
-/

namespace Nyx.Pt

open Function

inductive Fetched where
  | insn (ins : CsInsn)
  | invalid
  | failed (page : UInt64)

/-- The code as the page cache and the decoder show it in one mode. -/
abbrev Image := UInt64 → Fetched

/-- A pointer to a `cofi_list`: one of the three static objects, or an allocated element. -/
inductive Ref where
  | pendingObj
  | oobObj
  | pageCacheFailedObj
  | element (n : ℕ)
  deriving DecidableEq

/-- `cofi_header`. -/
structure CofiHeader where
  insAddr : UInt64
  targetAddr : UInt64
  insSize : UInt16
  type : CofiType
  deriving DecidableEq

/-- `cofi_list`. -/
structure CofiList where
  cofiPtr : Option Ref
  cofiTargetPtr : Option Ref
  cofi : CofiHeader
  deriving DecidableEq

/-- The list and its map. The keys of the map have 32 bits. -/
structure CofiMap where
  map : UInt32 → Option Ref
  heap : Ref → CofiList
  allocated : ℕ
  listElement : Ref

def unset : UInt64 := 0xFFFFFFFFFFFFFFFF

def mapKey (addr : UInt64) : UInt32 := addr.toUInt32

/-- A range of the address filter. -/
structure AddrRange where
  min : UInt64
  max : UInt64
  deriving DecidableEq

abbrev AddrFilter := Fin 4 → AddrRange

scoped instance neZeroFour : NeZero 4 := ⟨by decide⟩

def AddrRange.contains (r : AddrRange) (addr : UInt64) : Bool := r.min ≤ addr && addr < r.max

namespace CofiMap

/-- An element as `malloc` and `new_list_element` leave it; what they do not write is zero here. -/
def pendingElement : CofiList where
  cofiPtr := some .pendingObj
  cofiTargetPtr := some .pendingObj
  cofi := ⟨0, 0, 0, .disassemblyPending⟩

def staticObj (type : CofiType) : CofiList where
  cofiPtr := none
  cofiTargetPtr := none
  cofi := ⟨0, 0, 0, type⟩

def new : CofiMap where
  map _ := none
  heap
    | .pendingObj => staticObj .disassemblyPending
    | .oobObj => staticObj .outOfBounds
    | .pageCacheFailedObj => staticObj .pageCacheFailed
    | .element _ => pendingElement
  allocated := 1
  listElement := .element 0

def setHeader (d : CofiMap) (r : Ref) (header : CofiHeader) : CofiMap :=
  { d with heap := update d.heap r { d.heap r with cofi := header } }

def setCofiPtr (d : CofiMap) (r target : Ref) : CofiMap :=
  { d with heap := update d.heap r { d.heap r with cofiPtr := some target } }

def setCofiTargetPtr (d : CofiMap) (r target : Ref) : CofiMap :=
  { d with heap := update d.heap r { d.heap r with cofiTargetPtr := some target } }

def editCofiPtr (d : CofiMap) (element : Option Ref) (target : Ref) : CofiMap :=
  match element with
  | some r => d.setCofiPtr r target
  | none => d

def mapPut (d : CofiMap) (addr : UInt64) (r : Ref) : CofiMap :=
  { d with map := update d.map (mapKey addr) (some r) }

def mapGet (d : CofiMap) (addr : UInt64) : Option Ref := d.map (mapKey addr)

def newListElement (d : CofiMap) (header : CofiHeader) : CofiMap where
  map := d.map
  heap := update d.heap (.element d.allocated) { pendingElement with cofi := header }
  allocated := d.allocated + 1
  listElement := .element d.allocated

end CofiMap

/-- The state of the loop of `analyse_assembly`. -/
structure Sweep where
  dis : CofiMap
  address : UInt64
  lastNop : Bool
  predecessor : Option Ref
  first : Option Ref
  lastNoCofiAddr : UInt64
  failedPage : UInt64

namespace Sweep

/-- A new element, and the one before the last now points to the last. -/
def append (s : Sweep) (header : CofiHeader) : Sweep := { s with
  dis := (s.dis.editCofiPtr s.predecessor s.dis.listElement).newListElement header
  predecessor := some s.dis.listElement }

def setFirst (s : Sweep) : Sweep := { s with
  first := if s.first.isNone then some s.dis.listElement else s.first }

def linkKnown (s : Sweep) (addr : UInt64) (known : Ref) : Sweep :=
  { s with dis := s.dis.setCofiPtr s.dis.listElement known }.append ⟨addr, 0, 0, .noCofiType⟩

def addBranch (s : Sweep) (addr : UInt64) (ins : CsInsn) : Sweep :=
  setFirst { s with
    dis := (s.dis.setHeader s.dis.listElement
      ⟨addr, ins.target, ins.size, ins.opcodeAnalyzer⟩).mapPut addr s.dis.listElement
    lastNop := false
    lastNoCofiAddr := unset }

/-- A return or the like after plain instructions: they keep their element, which leads to a new
one. -/
def addTransferAfterNoCofi (s : Sweep) (addr : UInt64) (ins : CsInsn) : Sweep :=
  let run := s.dis.listElement
  let d := s.dis.setHeader run ⟨s.lastNoCofiAddr, addr, 0, .noCofiType⟩
  let d := (d.setCofiPtr run run).newListElement ⟨addr, 0, ins.size, ins.opcodeAnalyzer⟩
  let d := d.mapPut addr d.listElement
  setFirst { s with
    dis := d.editCofiPtr (d.mapGet s.lastNoCofiAddr) d.listElement
    predecessor := some run
    lastNoCofiAddr := unset }

def addTransfer (s : Sweep) (addr : UInt64) (ins : CsInsn) : Sweep :=
  if s.lastNoCofiAddr ≠ unset then s.addTransferAfterNoCofi addr ins
  else setFirst { s with
    dis := (s.dis.setHeader s.dis.listElement
      ⟨addr, 0, ins.size, ins.opcodeAnalyzer⟩).mapPut addr s.dis.listElement
    lastNoCofiAddr := unset }

def addNoCofi (s : Sweep) (addr : UInt64) : Sweep :=
  setFirst { s with
    dis := s.dis.mapPut addr s.dis.listElement
    lastNop := true
    lastNoCofiAddr := if s.lastNoCofiAddr = unset then addr else s.lastNoCofiAddr }

def visit (s : Sweep) (addr : UInt64) (ins : CsInsn) : Sweep ⊕ Sweep :=
  let s := if s.lastNop then s else s.append ⟨addr, 0, ins.size, .noCofiType⟩
  match s.dis.mapGet addr with
  | some known => .inr (s.linkKnown addr known)
  | none =>
    match ins.opcodeAnalyzer with
    | .noCofiType => .inl (s.addNoCofi addr)
    | .indirectBranch | .nearRet | .farTransfers => .inr (s.addTransfer addr ins)
    | _ => .inl (s.addBranch addr ins)

def step (img : Image) (limit : UInt64) (s : Sweep) : Sweep ⊕ Sweep :=
  match img s.address with
  | .failed page => .inr { s with failedPage := page }
  | .invalid => .inr { s with failedPage := unset }
  | .insn ins =>
    let next := { s with
      address := s.address + ins.size.toUInt64
      failedPage := unset }
    if s.address > limit then .inr next else next.visit s.address ins

/-- Every round of a sweep that goes on puts a new key of 32 bits into the map. -/
def rounds : ℕ := 2 ^ 32 + 1

end Sweep

section Loop

variable (img : Image) (filter : AddrFilter) (size : UInt32)

/-- The object for an address, the list after it was found, and `*failed_page`. -/
structure Fetch where
  obj : Ref
  dis : CofiMap
  failedPage : UInt64

def analyseAssembly (d : CofiMap) (baseAddress limit : UInt64) : Fetch :=
  match iterate (Sweep.step img limit) Sweep.rounds ⟨d, baseAddress, false, none, none, unset, 0⟩ with
  | none => ⟨.pageCacheFailedObj, d, 0⟩
  | some s =>
    match s.first with
    | none => ⟨.pageCacheFailedObj, s.dis, s.failedPage⟩
    | some first =>
      if s.failedPage ≠ unset ∧ (s.dis.heap s.dis.listElement).cofi.type = .noCofiType then
        ⟨.pageCacheFailedObj, s.dis, s.failedPage⟩
      else ⟨first, s.dis, s.failedPage⟩

def getObj (d : CofiMap) (entryPoint : UInt64) : Fetch :=
  match d.mapGet entryPoint with
  | some r => ⟨r, d, 0⟩
  | none =>
    match [filter 0, filter 1, filter 2, filter 3].find? (·.contains entryPoint) with
    | some range => analyseAssembly img d entryPoint range.max
    | none => ⟨.oobObj, d, 0⟩

inductive DisasResult where
  | success
  | tntEmpty
  | tipPending
  | outOfBounds
  | infiniteLoop
  | pageFault
  deriving DecidableEq

inductive Label where
  | conditionalBranch
  | unconditionalBranch
  | nearRet
  | farTransfers
  | noCofi
  | disassembleT
  | branchCheckT
  | disassembleNt
  | branchCheckNt
  | outOfBounds
  | infiniteLoop
  | pageCacheFailed
  deriving DecidableEq

def dispatchTable : CofiType → Label
  | .conditionalBranch => .conditionalBranch
  | .unconditionalDirectBranch => .unconditionalBranch
  | .indirectBranch => .nearRet
  | .nearRet => .nearRet
  | .farTransfers => .farTransfers
  | .noCofiType => .noCofi
  | .disassemblyPending => .disassembleT
  | .outOfBounds => .outOfBounds
  | .infiniteLoop => .infiniteLoop
  | .pageCacheFailed => .pageCacheFailed

def dispatchTableT : CofiType → Label
  | .disassemblyPending => .disassembleT
  | .outOfBounds => .outOfBounds
  | .infiniteLoop => .infiniteLoop
  | .pageCacheFailed => .pageCacheFailed
  | _ => .branchCheckT

def dispatchTableNt : CofiType → Label
  | .disassemblyPending => .disassembleNt
  | .outOfBounds => .outOfBounds
  | .infiniteLoop => .infiniteLoop
  | .pageCacheFailed => .pageCacheFailed
  | _ => .branchCheckNt

/-- The state of `trace_disassembler_loop`. -/
structure LoopState where
  dis : CofiMap
  tmp : TraceletTmp
  tnt : TntCache
  entryPoint : UInt64
  failedPage : UInt64
  obj : Ref
  lastObj : Option Ref
  dispatchType : CofiType
  label : Label

/-- What `trace_disassembler_loop` leaves. -/
structure LoopExit where
  result : DisasResult
  dis : CofiMap
  tmp : TraceletTmp
  tnt : TntCache
  entryPoint : UInt64
  failedPage : UInt64
  tracelet : Option Tracelet

def limitCheck (a b c d : UInt64) : Bool := !(c ≥ a && c ≤ b) || c = d

namespace LoopState

def header (s : LoopState) : CofiHeader := (s.dis.heap s.obj).cofi

def leave (s : LoopState) (result : DisasResult) (tracelet : Option Tracelet) :
    LoopState ⊕ Option LoopExit :=
  .inr (some ⟨result, s.dis, s.tmp, s.tnt, s.entryPoint, s.failedPage, tracelet⟩)

def finish (s : LoopState) (result : DisasResult) : LoopState ⊕ Option LoopExit :=
  s.leave result (some (s.tmp.newFromTraceletCacheTmp false))

def fetch (s : LoopState) (addr : UInt64) : LoopState :=
  let f := getObj img filter s.dis addr
  { s with
    dis := f.dis
    failedPage := f.failedPage
    obj := f.obj }

def dispatchT (s : LoopState) : LoopState := { s with label := dispatchTableT s.header.type }

def dispatchNt (s : LoopState) : LoopState := { s with label := dispatchTableNt s.header.type }

def dispatch (s : LoopState) (type : CofiType) : LoopState := { s with
  dispatchType := type
  label := dispatchTable type }

/-- A bit was read: record the transition and go on at its destination. -/
def follow (s : LoopState) (tnt : TntCache) (dst : UInt64) : Option LoopState :=
  (s.tmp.addResultTraceletCache size s.header.insAddr dst).map fun tmp =>
    fetch img filter { s with
      tmp := tmp
      tnt := tnt
      lastObj := some s.obj } dst

def doConditionalBranch (s : LoopState) : LoopState ⊕ Option LoopExit :=
  if s.tmp.tntBits = maxResultsPerCache - 1 then
    { s with entryPoint := s.header.insAddr }.leave .success
      (some (s.tmp.newFromTraceletCacheTmp true))
  else
    match s.tnt.processTntCache with
    | (.tntEmpty, tnt) => { s with tnt := tnt }.finish .tntEmpty
    | (.taken, tnt) =>
      match s.follow img filter size tnt s.header.targetAddr with
      | some s => .inl s.dispatchT
      | none => .inr none
    | (.notTaken, tnt) =>
      match s.follow img filter size tnt (s.header.insAddr + s.header.insSize.toUInt64) with
      | some s => .inl s.dispatchNt
      | none => .inr none

/-- The branch checks differ in the address they start from. -/
def branchCheck (s : LoopState) (limit : UInt64) (start : CofiHeader → UInt64) :
    LoopState ⊕ Option LoopExit :=
  match s.lastObj with
  | none => .inr none
  | some last =>
    let inside := limitCheck (start (s.dis.heap last).cofi) s.header.insAddr limit s.entryPoint
    .inl (s.dispatch (if !inside && s.tnt.isEmptyTntCache then .outOfBounds else s.header.type))

/-- The code at the label. A null pointer or a failed assertion ends the loop with nothing. -/
def step (limit : UInt64) (s : LoopState) : LoopState ⊕ Option LoopExit :=
  match s.label with
  | .conditionalBranch => s.doConditionalBranch img filter size
  | .unconditionalBranch =>
    match (s.dis.heap s.obj).cofiTargetPtr with
    | none => .inr none
    | some target =>
      let type := if s.entryPoint = limit ∧ s.tnt.isEmptyTntCache then .infiniteLoop
        else s.dispatchType
      .inl { s with
        lastObj := some s.obj
        obj := target
        dispatchType := type
        label := dispatchTableT type }
  | .nearRet | .farTransfers => s.finish .tipPending
  | .noCofi =>
    match (s.dis.heap s.obj).cofiPtr with
    | none => .inr none
    | some next => .inl { s with lastObj := some s.obj, obj := next }.dispatchNt
  | .disassembleT =>
    match s.lastObj with
    | none => .inr none
    | some last =>
      let s := s.fetch img filter (s.dis.heap last).cofi.targetAddr
      .inl { s with dis := s.dis.setCofiTargetPtr last s.obj }.dispatchT
  | .branchCheckT => s.branchCheck limit (·.targetAddr)
  | .disassembleNt =>
    match s.lastObj with
    | none => .inr none
    | some last =>
      let s := s.fetch img filter (s.header.insAddr + s.header.insSize.toUInt64)
      .inl { s with dis := s.dis.setCofiPtr last s.obj }.dispatchNt
  | .branchCheckNt => s.branchCheck limit fun last => last.insAddr + last.insSize.toUInt64
  | .outOfBounds => s.finish .outOfBounds
  | .infiniteLoop => s.finish .infiniteLoop
  | .pageCacheFailed => s.leave .pageFault none

end LoopState

/-- `trace_cache_key_t`. -/
structure TraceCacheKey where
  tntHash : UInt64
  entry : UInt64
  limit : UInt64
  deriving DecidableEq

/-- The list of instructions and the cache of tracelets. -/
structure Disassembler where
  dis : CofiMap
  lookup : TraceCacheKey → Option Tracelet
  /-- `trace_cache->trace_cache`. -/
  tmp : TraceletTmp

namespace Disassembler

def new : Disassembler where
  dis := CofiMap.new
  lookup _ := none
  tmp := TraceletTmp.new

def traceCacheAdd (d : Disassembler) (key : TraceCacheKey) (tracelet : Tracelet) : Disassembler :=
  if (d.lookup key).isNone then
    { d with lookup := update d.lookup key (some tracelet) }
  else d

end Disassembler

/-- The assertions of `init_disassembler`: no range begins or ends inside another one. -/
def AddrFilter.Accepted (filter : AddrFilter) : Prop :=
  ∀ i j, i ≠ j → ¬(filter j).contains (filter i).min ∧ ¬(filter j).contains ((filter i).max - 1)

instance (filter : AddrFilter) : Decidable filter.Accepted :=
  inferInstanceAs (Decidable (∀ i j, i ≠ j →
    ¬(filter j).contains (filter i).min ∧ ¬(filter j).contains ((filter i).max - 1)))

/-- The state of the loop of `trace_disassembler`. -/
structure TraceState where
  self : Disassembler
  entryPoint : UInt64
  tnt : TntCache
  bitmap : FuzzBitmap
  failedPage : UInt64

namespace TraceState

def startLoop (s : TraceState) : LoopState :=
  let f := getObj img filter s.self.dis s.entryPoint
  LoopState.dispatch
    { dis := f.dis
      tmp := s.self.tmp.resetTraceletTmpCache
      tnt := s.tnt
      entryPoint := s.entryPoint
      failedPage := f.failedPage
      obj := f.obj
      lastObj := none
      dispatchType := .conditionalBranch
      label := .conditionalBranch }
    (f.dis.heap f.obj).cofi.type

def afterLoop (s : TraceState) (e : LoopExit) : TraceState := { s with
  self := { s.self with dis := e.dis, tmp := e.tmp }
  entryPoint := e.entryPoint
  tnt := e.tnt
  failedPage := e.failedPage }

def applyTracelet (s : TraceState) (tracelet : Tracelet) (adjust : Bool) : TraceState :=
  let r := tracelet.applyTraceCacheToBitmap s.tnt s.bitmap adjust
  { s with
    tnt := r.2.1
    bitmap := r.2.2 }

/-- One round of the loop of `trace_disassembler`; `fuel` bounds the inner loop. -/
def step (limit : UInt64) (fuel : ℕ) (s : TraceState) :
    TraceState ⊕ Option (DisasResult × TraceState) :=
  let key : TraceCacheKey := ⟨s.tnt.getTntHash, s.entryPoint, limit⟩
  match s.self.lookup key with
  | some tracelet =>
    let s := { s.applyTracelet tracelet true with entryPoint := tracelet.nextEntryAddress }
    if tracelet.contExec then .inl s else .inr (some (.success, s))
  | none =>
    match iterate (LoopState.step img filter size limit) fuel (s.startLoop img filter) with
    | some (some e) =>
      let s := s.afterLoop e
      if e.result = .pageFault then .inr (some (.pageFault, s))
      else
        match e.tracelet with
        | none => .inr none
        | some tracelet =>
          let tracelet := tracelet.setNextEntryAddres e.entryPoint
          let s := s.applyTracelet tracelet false
          let s := { s with self := s.self.traceCacheAdd key tracelet }
          if e.result = .success then .inl s else .inr (some (.success, s))
    | _ => .inr none

end TraceState

/-- The result and the state after a call, if `fuel` rounds are enough for every loop. -/
def traceDisassembler (fuel : ℕ) (self : Disassembler) (entryPoint limit : UInt64) (tnt : TntCache)
    (bitmap : FuzzBitmap) : Option (DisasResult × TraceState) :=
  (iterate (TraceState.step img filter size limit fuel) fuel
    ⟨self, entryPoint, tnt, bitmap, 0⟩).join

end Loop

end Nyx.Pt
