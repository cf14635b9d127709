import Nyx.Lib.Exec
import Nyx.Lib.Hex

/-!
# What the redqueen hooks report

At a breakpoint on a compare, a subtraction or a call QEMU decodes the instruction, evaluates its
operands and appends a line to the result file. The hooks below append reports;
`RedqueenReport.text` is the line of a report.
-/

namespace Nyx.Redqueen

inductive Abort where
  | assertFailed
  deriving DecidableEq, Repr

/-- The general purpose registers by number and width, the high bytes of the first four, and the
instruction pointer. No other register is evaluated. -/
inductive Reg where
  | r64 (i : Fin 16)
  | r32 (i : Fin 16)
  | r16 (i : Fin 16)
  | r8 (i : Fin 16)
  | high (i : Fin 4)
  | rip
  | eip
  | ip
  | other
  deriving DecidableEq, Repr

inductive SegReg where
  | gs | fs | cs | ds | ss | es
  deriving DecidableEq, Repr

/-- A memory operand. -/
structure MemOperand where
  segment : Option SegReg
  base : Option Reg
  index : Option Reg
  scale : UInt64
  disp : UInt64
  size : ℕ
  deriving DecidableEq, Repr

inductive Operand where
  | reg (reg : Reg)
  | imm (imm : UInt64)
  | mem (mem : MemOperand)
  | other
  deriving DecidableEq, Repr

inductive InsnId where
  | cmp | xor | sub | lea | add | call | lcall | other
  deriving DecidableEq, Repr

/-- An instruction with its operands. -/
structure Insn where
  id : InsnId
  address : UInt64
  operands : List Operand
  deriving DecidableEq, Repr

/-- The guest as the hooks see it. A read of virtual memory says whether it succeeded and what the
buffer then holds. -/
structure Env where
  regs : Fin 16 → UInt64
  eip : UInt64
  segBase : SegReg → UInt64
  mapped : UInt64 → Bool
  read : UInt64 → (n : ℕ) → Bool × {bs : List UInt8 // bs.length = n}
  wordWidth : ℕ
  /-- `REDQUEEN_WHITELIST_INSTRUMENTATION`, which also reports equal operands. -/
  whitelist : Bool

inductive OpSize where
  | b8 | b16 | b32 | b64
  deriving DecidableEq, Repr

namespace OpSize

def ofBits : ℕ → Option OpSize
  | 64 => some b64
  | 32 => some b32
  | 16 => some b16
  | 8 => some b8
  | _ => none

def bytes : OpSize → ℕ
  | b8 => 1
  | b16 => 2
  | b32 => 4
  | b64 => 8

def text : OpSize → List Char
  | b8 => ['8']
  | b16 => ['1', '6']
  | b32 => ['3', '2']
  | b64 => ['6', '4']

def mask : OpSize → UInt64
  | b8 => 0xff
  | b16 => 0xffff
  | b32 => 0xffffffff
  | b64 => 0xffffffffffffffff

end OpSize

inductive CompType where
  | cmp | sub | lea
  deriving DecidableEq, Repr

def CompType.text : CompType → List Char
  | cmp => ['C', 'M', 'P']
  | sub => ['S', 'U', 'B']
  | lea => ['L', 'E', 'A']

def REDQUEEN_MAX_STRCMP_LEN : ℕ := 64

inductive RedqueenReport where
  | comp (addr : UInt64) (type : CompType) (val1 val2 : UInt64) (size : OpSize) (isImm : Bool)
  | strcmp (rip : UInt64) (buf1 buf2 : {bs : List UInt8 // bs.length = REDQUEEN_MAX_STRCMP_LEN})

namespace RedqueenReport

/-- `%0<digits>X-%0<digits>X` of the masked operands. -/
def operandsText (val1 val2 : UInt64) (size : OpSize) : List Char :=
  printHex true (2 * size.bytes) (val1 &&& size.mask).toNat ++
    '-' :: printHex true (2 * size.bytes) (val2 &&& size.mask).toNat

/-- The two strings of `format_strcmp`, a byte as `%02X`. -/
def stringsText (buf1 buf2 : List UInt8) : List Char :=
  buf1.flatMap (fun b => printHex true 2 b.toNat) ++
    '-' :: buf2.flatMap fun b => printHex true 2 b.toNat

def line : RedqueenReport → List Char
  | comp addr type val1 val2 size isImm =>
    printHex false 1 addr.toNat ++ ['\t', '\t', ' '] ++ type.text ++ ' ' :: size.text ++
      '\t' :: operandsText val1 val2 size ++ if isImm then [' ', 'I', 'M', 'M'] else []
  | strcmp rip buf1 buf2 =>
    printHex false 1 rip.toNat ++ ['\t', '\t'] ++ ['S', 'T', 'R'] ++ ' ' :: ['5', '1', '2'] ++
      '\t' :: stringsText buf1.1 buf2.1

/-! What a report says: the address, the kind, the operands at their width with the most significant
byte first, and whether the second one is an immediate. -/

def addr : RedqueenReport → UInt64
  | comp addr .. => addr
  | strcmp rip .. => rip

def kind : RedqueenReport → List Char
  | comp _ type .. => type.text
  | strcmp .. => ['S', 'T', 'R']

def lhs : RedqueenReport → List UInt8
  | comp _ _ val1 _ size _ => (toLeBytes size.bytes val1.toNat).reverse
  | strcmp _ buf1 _ => buf1.1

def rhs : RedqueenReport → List UInt8
  | comp _ _ _ val2 size _ => (toLeBytes size.bytes val2.toNat).reverse
  | strcmp _ _ buf2 => buf2.1

def isImm : RedqueenReport → Bool
  | comp _ _ _ _ _ isImm => isImm
  | strcmp .. => false

def text (r : RedqueenReport) : List Char := r.line ++ ['\n']

end RedqueenReport

abbrev HookM := Exec Abort (List RedqueenReport)

def assert (c : Bool) : HookM Unit := if c then pure () else Exec.panic .assertFailed

def report (r : RedqueenReport) : HookM Unit := Exec.modify fun rs => rs ++ [r]

def printCompResult (addr : UInt64) (type : CompType) (val1 val2 : UInt64) (size : ℕ)
    (isImm : Bool) : HookM Unit :=
  match OpSize.ofBits size with
  | some size => report (.comp addr type val1 val2 size isImm)
  | none => Exec.panic .assertFailed

namespace Env

def evalReg (env : Env) : Reg → HookM (UInt64 × ℕ)
  | .r64 i => pure (env.regs i, 64)
  | .r32 i => pure (env.regs i &&& 0xffffffff, 32)
  | .r16 i => pure (env.regs i &&& 0xffff, 16)
  | .r8 i => pure (env.regs i &&& 0xff, 8)
  | .high i => pure ((env.regs (i.castLE (by decide)) >>> 8) &&& 0xff, 8)
  | .rip => pure (env.eip, 64)
  | .eip => pure (env.eip &&& 0xffffffff, 32)
  | .ip => pure (env.eip &&& 0xfffff, 16)
  | .other => Exec.panic .assertFailed

/-- `get_segment_register`, where the operand names a segment. -/
def getSegmentRegister (env : Env) : Option SegReg → HookM UInt64
  | none => pure 0
  | some .es => Exec.panic .assertFailed
  | some seg => pure (env.segBase seg)

def evalOptReg (env : Env) : Option Reg → HookM UInt64
  | none => pure 0
  | some r => do
    let (v, _) ← env.evalReg r
    pure v

def evalAddr (env : Env) (op : MemOperand) : HookM UInt64 := do
  let base ← env.evalOptReg op.base
  let index ← env.evalOptReg op.index
  let segment ← env.getSegmentRegister op.segment
  pure (segment + base + index * op.scale + op.disp)

/-- `eval_mem`. The result of the read is not looked at. -/
def evalMem (env : Env) (op : MemOperand) : HookM UInt64 := do
  let addr ← env.evalAddr op
  pure (UInt64.ofNat (fromLeBytes (env.read addr op.size).2.1))

def eval (env : Env) : Operand → HookM (UInt64 × ℕ)
  | .reg r => env.evalReg r
  | .imm v => pure (v, 0)
  | .mem op => do
    match op.size with
    | 1 => return ((← env.evalMem op) &&& 0xff, 8)
    | 2 => return ((← env.evalMem op) &&& 0xffff, 16)
    | 4 => return ((← env.evalMem op) &&& 0xffffffff, 32)
    | 8 => return (← env.evalMem op, 64)
    | _ => Exec.panic .assertFailed
  | .other => Exec.panic .assertFailed

end Env

def Operand.isImm : Operand → Bool
  | .imm _ => true
  | _ => false

def Insn.twoOperands (ins : Insn) : HookM (Operand × Operand) :=
  match ins.operands with
  | [op1, op2] => pure (op1, op2)
  | _ => Exec.panic .assertFailed

def getCmpValue (env : Env) (ins : Insn) (type : CompType) : HookM Unit := do
  let (op1, op2) ← ins.twoOperands
  let (v1, size1) ← env.eval op1
  let (v2, size2) ← env.eval op2
  if env.whitelist || v1 != v2 then
    printCompResult ins.address type v1 v2 (if size1 ≠ 0 then size1 else size2) op2.isImm
  else pure ()

def signExtendFromSize (value : UInt64) : ℕ → HookM UInt64
  | 64 => pure value
  | 32 => pure (if value &&& 0x80000000 ≠ 0 then 0xffffffff00000000 ||| value else value)
  | 16 => pure (if value &&& 0x8000 ≠ 0 then 0xffffffffffff0000 ||| value else value)
  | 8 => pure (if value &&& 0x80 ≠ 0 then 0xffffffffffffff00 ||| value else value)
  | _ => Exec.panic .assertFailed

def getCmpValueAdd (env : Env) (ins : Insn) : HookM Unit := do
  let (op1, op2) ← ins.twoOperands
  let (v1, size1) ← env.eval op1
  let (imm, _) ← env.eval op2
  let extended ← signExtendFromSize imm size1
  let v2 := -extended
  if !op2.isImm then pure ()
  else if env.whitelist || v1 != v2 then
    printCompResult ins.address .sub v1 v2 size1 true
  else pure ()

/-- `get_cmp_value_lea`: only one of the two registers is there. The size is computed in 8 bits. -/
def getCmpValueLea (env : Env) (ins : Insn) : HookM Unit := do
  let (_, op2) ← ins.twoOperands
  match op2 with
  | .mem op =>
    if op.base.isSome && op.index.isSome then pure ()
    else if op.base.isNone && op.index.isNone then pure ()
    else do
      let indexVal ← env.evalOptReg (if op.index.isSome then op.index else op.base)
      if env.whitelist || indexVal != -op.disp then
        printCompResult ins.address .lea indexVal (-op.disp) (op.size * 8 % 256) false
      else pure ()
  | _ => Exec.panic .assertFailed

def limitToWordWidth (env : Env) (val : UInt64) : HookM UInt64 :=
  match env.wordWidth with
  | 64 => pure val
  | 32 => pure (val &&& 0xffffffff)
  | _ => Exec.panic .assertFailed

scoped instance neZeroSixteen : NeZero 16 := ⟨by decide⟩

def RCX : Fin 16 := 1
def RDX : Fin 16 := 2
def RSP : Fin 16 := 4
def RSI : Fin 16 := 6
def RDI : Fin 16 := 7

/-- `assert(read_virtual_memory(..))` and the bytes. -/
def readChecked (env : Env) (addr : UInt64) (n : ℕ) : HookM {bs : List UInt8 // bs.length = n} := do
  assert (env.read addr n).1
  pure (env.read addr n).2

def readStack (env : Env) (wordIndex : UInt64) : HookM UInt64 := do
  let rsp ← limitToWordWidth env (env.regs RSP)
  let bytes := if env.wordWidth = 64 then 8 else 4
  let res ← readChecked env (rsp + wordIndex * bytes) 8
  limitToWordWidth env (UInt64.ofNat (fromLeBytes res.1))

def formatStrcmp (env : Env)
    (buf1 buf2 : {bs : List UInt8 // bs.length = REDQUEEN_MAX_STRCMP_LEN}) : HookM Unit :=
  report (.strcmp env.eip buf1 buf2)

/-- `memset(buf2, 0)` and `buf2[0] = arg2`. -/
def charBuf (arg : UInt64) : {bs : List UInt8 // bs.length = REDQUEEN_MAX_STRCMP_LEN} :=
  ⟨UInt8.ofNat arg.toNat :: List.replicate 63 0, by simp [REDQUEEN_MAX_STRCMP_LEN]⟩

def testStrchr (env : Env) (arg1 arg2 : UInt64) : HookM Bool :=
  if !env.mapped arg1 || arg2 &&& 0xffffffffffffff00 != 0 then pure false
  else do
    let buf1 ← readChecked env arg1 REDQUEEN_MAX_STRCMP_LEN
    if !buf1.1.contains 0 then pure false
    else do
      formatStrcmp env buf1 (charBuf arg2)
      pure true

def testStrcmp (env : Env) (arg1 arg2 : UInt64) : HookM Bool :=
  if !env.mapped arg1 || !env.mapped arg2 then pure false
  else do
    let buf1 ← readChecked env arg1 REDQUEEN_MAX_STRCMP_LEN
    let buf2 ← readChecked env arg2 REDQUEEN_MAX_STRCMP_LEN
    formatStrcmp env buf1 buf2
    pure true

def testBoth (env : Env) (arg1 arg2 : UInt64) : HookM Bool := do
  let _ ← testStrchr env arg1 arg2
  testStrcmp env arg1 arg2

def testStrcmpCdecl (env : Env) : HookM Bool := do
  let arg1 ← readStack env 0
  let arg2 ← readStack env 1
  testBoth env arg1 arg2

def testStrcmpFastcall (env : Env) : HookM Bool := testBoth env (env.regs RCX) (env.regs RDX)

def testStrcmpSysV (env : Env) : HookM Bool :=
  if env.wordWidth ≠ 64 then pure false else testBoth env (env.regs RDI) (env.regs RSI)

def extractCallParams (env : Env) : HookM Unit := do
  let _ ← testStrcmpCdecl env
  let _ ← testStrcmpFastcall env
  let _ ← testStrcmpSysV env
  pure ()

def handleHookRedqueenLight (env : Env) (ins : Insn) : HookM Unit :=
  match ins.id with
  | .cmp | .xor => getCmpValue env ins .cmp
  | .sub => getCmpValue env ins .sub
  | .lea => getCmpValueLea env ins
  | .add => getCmpValueAdd env ins
  | .call | .lcall => extractCallParams env
  | .other => pure ()

def RBP : Fin 16 := 5

/-- `is_interessting_lea_at`: the LEA instructions that are hooked while the trace is decoded. -/
def isInteresstingLeaAt (ins : Insn) : HookM Bool := do
  let (_, op2) ← ins.twoOperands
  match op2 with
  | .mem op =>
    let res := 2 ^ 63 ≤ op.disp.toNat && -op.disp > 0xff && op.scale == 1 && op.base.isNone &&
      op.index.isSome
    let boring := op.index ∈ [some .eip, some .rip, some (.r32 RBP), some (.r64 RBP)]
    pure (res && !boring)
  | _ => Exec.panic .assertFailed

end Nyx.Redqueen
