import Mathlib.Tactic.Common

/-!
# Decoded instructions

What `pt/disassembler.c` takes from a decoded instruction: its class by the tables of
`opcode_analyzer`, its size, and the target in its operand text.
-/

namespace Nyx.Pt

inductive X86Ins where
  | jae | ja | jbe | jb | jcxz | jecxz | je | jge | jg | jle | jl | jne | jno | jnp | jns | jo | jp
  | jrcxz | js | loop | loope | loopne
  | jmp | call | ret
  | int3 | int | int1 | into | iret | iretd | iretq
  | syscall | sysenter | sysexit | sysret | vmlaunch | vmresume | ud0 | ud2 | ud2b
  | other (id : ℕ)
  deriving DecidableEq

/-- The fields of `cs_insn` and its detail that are read; the address is the one it is read from. -/
structure CsInsn where
  id : X86Ins
  modrm : UInt8
  /-- The first byte of `detail->x86.opcode`. -/
  opcode : UInt8
  size : UInt16
  opStr : List Char
  deriving DecidableEq

inductive CofiType where
  | conditionalBranch
  | unconditionalDirectBranch
  | indirectBranch
  | nearRet
  | farTransfers
  | noCofiType
  | disassemblyPending
  | outOfBounds
  | infiniteLoop
  | pageCacheFailed
  deriving DecidableEq

/-- `cofi_ins`, an entry of the opcode tables. -/
structure CofiIns where
  opcode : X86Ins
  modrm : UInt8
  opcodePrefix : UInt8

def ignModRm : UInt8 := 0

def ignOpcode : UInt8 := 0

def modrmReg (x : UInt8) : UInt8 := x <<< 3

def modrmAnd : UInt8 := 0b00111000

def cbLookup : List CofiIns :=
  [.jae, .ja, .jbe, .jb, .jcxz, .jecxz, .je, .jge, .jg, .jle, .jl, .jne, .jno, .jnp, .jns, .jo, .jp,
    .jrcxz, .js, .loop, .loope, .loopne].map fun opcode => ⟨opcode, ignModRm, ignOpcode⟩

def udbLookup : List CofiIns :=
  [⟨.jmp, ignModRm, 0xe9⟩, ⟨.jmp, ignModRm, 0xeb⟩, ⟨.call, ignModRm, 0xe8⟩]

def ibLookup : List CofiIns := [⟨.jmp, modrmReg 4, 0xff⟩, ⟨.call, modrmReg 2, 0xff⟩]

def nrLookup : List CofiIns := [⟨.ret, ignModRm, 0xc3⟩, ⟨.ret, ignModRm, 0xc2⟩]

def ftLookup : List CofiIns :=
  ([.int3, .int, .int1, .into, .iret, .iretd, .iretq].map
    fun opcode => ⟨opcode, ignModRm, ignOpcode⟩) ++
  [⟨.jmp, ignModRm, 0xea⟩, ⟨.jmp, modrmReg 5, 0xff⟩, ⟨.call, ignModRm, 0x9a⟩,
    ⟨.call, modrmReg 3, 0xff⟩, ⟨.ret, ignModRm, 0xcb⟩, ⟨.ret, ignModRm, 0xca⟩] ++
  [.syscall, .sysenter, .sysexit, .sysret, .vmlaunch, .vmresume, .ud0, .ud2, .ud2b].map
    fun opcode => ⟨opcode, ignModRm, ignOpcode⟩

def lookupTables : List (CofiType × List CofiIns) :=
  [(.conditionalBranch, cbLookup), (.unconditionalDirectBranch, udbLookup),
    (.indirectBranch, ibLookup), (.nearRet, nrLookup), (.farTransfers, ftLookup)]

namespace CsInsn

def fits (ins : CsInsn) (entry : CofiIns) : Bool :=
  ins.id = entry.opcode &&
    (entry.modrm = ignModRm || entry.modrm = ins.modrm &&& modrmAnd) &&
    (entry.opcodePrefix = ignOpcode || entry.opcodePrefix = ins.opcode)

def opcodeAnalyzer (ins : CsInsn) : CofiType :=
  match lookupTables.find? fun table => table.2.any ins.fits with
  | some table => table.1
  | none => .noCofiType

/-- `hex_to_bin` of the operand text. -/
def target (ins : CsInsn) : UInt64 :=
  let digits :=
    match ins.opStr with
    | _ :: 'x' :: digits => digits
    | _ :: 'X' :: digits => digits
    | digits => digits
  digits.foldl (fun (result : UInt64) c => (result <<< 4) +
    ((9 : UInt64) * (UInt64.ofNat c.toNat >>> 6) + (UInt64.ofNat c.toNat &&& 0o17))) 0

lemma opcodeAnalyzer_cases (ins : CsInsn) :
    ins.opcodeAnalyzer = .conditionalBranch ∨ ins.opcodeAnalyzer = .unconditionalDirectBranch ∨
      ins.opcodeAnalyzer = .indirectBranch ∨ ins.opcodeAnalyzer = .nearRet ∨
      ins.opcodeAnalyzer = .farTransfers ∨ ins.opcodeAnalyzer = .noCofiType := by
  rw [opcodeAnalyzer]
  cases h : lookupTables.find? fun table => table.2.any ins.fits with
  | none => simp
  | some table =>
    have hmem := List.mem_of_find?_eq_some h
    simp only [lookupTables, List.mem_cons, List.not_mem_nil, or_false] at hmem
    rcases hmem with rfl | rfl | rfl | rfl | rfl <;> simp

end CsInsn

end Nyx.Pt
