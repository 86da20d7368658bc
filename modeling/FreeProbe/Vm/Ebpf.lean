import Mathlib.Data.BitVec

/-!
# `Vm.Ebpf` — eBPF instructions

`ebpf_inst.h`: the instruction record, the opcodes, and how the opcodes of one kind are built from a class, a
source bit and an operation.
-/

namespace Vm

/-- `ebpf_inst`; `offset` and `imm` are signed. -/
structure EbpfInst where
  opcode : BitVec 8
  dst    : BitVec 4
  src    : BitVec 4
  offset : BitVec 16
  imm    : BitVec 32
deriving DecidableEq, Repr

/-- What an access that no check guards would read; no such access is made. -/
instance : Inhabited EbpfInst := ⟨⟨0, 0, 0, 0, 0⟩⟩

instance lawfulBEqOpcode : LawfulBEq (BitVec 8) := inferInstance

instance lawfulBEqImm : LawfulBEq (BitVec 32) := inferInstance

/-! ## Opcode fields -/

def EBPF_CLS_MASK : BitVec 8 := 0x07

def EBPF_CLS_LD : BitVec 8 := 0x00
def EBPF_CLS_LDX : BitVec 8 := 0x01
def EBPF_CLS_ST : BitVec 8 := 0x02
def EBPF_CLS_STX : BitVec 8 := 0x03
def EBPF_CLS_ALU : BitVec 8 := 0x04
def EBPF_CLS_JMP : BitVec 8 := 0x05
def EBPF_CLS_JMP32 : BitVec 8 := 0x06
def EBPF_CLS_ALU64 : BitVec 8 := 0x07

def EBPF_SRC_IMM : BitVec 8 := 0x00
def EBPF_SRC_REG : BitVec 8 := 0x08

def EBPF_SIZE_W : BitVec 8 := 0x00
def EBPF_SIZE_H : BitVec 8 := 0x08
def EBPF_SIZE_B : BitVec 8 := 0x10
def EBPF_SIZE_DW : BitVec 8 := 0x18

def EBPF_MODE_IMM : BitVec 8 := 0x00
def EBPF_MODE_MEM : BitVec 8 := 0x60
def EBPF_MODE_ATOMIC : BitVec 8 := 0xc0

def EBPF_ALU_OP_ADD : BitVec 8 := 0x00
def EBPF_ALU_OP_SUB : BitVec 8 := 0x10
def EBPF_ALU_OP_MUL : BitVec 8 := 0x20
def EBPF_ALU_OP_DIV : BitVec 8 := 0x30
def EBPF_ALU_OP_OR : BitVec 8 := 0x40
def EBPF_ALU_OP_AND : BitVec 8 := 0x50
def EBPF_ALU_OP_LSH : BitVec 8 := 0x60
def EBPF_ALU_OP_RSH : BitVec 8 := 0x70
def EBPF_ALU_OP_NEG : BitVec 8 := 0x80
def EBPF_ALU_OP_MOD : BitVec 8 := 0x90
def EBPF_ALU_OP_XOR : BitVec 8 := 0xa0
def EBPF_ALU_OP_MOV : BitVec 8 := 0xb0
def EBPF_ALU_OP_ARSH : BitVec 8 := 0xc0
def EBPF_ALU_OP_END : BitVec 8 := 0xd0

def EBPF_MODE_JA : BitVec 8 := 0x00
def EBPF_MODE_JEQ : BitVec 8 := 0x10
def EBPF_MODE_JGT : BitVec 8 := 0x20
def EBPF_MODE_JGE : BitVec 8 := 0x30
def EBPF_MODE_JSET : BitVec 8 := 0x40
def EBPF_MODE_JNE : BitVec 8 := 0x50
def EBPF_MODE_JSGT : BitVec 8 := 0x60
def EBPF_MODE_JSGE : BitVec 8 := 0x70
def EBPF_MODE_CALL : BitVec 8 := 0x80
def EBPF_MODE_EXIT : BitVec 8 := 0x90
def EBPF_MODE_JLT : BitVec 8 := 0xa0
def EBPF_MODE_JLE : BitVec 8 := 0xb0
def EBPF_MODE_JSLT : BitVec 8 := 0xc0
def EBPF_MODE_JSLE : BitVec 8 := 0xd0

def EBPF_ATOMIC_ADD : BitVec 32 := 0x00
def EBPF_ATOMIC_OR : BitVec 32 := 0x40
def EBPF_ATOMIC_AND : BitVec 32 := 0x50
def EBPF_ATOMIC_XOR : BitVec 32 := 0xa0
def EBPF_ATOMIC_OP_FETCH : BitVec 32 := 0x01
def EBPF_ATOMIC_OP_XCHG : BitVec 32 := 0xe0 ||| EBPF_ATOMIC_OP_FETCH
def EBPF_ATOMIC_OP_CMPXCHG : BitVec 32 := 0xf0 ||| EBPF_ATOMIC_OP_FETCH

/-! ## Opcodes -/

def EBPF_OP_LDDW : BitVec 8 := EBPF_CLS_LD ||| EBPF_MODE_IMM ||| EBPF_SIZE_DW
def EBPF_OP_LE : BitVec 8 := EBPF_CLS_ALU ||| EBPF_SRC_IMM ||| EBPF_ALU_OP_END
def EBPF_OP_BE : BitVec 8 := EBPF_CLS_ALU ||| EBPF_SRC_REG ||| EBPF_ALU_OP_END
def EBPF_OP_BYTESWAP : BitVec 8 := EBPF_CLS_ALU64 ||| EBPF_SRC_IMM ||| EBPF_ALU_OP_END
def EBPF_OP_NEG : BitVec 8 := EBPF_CLS_ALU ||| EBPF_ALU_OP_NEG
def EBPF_OP_NEG64 : BitVec 8 := EBPF_CLS_ALU64 ||| EBPF_ALU_OP_NEG
def EBPF_OP_JA : BitVec 8 := EBPF_CLS_JMP ||| EBPF_MODE_JA
def EBPF_OP_JA_IMM : BitVec 8 := EBPF_CLS_JMP32 ||| EBPF_MODE_JA
def EBPF_OP_CALL : BitVec 8 := EBPF_CLS_JMP ||| EBPF_MODE_CALL
def EBPF_OP_EXIT : BitVec 8 := EBPF_CLS_JMP ||| EBPF_MODE_EXIT
def EBPF_ATOMIC_OPCODE_32 : BitVec 8 := EBPF_MODE_ATOMIC ||| EBPF_SIZE_W ||| EBPF_CLS_STX
def EBPF_ATOMIC_OPCODE_64 : BitVec 8 := EBPF_MODE_ATOMIC ||| EBPF_SIZE_DW ||| EBPF_CLS_STX

/-- The opcodes with a class, a middle field (source bit or mode) and an operation (or size) of the lists. -/
def opcodes (classes middles ops : List (BitVec 8)) : List (BitVec 8) :=
  ops.flatMap fun op => classes.flatMap fun cls => middles.map fun middle => cls ||| middle ||| op

/-- `EBPF_OP_ADD_IMM` to `EBPF_OP_ARSH64_REG`, for the operations on two operands other than the moves. -/
def aluOpcodes : List (BitVec 8) :=
  opcodes [EBPF_CLS_ALU, EBPF_CLS_ALU64] [EBPF_SRC_IMM, EBPF_SRC_REG]
    [EBPF_ALU_OP_ADD, EBPF_ALU_OP_SUB, EBPF_ALU_OP_MUL, EBPF_ALU_OP_DIV, EBPF_ALU_OP_OR, EBPF_ALU_OP_AND,
      EBPF_ALU_OP_LSH, EBPF_ALU_OP_RSH, EBPF_ALU_OP_MOD, EBPF_ALU_OP_XOR, EBPF_ALU_OP_ARSH]

/-- `EBPF_OP_MOV_IMM` to `EBPF_OP_MOV64_REG` -/
def movOpcodes : List (BitVec 8) :=
  opcodes [EBPF_CLS_ALU, EBPF_CLS_ALU64] [EBPF_SRC_IMM, EBPF_SRC_REG] [EBPF_ALU_OP_MOV]

def sizes : List (BitVec 8) := [EBPF_SIZE_B, EBPF_SIZE_H, EBPF_SIZE_W, EBPF_SIZE_DW]

/-- `EBPF_OP_LDXB` to `EBPF_OP_LDXDW` -/
def loadOpcodes : List (BitVec 8) := opcodes [EBPF_CLS_LDX] [EBPF_MODE_MEM] sizes

/-- `EBPF_OP_STB` to `EBPF_OP_STXDW` -/
def storeOpcodes : List (BitVec 8) := opcodes [EBPF_CLS_ST, EBPF_CLS_STX] [EBPF_MODE_MEM] sizes

/-- `EBPF_OP_JEQ_IMM` to `EBPF_OP_JSLE32_REG` -/
def condJmpOpcodes : List (BitVec 8) :=
  opcodes [EBPF_CLS_JMP, EBPF_CLS_JMP32] [EBPF_SRC_IMM, EBPF_SRC_REG]
    [EBPF_MODE_JEQ, EBPF_MODE_JGT, EBPF_MODE_JGE, EBPF_MODE_JSET, EBPF_MODE_JNE, EBPF_MODE_JSGT, EBPF_MODE_JSGE,
      EBPF_MODE_JLT, EBPF_MODE_JLE, EBPF_MODE_JSLT, EBPF_MODE_JSLE]

/-! ## Programs -/

/-- A program's instruction vector. -/
abbrev Insts := List EbpfInst

/-- `insts[i]` -/
def Insts.inst (insts : Insts) (i : Nat) : EbpfInst := insts.getD i default

/-- How many slots the instruction takes. -/
def EbpfInst.width (inst : EbpfInst) : Nat := if inst.opcode = EBPF_OP_LDDW then 2 else 1

/-- `pc + 1 + offset`, with no truncation. -/
def EbpfInst.offsetTarget (inst : EbpfInst) (pc : Nat) : Int := pc + 1 + inst.offset.toInt

/-- `pc + 1 + imm`, with no truncation. -/
def EbpfInst.immTarget (inst : EbpfInst) (pc : Nat) : Int := pc + 1 + inst.imm.toInt

end Vm
