import FreeProbe.Vm.Ebpf
import Mathlib.Logic.Function.Basic

/-!
# `Vm.Jit` — `generateModule`, the LLVM JIT's front end

The passes of `compiler.cpp` over an instruction vector: block splitting, block creation, emission, and the
branches added to blocks without a terminator. Of the emitted code the model keeps, for each instruction, what
control flow and relocation depend on; the code of the other instructions is `plain`.
-/

namespace Vm

/-! ## Results -/

/-- The `llvm::StringError`s of `generateModule`. -/
inductive JitError where
  | noInstructions
  | illegalRegister (pc : Nat)
  | invalidMovsxOffset (offset : Int) (pc : Nat)
  | unexpectedEndianSize (imm : Int)
  | lddwLast (pc : Nat)
  | lddwIllegalNext (pc : Nat)
  | mapValNotProvided (pc : Nat)
  | lddw2WithoutMapVal (pc : Nat)
  | lddw6WithoutMapVal (pc : Nat)
  | varAddrNotProvided (pc : Nat)
  | codeAddrNotProvided (pc : Nat)
  | illegalPosition (pc dstBlkId : Nat)
  | extFuncNotFound (index : BitVec 32)
  | unsupportedAtomic (imm : Int)
  | unsupportedOpcode (opcode : BitVec 8) (pc : Nat)
  | invalidModule
deriving DecidableEq, Repr

/-- `_bpf_helper_ext_%04u` -/
def extFuncSym (index : BitVec 32) : String :=
  let digits := toString index.toNat
  "_bpf_helper_ext_" ++ String.ofList (List.replicate (4 - digits.length) '0') ++ digits

def JitError.message : JitError → String
  | noInstructions => "No instructions provided"
  | illegalRegister pc => "Illegal src reg/dst reg at pc " ++ toString pc
  | invalidMovsxOffset offset pc => "Invalid offset " ++ toString offset ++ " for movsx at pc " ++ toString pc
  | unexpectedEndianSize imm => "Unexpected endian size: " ++ toString imm
  | lddwLast pc =>
    "Loaded LDDW at pc=" ++ toString pc ++
      " which requires an extra pseudo instruction, but it's the last instruction"
  | lddwIllegalNext pc =>
    "Loaded LDDW at pc=" ++ toString pc ++
      " which requires an extra pseudo instruction, but the next instruction is not a legal one"
  | mapValNotProvided pc => "map_val is not provided, unable to compile at pc " ++ toString pc
  | lddw2WithoutMapVal pc => "Using lddw helper 2, which requires map_val to be defined at pc " ++ toString pc
  | lddw6WithoutMapVal pc => "Using lddw helper 6 at pc " ++ toString pc
  | varAddrNotProvided pc => "var_addr is not provided, unable to compile at pc " ++ toString pc
  | codeAddrNotProvided pc => "code_addr is not provided, unable to compile at pc " ++ toString pc
  | illegalPosition pc dstBlkId =>
    "Instruction at pc=" ++ toString pc ++ " is going to jump to an illegal position " ++ toString dstBlkId
  | extFuncNotFound index => "Ext func not found: " ++ extFuncSym index
  | unsupportedAtomic imm => "Unsupported atomic operation: " ++ toString imm
  | unsupportedOpcode opcode pc =>
    "Unsupported or illegal opcode: " ++ toString opcode.toNat ++ " at pc " ++ toString pc
  | invalidModule => "Invalid module generated"

/-- How a call of `generateModule` can end without a module. -/
inductive JitFault where
  | error (e : JitError)
  /-- An access out of the range of a container, or a failed assertion. -/
  | undefined
  /-- A loop that does not end. -/
  | diverges
deriving DecidableEq, Repr

abbrev JitResult := Except JitFault

/-! ## Arguments -/

/-- The callbacks of `set_lddw_helpers`; `none` is a null pointer. -/
structure LddwHelpers where
  mapByFd  : Option (BitVec 32 → BitVec 64)
  mapByIdx : Option (BitVec 32 → BitVec 64)
  mapVal   : Option (BitVec 64 → BitVec 64)
  varAddr  : Option (BitVec 32 → BitVec 64)
  codeAddr : Option (BitVec 32 → BitVec 64)

/-- What `generateModule` reads of the VM, and its arguments. A helper's symbol is one for each index, so
    `extFuncNames` is the list of indices. -/
structure JitArgs where
  insts                    : Insts
  lddw                     : LddwHelpers
  extFuncs                 : List (BitVec 32)
  /-- `LDDW_HELPER_MAP_VAL` is one of `lddwHelpers`. -/
  mapValHelper             : Bool
  patchMapValAtCompileTime : Bool
  isGpu                    : Bool

/-! ## Emitted code -/

/-- What an `LDDW` stores in its register. -/
inductive LddwValue where
  | const (value : BitVec 64)
  /-- The result of a call of `map_val` at run time, plus a constant. -/
  | mapVal (mapPtr offset : BitVec 64)
  /-- Nothing is stored. -/
  | unset
deriving DecidableEq, Repr

/-- The code of one instruction. -/
inductive Code where
  | plain
  | lddw (value : LddwValue)
  | helper (index : BitVec 32)
  /-- `bpf_tail_call`: the call, then the branch to the exit block. -/
  | tailCall (index : BitVec 32)
  | br (dst : Nat)
  | condBr (dst next : Nat)
  /-- Push the return block and `r6` to `r9`, move `r10`, and branch. -/
  | localCall (dst ret : Nat)
  /-- To the exit block if no call is open, else to the block that pops the call. -/
  | exitOrReturn
deriving DecidableEq, Repr

def Code.isTerminator : Code → Bool
  | plain | lddw _ | helper _ => false
  | tailCall _ | br _ | condBr _ _ | localCall _ _ | exitOrReturn => true

structure Emitted where
  pc   : Nat
  inst : EbpfInst
  code : Code
deriving DecidableEq, Repr

/-! ## Block splitting -/

def isJmp (insn : EbpfInst) : Bool :=
  insn.opcode &&& EBPF_CLS_MASK == EBPF_CLS_JMP || insn.opcode &&& EBPF_CLS_MASK == EBPF_CLS_JMP32

def isImmJmp (insn : EbpfInst) : Bool := insn.opcode == EBPF_OP_JA_IMM

/-- One round of the loop. The store for an `EBPF_OP_JA_IMM` has no range check. -/
def splitStep (insts : Insts) (blockBegin : Nat → Bool) (i : Nat) : JitResult (Nat → Bool) :=
  let curr := insts.inst i
  let blockBegin := if i > 0 && isJmp (insts.inst (i - 1)) then Function.update blockBegin i true else blockBegin
  if isImmJmp curr then
    let target := curr.immTarget i
    if 0 ≤ target ∧ target < insts.length then .ok (Function.update blockBegin target.toNat true)
    else .error .undefined
  else
    let target := curr.offsetTarget i
    if isJmp curr ∧ 0 ≤ target ∧ target < insts.length then .ok (Function.update blockBegin target.toNat true)
    else .ok blockBegin

def splitBlocks (insts : Insts) : JitResult (Nat → Bool) :=
  (List.range insts.length).foldlM (splitStep insts) (Function.update (fun _ => false) 0 true)

/-! ## Emission -/

/-- A target as a `uint16_t`. -/
def dstBlkId (target : Int) : Nat := (BitVec.ofInt 16 target).toNat

section Emission

variable (args : JitArgs) (blockBegin : Nat → Bool)

/-- `localFuncRetBlks.contains(i)` -/
def isLocalFuncRetBlk (i : Nat) : Bool :=
  blockBegin i && decide (i > 1) && (args.insts.inst (i - 1)).opcode == EBPF_OP_CALL &&
    (args.insts.inst (i - 1)).src == 0x1

/-- `loadJmpDstBlock`, `loadCallDstBlock` and `loadJmpNextBlock`: `instBlocks` at the target as a `uint16_t`. -/
def loadBlock (pc : Nat) (target : Int) : JitResult Nat :=
  if blockBegin (dstBlkId target) then .ok (dstBlkId target)
  else .error (.error (.illegalPosition pc (dstBlkId target)))

def emitMov (pc : Nat) (inst : EbpfInst) : JitResult Code :=
  if inst.offset = 0 ∨ inst.offset = 8 ∨ inst.offset = 16 ∨ inst.offset = 32 then .ok .plain
  else .error (.error (.invalidMovsxOffset inst.offset.toInt pc))

def emitEndian (inst : EbpfInst) : JitResult Code :=
  if inst.imm = 16 ∨ inst.imm = 32 ∨ inst.imm = 64 then .ok .plain
  else .error (.error (.unexpectedEndianSize inst.imm.toInt))

def emitAtomic (inst : EbpfInst) : JitResult Code :=
  if inst.imm ∈ [EBPF_ATOMIC_ADD, EBPF_ATOMIC_ADD ||| EBPF_ATOMIC_OP_FETCH, EBPF_ATOMIC_AND,
      EBPF_ATOMIC_AND ||| EBPF_ATOMIC_OP_FETCH, EBPF_ATOMIC_OR, EBPF_ATOMIC_OR ||| EBPF_ATOMIC_OP_FETCH,
      EBPF_ATOMIC_XOR, EBPF_ATOMIC_XOR ||| EBPF_ATOMIC_OP_FETCH, EBPF_ATOMIC_OP_XCHG, EBPF_ATOMIC_OP_CMPXCHG] then
    .ok .plain
  else .error (.error (.unsupportedAtomic inst.imm.toInt))

/-- The map an immediate names; without the callback, the immediate itself. -/
def mapOf (mapBy : Option (BitVec 32 → BitVec 64)) (imm : BitVec 32) : BitVec 64 :=
  match mapBy with
  | some f => f imm
  | none => imm.signExtend 64

/-- `src` 2 and 6: the value of a map, plus an offset. -/
def emitMapVal (pc : Nat) (mapPtr : BitVec 64) (offset : BitVec 32) (withoutMapVal : JitError) :
    JitResult LddwValue :=
  if args.patchMapValAtCompileTime then
    match args.lddw.mapVal with
    | some mapVal => .ok (.const (mapVal mapPtr + offset.signExtend 64))
    | none => .error (.error (.mapValNotProvided pc))
  else if args.mapValHelper then .ok (.mapVal mapPtr (offset.signExtend 64))
  else .error (.error withoutMapVal)

/-- The value of an `LDDW`, by the kind in its `src`. -/
def lddwValue (pc : Nat) (inst nextinst : EbpfInst) : JitResult LddwValue :=
  if inst.src = 0 then
    .ok (.const (inst.imm.setWidth 64 ||| nextinst.imm.setWidth 64 <<< 32))
  else if inst.src = 1 then .ok (.const (mapOf args.lddw.mapByFd inst.imm))
  else if inst.src = 2 then
    emitMapVal args pc (mapOf args.lddw.mapByFd inst.imm) nextinst.imm (.lddw2WithoutMapVal pc)
  else if inst.src = 3 then
    match args.lddw.varAddr with
    | some varAddr => .ok (.const (varAddr inst.imm))
    | none => .error (.error (.varAddrNotProvided pc))
  else if inst.src = 4 then
    match args.lddw.codeAddr with
    | some codeAddr => .ok (.const (codeAddr inst.imm))
    | none => .error (.error (.codeAddrNotProvided pc))
  else if inst.src = 5 then .ok (.const (mapOf args.lddw.mapByIdx inst.imm))
  else if inst.src = 6 then
    emitMapVal args pc (mapOf args.lddw.mapByIdx inst.imm) nextinst.imm (.lddw6WithoutMapVal pc)
  else .ok .unset

def emitLddw (pc : Nat) (inst : EbpfInst) : JitResult Code :=
  if pc + 1 ≥ args.insts.length then .error (.error (.lddwLast pc))
  else
    let nextinst := args.insts.inst (pc + 1)
    if nextinst.opcode ≠ 0 ∨ nextinst.dst ≠ 0 ∨ nextinst.src ≠ 0 ∨ nextinst.offset ≠ 0 then
      .error (.error (.lddwIllegalNext pc))
    else do return .lddw (← lddwValue args pc inst nextinst)

/-- `emitExtFuncCall` -/
def emitExtFuncCall (inst : EbpfInst) : JitResult Code :=
  if inst.imm ∈ args.extFuncs then
    if inst.imm = 12 then .ok (.tailCall inst.imm) else .ok (.helper inst.imm)
  else .error (.error (.extFuncNotFound inst.imm))

/-- The assertion that the instruction after a local call is a return block comes before the lookup of the
    target. -/
def emitCall (pc : Nat) (inst : EbpfInst) : JitResult Code :=
  if inst.src = 0x1 then
    if isLocalFuncRetBlk args blockBegin (pc + 1) then do
      let dstBlk ← loadBlock blockBegin pc (inst.immTarget pc)
      return .localCall dstBlk (pc + 1)
    else .error .undefined
  else emitExtFuncCall args inst

def emitCondJmp (pc : Nat) (inst : EbpfInst) : JitResult Code := do
  let dstBlk ← loadBlock blockBegin pc (inst.offsetTarget pc)
  let nextBlk ← loadBlock blockBegin pc (pc + 1)
  return .condBr dstBlk nextBlk

/-- The `switch` on the opcode, with the check of the registers before it. -/
def emitInst (pc : Nat) : JitResult Code :=
  let inst := args.insts.inst pc
  if inst.dst > 10 ∨ inst.src > 10 then .error (.error (.illegalRegister pc))
  else if inst.opcode ∈ aluOpcodes ∨ inst.opcode = EBPF_OP_NEG ∨ inst.opcode = EBPF_OP_NEG64 then .ok .plain
  else if inst.opcode ∈ movOpcodes then emitMov pc inst
  else if inst.opcode = EBPF_OP_LE ∨ inst.opcode = EBPF_OP_BE ∨ inst.opcode = EBPF_OP_BYTESWAP then emitEndian inst
  else if inst.opcode ∈ storeOpcodes ∨ inst.opcode ∈ loadOpcodes then .ok .plain
  else if inst.opcode = EBPF_OP_LDDW then emitLddw args pc inst
  else if inst.opcode = EBPF_OP_JA then do return .br (← loadBlock blockBegin pc (inst.offsetTarget pc))
  else if inst.opcode = EBPF_OP_JA_IMM then do return .br (← loadBlock blockBegin pc (inst.immTarget pc))
  else if inst.opcode = EBPF_OP_CALL ∨ inst.opcode = EBPF_OP_CALL ||| 0x8 then emitCall args blockBegin pc inst
  else if inst.opcode = EBPF_OP_EXIT then .ok .exitOrReturn
  else if inst.opcode ∈ condJmpOpcodes then emitCondJmp blockBegin pc inst
  else if inst.opcode = EBPF_ATOMIC_OPCODE_32 ∨ inst.opcode = EBPF_ATOMIC_OPCODE_64 then emitAtomic inst
  else .error (.error (.unsupportedOpcode inst.opcode pc))

/-- The loop over the instructions from `pc` on, with the block that code goes to: what it emits, each piece
    with its block. One round takes at least one instruction, so the number of instructions is fuel enough. -/
def emitFrom : Nat → Nat → Nat → JitResult (List (Nat × Emitted))
  | 0, _, _ => .ok []
  | fuel + 1, pc, currBB =>
    if pc < args.insts.length then do
      let currBB := if blockBegin pc then pc else currBB
      let code ← emitInst args blockBegin pc
      let inst := args.insts.inst pc
      let rest ← emitFrom fuel (pc + inst.width) currBB
      return (currBB, ⟨pc, inst, code⟩) :: rest
    else .ok []

end Emission

/-! ## The module -/

/-- The blocks of the instructions, in order, and the code in them. -/
structure Module where
  labels : List Nat
  code   : List (Nat × Emitted)

/-- The pieces in a block. -/
def codeIn (label : Nat) (code : List (Nat × Emitted)) : List Emitted :=
  (code.filter fun c => c.1 == label).map Prod.snd

namespace Module

def block (m : Module) (label : Nat) : List Emitted := codeIn label m.code

/-- The blocks that `allBlocks` has after a block. -/
def after (m : Module) (label : Nat) : List Nat := m.labels.filter fun l => label < l

def hasTerminator (m : Module) (label : Nat) : Bool := (m.block label).any fun e => e.code.isTerminator

/-- `verifyModule`, after each block but the last that has no terminator got a branch to the next one. -/
def verify (m : Module) : Bool := m.labels.all fun label => m.hasTerminator label || ! (m.after label).isEmpty

end Module

/-- `generateModule`. The loops over the instructions count with a `uint16_t`. -/
def generateModule (args : JitArgs) : JitResult Module :=
  if args.insts.isEmpty then .error (.error .noInstructions)
  else if args.insts.length > 0xffff then .error .diverges
  else do
    let blockBegin ← splitBlocks args.insts
    let code ← emitFrom args blockBegin args.insts.length 0 0
    let m : Module := ⟨(List.range args.insts.length).filter blockBegin, code⟩
    if !args.isGpu && !m.verify then .error (.error .invalidModule) else .ok m

end Vm
