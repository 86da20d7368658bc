import FreeProbe.Vm.Ebpf

/-!
# `Vm.EbpfFlow` — the control flow of eBPF

Which instruction comes after which, by the instruction set alone: offsets and immediates are exact integers,
a local call goes on after its `EXIT`, and a run goes on until it leaves the program. The outcomes of the
conditional jumps are given.
-/

namespace Vm

/-- The helper that does not return. -/
def BPF_TAIL_CALL : BitVec 32 := 12

def EbpfInst.isCall (inst : EbpfInst) : Bool :=
  inst.opcode == EBPF_OP_CALL || inst.opcode == EBPF_OP_CALL ||| 0x8

def EbpfInst.isLocalCall (inst : EbpfInst) : Bool := inst.isCall && inst.src == 0x1

/-- Where a jump or a local call leads, as an exact integer. -/
def EbpfInst.target (inst : EbpfInst) (pc : Nat) : Option Int :=
  if inst.opcode = EBPF_OP_JA_IMM ∨ inst.isLocalCall then some (inst.immTarget pc)
  else if inst.opcode = EBPF_OP_JA ∨ inst.opcode ∈ condJmpOpcodes then some (inst.offsetTarget pc)
  else none

/-- The positions of the instructions from `pc` on; the second slot of an `LDDW` is none. -/
def positionsFrom (insts : Insts) : Nat → Nat → List Nat
  | 0, _ => []
  | fuel + 1, pc =>
    if pc < insts.length then pc :: positionsFrom insts fuel (pc + (insts.inst pc).width) else []

def positions (insts : Insts) : List Nat := positionsFrom insts insts.length 0

/-- A jump or a call leads out of the program or into the second slot of an `LDDW`. -/
def HasBadTarget (insts : Insts) : Prop :=
  ∃ pc ∈ positions insts, ∃ target, (insts.inst pc).target pc = some target ∧
    ¬ (0 ≤ target ∧ target.toNat ∈ positions insts)

/-! ## Runs -/

/-- How a run has gone so far. -/
inductive FlowEnd where
  | running
  /-- By the `EXIT` of the main function or a tail call. -/
  | left
  /-- At a position where there is no instruction. -/
  | outside
  /-- Nothing is said of what happens. -/
  | undefined
deriving DecidableEq, Repr

/-- The executed instructions, in order, and the end. -/
structure Trace where
  pcs  : List Nat
  last : FlowEnd
deriving DecidableEq, Repr

def Trace.cons (pc : Nat) (t : Trace) : Trace := ⟨pc :: t.pcs, t.last⟩

/-- What comes after an instruction. -/
inductive Flow where
  | next (pc : Nat) (returns : List Nat)
  | leave
deriving DecidableEq, Repr

/-- Where a jump goes on; a negative target is as far out of the program as one past its end. -/
def jumpTo (insts : Insts) (target : Int) : Nat := if 0 ≤ target then target.toNat else insts.length

/-- The instruction after the one at `pc`, with the open calls' return positions, the innermost first. -/
def flowStep (insts : Insts) (taken : Bool) (pc : Nat) (returns : List Nat) : Flow :=
  let inst := insts.inst pc
  if inst.opcode = EBPF_OP_JA then .next (jumpTo insts (inst.offsetTarget pc)) returns
  else if inst.opcode = EBPF_OP_JA_IMM then .next (jumpTo insts (inst.immTarget pc)) returns
  else if inst.opcode ∈ condJmpOpcodes then
    .next (if taken then jumpTo insts (inst.offsetTarget pc) else pc + 1) returns
  else if inst.isLocalCall then .next (jumpTo insts (inst.immTarget pc)) ((pc + 1) :: returns)
  else if inst.isCall ∧ inst.imm = BPF_TAIL_CALL then .leave
  else if inst.opcode = EBPF_OP_EXIT then
    match returns with
    | [] => .leave
    | ret :: returns => .next ret returns
  else .next (pc + inst.width) returns

/-- The run from `pc`, one outcome for each instruction. -/
def flowTrace (insts : Insts) : List Bool → Nat → List Nat → Trace
  | [], _, _ => ⟨[], .running⟩
  | taken :: outcomes, pc, returns =>
    if pc ∈ positions insts then
      match flowStep insts taken pc returns with
      | .next pc' returns' => (flowTrace insts outcomes pc' returns').cons pc
      | .leave => ⟨[pc], .left⟩
    else ⟨[], .outside⟩

/-- The calls open after the outcomes, in a run from `pc`. -/
def openCalls (insts : Insts) : List Bool → Nat → List Nat → List Nat
  | [], _, returns => returns
  | taken :: outcomes, pc, returns =>
    if pc ∈ positions insts then
      match flowStep insts taken pc returns with
      | .next pc' returns' => openCalls insts outcomes pc' returns'
      | .leave => returns
    else returns

/-- No run has more than `depth` calls open. -/
def CallsNestAtMost (insts : Insts) (depth : Nat) : Prop :=
  ∀ outcomes : List Bool, (openCalls insts outcomes 0 []).length ≤ depth

end Vm
