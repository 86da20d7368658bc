import FreeProbe.Vm.EbpfFlow
import FreeProbe.Vm.Jit

/-!
# `Vm.JitMachine` — running the emitted code

A machine for the modules of `generateModule`: the registers, the call stack that the code of local calls and
returns indexes by hand, and a position in the control-flow graph. What an instruction computes is given from
outside, and only lands in the registers its code stores to.
-/

namespace Vm

/-- The bytes of a frame. -/
def EBPF_STACK_SIZE : Nat := 512

/-- The words of a frame. -/
def STACK_SIZE : Nat := (EBPF_STACK_SIZE + 7) / 8

def CALL_STACK_SIZE : Nat := 64

def MAX_LOCAL_FUNC_DEPTH : Nat := 32

abbrev Regs := BitVec 4 → BitVec 64

/-- A cell of `callStack`. -/
inductive Cell where
  | reg (value : BitVec 64)
  | addr (label : Nat)
deriving DecidableEq, Repr

structure JitState where
  block       : Nat
  /-- What is left of the block. -/
  rest        : List Emitted
  regs        : Regs
  callStack   : Nat → Cell
  callItemCnt : Nat

/-- What an instruction computes: whether a jump is taken, and the values of the registers it writes. -/
structure Outcome where
  taken  : Bool
  values : Regs

/-- Whether the code of an instruction stores to a register. -/
def EbpfInst.writes (inst : EbpfInst) (r : BitVec 4) : Bool :=
  if inst.opcode ∈ storeOpcodes then false
  else if inst.opcode = EBPF_ATOMIC_OPCODE_32 ∨ inst.opcode = EBPF_ATOMIC_OPCODE_64 then
    if inst.imm = EBPF_ATOMIC_OP_CMPXCHG then r == 0
    else if inst.imm = EBPF_ATOMIC_OP_XCHG then false
    else inst.imm &&& EBPF_ATOMIC_OP_FETCH == EBPF_ATOMIC_OP_FETCH && r == inst.src
  else r == inst.dst

/-- One instruction's step. -/
inductive JitStep where
  | next (s : JitState)
  | leave
  | undefined

namespace Module

/-- At the start of a block. -/
def goto (m : Module) (s : JitState) (label : Nat) : JitState := { s with block := label, rest := m.block label }

/-- The branches that `generateModule` added: from a block whose code is done to the next, and on through the
    blocks without code. -/
def fallThrough (m : Module) : List Nat → JitState → JitState
  | [], s => s
  | label :: labels, s => if s.rest.isEmpty then m.fallThrough labels (m.goto s label) else s

def settle (m : Module) (s : JitState) : JitState := m.fallThrough (m.after s.block) s

end Module

/-- The prologue of a local call: five cells, the return block on top of `r6` to `r9`. -/
def pushCall (s : JitState) (ret : Nat) : JitState :=
  let nextPos := s.callItemCnt + 5
  { s with
    callItemCnt := nextPos
    callStack := fun i =>
      if i = nextPos - 1 then .addr ret
      else if i = nextPos - (6 - 4) then .reg (s.regs 6)
      else if i = nextPos - (7 - 4) then .reg (s.regs 7)
      else if i = nextPos - (8 - 4) then .reg (s.regs 8)
      else if i = nextPos - (9 - 4) then .reg (s.regs 9)
      else s.callStack i
    regs := Function.update s.regs 10 (s.regs 10 - BitVec.ofNat 64 STACK_SIZE) }

/-- A load of a saved register. The bits of a block address are not known. -/
def Cell.load (o : BitVec 64) : Cell → BitVec 64
  | reg value => value
  | addr _ => o

/-- `localFuncReturnBlock`, up to its branch. -/
def popCall (o : Outcome) (s : JitState) : JitState :=
  let count := s.callItemCnt
  { s with
    callItemCnt := count - 5
    regs := fun r =>
      if r = 6 then (s.callStack (count - (6 - 4))).load (o.values 6)
      else if r = 7 then (s.callStack (count - (7 - 4))).load (o.values 7)
      else if r = 8 then (s.callStack (count - (8 - 4))).load (o.values 8)
      else if r = 9 then (s.callStack (count - (9 - 4))).load (o.values 9)
      else if r = 10 then s.regs 10 + BitVec.ofNat 64 STACK_SIZE
      else s.regs r }

/-- The code of one instruction; `s.rest` is what follows it in its block. A store past the end of `callStack`
    and a branch to what is no block address are undefined. -/
def execute (m : Module) (o : Outcome) (s : JitState) (e : Emitted) : JitStep :=
  match e.code with
  | .plain => .next { s with regs := fun r => if e.inst.writes r then o.values r else s.regs r }
  | .lddw (.const value) => .next { s with regs := Function.update s.regs e.inst.dst value }
  | .lddw (.mapVal _ _) => .next { s with regs := Function.update s.regs e.inst.dst (o.values e.inst.dst) }
  | .lddw .unset => .next s
  | .helper _ => .next { s with regs := Function.update s.regs 0 (o.values 0) }
  | .tailCall _ => .leave
  | .br dst => .next (m.goto s dst)
  | .condBr dst next => .next (m.goto s (if o.taken then dst else next))
  | .localCall dst ret =>
    if s.callItemCnt + 5 > CALL_STACK_SIZE * 5 then .undefined else .next (m.goto (pushCall s ret) dst)
  | .exitOrReturn =>
    if s.callItemCnt = 0 then .leave
    else
      match s.callStack (s.callItemCnt - 1) with
      | .addr ret => .next (m.goto (popCall o s) ret)
      | .reg _ => .undefined

/-- The piece of code that comes next, and what it does; `none` after the end of the last block. -/
def jitStep (m : Module) (o : Outcome) (s : JitState) : Option (Emitted × JitStep) :=
  let s := m.settle s
  match s.rest with
  | [] => none
  | e :: rest => some (e, execute m o { s with rest := rest } e)

/-- The run from a state, one outcome for each instruction. -/
def jitTrace (m : Module) : List Outcome → JitState → Trace
  | [], _ => ⟨[], .running⟩
  | o :: outcomes, s =>
    match jitStep m o s with
    | none => ⟨[], .outside⟩
    | some (e, .next s') => (jitTrace m outcomes s').cons e.pc
    | some (e, .leave) => ⟨[e.pc], .left⟩
    | some (e, .undefined) => ⟨[e.pc], .undefined⟩

/-- After `setupBlock`: the first block, no call open, and `r10` at `stackEnd`. -/
def Module.start (m : Module) (stackBegin : BitVec 64) (regs : Regs) (callStack : Nat → Cell) : JitState where
  block := 0
  rest := m.block 0
  regs := Function.update regs 10 (stackBegin + BitVec.ofNat 64 (8 * (STACK_SIZE * MAX_LOCAL_FUNC_DEPTH)))
  callStack := callStack
  callItemCnt := 0

end Vm
