import FreeProbe.Lib.Lockstep
import FreeProbe.Vm.JitMachine
import FreeProbe.Vm.JitMemory

/-!
# `Vm.EbpfRun` — programs run by the instruction set

A program with registers, a memory, open calls and a world that its helpers act on. Each instruction does what the
instruction set says: a local call opens a frame of `EBPF_STACK_SIZE` bytes below the caller's, and a return closes it.
The instruction set does not say what a helper leaves in `r1` to `r5`; here, as in the emitted code, what was there.
-/

namespace Vm

open Lib

abbrev Heap := BitVec 64 → Option (BitVec 8)

/-- What the kinds of `LDDW` refer to. -/
structure Relocation where
  mapByFd  : BitVec 32 → BitVec 64
  mapByIdx : BitVec 32 → BitVec 64
  mapVal   : BitVec 64 → BitVec 64
  varAddr  : BitVec 32 → BitVec 64
  codeAddr : BitVec 32 → BitVec 64

/-- The value of an `LDDW`, by the kind in its `src`. -/
def Relocation.value (rel : Relocation) (inst next : EbpfInst) : BitVec 64 :=
  if inst.src = 0 then next.imm ++ inst.imm
  else if inst.src = 1 then rel.mapByFd inst.imm
  else if inst.src = 2 then rel.mapVal (rel.mapByFd inst.imm) + next.imm.signExtend 64
  else if inst.src = 3 then rel.varAddr inst.imm
  else if inst.src = 4 then rel.codeAddr inst.imm
  else if inst.src = 5 then rel.mapByIdx inst.imm
  else rel.mapVal (rel.mapByIdx inst.imm) + next.imm.signExtend 64

/-- What a program runs in. A helper gets `r1` to `r5`, and may read and write the memory; `none` is a helper that does
not return. -/
structure Env (ω : Type) where
  rel         : Relocation
  helper      : BitVec 32 → List (BitVec 64) → Heap → ω → Option (BitVec 64 × Heap × ω)
  undefinedAt : Nat → BitVec 64 → Bool

section Effects

variable {ω : Type} (env : Env ω)

def helperArgs (regs : AluRegs) : List (BitVec 64) := [regs 1, regs 2, regs 3, regs 4, regs 5]

def callHelper (index : BitVec 32) (s : Machine) (world : ω) : Option (Machine × ω) :=
  (env.helper index (helperArgs s.regs) s.mem world).map fun out => (⟨Function.update s.regs 0 out.1, out.2.1⟩, out.2.2)

/-- An open call: where it returns to, and the registers before it. -/
structure Frame where
  ret  : Nat
  regs : AluRegs

/-- What a program ends with: its result, and what it did to the memory and the world. -/
structure Result (ω : Type) where
  r0    : BitVec 64
  mem   : Heap
  world : ω

structure EbpfState (ω : Type) where
  pc      : Nat
  frames  : List Frame
  machine : Machine
  world   : ω

/-- The registers that a call leaves as they were. -/
def restored (regs saved : AluRegs) : AluRegs := fun r => if 6 ≤ r ∧ r ≤ 10 then saved r else regs r

/-- What the instruction does to registers, memory and world; `none` is a fault. -/
def ebpfEffect (insts : Insts) (s : EbpfState ω) : Option (Machine × ω) :=
  let inst := insts.inst s.pc
  if inst.opcode ∈ plainOpcodes then (isaPlain inst s.machine).map (·, s.world)
  else if inst.opcode = EBPF_OP_LDDW then
    some (s.machine.set inst.dst (env.rel.value inst (insts.inst (s.pc + 1))), s.world)
  else if inst.isLocalCall then
    some (s.machine.set 10 (s.machine.regs 10 - BitVec.ofNat 64 EBPF_STACK_SIZE), s.world)
  else if inst.isCall then callHelper env inst.imm s.machine s.world
  else if inst.opcode = EBPF_OP_EXIT then
    match s.frames with
    | [] => some (s.machine, s.world)
    | frame :: _ => some ({ s.machine with regs := restored s.machine.regs frame.regs }, s.world)
  else if inst.opcode = EBPF_OP_JA ∨ inst.opcode = EBPF_OP_JA_IMM ∨ inst.opcode ∈ condJmpOpcodes then
    some (s.machine, s.world)
  else none

/-- The open calls after the instruction. -/
def framesAfter (insts : Insts) (s : EbpfState ω) : List Frame :=
  if (insts.inst s.pc).isLocalCall then ⟨s.pc + 1, s.machine.regs⟩ :: s.frames
  else if (insts.inst s.pc).opcode = EBPF_OP_EXIT then s.frames.tail
  else s.frames

/-- One instruction. The program ends with `EXIT` where no call is open, and with a tail call. -/
def ebpfStep (insts : Insts) (s : EbpfState ω) : StepResult (EbpfState ω) (Result ω) :=
  if s.pc ∈ positions insts then
    match ebpfEffect env insts s with
    | none => .stuck
    | some (machine, world) =>
      match flowStep insts (isaTaken (insts.inst s.pc) s.machine.regs) s.pc (s.frames.map Frame.ret) with
      | .next pc _ => .next ⟨pc, framesAfter insts s, machine, world⟩
      | .leave => .exit ⟨machine.regs 0, machine.mem, world⟩
  else .stuck

end Effects

end Vm
