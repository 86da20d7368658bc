import FreeProbe.Vm.JitAlu
import FreeProbe.Lib.Memory

/-!
# `Vm.EbpfMachine` — straight-line eBPF code

Eleven registers and a memory in which an address is mapped or not. What the arithmetic instructions compute is
`isaValue`; a load or a store faults where a byte is not mapped. Code that neither jumps nor calls is a list run from the
front.
-/

namespace Vm

open Lib.Memory

-- the opcodes that straight code is written with
def EBPF_OP_STDW : BitVec 8 := EBPF_CLS_ST ||| EBPF_MODE_MEM ||| EBPF_SIZE_DW
def EBPF_OP_STXDW : BitVec 8 := EBPF_CLS_STX ||| EBPF_MODE_MEM ||| EBPF_SIZE_DW
def EBPF_OP_SUB64_IMM : BitVec 8 := EBPF_CLS_ALU64 ||| EBPF_SRC_IMM ||| EBPF_ALU_OP_SUB
def EBPF_OP_MOV64_REG : BitVec 8 := EBPF_CLS_ALU64 ||| EBPF_SRC_REG ||| EBPF_ALU_OP_MOV

/-- Registers and memory; `none` is an address that is not mapped. -/
structure Machine where
  regs : AluRegs
  mem  : BitVec 64 → Option (BitVec 8)

namespace Machine

/-- A register is set. -/
def set (s : Machine) (r : BitVec 4) (value : BitVec 64) : Machine := { s with regs := Function.update s.regs r value }

/-- Bytes that are all mapped are read. -/
def load (s : Machine) (addr : BitVec 64) (count : Nat) : Option (List (BitVec 8)) :=
  (List.range count).mapM fun i => s.mem (addr + BitVec.ofNat 64 i)

/-- The memory with the bytes written from the address on. -/
def written (s : Machine) (addr : BitVec 64) (bytes : List (BitVec 8)) (a : BitVec 64) : Option (BitVec 8) :=
  bytes[(a - addr).toNat]?.or (s.mem a)

/-- And written. -/
def store (s : Machine) (addr : BitVec 64) (bytes : List (BitVec 8)) : Option Machine :=
  if (s.load addr bytes.length).isSome then some { s with mem := s.written addr bytes } else none

end Machine

/-- The bytes a load or a store moves. -/
def EbpfInst.accessSize (inst : EbpfInst) : Nat :=
  if inst.opcode &&& EBPF_SIZE_DW = EBPF_SIZE_DW then 8
  else if inst.opcode &&& EBPF_SIZE_DW = EBPF_SIZE_B then 1
  else if inst.opcode &&& EBPF_SIZE_DW = EBPF_SIZE_H then 2
  else 4

/-- The opcodes with one operand. -/
def unaryOpcodes : List (BitVec 8) := [EBPF_OP_LE, EBPF_OP_BE, EBPF_OP_BYTESWAP, EBPF_OP_NEG, EBPF_OP_NEG64]

/-- An instruction of one slot; `none` is a fault, or an instruction that jumps or calls. -/
def EbpfInst.exec (inst : EbpfInst) (s : Machine) : Option Machine :=
  if inst.opcode ∈ storeOpcodes then
    let value := if inst.opcode &&& EBPF_CLS_MASK = EBPF_CLS_STX then s.regs inst.src else inst.imm.signExtend 64
    s.store (s.regs inst.dst + inst.offset.signExtend 64) (leBytes inst.accessSize value.toNat)
  else if inst.opcode ∈ loadOpcodes then
    (s.load (s.regs inst.src + inst.offset.signExtend 64) inst.accessSize).map fun bytes =>
      s.set inst.dst (BitVec.ofNat 64 (leNat bytes))
  else if inst.opcode ∈ aluOpcodes ++ movOpcodes ++ unaryOpcodes then some (s.set inst.dst (isaValue inst s.regs))
  else none

/-- The code run from the front. The second slot of an `LDDW` holds the high word. -/
def runStraight : Insts → Machine → Option Machine
  | [], s => some s
  | inst :: rest, s =>
    if inst.opcode = EBPF_OP_LDDW then
      match rest with
      | [] => none
      | next :: rest => runStraight rest (s.set inst.dst (next.imm ++ inst.imm))
    else (inst.exec s).bind (runStraight rest)

/-! ## Stores -/

namespace Machine

variable {s : Machine} {addr a : BitVec 64} {bytes : List (BitVec 8)}

/-- All of a list. -/
theorem isSome_mapM {α β : Type} {f : α → Option β} {xs : List α} : (xs.mapM f).isSome ↔ ∀ x ∈ xs, (f x).isSome := by
  induction xs with
  | nil =>
    constructor
    · intro _ x hx
      cases hx
    · exact fun _ => rfl
  | cons x xs ih =>
    rw [List.mapM_cons, List.forall_mem_cons, ← ih]
    cases f x with
    | none => simp
    | some y =>
      cases xs.mapM f with
      | none => simp
      | some ys => simp

/-- A store to mapped memory. -/
theorem store_eq (h : ∀ i < bytes.length, (s.mem (addr + BitVec.ofNat 64 i)).isSome) :
    s.store addr bytes = some { s with mem := s.written addr bytes } :=
  if_pos (isSome_mapM.mpr fun i hi => h i (List.mem_range.mp hi))

/-- What is mapped stays mapped. -/
theorem isSome_written (h : (s.mem a).isSome) : (s.written addr bytes a).isSome := by
  unfold written
  cases bytes[(a - addr).toNat]? with
  | none => exact h
  | some b => rfl

/-- What is stored is there. -/
theorem written_in {i : Nat} (hi : i < bytes.length) (hfit : bytes.length ≤ 2 ^ 64) :
    s.written addr bytes (addr + BitVec.ofNat 64 i) = some bytes[i] := by
  have hoff : (addr + BitVec.ofNat 64 i - addr).toNat = i := by
    rw [add_sub_cancel_left, BitVec.toNat_ofNat, Nat.mod_eq_of_lt (Nat.lt_of_lt_of_le hi hfit)]
  rw [written, hoff, List.getElem?_eq_getElem hi]
  rfl

/-- The rest is as it was. -/
theorem written_out (h : bytes.length ≤ (a - addr).toNat) : s.written addr bytes a = s.mem a := by
  rw [written, List.getElem?_eq_none h]
  rfl

end Machine

/-! ## Steps -/

section Steps
variable {inst next : EbpfInst} {rest : Insts} {regs : AluRegs} {s : Machine}

/-- A difference. -/
theorem isaValue_sub64_imm (hop : inst.opcode = EBPF_OP_SUB64_IMM) :
    isaValue inst regs = regs inst.dst - inst.imm.signExtend 64 := by
  have hwidth : inst.aluWidth = 64 := by rw [EbpfInst.aluWidth, EbpfInst.isAlu64, hop]; rfl
  have hsub : inst.opcode &&& 0xf0 = EBPF_ALU_OP_SUB := by rw [hop]; rfl
  rw [isaValue, if_neg (by rw [hop]; decide), if_neg (by rw [hop]; decide), EbpfInst.aluDest, EbpfInst.aluSource,
    if_pos (by rw [hop]; decide), hsub, isaResult, if_neg (by decide), if_pos rfl]
  generalize inst.aluWidth = w at hwidth ⊢
  subst hwidth
  rw [BitVec.setWidth_eq, BitVec.setWidth_eq]

/-- A copy. -/
theorem isaValue_mov64_reg (hop : inst.opcode = EBPF_OP_MOV64_REG) (hoffset : inst.offset = 0) :
    isaValue inst regs = regs inst.src := by
  have hwidth : inst.aluWidth = 64 := by rw [EbpfInst.aluWidth, EbpfInst.isAlu64, hop]; rfl
  have hmov : inst.opcode &&& 0xf0 = EBPF_ALU_OP_MOV := by rw [hop]; rfl
  have hresult : ∀ {w : Nat} (dst src : BitVec w), isaResult EBPF_ALU_OP_MOV 0 dst src = src := fun _ _ => rfl
  rw [isaValue, if_neg (by rw [hop]; decide), if_neg (by rw [hop]; decide), EbpfInst.aluSource,
    if_neg (by rw [hop]; decide), hmov, hoffset, hresult]
  generalize inst.aluWidth = w at hwidth ⊢
  subst hwidth
  rw [BitVec.setWidth_eq, BitVec.setWidth_eq]

/-- An ALU instruction sets its register. -/
theorem exec_alu (hstore : inst.opcode ∉ storeOpcodes) (hload : inst.opcode ∉ loadOpcodes)
    (halu : inst.opcode ∈ aluOpcodes ++ movOpcodes ++ unaryOpcodes) :
    inst.exec s = some (s.set inst.dst (isaValue inst s.regs)) := by
  rw [EbpfInst.exec, if_neg hstore, if_neg hload, if_pos halu]

/-- A difference. -/
theorem exec_sub64_imm (hop : inst.opcode = EBPF_OP_SUB64_IMM) :
    inst.exec s = some (s.set inst.dst (s.regs inst.dst - inst.imm.signExtend 64)) := by
  rw [exec_alu (by rw [hop]; decide) (by rw [hop]; decide) (by rw [hop]; decide), isaValue_sub64_imm hop]

/-- A copy. -/
theorem exec_mov64_reg (hop : inst.opcode = EBPF_OP_MOV64_REG) (hoffset : inst.offset = 0) :
    inst.exec s = some (s.set inst.dst (s.regs inst.src)) := by
  rw [exec_alu (by rw [hop]; decide) (by rw [hop]; decide) (by rw [hop]; decide), isaValue_mov64_reg hop hoffset]

/-- A store of an immediate. -/
theorem exec_stdw (hop : inst.opcode = EBPF_OP_STDW) :
    inst.exec s = s.store (s.regs inst.dst + inst.offset.signExtend 64) (leBytes 8 (inst.imm.signExtend 64).toNat) := by
  have hsize : inst.accessSize = 8 := by rw [EbpfInst.accessSize, hop]; rfl
  rw [EbpfInst.exec, if_pos (by rw [hop]; decide), if_neg (by rw [hop]; decide), hsize]

/-- A store of a register. -/
theorem exec_stxdw (hop : inst.opcode = EBPF_OP_STXDW) :
    inst.exec s = s.store (s.regs inst.dst + inst.offset.signExtend 64) (leBytes 8 (s.regs inst.src).toNat) := by
  have hsize : inst.accessSize = 8 := by rw [EbpfInst.accessSize, hop]; rfl
  rw [EbpfInst.exec, if_pos (by rw [hop]; decide), if_pos (by rw [hop]; decide), hsize]

/-- Straight code with an `LDDW`. -/
theorem runStraight_lddw (h : inst.opcode = EBPF_OP_LDDW) :
    runStraight (inst :: next :: rest) s = runStraight rest (s.set inst.dst (next.imm ++ inst.imm)) := by
  rw [runStraight, if_pos h]

/-- One instruction, and the rest. -/
theorem runStraight_cons {s' : Machine} (h : inst.opcode ≠ EBPF_OP_LDDW) (hexec : inst.exec s = some s') :
    runStraight (inst :: rest) s = runStraight rest s' := by
  have hstep : runStraight (inst :: rest) s = (inst.exec s).bind (runStraight rest) := by
    cases rest with
    | nil => rw [runStraight, if_neg h]
    | cons next rest => rw [runStraight, if_neg h]
  rw [hstep, hexec, Option.bind_some]

end Steps

end Vm
