import FreeProbe.Vm.EbpfMachine
import FreeProbe.Vm.JitAluLawful
import FreeProbe.Vm.JitAtomic
import FreeProbe.Vm.JitEmit

/-!
# `Vm.JitMemory` — loads, stores and conditional jumps of `generateModule`

The code of the instructions that access memory, run alone on a memory in which an address may not be mapped, and the
tests of the conditional jumps, against the instruction set. With the arithmetic this is the code of every instruction
that is not a call, an `LDDW` or an `EXIT` (`plain_exec`).
-/

namespace Vm

open Lib.Llvm Lib.Memory

/-! ## The emitters

A load or a store goes through one pointer, the sum of a register and the offset. -/

/-- A load through a pointer, zero-extended into a register's slot. -/
structure LoadCode where
  ptr   : AluValue 64
  width : Nat
  slot  : BitVec 4

/-- A store of a value through a pointer. -/
structure StoreCode where
  ptr   : AluValue 64
  width : Nat
  value : AluValue width

/-- A load, then the store to the register. -/
def LoadCode.run (code : LoadCode) (s : Machine) : Option Machine := do
  let addr ← code.ptr.eval s.regs
  let bytes ← s.load addr (code.width / 8)
  let result : AluStore := ⟨code.slot, 64, .zext 64 (.const (BitVec.ofNat code.width (leNat bytes)))⟩
  return { s with regs := ← result.run s.regs }

/-- A store. -/
def StoreCode.run (code : StoreCode) (s : Machine) : Option Machine := do
  let addr ← code.ptr.eval s.regs
  let x ← code.value.eval s.regs
  s.store addr (leBytes (code.width / 8) x.toNat)

/-- The value that a store instruction stores. -/
def emitStoreLoadingSrc (inst : EbpfInst) : AluValue 64 :=
  if inst.opcode &&& 0x07 = EBPF_CLS_STX then .load 64 inst.src else .const (inst.imm.signExtend 64)

/-- The `CreateGEP` of `emitStoreWritingResult` and `emitLDXLoadingAddr`, from a register. -/
def emitAddr (inst : EbpfInst) (reg : BitVec 4) : AluValue 64 := .bin .add (.load 64 reg) (.const (inst.offset.signExtend 64))

/-- `emitStore` -/
def emitStore (inst : EbpfInst) (width : Nat) : StoreCode :=
  ⟨emitAddr inst inst.dst, width, .trunc width (emitStoreLoadingSrc inst)⟩

/-- `emitLoadX` -/
def emitLoadX (inst : EbpfInst) (width : Nat) : LoadCode := ⟨emitAddr inst inst.src, width, inst.dst⟩

/-- The width in the cases `EBPF_OP_STB` to `EBPF_OP_LDXDW` of the switch. -/
def memWidth (inst : EbpfInst) : Nat :=
  if inst.opcode ∈ opcodes [EBPF_CLS_LDX, EBPF_CLS_ST, EBPF_CLS_STX] [EBPF_MODE_MEM] [EBPF_SIZE_B] then 8
  else if inst.opcode ∈ opcodes [EBPF_CLS_LDX, EBPF_CLS_ST, EBPF_CLS_STX] [EBPF_MODE_MEM] [EBPF_SIZE_H] then 16
  else if inst.opcode ∈ opcodes [EBPF_CLS_LDX, EBPF_CLS_ST, EBPF_CLS_STX] [EBPF_MODE_MEM] [EBPF_SIZE_W] then 32
  else 64

/-- An atomic instruction's code on a thread's own; `none` is an access to an address that is not mapped, or a broken
promise of alignment. -/
def runAlone (undefinedAt : Nat → BitVec 64 → Bool) : AtomicCode → Machine → Option Machine
  | .done, s => some s
  | @MemCode.rmw _ w op align ptr x next, s => do
    let addr ← ptr.eval s.regs
    let x ← x.eval s.regs
    if undefinedAt align addr then none
    else
      let old := BitVec.ofNat w (leNat (← s.load addr (w / 8)))
      runAlone undefinedAt (next old) (← s.store addr (leBytes (w / 8) (op.eval old x).toNat))
  | @MemCode.cmpxchg _ w align ptr cmp new next, s => do
    let addr ← ptr.eval s.regs
    let cmp ← cmp.eval s.regs
    let new ← new.eval s.regs
    if undefinedAt align addr then none
    else
      let old := BitVec.ofNat w (leNat (← s.load addr (w / 8)))
      runAlone undefinedAt (next old) (← s.store addr (leBytes (w / 8) (cmpxchgEval old cmp new).toNat))
  | .load w align ptr next, s => do
    let addr ← ptr.eval s.regs
    if undefinedAt align addr then none
    else runAlone undefinedAt (next (BitVec.ofNat w (leNat (← s.load addr (w / 8))))) s
  | .store store next, s => do
    runAlone undefinedAt next { s with regs := ← store.run s.regs }

/-- The code of a case of the switch that `emitInst` calls `plain`. -/
def runPlain (undefinedAt : Nat → BitVec 64 → Bool) (pc : Nat) (inst : EbpfInst) (s : Machine) : Option Machine :=
  if inst.opcode ∈ storeOpcodes then (emitStore inst (memWidth inst)).run s
  else if inst.opcode ∈ loadOpcodes then (emitLoadX inst (memWidth inst)).run s
  else
    match emitAtomicInst pc inst with
    | .ok (some code) => runAlone undefinedAt code s
    | _ =>
      match emitAlu pc inst with
      | .ok (some code) => (code.run s.regs).map fun regs => { s with regs := regs }
      | _ => none

/-! ## Conditional jumps

The comparison is of 64 bits or of the low 32; what `dst` is compared with is a register or the immediate. -/

/-- JMP32 or JMP64 -/
def EbpfInst.jmpWidth (inst : EbpfInst) : Nat := if inst.opcode &&& 0x07 = EBPF_CLS_JMP32 then 32 else 64

/-- `emitJmpLoadSrcAndDstAndZero`: the source, the destination and zero. -/
def emitJmpSrc (inst : EbpfInst) : AluValue inst.jmpWidth :=
  if inst.opcode &&& 0x8 = 0x8 then .load _ inst.src else .const (inst.imm.signExtend _)

/-- The left side of a comparison. -/
def emitJmpDst (inst : EbpfInst) : AluValue inst.jmpWidth := .load _ inst.dst

/-- The opcodes of a conditional jump. -/
def jmpForms (op : BitVec 8) : List (BitVec 8) :=
  opcodes [EBPF_CLS_JMP, EBPF_CLS_JMP32] [EBPF_SRC_IMM, EBPF_SRC_REG] [op]

/-- The jumps that compare `dst` with `src`. -/
def comparisons : List (BitVec 8 × Predicate) :=
  [(EBPF_MODE_JEQ, .eq), (EBPF_MODE_JGT, .ugt), (EBPF_MODE_JGE, .uge), (EBPF_MODE_JNE, .ne), (EBPF_MODE_JSGT, .sgt),
    (EBPF_MODE_JSGE, .sge), (EBPF_MODE_JLT, .ult), (EBPF_MODE_JLE, .ule), (EBPF_MODE_JSLT, .slt), (EBPF_MODE_JSLE, .sle)]

/-- The test of a conditional jump: `emitCondJmpWithDstAndSrc`, or the case of `JSET`. -/
def emitTest (inst : EbpfInst) : Option (CondBr (BitVec 4)) :=
  if inst.opcode ∈ jmpForms EBPF_MODE_JSET then
    some ⟨.ne, _, .bin .and (emitJmpDst inst) (emitJmpSrc inst), .const 0⟩
  else
    (comparisons.find? fun c => inst.opcode ∈ jmpForms c.1).map fun c => ⟨c.2, _, emitJmpDst inst, emitJmpSrc inst⟩

/-! ## The instruction set

The meaning that the code is compared with, on the memory of the program alone. -/

/-- An atomic instruction on a thread's own. -/
def isaAtomic (inst : EbpfInst) (s : Machine) : Option Machine := do
  let addr := inst.atomicAddr s.regs
  let old := BitVec.ofNat inst.atomicWidth (leNat (← s.load addr (inst.atomicWidth / 8)))
  let s' ← s.store addr (leBytes (inst.atomicWidth / 8) (isaUpdate inst s.regs old).toNat)
  return { s' with regs := isaRegs inst s.regs old }

/-- The test of a conditional jump on two operands. -/
def isaTest (op : BitVec 8) {w : Nat} (dst src : BitVec w) : Bool :=
  if op = EBPF_MODE_JEQ then dst == src
  else if op = EBPF_MODE_JGT then decide (src.toNat < dst.toNat)
  else if op = EBPF_MODE_JGE then decide (src.toNat ≤ dst.toNat)
  else if op = EBPF_MODE_JSET then dst &&& src != 0
  else if op = EBPF_MODE_JNE then dst != src
  else if op = EBPF_MODE_JSGT then decide (src.toInt < dst.toInt)
  else if op = EBPF_MODE_JSGE then decide (src.toInt ≤ dst.toInt)
  else if op = EBPF_MODE_JLT then decide (dst.toNat < src.toNat)
  else if op = EBPF_MODE_JLE then decide (dst.toNat ≤ src.toNat)
  else if op = EBPF_MODE_JSLT then decide (dst.toInt < src.toInt)
  else decide (dst.toInt ≤ src.toInt)

/-- Whether a conditional jump is taken. -/
def isaTaken (inst : EbpfInst) (regs : AluRegs) : Bool :=
  isaTest (inst.opcode &&& 0xf0) ((regs inst.dst).setWidth inst.jmpWidth)
    (if inst.opcode &&& 0x8 = EBPF_SRC_IMM then inst.imm.signExtend inst.jmpWidth
      else (regs inst.src).setWidth inst.jmpWidth)

/-! ## Loads and stores -/

section Memory
variable {inst : EbpfInst} {s : Machine}

/-- The address is the register plus the offset. -/
theorem eval_addr (reg : BitVec 4) :
    (emitAddr inst reg).eval s.regs = some (s.regs reg + inst.offset.signExtend 64) := by
  rw [emitAddr, eval_bin (eval_load 64 reg) (eval_const _), BitVec.setWidth_eq]
  rfl

/-- The sizes of the switch are those of the instruction set. -/
theorem memWidth_eq (h : inst.opcode ∈ storeOpcodes ∨ inst.opcode ∈ loadOpcodes) : memWidth inst = 8 * inst.accessSize := by
  have hall : ∀ op ∈ storeOpcodes ++ loadOpcodes, ∀ inst : EbpfInst, inst.opcode = op → memWidth inst = 8 * inst.accessSize := by
    simp only [storeOpcodes, loadOpcodes, opcodes, sizes, List.flatMap_cons, List.flatMap_nil, List.map_cons, List.map_nil,
      List.append_nil, List.cons_append, List.nil_append, List.forall_mem_cons, List.not_mem_nil, false_imp_iff, implies_true,
      and_true]
    refine ⟨?_, ?_, ?_, ?_, ?_, ?_, ?_, ?_, ?_, ?_, ?_, ?_⟩
    all_goals
      intro inst hop
      rw [memWidth, EbpfInst.accessSize, hop]
      rfl
  exact hall _ (List.mem_append.mpr h) inst rfl

/-- The bytes at all addresses, those that are not mapped as zero. -/
def Machine.total (s : Machine) : Mem := fun a => (s.mem a).getD 0

/-- A load that succeeds reads what is there. -/
theorem load_eq {addr : BitVec 64} {count : Nat} {bytes : List (BitVec 8)} (h : s.load addr count = some bytes) :
    bytes = (List.range count).map fun i => s.total (addr + BitVec.ofNat 64 i) := by
  have hall : ∀ (xs : List Nat) (bytes : List (BitVec 8)), (xs.mapM fun i => s.mem (addr + BitVec.ofNat 64 i)) = some bytes →
      bytes = xs.map fun i => s.total (addr + BitVec.ofNat 64 i) := by
    intro xs
    induction xs with
    | nil =>
        intro bytes h
        cases h
        rfl
    | cons x xs ih =>
        intro bytes h
        rw [List.mapM_cons] at h
        obtain ⟨b, hb, h⟩ := Option.bind_eq_some_iff.mp h
        obtain ⟨rest, hrest, h⟩ := Option.bind_eq_some_iff.mp h
        cases h
        rw [List.map_cons, Machine.total, hb, ← ih rest hrest]
        rfl
  exact hall _ bytes h

/-- As many bytes as asked for. -/
theorem length_load {addr : BitVec 64} {count : Nat} {bytes : List (BitVec 8)} (h : s.load addr count = some bytes) :
    bytes.length = count := by
  rw [load_eq h, List.length_map, List.length_range]

/-- As a number. -/
theorem read_of_load {addr : BitVec 64} {w : Nat} {bytes : List (BitVec 8)} (h : s.load addr (w / 8) = some bytes) :
    BitVec.ofNat w (leNat bytes) = s.total.read addr w := by
  rw [load_eq h]
  rfl

/-- A store leaves the registers. -/
theorem store_regs {addr : BitVec 64} {bytes : List (BitVec 8)} {s' : Machine} (h : s.store addr bytes = some s') :
    s'.regs = s.regs := by
  unfold Machine.store at h
  split at h
  · cases h
    rfl
  · cases h

/-- The code of a store does what the instruction says. -/
theorem exec_store (h : inst.opcode ∈ storeOpcodes) : (emitStore inst (memWidth inst)).run s = inst.exec s := by
  have hsrc : (emitStoreLoadingSrc inst).eval s.regs =
      some (if inst.opcode &&& EBPF_CLS_MASK = EBPF_CLS_STX then s.regs inst.src else inst.imm.signExtend 64) := by
    unfold emitStoreLoadingSrc
    change (if inst.opcode &&& EBPF_CLS_MASK = EBPF_CLS_STX then _ else _ : AluValue 64).eval s.regs = _
    split
    · rw [eval_load, BitVec.setWidth_eq]
    · exact eval_const _
  have hwidth : memWidth inst = 8 * inst.accessSize := memWidth_eq (Or.inl h)
  rw [EbpfInst.exec, if_pos h]
  change ((emitAddr inst inst.dst).eval s.regs >>= fun addr =>
    (Value.trunc (memWidth inst) (emitStoreLoadingSrc inst)).eval s.regs >>= fun x =>
      s.store addr (leBytes (memWidth inst / 8) x.toNat)) = _
  rw [eval_addr, eval_trunc hsrc]
  change s.store _ (leBytes (memWidth inst / 8) (BitVec.setWidth (memWidth inst) _).toNat) = _
  rw [BitVec.toNat_setWidth, hwidth, Nat.mul_div_cancel_left _ (by decide), leBytes_mod]

/-- And so does that of a load. -/
theorem exec_load (hstore : inst.opcode ∉ storeOpcodes) (h : inst.opcode ∈ loadOpcodes) :
    (emitLoadX inst (memWidth inst)).run s = inst.exec s := by
  have hwidth : memWidth inst = 8 * inst.accessSize := memWidth_eq (Or.inr h)
  rw [EbpfInst.exec, if_neg hstore, if_pos h]
  change ((emitAddr inst inst.src).eval s.regs >>= fun addr => s.load addr (memWidth inst / 8) >>= fun bytes =>
    (Store.mk inst.dst 64 (.zext 64 (.const (BitVec.ofNat (memWidth inst) (leNat bytes)))) : AluStore).run s.regs >>=
      fun regs => some { s with regs := regs }) = _
  rw [eval_addr, hwidth, Nat.mul_div_cancel_left _ (by decide)]
  change (s.load _ _ >>= _) = _
  cases hbytes : s.load (s.regs inst.src + inst.offset.signExtend 64) inst.accessSize with
  | none => rfl
  | some bytes =>
      have hlt : leNat bytes < 2 ^ (8 * inst.accessSize) := length_load hbytes ▸ leNat_lt bytes
      have hvalue : (BitVec.ofNat (8 * inst.accessSize) (leNat bytes)).setWidth 64 = BitVec.ofNat 64 (leNat bytes) := by
        apply BitVec.eq_of_toNat_eq
        rw [BitVec.toNat_setWidth, BitVec.toNat_ofNat, BitVec.toNat_ofNat, Nat.mod_eq_of_lt hlt]
      simp only [Option.bind_eq_bind, Option.bind_some]
      rw [run_storeOld (eval_zext (eval_const _)), storeLow_of_le (Nat.le_refl _), BitVec.setWidth_eq, hvalue]
      rfl

end Memory

/-! ## Tests -/

section Tests
variable {inst : EbpfInst} {regs : AluRegs}

/-- The left side of a comparison. -/
theorem eval_jmpDst : (emitJmpDst inst).eval regs = some ((regs inst.dst).setWidth inst.jmpWidth) := eval_load _ _

/-- The right side: a register or the immediate. -/
theorem eval_jmpSrc : (emitJmpSrc inst).eval regs =
    some (if inst.opcode &&& 0x8 = EBPF_SRC_IMM then inst.imm.signExtend inst.jmpWidth
      else (regs inst.src).setWidth inst.jmpWidth) := by
  have hbit : ∀ op : BitVec 8, op &&& 0x8 = 0x8 ↔ ¬ op &&& 0x8 = EBPF_SRC_IMM := by decide
  unfold emitJmpSrc
  by_cases himm : inst.opcode &&& 0x8 = EBPF_SRC_IMM
  · rw [if_neg (fun h => (hbit _).mp h himm), if_pos himm, eval_const]
  · rw [if_pos ((hbit _).mpr himm), if_neg himm, eval_load]

/-- The predicate of LLVM is the comparison. -/
theorem isaTest_comparison {op : BitVec 8} {pred : Predicate} (hin : (op, pred) ∈ comparisons) {w : Nat}
    (dst src : BitVec w) : pred.eval dst src = isaTest op dst src := by
  simp only [comparisons, List.mem_cons, List.not_mem_nil, or_false, Prod.mk.injEq] at hin
  rcases hin with ⟨rfl, rfl⟩ | ⟨rfl, rfl⟩ | ⟨rfl, rfl⟩ | ⟨rfl, rfl⟩ | ⟨rfl, rfl⟩ | ⟨rfl, rfl⟩ | ⟨rfl, rfl⟩ | ⟨rfl, rfl⟩ |
    ⟨rfl, rfl⟩ | ⟨rfl, rfl⟩ <;> rfl

/-- The comparison is in the upper half of the opcode. -/
theorem op_of_jmpForms {op : BitVec 8} (h : inst.opcode ∈ jmpForms op) : inst.opcode &&& 0xf0 = op &&& 0xf0 := by
  have hforms : jmpForms op =
      [EBPF_CLS_JMP ||| EBPF_SRC_IMM ||| op, EBPF_CLS_JMP ||| EBPF_SRC_REG ||| op, EBPF_CLS_JMP32 ||| EBPF_SRC_IMM ||| op,
        EBPF_CLS_JMP32 ||| EBPF_SRC_REG ||| op] := rfl
  rw [hforms] at h
  simp only [List.mem_cons, List.not_mem_nil, or_false] at h
  -- the class and the source bit are among the low four bits
  rcases h with h | h | h | h <;> rw [h, BitVec.and_or_distrib_right] <;> exact BitVec.zero_or

/-- A conditional jump is a `JSET` or one of the comparisons. -/
theorem condJmp_cases (h : inst.opcode ∈ condJmpOpcodes) :
    inst.opcode ∈ jmpForms EBPF_MODE_JSET ∨ ∃ c ∈ comparisons, inst.opcode ∈ jmpForms c.1 := by
  obtain ⟨op, hop, hmem⟩ := List.mem_flatMap.mp h
  have hforms : inst.opcode ∈ jmpForms op := List.mem_flatMap.mpr ⟨op, List.mem_singleton_self op, hmem⟩
  have hop : op = EBPF_MODE_JSET ∨ op ∈ comparisons.map Prod.fst := by
    simp only [List.mem_cons, List.not_mem_nil, or_false] at hop
    rcases hop with rfl | rfl | rfl | rfl | rfl | rfl | rfl | rfl | rfl | rfl | rfl <;> decide
  rcases hop with rfl | hop
  · exact Or.inl hforms
  · obtain ⟨c, hc, rfl⟩ := List.mem_map.mp hop
    exact Or.inr ⟨c, hc, hforms⟩

/-- **The emitted test** of a conditional jump is that of the instruction set. -/
theorem taken_emitTest (h : inst.opcode ∈ condJmpOpcodes) :
    ∃ br, emitTest inst = some br ∧ br.taken regs = some (isaTaken inst regs) := by
  unfold emitTest isaTaken
  by_cases hset : inst.opcode ∈ jmpForms EBPF_MODE_JSET
  · rw [if_pos hset, op_of_jmpForms hset]
    exact ⟨_, rfl, taken_eq (eval_bin eval_jmpDst eval_jmpSrc) (eval_const _)⟩
  · have hsome : (comparisons.find? fun c => inst.opcode ∈ jmpForms c.1).isSome := by
      obtain ⟨c, hc, hforms⟩ := (condJmp_cases h).resolve_left hset
      exact List.find?_isSome.mpr ⟨c, hc, decide_eq_true hforms⟩
    obtain ⟨⟨op, pred⟩, hfound⟩ := Option.isSome_iff_exists.mp hsome
    have hin := List.mem_of_find?_eq_some hfound
    have hforms : decide (inst.opcode ∈ jmpForms op) = true := @List.find?_some _ _ (op, pred) _ hfound
    have hmask : ∀ c ∈ comparisons, c.1 &&& 0xf0 = c.1 := by decide
    have hop : inst.opcode &&& 0xf0 = op := (op_of_jmpForms (of_decide_eq_true hforms)).trans (hmask _ hin)
    rw [if_neg hset, hfound, hop]
    refine ⟨_, rfl, ?_⟩
    rw [taken_eq eval_jmpDst eval_jmpSrc, isaTest_comparison hin]

end Tests

/-! ## Atomic instructions on a thread's own

With no other thread at the location, what the code does between its accesses is not seen. -/

section Alone
variable {undefinedAt : Nat → BitVec 64 → Bool} {inst : EbpfInst} {s : Machine}

/-- An atomic operation with no other thread at its location is a load and a store. -/
theorem runAlone_binOp {op : RmwOp} {isFetch : Bool} (h : undefinedAt 32 (inst.atomicAddr s.regs) = false) :
    runAlone undefinedAt (emitAtomicBinOp op inst isFetch) s =
      (s.load (inst.atomicAddr s.regs) (inst.atomicWidth / 8)).bind fun bytes =>
        let old := BitVec.ofNat inst.atomicWidth (leNat bytes)
        (s.store (inst.atomicAddr s.regs)
          (leBytes (inst.atomicWidth / 8) (op.eval old ((s.regs inst.src).setWidth _)).toNat)).map fun s' =>
            { s' with regs := rmwRegs inst s.regs isFetch old } := by
  rw [emitAtomicBinOp, runAlone, eval_atomicPtr, eval_atomicOperand]
  simp only [Option.bind_eq_bind, Option.bind_some, h, Bool.false_eq_true, if_false]
  refine Option.bind_congr fun bytes _ => ?_
  rw [Option.map_eq_bind]
  refine Option.bind_congr fun s' hs' => ?_
  cases isFetch with
  | false =>
      simp only [Bool.false_eq_true, if_false, runAlone, rmwRegs, Function.comp_apply]
      rw [← store_regs hs']
  | true =>
      simp only [if_true, runAlone, rmwRegs, Function.comp_apply]
      rw [run_storeOld (eval_const _), store_regs hs']
      rfl

/-- The load before the `cmpxchg` sees what the `cmpxchg` sees. -/
theorem runAlone_cmpXchg (h : undefinedAt (inst.atomicWidth / 8) (inst.atomicAddr s.regs) = false) :
    runAlone undefinedAt (emitAtomicCmpXchg inst) s =
      (s.load (inst.atomicAddr s.regs) (inst.atomicWidth / 8)).bind fun bytes =>
        let old := BitVec.ofNat inst.atomicWidth (leNat bytes)
        (s.store (inst.atomicAddr s.regs)
          (leBytes (inst.atomicWidth / 8) (cmpxchgEval old ((s.regs 0).setWidth _) ((s.regs inst.src).setWidth _)).toNat)).map
            fun s' => { s' with regs := Function.update s.regs 0 (old.setWidth 64) } := by
  rw [emitAtomicCmpXchg, runAlone, eval_atomicPtr]
  simp only [Option.bind_eq_bind, Option.bind_some, h, Bool.false_eq_true, if_false]
  refine Option.bind_congr fun bytes hbytes => ?_
  rw [runAlone, eval_atomicPtr, eval_load, eval_load]
  simp only [Option.bind_eq_bind, Option.bind_some, h, Bool.false_eq_true, if_false, hbytes]
  rw [Option.map_eq_bind]
  refine Option.bind_congr fun s' hs' => ?_
  simp only [runAlone, Function.comp_apply]
  rw [run_storeOld (eval_zext (eval_const _)), storeLow_of_le (Nat.le_refl _), BitVec.setWidth_eq, store_regs hs']
  rfl

/-- What the instruction set does with the registers and the location, if the code does the same. -/
theorem isaAtomic_of (update : BitVec inst.atomicWidth → BitVec inst.atomicWidth) (regs : BitVec inst.atomicWidth → AluRegs)
    (hupdate : ∀ old, isaUpdate inst s.regs old = update old)
    (hregs : isaRegs inst s.regs (s.total.read (inst.atomicAddr s.regs) inst.atomicWidth) =
      regs (s.total.read (inst.atomicAddr s.regs) inst.atomicWidth)) :
    isaAtomic inst s = (s.load (inst.atomicAddr s.regs) (inst.atomicWidth / 8)).bind fun bytes =>
      let old := BitVec.ofNat inst.atomicWidth (leNat bytes)
      (s.store (inst.atomicAddr s.regs) (leBytes (inst.atomicWidth / 8) (update old).toNat)).map fun s' =>
        { s' with regs := regs old } := by
  unfold isaAtomic
  refine Option.bind_congr fun bytes hbytes => ?_
  simp only [read_of_load hbytes, hupdate, hregs, Option.map_eq_bind]
  rfl

/-- **The code of an atomic instruction** alone is as the instruction set has it, where the condition holds. -/
theorem runAlone_atomic {code : AtomicCode} (hcase : AtomicCase inst code)
    (hfits : AtomicFits undefinedAt inst s.regs s.total fun _ => []) : runAlone undefinedAt code s = isaAtomic inst s := by
  unfold AtomicFits at hfits
  dsimp only at hfits
  -- compare and exchange, exchange, and the operations that may fetch
  cases hcase with
  | cmpxchg himm =>
      rw [if_pos himm] at hfits
      rw [runAlone_cmpXchg hfits.1]
      refine (isaAtomic_of (fun old => cmpxchgEval old ((s.regs 0).setWidth _) ((s.regs inst.src).setWidth _))
        (fun old => Function.update s.regs 0 (old.setWidth 64)) (fun old => ?_) ?_).symm
      · unfold isaUpdate
        exact if_pos himm
      · unfold isaRegs
        exact if_pos himm
  | xchg himm =>
      have hcmp : inst.imm ≠ EBPF_ATOMIC_OP_CMPXCHG := by
        rw [himm]
        decide
      rw [if_neg hcmp, if_pos himm] at hfits
      rw [runAlone_binOp hfits.1]
      refine (isaAtomic_of (fun old => RmwOp.xchg.eval old ((s.regs inst.src).setWidth _)) (rmwRegs inst s.regs false)
        (fun old => ?_) ?_).symm
      · unfold isaUpdate
        simp only
        rw [if_neg hcmp, if_pos himm]
        rfl
      · unfold isaRegs rmwRegs
        rw [if_neg hcmp, if_pos (by rw [himm]; decide), if_neg Bool.false_ne_true]
        exact Function.update_eq_self_iff.mpr hfits.2.symm
  | @fetch imm op hin himm =>
      have himms := fun old : BitVec inst.atomicWidth => fetchOps_imm hin himm s.regs old
      obtain ⟨-, hcmp, hxchg⟩ := himms 0
      rw [if_neg hcmp, if_neg hxchg] at hfits
      rw [runAlone_binOp hfits.1]
      refine (isaAtomic_of (fun old => op.eval old ((s.regs inst.src).setWidth _)) (rmwRegs inst s.regs inst.isFetch)
        (fun old => (himms old).1) ?_).symm
      unfold isaRegs rmwRegs
      rw [if_neg hcmp]
      cases hfetch : inst.isFetch with
      | false => rw [if_neg (of_decide_eq_false hfetch), if_neg Bool.false_ne_true]
      | true =>
          have hlow := hfits.2 hfetch
          rw [← atomicWidth_eq_iff] at hlow
          rw [if_pos (of_decide_eq_true hfetch), if_pos rfl, (storeLow_eq_iff (atomicWidth_cases inst) _ _).mpr hlow]

end Alone

/-! ## The switch

`emitInst` has a case for each opcode. Those that are neither calls, jumps, `LDDW` nor `EXIT` are taken together. -/

section Switch
variable {args : JitArgs} {blockBegin : Nat → Bool} {pc : Nat} {inst : EbpfInst} {regs : AluRegs} {s : Machine}

/-- **The code of an arithmetic instruction**, where the divisor meets the condition. -/
theorem alu_exec {code : AluStore} (hcase : AluCase pc inst code) (hfits : DivisorFits inst regs) :
    code.run regs = some (Function.update regs inst.dst (isaValue inst regs)) := by
  have hpos : 0 < inst.aluWidth := (by decide : 0 < 32).trans_le (aluWidth_ge inst)
  unfold DivisorFits at hfits
  -- by the emitter, as for `alu_lawful_iff`
  cases hcase with
  | binary hop hin =>
      obtain ⟨heval, hmask, hend, -⟩ := isaResult_binary hin inst.offset (inst.aluDest regs) (inst.aluSource regs)
      exact (lawful_store (isaValue_eq ((op_of_mem hop).trans hmask) hend)).mpr ((eval_bin eval_dest eval_source).trans heval)
  | shift hop hin =>
      have hshift := isaResult_shift hin hpos inst.offset (inst.aluDest regs) (inst.aluSource regs)
      obtain ⟨-, hmask, hend, -⟩ := isaResult_shift hin hpos inst.offset (inst.aluDest regs) 0 0 (Nat.zero_mod _).symm
      exact (lawful_store (isaValue_eq ((op_of_mem hop).trans hmask) hend)).mpr
        (eval_emitShift fun count hcount => (hshift count hcount).1)
  | div hop =>
      rw [if_pos hop] at hfits
      exact (lawful_store (isaValue_eq (op_of_mem hop) (by decide))).mpr
        ((eval_emitDiv (aluWidth_ge inst) eval_dest eval_source).mpr hfits)
  | mod hop =>
      have hdiv : inst.opcode ∉ aluForms EBPF_ALU_OP_DIV := fun hdiv =>
        absurd ((op_of_mem hdiv).symm.trans (op_of_mem hop)) (by decide)
      rw [if_neg hdiv, if_pos hop] at hfits
      exact (lawful_store (isaValue_eq (op_of_mem hop) (by decide))).mpr
        ((eval_emitMod (aluWidth_ge inst) eval_dest eval_source).mpr hfits)
  | neg hop =>
      have hneg : inst.opcode &&& 0xf0 = EBPF_ALU_OP_NEG := by rcases hop with hop | hop <;> rw [hop] <;> rfl
      refine (lawful_store (isaValue_eq hneg (by decide))).mpr ((eval_bin (eval_const _) eval_dest).trans ?_)
      exact congrArg some (BitVec.zero_sub _)
  | mov hop hmov =>
      obtain ⟨result, rfl, heval⟩ := emitMovValue_ok regs hmov
      exact (lawful_store (isaValue_eq (op_of_mem hop) (by decide))).mpr heval
  | endian hop hend => exact lawful_endian hop hend

/-- One branch of the switch. -/
theorem some_branch {c : Prop} [Decidable c] {r r' : JitResult (Option AluStore)}
    (hpos : c → ∃ code, r = .ok (some code)) (hneg : ¬ c → ∃ code, r' = .ok (some code)) :
    ∃ code, (if c then r else r') = .ok (some code) := by
  by_cases hc : c
  · rw [if_pos hc]
    exact hpos hc
  · rw [if_neg hc]
    exact hneg hc

/-- What `emitInst` accepts as a move has code. -/
theorem emitMovValue_of_emitMov (h : emitMov pc inst = .ok .plain) : ∃ code, emitMovValue pc inst = .ok code := by
  have hoffset : inst.offset = 0 ∨ inst.offset = 8 ∨ inst.offset = 16 ∨ inst.offset = 32 := by
    by_contra hnot
    rw [emitMov, if_neg hnot] at h
    cases h
  unfold emitMovValue
  rcases hoffset with hoffset | hoffset | hoffset | hoffset <;> rw [hoffset] <;> exact ⟨_, rfl⟩

/-- So has what it accepts as a conversion. -/
theorem endian_of_emitEndian (h : emitEndian inst = .ok .plain) (dstVal : AluValue 64) :
    ∃ result, emitALUEndianConversion inst dstVal = .ok result := by
  have himm : inst.imm = 16 ∨ inst.imm = 32 ∨ inst.imm = 64 := by
    by_contra hnot
    rw [emitEndian, if_neg hnot] at h
    cases h
  have hmerge : ∃ last, mergeBytes (splitBytes inst.imm dstVal) = some last := by
    rcases himm with himm | himm | himm <;> rw [himm] <;> exact ⟨_, rfl⟩
  obtain ⟨last, hlast⟩ := hmerge
  unfold emitALUEndianConversion
  rw [if_neg (by rcases himm with himm | himm | himm <;> rw [himm] <;> decide), hlast]
  split
  · exact ⟨_, rfl⟩
  split
  · exact ⟨_, rfl⟩
  split
  · exact ⟨_, rfl⟩
  · exact ⟨_, rfl⟩

/-- The opcodes of the ALU cases. -/
def IsAluOpcode (op : BitVec 8) : Prop :=
  (op ∈ aluOpcodes ∨ op = EBPF_OP_NEG ∨ op = EBPF_OP_NEG64) ∨ op ∈ movOpcodes ∨
    op = EBPF_OP_LE ∨ op = EBPF_OP_BE ∨ op = EBPF_OP_BYTESWAP

/-- What `emitInst` lets pass has its code. -/
theorem emitAlu_of_emitInst (h : emitInst args blockBegin pc = .ok .plain)
    (hop : IsAluOpcode (args.insts.inst pc).opcode) : ∃ code, emitAlu pc (args.insts.inst pc) = .ok (some code) := by
  unfold emitInst at h
  generalize args.insts.inst pc = inst at h hop
  dsimp only at h
  have hregs : ¬ (inst.dst > 10 ∨ inst.src > 10) := by
    intro hregs
    rw [if_pos hregs] at h
    cases h
  rw [if_neg hregs] at h
  unfold emitAlu
  rw [if_neg hregs]
  refine some_branch (fun _ => ⟨_, rfl⟩) fun hadd => ?_
  refine some_branch (fun _ => ⟨_, rfl⟩) fun hsub => ?_
  refine some_branch (fun _ => ⟨_, rfl⟩) fun hmul => ?_
  refine some_branch (fun _ => ⟨_, rfl⟩) fun hdiv => ?_
  refine some_branch (fun _ => ⟨_, rfl⟩) fun hor => ?_
  refine some_branch (fun _ => ⟨_, rfl⟩) fun hand => ?_
  refine some_branch (fun _ => ⟨_, rfl⟩) fun hlsh => ?_
  refine some_branch (fun _ => ⟨_, rfl⟩) fun hrsh => ?_
  refine some_branch (fun _ => ⟨_, rfl⟩) fun hneg => ?_
  refine some_branch (fun _ => ⟨_, rfl⟩) fun hmod => ?_
  refine some_branch (fun _ => ⟨_, rfl⟩) fun hxor => ?_
  -- what is left of the operations on two operands is one shift
  have hother : ¬ inst.opcode ∈ aluForms EBPF_ALU_OP_ARSH →
      ¬ (inst.opcode ∈ aluOpcodes ∨ inst.opcode = EBPF_OP_NEG ∨ inst.opcode = EBPF_OP_NEG64) := by
    rintro harsh (hmem | hmem)
    · obtain ⟨op, hop, hmem⟩ := List.mem_flatMap.mp hmem
      have hforms : inst.opcode ∈ aluForms op := List.mem_flatMap.mpr ⟨op, List.mem_singleton_self op, hmem⟩
      simp only [List.mem_cons, List.not_mem_nil, or_false] at hop
      rcases hop with rfl | rfl | rfl | rfl | rfl | rfl | rfl | rfl | rfl | rfl | rfl
      exacts [hadd hforms, hsub hforms, hmul hforms, hdiv hforms, hor hforms, hand hforms, hlsh hforms, hrsh hforms,
        hmod hforms, hxor hforms, harsh hforms]
    · exact hneg hmem
  refine some_branch (fun hmov => ?_) fun hmov => ?_
  · have hnot : ∀ c ∈ movOpcodes, ¬ (c ∈ aluOpcodes ∨ c = EBPF_OP_NEG ∨ c = EBPF_OP_NEG64) := by decide +kernel
    have hmem : inst.opcode ∈ movOpcodes := hmov
    rw [if_neg (hnot _ hmem), if_pos hmem] at h
    obtain ⟨code, hcode⟩ := emitMovValue_of_emitMov h
    rw [hcode]
    exact ⟨code, rfl⟩
  refine some_branch (fun _ => ⟨_, rfl⟩) fun harsh => ?_
  have hend := (hop.resolve_left (hother harsh)).resolve_left hmov
  rw [if_pos hend]
  rw [if_neg (hother harsh), if_neg (show inst.opcode ∉ movOpcodes from hmov), if_pos hend] at h
  obtain ⟨result, hresult⟩ := endian_of_emitEndian h (.load 64 inst.dst)
  rw [hresult]
  exact ⟨_, rfl⟩

/-- And as an atomic instruction. -/
theorem emitAtomicInst_of_emitInst (h : emitInst args blockBegin pc = .ok .plain)
    (hop : (args.insts.inst pc).opcode = EBPF_ATOMIC_OPCODE_32 ∨ (args.insts.inst pc).opcode = EBPF_ATOMIC_OPCODE_64) :
    ∃ code, emitAtomicInst pc (args.insts.inst pc) = .ok (some code) := by
  unfold emitInst at h
  generalize args.insts.inst pc = inst at h hop
  dsimp only at h
  have hregs : ¬ (inst.dst > 10 ∨ inst.src > 10) := by
    intro hregs
    rw [if_pos hregs] at h
    cases h
  rw [if_neg hregs] at h
  have hatomic : emitAtomic inst = .ok .plain := by rcases hop with hop | hop <;> rw [hop] at h <;> exact h
  have hcode : ∃ code, emitAtomicOp inst = .ok code := by
    have himm := (ite_eq_ok hatomic).1
    simp only [List.mem_cons, List.not_mem_nil, or_false] at himm
    unfold emitAtomicOp
    rcases himm with himm | himm | himm | himm | himm | himm | himm | himm | himm | himm <;> rw [himm] <;> exact ⟨_, rfl⟩
  obtain ⟨code, hcode⟩ := hcode
  unfold emitAtomicInst
  rw [if_neg hregs, if_pos hop, hcode]
  exact ⟨code, rfl⟩

/-- What the instruction set says of the instructions that `emitInst` calls plain. -/
def isaPlain (inst : EbpfInst) (s : Machine) : Option Machine :=
  if inst.opcode = EBPF_ATOMIC_OPCODE_32 ∨ inst.opcode = EBPF_ATOMIC_OPCODE_64 then isaAtomic inst s else inst.exec s

/-- The conditions under which their code is right. -/
def PlainFits (undefinedAt : Nat → BitVec 64 → Bool) (inst : EbpfInst) (s : Machine) : Prop :=
  if inst.opcode = EBPF_ATOMIC_OPCODE_32 ∨ inst.opcode = EBPF_ATOMIC_OPCODE_64 then
    AtomicFits undefinedAt inst s.regs s.total fun _ => []
  else DivisorFits inst s.regs

/-- The kinds of plain opcodes. -/
theorem plain_cases {op : BitVec 8} (h : op ∈ plainOpcodes) :
    op ∈ storeOpcodes ∨ op ∈ loadOpcodes ∨ (op = EBPF_ATOMIC_OPCODE_32 ∨ op = EBPF_ATOMIC_OPCODE_64) ∨ IsAluOpcode op := by
  simp only [plainOpcodes, List.mem_append, List.mem_cons, List.not_mem_nil, or_false] at h
  rcases h with (((((halu | hneg) | hmov) | hend) | hstore) | hload) | hatomic
  · exact .inr (.inr (.inr (.inl (.inl halu))))
  · exact .inr (.inr (.inr (.inl (.inr hneg))))
  · exact .inr (.inr (.inr (.inr (.inl hmov))))
  · exact .inr (.inr (.inr (.inr (.inr hend))))
  · exact .inl hstore
  · exact .inr (.inl hload)
  · exact .inr (.inr (.inl hatomic))

/-- The opcodes of the ALU are in the three lists. -/
theorem IsAluOpcode.mem {op : BitVec 8} (h : IsAluOpcode op) : op ∈ aluOpcodes ++ movOpcodes ++ unaryOpcodes := by
  simp only [unaryOpcodes, List.mem_append, List.mem_cons, List.not_mem_nil, or_false]
  rcases h with (halu | hneg | hneg) | hmov | hend | hend | hend
  · exact .inl (.inl halu)
  · exact .inr (.inr (.inr (.inr (.inl hneg))))
  · exact .inr (.inr (.inr (.inr (.inr hneg))))
  · exact .inl (.inr hmov)
  · exact .inr (.inl hend)
  · exact .inr (.inr (.inl hend))
  · exact .inr (.inr (.inr (.inl hend)))

/-- **The code of a plain instruction** does what the instruction set says, or faults with it. -/
theorem plain_exec {undefinedAt : Nat → BitVec 64 → Bool} (h : emitInst args blockBegin pc = .ok .plain)
    (hplain : (args.insts.inst pc).opcode ∈ plainOpcodes) (hfits : PlainFits undefinedAt (args.insts.inst pc) s) :
    runPlain undefinedAt pc (args.insts.inst pc) s = isaPlain (args.insts.inst pc) s := by
  have hatomicOp : ∀ op ∈ storeOpcodes ++ loadOpcodes, ¬ (op = EBPF_ATOMIC_OPCODE_32 ∨ op = EBPF_ATOMIC_OPCODE_64) := by
    decide +kernel
  -- kind by kind, as the switch does
  by_cases hstore : (args.insts.inst pc).opcode ∈ storeOpcodes
  · rw [runPlain, if_pos hstore, exec_store hstore, isaPlain, if_neg (hatomicOp _ (List.mem_append_left _ hstore))]
  by_cases hload : (args.insts.inst pc).opcode ∈ loadOpcodes
  · rw [runPlain, if_neg hstore, if_pos hload, exec_load hstore hload, isaPlain,
      if_neg (hatomicOp _ (List.mem_append_right _ hload))]
  rw [runPlain, if_neg hstore, if_neg hload]
  by_cases hatomic : (args.insts.inst pc).opcode = EBPF_ATOMIC_OPCODE_32 ∨ (args.insts.inst pc).opcode = EBPF_ATOMIC_OPCODE_64
  · obtain ⟨code, hcode⟩ := emitAtomicInst_of_emitInst h hatomic
    rw [PlainFits, if_pos hatomic] at hfits
    rw [hcode, isaPlain, if_pos hatomic]
    exact runAlone_atomic (emitAtomicInst_ok hcode).2.2 hfits
  · have halu : IsAluOpcode (args.insts.inst pc).opcode :=
      (((plain_cases hplain).resolve_left hstore).resolve_left hload).resolve_left hatomic
    obtain ⟨code, hcode⟩ := emitAlu_of_emitInst h halu
    have hnone : emitAtomicInst pc (args.insts.inst pc) = .ok none := by
      unfold emitAtomicInst
      rw [if_neg (emitAlu_cases hcode).1, if_neg hatomic]
    rw [PlainFits, if_neg hatomic] at hfits
    rw [hnone, hcode, isaPlain, if_neg hatomic, exec_alu hstore hload halu.mem]
    exact congrArg (Option.map fun regs => { s with regs := regs }) (alu_exec (emitAlu_cases hcode).2 hfits)

end Switch

end Vm
