import FreeProbe.Lib.LlvmAtomic
import FreeProbe.Vm.JitAlu

/-!
# `Vm.JitAtomic` — the atomic instructions of `generateModule`

The code of the cases `EBPF_ATOMIC_OPCODE_32` and `EBPF_ATOMIC_OPCODE_64`, beside other threads. An `atomicrmw` gives
its old value from the step that updates. Of what is done with it, three paths differ: the one with `FETCH` stores the
`i32` in the low half of the slot, that of `XCHG` asks for no store at all, and `CMPXCHG` takes the value of a load
before its `cmpxchg`.
-/

namespace Vm

open Lib.Llvm

/-- The code of an atomic instruction, over the slots of the registers. -/
abbrev AtomicCode := MemCode (BitVec 4)

/-! ## The emitters -/

/-- `inst.opcode == EBPF_ATOMIC_OPCODE_64` -/
def EbpfInst.isAtomic64 (inst : EbpfInst) : Bool := inst.opcode = EBPF_ATOMIC_OPCODE_64

/-- The bits that the instruction works on. -/
def EbpfInst.atomicWidth (inst : EbpfInst) : Nat := if inst.isAtomic64 then 64 else 32

/-- The `CreateGEP` of both emitters. -/
def emitAtomicPtr (inst : EbpfInst) : AluValue 64 := .bin .add (.load 64 inst.dst) (.const (inst.offset.signExtend 64))

/-- A load of the operand; `CreateLoad` of an `i32` and the `CreateTrunc` of an `i64` are the low half. -/
def emitAtomicOperand (inst : EbpfInst) : AluValue inst.atomicWidth :=
  if inst.isAtomic64 then .load _ inst.src else .trunc _ (.load 64 inst.src)

/-- `llvm::MaybeAlign(32)` is an alignment of 32 bytes. -/
def emitAtomicBinOp (op : RmwOp) (inst : EbpfInst) (isFetch : Bool) : AtomicCode :=
  .rmw op 32 (emitAtomicPtr inst) (emitAtomicOperand inst) fun oldValue =>
    if isFetch then .store ⟨inst.src, inst.atomicWidth, .const oldValue⟩ .done else .done

/-- `EBPF_ATOMIC_OP_CMPXCHG`; both accesses have the alignment of their type. -/
def emitAtomicCmpXchg (inst : EbpfInst) : AtomicCode :=
  .load inst.atomicWidth (inst.atomicWidth / 8) (emitAtomicPtr inst) fun beforeVal =>
    .cmpxchg (inst.atomicWidth / 8) (emitAtomicPtr inst) (.load inst.atomicWidth 0) (.load inst.atomicWidth inst.src)
      fun _ => .store ⟨0, 64, .zext 64 (.const beforeVal)⟩ .done

/-- `(inst.imm & EBPF_ATOMIC_OP_FETCH) == EBPF_ATOMIC_OP_FETCH` -/
def EbpfInst.isFetch (inst : EbpfInst) : Bool := inst.imm &&& EBPF_ATOMIC_OP_FETCH = EBPF_ATOMIC_OP_FETCH

/-- The switch on `imm`. -/
def emitAtomicOp (inst : EbpfInst) : JitResult AtomicCode :=
  if inst.imm = EBPF_ATOMIC_ADD ∨ inst.imm = EBPF_ATOMIC_ADD ||| EBPF_ATOMIC_OP_FETCH then
    .ok (emitAtomicBinOp .add inst inst.isFetch)
  else if inst.imm = EBPF_ATOMIC_AND ∨ inst.imm = EBPF_ATOMIC_AND ||| EBPF_ATOMIC_OP_FETCH then
    .ok (emitAtomicBinOp .and inst inst.isFetch)
  else if inst.imm = EBPF_ATOMIC_OR ∨ inst.imm = EBPF_ATOMIC_OR ||| EBPF_ATOMIC_OP_FETCH then
    .ok (emitAtomicBinOp .or inst inst.isFetch)
  else if inst.imm = EBPF_ATOMIC_XOR ∨ inst.imm = EBPF_ATOMIC_XOR ||| EBPF_ATOMIC_OP_FETCH then
    .ok (emitAtomicBinOp .xor inst inst.isFetch)
  else if inst.imm = EBPF_ATOMIC_OP_XCHG then .ok (emitAtomicBinOp .xchg inst false)
  else if inst.imm = EBPF_ATOMIC_OP_CMPXCHG then .ok (emitAtomicCmpXchg inst)
  else .error (.error (.unsupportedAtomic inst.imm.toInt))

/-- The atomic cases of the switch on the opcode; `none` is another case. -/
def emitAtomicInst (pc : Nat) (inst : EbpfInst) : JitResult (Option AtomicCode) :=
  if inst.dst > 10 ∨ inst.src > 10 then .error (.error (.illegalRegister pc))
  else if inst.opcode = EBPF_ATOMIC_OPCODE_32 ∨ inst.opcode = EBPF_ATOMIC_OPCODE_64 then do
    return some (← emitAtomicOp inst)
  else .ok none

/-! ## The instruction set -/

/-- The location. -/
def EbpfInst.atomicAddr (inst : EbpfInst) (regs : AluRegs) : BitVec 64 := regs inst.dst + inst.offset.signExtend 64

/-- What the location holds after the operation. -/
def isaUpdate (inst : EbpfInst) (regs : AluRegs) {w : Nat} (old : BitVec w) : BitVec w :=
  let src := (regs inst.src).setWidth w
  if inst.imm = EBPF_ATOMIC_OP_CMPXCHG then if old = (regs 0).setWidth w then src else old
  else if inst.imm = EBPF_ATOMIC_OP_XCHG then src
  else if inst.imm &&& ~~~EBPF_ATOMIC_OP_FETCH = EBPF_ATOMIC_ADD then old + src
  else if inst.imm &&& ~~~EBPF_ATOMIC_OP_FETCH = EBPF_ATOMIC_AND then old &&& src
  else if inst.imm &&& ~~~EBPF_ATOMIC_OP_FETCH = EBPF_ATOMIC_OR then old ||| src
  else old ^^^ src

/-- What the registers hold after it: the old value, zero-extended, is in `r0`, in `src`, or nowhere. -/
def isaRegs (inst : EbpfInst) (regs : AluRegs) {w : Nat} (old : BitVec w) : AluRegs :=
  if inst.imm = EBPF_ATOMIC_OP_CMPXCHG then Function.update regs 0 (old.setWidth 64)
  else if inst.imm &&& EBPF_ATOMIC_OP_FETCH = EBPF_ATOMIC_OP_FETCH then
    Function.update regs inst.src (old.setWidth 64)
  else regs

/-- The code does what the instruction set says, in one atomic step: it has one atomic access, which reads and updates
    the location, what it returns is what that access saw, and its other accesses change nothing. -/
structure AtomicOutcome (inst : EbpfInst) (regs : AluRegs) (outcome : Outcome (BitVec 4) 64) (step : Access) : Prop where
  single : outcome.accesses.filter Access.atomic = [step]
  addr : step.addr = inst.atomicAddr regs
  update : step.after =
    step.before.write step.addr (isaUpdate inst regs (step.before.read step.addr inst.atomicWidth))
  slots : outcome.slots = isaRegs inst regs (step.before.read step.addr inst.atomicWidth)
  others : ∀ a ∈ outcome.accesses, a.atomic = false → a.after = a.before

/-- A run ends so. -/
def AtomicLawful (undefinedAt : Nat → BitVec 64 → Bool) (inst : EbpfInst) (code : AtomicCode) (regs : AluRegs)
    (mem : Mem) (others : Nat → List AtomicOp) : Prop :=
  ∃ outcome step, code.run undefinedAt regs mem others = some outcome ∧ AtomicOutcome inst regs outcome step

/-- When it does: the address keeps the promised alignment; the upper half of a 32-bit `FETCH`'s source is zero; the
    source of an `XCHG` is what the location holds; and the location of a `CMPXCHG` holds the same at its load and at
    its `cmpxchg`. -/
def AtomicFits (undefinedAt : Nat → BitVec 64 → Bool) (inst : EbpfInst) (regs : AluRegs) (mem : Mem)
    (others : Nat → List AtomicOp) : Prop :=
  let addr := inst.atomicAddr regs
  let first := runOthers mem (others 0)
  let seen := first.read addr inst.atomicWidth
  if inst.imm = EBPF_ATOMIC_OP_CMPXCHG then
    undefinedAt (inst.atomicWidth / 8) addr = false ∧ (runOthers first (others 1)).read addr inst.atomicWidth = seen
  else
    undefinedAt 32 addr = false ∧
      if inst.imm = EBPF_ATOMIC_OP_XCHG then regs inst.src = seen.setWidth 64
      else inst.isFetch → inst.isAtomic64 ∨ (regs inst.src).toNat < 2 ^ 32

/-! ## The emitted code -/

section Emitted

variable {undefinedAt : Nat → BitVec 64 → Bool} {inst : EbpfInst} {regs : AluRegs} {mem : Mem}
  {others : Nat → List AtomicOp}

/-- The pointer is the destination's value and the offset. -/
theorem eval_atomicPtr : (emitAtomicPtr inst).eval regs = some (inst.atomicAddr regs) := by
  rw [emitAtomicPtr, eval_bin (eval_load 64 inst.dst) (eval_const _), BitVec.setWidth_eq]
  rfl

/-- The operand is the low part of the source. -/
theorem eval_atomicOperand : (emitAtomicOperand inst).eval regs = some ((regs inst.src).setWidth _) := by
  unfold emitAtomicOperand
  split
  · exact eval_load _ _
  · exact (eval_trunc (eval_load 64 inst.src)).trans (by rw [BitVec.setWidth_eq])

/-- The slots after a store of an old value. -/
theorem run_storeOld {slot : BitVec 4} {w : Nat} {x : AluValue w} {a : BitVec w} (hx : x.eval regs = some a) :
    (Store.mk slot w x).run regs = some (Function.update regs slot (storeLow (regs slot) a)) := by
  unfold Store.run
  rw [show (Store.mk slot w x).value.eval regs = some a from hx]
  refine congrArg some (funext fun r => ?_)
  by_cases hr : r = slot
  · subst hr
    rw [Function.update_self]
    exact if_pos rfl
  · rw [Function.update_of_ne hr]
    exact if_neg hr

/-- What the registers hold after an `atomicrmw` and the store, if there is one. -/
def rmwRegs (inst : EbpfInst) (regs : AluRegs) (isFetch : Bool) (old : BitVec inst.atomicWidth) : AluRegs :=
  if isFetch then Function.update regs inst.src (storeLow (regs inst.src) old) else regs

/-- The run of an `atomicrmw`: one access. -/
theorem run_binOp {op : RmwOp} {isFetch : Bool} (h : undefinedAt 32 (inst.atomicAddr regs) = false) :
    (emitAtomicBinOp op inst isFetch).run undefinedAt regs mem others =
      let before := runOthers mem (others 0)
      let old := before.read (inst.atomicAddr regs) inst.atomicWidth
      let after := before.write (inst.atomicAddr regs) (op.eval old ((regs inst.src).setWidth _))
      some ⟨rmwRegs inst regs isFetch old, [⟨true, inst.atomicAddr regs, before, after⟩]⟩ := by
  rw [emitAtomicBinOp, run_rmw eval_atomicPtr eval_atomicOperand h]
  cases isFetch with
  | false => rfl
  | true =>
      simp only [if_true]
      rw [run_store (run_storeOld (eval_const _))]
      rfl

/-- One access is the atomic one. -/
theorem outcome_of_single {slots : AluRegs} {step : Access} (h : step.atomic = true) :
    (∃ step', AtomicOutcome inst regs ⟨slots, [step]⟩ step') ↔ AtomicOutcome inst regs ⟨slots, [step]⟩ step := by
  refine ⟨fun ⟨step', hout⟩ => ?_, fun hout => ⟨step, hout⟩⟩
  have hsingle := hout.single
  rw [List.filter_cons_of_pos h] at hsingle
  have heq := (List.cons.inj hsingle).1
  subst heq
  exact hout

/-- An `atomicrmw` of the right operation is lawful exactly if its alignment is kept and the registers are right. -/
theorem binOp_lawful_iff {op : RmwOp} {isFetch : Bool}
    (hop : ∀ old : BitVec inst.atomicWidth, isaUpdate inst regs old = op.eval old ((regs inst.src).setWidth _)) :
    AtomicLawful undefinedAt inst (emitAtomicBinOp op inst isFetch) regs mem others ↔
      undefinedAt 32 (inst.atomicAddr regs) = false ∧
        let seen := (runOthers mem (others 0)).read (inst.atomicAddr regs) inst.atomicWidth
        rmwRegs inst regs isFetch seen = isaRegs inst regs seen := by
  unfold AtomicLawful
  cases hundef : undefinedAt 32 (inst.atomicAddr regs) with
  | true =>
      rw [emitAtomicBinOp, run_undefined eval_atomicPtr eval_atomicOperand hundef]
      exact iff_of_false (fun ⟨_, _, h, _⟩ => nomatch h) (fun h => nomatch h.1)
  | false =>
      rw [run_binOp hundef]
      constructor
      · rintro ⟨outcome, step, hrun, hout⟩
        obtain rfl := Option.some.inj hrun
        have hout := (outcome_of_single rfl).mp ⟨step, hout⟩
        exact ⟨rfl, hout.slots⟩
      · rintro ⟨-, hslots⟩
        refine ⟨_, _, rfl, rfl, rfl, ?_, hslots, fun a ha hatomic => ?_⟩
        · rw [hop]
        · rw [List.mem_singleton.mp ha] at hatomic
          cases hatomic

/-- The low half of a slot is the slot if the upper half is zero. -/
theorem storeLow_eq_iff {w : Nat} (hw : w = 64 ∨ w = 32) (old : BitVec 64) (x : BitVec w) :
    storeLow old x = x.setWidth 64 ↔ w = 64 ∨ old.toNat < 2 ^ 32 := by
  rcases hw with rfl | rfl
  · exact iff_of_true (storeLow_of_le (Nat.le_refl _) old x) (.inl rfl)
  · have hlow : x.toNat < 2 ^ 32 := x.isLt
    have hold : old.toNat < 2 ^ 64 := old.isLt
    have hnat : (storeLow old x).toNat = 2 ^ 32 * (old.toNat / 2 ^ 32) + x.toNat := by
      unfold storeLow
      rw [BitVec.toNat_or, BitVec.toNat_shiftLeft, BitVec.toNat_ushiftRight, BitVec.toNat_setWidth, Nat.shiftRight_eq_div_pow,
        Nat.shiftLeft_eq, Nat.mod_eq_of_lt (by omega), Nat.mod_eq_of_lt (by omega), Nat.mul_comm,
        Nat.two_pow_add_eq_or_of_lt hlow]
    rw [← BitVec.toNat_inj, hnat, BitVec.toNat_setWidth, Nat.mod_eq_of_lt (by omega)]
    omega

/-- Extension with zeros loses nothing. -/
theorem zext_inj {w : Nat} (hw : w ≤ 64) {x y : BitVec w} (h : x.setWidth 64 = y.setWidth 64) : x = y := by
  have hback := congrArg (BitVec.setWidth w) h
  rwa [BitVec.setWidth_setWidth_of_le x hw, BitVec.setWidth_setWidth_of_le y hw, BitVec.setWidth_eq,
    BitVec.setWidth_eq] at hback

/-- There are two widths. -/
theorem atomicWidth_cases (inst : EbpfInst) : inst.atomicWidth = 64 ∨ inst.atomicWidth = 32 := by
  unfold EbpfInst.atomicWidth
  split
  · exact .inl rfl
  · exact .inr rfl

/-- The wide one has its own opcode. -/
theorem atomicWidth_eq_iff (inst : EbpfInst) : inst.atomicWidth = 64 ↔ inst.isAtomic64 = true := by
  unfold EbpfInst.atomicWidth
  split
  · next h => exact iff_of_true rfl h
  · next h => exact iff_of_false (by decide) h

/-- The run of a `CMPXCHG`: a load, then the `cmpxchg`, and the others between them. -/
theorem run_cmpXchg (h : undefinedAt (inst.atomicWidth / 8) (inst.atomicAddr regs) = false) :
    (emitAtomicCmpXchg inst).run undefinedAt regs mem others =
      let addr := inst.atomicAddr regs
      let first := runOthers mem (others 0)
      let second := runOthers first (others 1)
      let old := second.read addr inst.atomicWidth
      let after := second.write addr (cmpxchgEval old ((regs 0).setWidth _) ((regs inst.src).setWidth _))
      some ⟨Function.update regs 0 ((first.read addr inst.atomicWidth).setWidth 64),
        [⟨false, addr, first, first⟩, ⟨true, addr, second, after⟩]⟩ := by
  rw [emitAtomicCmpXchg, run_load eval_atomicPtr h]
  simp only
  rw [run_cmpxchg eval_atomicPtr (eval_load _ _) (eval_load _ _) h]
  simp only
  rw [run_store (run_storeOld (eval_zext (eval_const _))), storeLow_of_le (Nat.le_refl _), BitVec.setWidth_eq]
  rfl

/-- A `CMPXCHG` is lawful exactly if its load sees what its `cmpxchg` sees. -/
theorem cmpXchg_lawful_iff (himm : inst.imm = EBPF_ATOMIC_OP_CMPXCHG) :
    AtomicLawful undefinedAt inst (emitAtomicCmpXchg inst) regs mem others ↔
      AtomicFits undefinedAt inst regs mem others := by
  have hregs {w : Nat} (old : BitVec w) : isaRegs inst regs old = Function.update regs 0 (old.setWidth 64) := by
    unfold isaRegs
    exact if_pos himm
  have hupdate {w : Nat} (old : BitVec w) :
      isaUpdate inst regs old = cmpxchgEval old ((regs 0).setWidth w) ((regs inst.src).setWidth w) := by
    unfold isaUpdate
    exact if_pos himm
  have hle : inst.atomicWidth ≤ 64 := by
    rcases atomicWidth_cases inst with h | h
    · exact Nat.le_of_eq h
    · exact h ▸ (by decide : 32 ≤ 64)
  unfold AtomicLawful AtomicFits
  simp only
  rw [if_pos himm]
  cases hundef : undefinedAt (inst.atomicWidth / 8) (inst.atomicAddr regs) with
  | true =>
      rw [emitAtomicCmpXchg, run_load_undefined eval_atomicPtr hundef]
      exact iff_of_false (fun ⟨_, _, h, _⟩ => nomatch h) (fun h => nomatch h.1)
  | false =>
      rw [run_cmpXchg hundef]
      simp only
      constructor
      · rintro ⟨outcome, step, hrun, hout⟩
        obtain rfl := Option.some.inj hrun
        have hstep := hout.single
        rw [List.filter_cons_of_neg Bool.false_ne_true, List.filter_cons_of_pos rfl] at hstep
        obtain rfl := (List.cons.inj hstep).1
        -- both registers' updates are of `r0`
        have hslots := congrFun (hout.slots.trans (hregs _)) 0
        dsimp only at hslots
        rw [Function.update_self, Function.update_self] at hslots
        exact ⟨trivial, (zext_inj hle hslots).symm⟩
      · rintro ⟨-, hsame⟩
        refine ⟨_, _, rfl, rfl, rfl, ?_, ?_, fun a ha hatomic => ?_⟩
        · rw [hupdate]
        · rw [hregs, hsame]
        · rcases List.mem_pair.mp ha with rfl | rfl
          · rfl
          · cases hatomic

end Emitted

/-! ## The switch -/

section Switch

variable {undefinedAt : Nat → BitVec 64 → Bool} {inst : EbpfInst} {code : AtomicCode}

/-- The operations with and without `FETCH`. -/
def fetchOps : List (BitVec 32 × RmwOp) :=
  [(EBPF_ATOMIC_ADD, .add), (EBPF_ATOMIC_AND, .and), (EBPF_ATOMIC_OR, .or), (EBPF_ATOMIC_XOR, .xor)]

/-- The cases of the switch on `imm`. -/
inductive AtomicCase (inst : EbpfInst) : AtomicCode → Prop where
  | fetch {imm : BitVec 32} {op : RmwOp} (hin : (imm, op) ∈ fetchOps)
      (himm : inst.imm = imm ∨ inst.imm = imm ||| EBPF_ATOMIC_OP_FETCH) :
      AtomicCase inst (emitAtomicBinOp op inst inst.isFetch)
  | xchg (himm : inst.imm = EBPF_ATOMIC_OP_XCHG) : AtomicCase inst (emitAtomicBinOp .xchg inst false)
  | cmpxchg (himm : inst.imm = EBPF_ATOMIC_OP_CMPXCHG) : AtomicCase inst (emitAtomicCmpXchg inst)

/-- What is emitted, by the operation in the immediate. -/
theorem emitAtomicOp_cases (h : emitAtomicOp inst = .ok code) : AtomicCase inst code := by
  unfold emitAtomicOp at h
  split at h
  · next himm => exact Except.ok.inj h ▸ .fetch (show (EBPF_ATOMIC_ADD, RmwOp.add) ∈ fetchOps by decide) himm
  split at h
  · next himm => exact Except.ok.inj h ▸ .fetch (show (EBPF_ATOMIC_AND, RmwOp.and) ∈ fetchOps by decide) himm
  split at h
  · next himm => exact Except.ok.inj h ▸ .fetch (show (EBPF_ATOMIC_OR, RmwOp.or) ∈ fetchOps by decide) himm
  split at h
  · next himm => exact Except.ok.inj h ▸ .fetch (show (EBPF_ATOMIC_XOR, RmwOp.xor) ∈ fetchOps by decide) himm
  split at h
  · next himm => exact Except.ok.inj h ▸ .xchg himm
  split at h
  · next himm => exact Except.ok.inj h ▸ .cmpxchg himm
  · cases h

/-- An instruction that is emitted has registers of the machine, one of the two opcodes and a known operation. -/
theorem emitAtomicInst_ok {pc : Nat} (h : emitAtomicInst pc inst = .ok (some code)) :
    ¬ (inst.dst > 10 ∨ inst.src > 10) ∧
      (inst.opcode = EBPF_ATOMIC_OPCODE_32 ∨ inst.opcode = EBPF_ATOMIC_OPCODE_64) ∧ AtomicCase inst code := by
  unfold emitAtomicInst at h
  split at h
  · cases h
  · next hregs =>
      split at h
      · next hop =>
          cases hcode : emitAtomicOp inst with
          | error e =>
              rw [hcode] at h
              cases h
          | ok code' =>
              rw [hcode] at h
              cases h
              exact ⟨hregs, hop, emitAtomicOp_cases hcode⟩
      · cases h

/-- What the immediates of `fetchOps` decide. -/
theorem fetchOps_imm {imm : BitVec 32} {op : RmwOp} (hin : (imm, op) ∈ fetchOps)
    (himm : inst.imm = imm ∨ inst.imm = imm ||| EBPF_ATOMIC_OP_FETCH) (regs : AluRegs) {w : Nat} (old : BitVec w) :
    isaUpdate inst regs old = op.eval old ((regs inst.src).setWidth w) ∧
      inst.imm ≠ EBPF_ATOMIC_OP_CMPXCHG ∧ inst.imm ≠ EBPF_ATOMIC_OP_XCHG := by
  simp only [fetchOps, List.mem_cons, List.not_mem_nil, or_false, Prod.mk.injEq] at hin
  unfold isaUpdate
  rcases hin with ⟨rfl, rfl⟩ | ⟨rfl, rfl⟩ | ⟨rfl, rfl⟩ | ⟨rfl, rfl⟩ <;> rcases himm with himm | himm <;>
    rw [himm] <;> exact ⟨rfl, by decide, by decide⟩

/-- **The emitted code of an atomic instruction is lawful exactly if the condition holds**, whatever the registers, the
    memory and the other threads' operations between its accesses. -/
theorem atomic_lawful_iff {pc : Nat} (h : emitAtomicInst pc inst = .ok (some code)) (regs : AluRegs) (mem : Mem)
    (others : Nat → List AtomicOp) :
    AtomicLawful undefinedAt inst code regs mem others ↔ AtomicFits undefinedAt inst regs mem others := by
  -- by the operation: the compare and exchange is on its own, the others are one `atomicrmw`
  cases (emitAtomicInst_ok h).2.2 with
  | cmpxchg himm => exact cmpXchg_lawful_iff himm
  | xchg himm =>
      have hcmp : inst.imm ≠ EBPF_ATOMIC_OP_CMPXCHG := by
        rw [himm]
        decide
      have hregs {w : Nat} (old : BitVec w) : isaRegs inst regs old = Function.update regs inst.src (old.setWidth 64) := by
        unfold isaRegs
        rw [if_neg hcmp, if_pos (by rw [himm]; decide)]
      refine (binOp_lawful_iff fun old => ?_).trans ?_
      · unfold isaUpdate
        simp only
        rw [if_neg hcmp, if_pos himm]
        rfl
      · unfold AtomicFits
        simp only
        rw [if_neg hcmp, if_pos himm, hregs]
        exact and_congr_right fun _ => Function.eq_update_self_iff
  | fetch hin himm =>
      have himms := fun old : BitVec inst.atomicWidth => fetchOps_imm hin himm regs old
      obtain ⟨-, hcmp, hxchg⟩ := himms 0
      refine (binOp_lawful_iff fun old => (himms old).1).trans ?_
      unfold AtomicFits
      simp only
      rw [if_neg hcmp, if_neg hxchg]
      refine and_congr_right fun _ => ?_
      generalize (runOthers mem (others 0)).read (inst.atomicAddr regs) inst.atomicWidth = old
      unfold rmwRegs isaRegs
      rw [if_neg hcmp]
      cases hfetch : inst.isFetch with
      | false =>
          rw [if_neg (of_decide_eq_false hfetch)]
          exact iff_of_true rfl (fun h => nomatch h)
      | true =>
          rw [if_pos (of_decide_eq_true hfetch), if_pos rfl, ← atomicWidth_eq_iff]
          refine Iff.trans ?_ ((storeLow_eq_iff (atomicWidth_cases inst) _ old).trans ⟨fun h _ => h, fun h => h rfl⟩)
          exact ⟨fun h => by simpa using congrFun h inst.src, fun h => by rw [h]⟩

/-- An addition with `FETCH`, on a target without alignment traps, while another thread adds to the location before it
    and after it. -/
theorem atomic_lawful_iff_fetch :
    AtomicLawful (fun _ _ => false) ⟨EBPF_ATOMIC_OPCODE_64, 1, 2, 0, EBPF_ATOMIC_ADD ||| EBPF_ATOMIC_OP_FETCH⟩
      (emitAtomicBinOp .add ⟨EBPF_ATOMIC_OPCODE_64, 1, 2, 0, EBPF_ATOMIC_ADD ||| EBPF_ATOMIC_OP_FETCH⟩ true)
      (fun _ => 8) (fun _ => 0) (fun _ => [.rmw .add 64 8 5]) :=
  (atomic_lawful_iff (show emitAtomicInst 0 _ = .ok (some _) from rfl) _ _ _).mpr ⟨rfl, fun _ => .inl rfl⟩

/-- An exchange leaves its source as it is. -/
theorem atomic_not_lawful :
    ¬ ∀ pc inst code regs mem others, emitAtomicInst pc inst = .ok (some code) →
      AtomicLawful (fun _ _ => false) inst code regs mem others := by
  intro h
  obtain ⟨outcome, step, hrun, hout⟩ :=
    h 0 ⟨EBPF_ATOMIC_OPCODE_64, 1, 2, 0, EBPF_ATOMIC_OP_XCHG⟩ _ (fun _ => 8) (fun _ => 0) (fun _ => []) rfl
  have hslots : outcome.slots 2 = 8 := by
    obtain rfl := Option.some.inj hrun
    rfl
  have hstep : step = ⟨true, 8, fun _ => 0, Mem.write (fun _ => 0) 8 (8 : BitVec 64)⟩ := by
    obtain rfl := Option.some.inj hrun
    exact (List.cons.inj hout.single).1.symm
  subst hstep
  have hold : outcome.slots 2 = 0 := congrFun hout.slots 2
  exact absurd (hslots.symm.trans hold) (by decide)

/-- The code of an atomic instruction has no part in the control flow. -/
theorem emitInst_of_emitAtomicInst {args : JitArgs} {blockBegin : Nat → Bool} {pc : Nat}
    (h : emitAtomicInst pc (args.insts.inst pc) = .ok (some code)) : emitInst args blockBegin pc = .ok .plain := by
  obtain ⟨hregs, hop, hcase⟩ := emitAtomicInst_ok h
  unfold emitInst
  generalize args.insts.inst pc = inst at *
  dsimp only
  rw [if_neg hregs]
  have hatomic : emitAtomic inst = .ok .plain := by
    unfold emitAtomic
    refine if_pos ?_
    cases hcase with
    | cmpxchg himm =>
        rw [himm]
        decide
    | xchg himm =>
        rw [himm]
        decide
    | fetch hin himm =>
        simp only [fetchOps, List.mem_cons, List.not_mem_nil, or_false, Prod.mk.injEq] at hin
        rcases hin with ⟨rfl, rfl⟩ | ⟨rfl, rfl⟩ | ⟨rfl, rfl⟩ | ⟨rfl, rfl⟩ <;> rcases himm with himm | himm <;>
          rw [himm] <;> decide
  rcases hop with hop | hop <;> rw [hop] <;> exact hatomic

end Switch

end Vm
