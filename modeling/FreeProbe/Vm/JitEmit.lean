import FreeProbe.Vm.JitBlocks

/-!
# `Vm.JitEmit` — what emission asks for, and what it gives

For one instruction, `emitInst_spec` says when it can be emitted (`Emittable`) and how emission ends if not, and
`emitInst_code` which code it gets. `emitFrom_spec` is the first of the two for the loop.
-/

namespace Vm

/-! ## What emission asks of an instruction -/

/-- There is a block at the target, taken as a `uint16_t`. -/
def HasBlock (insts : Insts) (target : Int) : Prop := isBlockStart insts (dstBlkId target) = true

/-- The scan for return blocks finds one for a local call: it asks for `EBPF_OP_CALL` itself, and starts at
    position 2. -/
def HasReturnBlock (insts : Insts) (pc : Nat) : Prop :=
  0 < pc ∧ pc + 1 < insts.length ∧ (insts.inst pc).opcode = EBPF_OP_CALL

/-- `map_val` can be called: at compile time, or as a helper of the emitted code. -/
def MapValProvided (args : JitArgs) : Prop :=
  if args.patchMapValAtCompileTime then args.lddw.mapVal.isSome = true else args.mapValHelper = true

/-- The callback that an `LDDW` of the kind needs is there. -/
def LddwProvided (args : JitArgs) (src : BitVec 4) : Prop :=
  if src = 2 then MapValProvided args
  else if src = 3 then args.lddw.varAddr.isSome = true
  else if src = 4 then args.lddw.codeAddr.isSome = true
  else if src = 6 then MapValProvided args
  else True

/-- An `LDDW` has its second slot, and that slot is a pseudo instruction. -/
def LddwComplete (insts : Insts) (pc : Nat) : Prop :=
  let next := insts.inst (pc + 1)
  pc + 1 < insts.length ∧ next.opcode = 0 ∧ next.dst = 0 ∧ next.src = 0 ∧ next.offset = 0

/-- What `generateModule` asks of the instruction at `pc`. -/
def Emittable (args : JitArgs) (pc : Nat) : Prop :=
  let inst := args.insts.inst pc
  inst.dst ≤ 10 ∧ inst.src ≤ 10 ∧
    if inst.opcode ∈ aluOpcodes ∨ inst.opcode = EBPF_OP_NEG ∨ inst.opcode = EBPF_OP_NEG64 then True
    else if inst.opcode ∈ movOpcodes then
      inst.offset = 0 ∨ inst.offset = 8 ∨ inst.offset = 16 ∨ inst.offset = 32
    else if inst.opcode = EBPF_OP_LE ∨ inst.opcode = EBPF_OP_BE ∨ inst.opcode = EBPF_OP_BYTESWAP then
      inst.imm = 16 ∨ inst.imm = 32 ∨ inst.imm = 64
    else if inst.opcode ∈ storeOpcodes ∨ inst.opcode ∈ loadOpcodes then True
    else if inst.opcode = EBPF_OP_LDDW then LddwComplete args.insts pc ∧ LddwProvided args inst.src
    else if inst.opcode = EBPF_OP_JA then HasBlock args.insts (inst.offsetTarget pc)
    else if inst.opcode = EBPF_OP_JA_IMM then HasBlock args.insts (inst.immTarget pc)
    else if inst.opcode = EBPF_OP_CALL ∨ inst.opcode = EBPF_OP_CALL ||| 0x8 then
      if inst.src = 0x1 then HasReturnBlock args.insts pc ∧ HasBlock args.insts (inst.immTarget pc)
      else inst.imm ∈ args.extFuncs
    else if inst.opcode = EBPF_OP_EXIT then True
    else if inst.opcode ∈ condJmpOpcodes then
      HasBlock args.insts (inst.offsetTarget pc) ∧ HasBlock args.insts (pc + 1)
    else if inst.opcode = EBPF_ATOMIC_OPCODE_32 ∨ inst.opcode = EBPF_ATOMIC_OPCODE_64 then
      inst.imm ∈ [EBPF_ATOMIC_ADD, EBPF_ATOMIC_ADD ||| EBPF_ATOMIC_OP_FETCH, EBPF_ATOMIC_AND,
        EBPF_ATOMIC_AND ||| EBPF_ATOMIC_OP_FETCH, EBPF_ATOMIC_OR, EBPF_ATOMIC_OR ||| EBPF_ATOMIC_OP_FETCH,
        EBPF_ATOMIC_XOR, EBPF_ATOMIC_XOR ||| EBPF_ATOMIC_OP_FETCH, EBPF_ATOMIC_OP_XCHG, EBPF_ATOMIC_OP_CMPXCHG]
    else False

/-- The assertion on return blocks fails at the instruction. -/
def FailsAssertion (insts : Insts) (pc : Nat) : Prop :=
  let inst := insts.inst pc
  inst.dst ≤ 10 ∧ inst.src ≤ 10 ∧ (inst.opcode = EBPF_OP_CALL ∨ inst.opcode = EBPF_OP_CALL ||| 0x8) ∧
    inst.src = 0x1 ∧ ¬ HasReturnBlock insts pc

/-- Emission finds the return block of a local call where `split_blocks` has put one. -/
theorem isLocalFuncRetBlk_iff {args : JitArgs} {pc : Nat} (hsrc : (args.insts.inst pc).src = 0x1) :
    isLocalFuncRetBlk args (isBlockStart args.insts) (pc + 1) = true ↔ HasReturnBlock args.insts pc := by
  simp only [isLocalFuncRetBlk, Bool.and_eq_true, decide_eq_true_eq, beq_iff_eq, Nat.add_sub_cancel, hsrc,
    and_true, HasReturnBlock]
  constructor
  · rintro ⟨⟨hstart, hpos⟩, hop⟩
    exact ⟨by omega, isBlockStart_lt (Nat.succ_ne_zero pc) hstart, hop⟩
  · rintro ⟨hpos, hlt, hop⟩
    exact ⟨⟨isBlockStart_succ (by simp [isJmp, hop, EBPF_OP_CALL, EBPF_CLS_JMP, EBPF_MODE_CALL, EBPF_CLS_MASK]) hlt,
      by omega⟩, hop⟩

/-- How an emission ends: with a result where its condition holds, in a failed assertion where that one fails,
    with an error elsewhere. -/
structure Emission {α : Type} (emittable fails : Prop) (r : JitResult α) : Prop where
  ok        : emittable → ∃ a, r = .ok a
  undefined : fails → ¬ emittable ∧ r = .error .undefined
  refused   : ¬ emittable → ¬ fails → ∃ e, r = .error (.error e)

namespace Emission

variable {α β : Type} {emittable emittable' fails : Prop}

/-- Emission that succeeds. -/
theorem of_ok {a : α} (he : emittable) : Emission emittable False (.ok a : JitResult α) :=
  ⟨fun _ => ⟨a, rfl⟩, False.elim, fun h => absurd he h⟩

/-- Emission that reports an error. -/
theorem of_error {e : JitError} (he : ¬ emittable) : Emission emittable False (.error (.error e) : JitResult α) :=
  ⟨fun h => absurd h he, False.elim, fun _ _ => ⟨e, rfl⟩⟩

/-- Emission with a test. -/
theorem ite {r r' : JitResult α} {c : Prop} [Decidable c] (hpos : c → Emission emittable fails r)
    (hneg : ¬ c → Emission emittable' fails r') :
    Emission (if c then emittable else emittable') fails (if c then r else r') := by
  split
  · next h => exact hpos h
  · next h => exact hneg h

/-- A check, with an error where it fails. -/
theorem guard {a : α} {e : JitError} [Decidable emittable] :
    Emission emittable False (if emittable then .ok a else .error (.error e) : JitResult α) := by
  split
  · next h => exact of_ok h
  · next h => exact of_error h

/-- A callback that has to be there. -/
theorem provided {f : Option β} {r : JitResult α} (hsome : ∀ x, f = some x → ∃ a, r = .ok a)
    (hnone : f = none → ∃ e, r = .error (.error e)) : Emission (f.isSome = true) False r := by
  cases f with
  | none => exact ⟨fun h => absurd h Bool.false_ne_true, False.elim, fun _ _ => hnone rfl⟩
  | some x => exact ⟨fun _ => hsome x rfl, False.elim, fun h => absurd rfl h⟩

/-- The same emission with its conditions written otherwise. -/
theorem congr {r : JitResult α} {fails' : Prop} (h : Emission emittable fails r) (he : emittable ↔ emittable')
    (hf : fails ↔ fails') : Emission emittable' fails' r :=
  propext he ▸ propext hf ▸ h

/-- What follows cannot fail. -/
theorem map {r : JitResult α} (h : Emission emittable fails r) (g : α → β) :
    Emission emittable fails (do return g (← r)) := by
  refine ⟨fun he => ?_, fun hf => ?_, fun he hf => ?_⟩
  · obtain ⟨a, rfl⟩ := h.ok he
    exact ⟨g a, rfl⟩
  · obtain ⟨hne, rfl⟩ := h.undefined hf
    exact ⟨hne, rfl⟩
  · obtain ⟨e, rfl⟩ := h.refused he hf
    exact ⟨e, rfl⟩

/-- One emission after another. -/
theorem seq {γ : Type} {fails' : Prop} {r : JitResult α} {r' : JitResult β} (h : Emission emittable fails r)
    (h' : Emission emittable' fails' r') (g : α → β → γ) :
    Emission (emittable ∧ emittable') (fails ∨ emittable ∧ fails') (do return g (← r) (← r')) := by
  refine ⟨fun he => ?_, fun hf => ?_, fun he hf => ?_⟩
  · obtain ⟨a, rfl⟩ := h.ok he.1
    obtain ⟨b, rfl⟩ := h'.ok he.2
    exact ⟨g a b, rfl⟩
  · rcases hf with hf | ⟨he, hf⟩
    · obtain ⟨hne, rfl⟩ := h.undefined hf
      exact ⟨fun he => hne he.1, rfl⟩
    · obtain ⟨a, rfl⟩ := h.ok he
      obtain ⟨hne, rfl⟩ := h'.undefined hf
      exact ⟨fun he => hne he.2, rfl⟩
  · by_cases hfst : emittable
    · obtain ⟨a, rfl⟩ := h.ok hfst
      obtain ⟨e, rfl⟩ := h'.refused (fun h => he ⟨hfst, h⟩) fun h => hf (Or.inr ⟨hfst, h⟩)
      exact ⟨e, rfl⟩
    · obtain ⟨e, rfl⟩ := h.refused hfst fun h => hf (Or.inl h)
      exact ⟨e, rfl⟩

end Emission

/-- The value of a map needs `map_val`, one way or the other. -/
theorem emitMapVal_spec (args : JitArgs) (pc : Nat) (mapPtr : BitVec 64) (offset : BitVec 32) (e : JitError) :
    Emission (MapValProvided args) False (emitMapVal args pc mapPtr offset e) :=
  .ite (fun _ => .provided (fun x h => ⟨_, by rw [h]⟩) fun h => ⟨_, by rw [h]⟩) fun _ => .guard

/-- Each kind of `LDDW` needs the function it calls. -/
theorem lddwValue_spec (args : JitArgs) (pc : Nat) (inst nextinst : EbpfInst) :
    Emission (LddwProvided args inst.src) False (lddwValue args pc inst nextinst) := by
  unfold lddwValue
  -- the kinds without a callback, or with one that has a default
  by_cases h0 : inst.src = 0
  · rw [if_pos h0, h0]
    exact .of_ok trivial
  by_cases h1 : inst.src = 1
  · rw [if_neg h0, if_pos h1, h1]
    exact .of_ok trivial
  by_cases h5 : inst.src = 5
  · simp only [h5]
    exact .of_ok trivial
  rw [if_neg h0, if_neg h1, if_neg h5]
  unfold LddwProvided
  refine .ite (fun _ => emitMapVal_spec ..) fun _ => ?_
  refine .ite (fun _ => .provided (fun x h => ⟨_, by rw [h]⟩) fun h => ⟨_, by rw [h]⟩) fun _ => ?_
  refine .ite (fun _ => .provided (fun x h => ⟨_, by rw [h]⟩) fun h => ⟨_, by rw [h]⟩) fun _ => ?_
  exact .ite (fun _ => emitMapVal_spec ..) fun _ => .of_ok trivial

/-- An `LDDW` needs its second slot, too. -/
theorem emitLddw_spec (args : JitArgs) (pc : Nat) :
    Emission (LddwComplete args.insts pc ∧ LddwProvided args (args.insts.inst pc).src) False
      (emitLddw args pc (args.insts.inst pc)) := by
  unfold emitLddw
  split
  · next hlast => exact .of_error fun h => by have := h.1.1; omega
  · next hlast =>
      simp only
      split
      · next hnext =>
          refine .of_error ?_
          rintro ⟨⟨-, hop, hdst, hsrc, hoff⟩, -⟩
          rcases hnext with h | h | h | h
          exacts [h hop, h hdst, h hsrc, h hoff]
      · next hnext =>
          simp only [not_or, not_not] at hnext
          have hcomplete : LddwComplete args.insts pc := ⟨by omega, hnext⟩
          rw [and_iff_right hcomplete]
          exact (lddwValue_spec ..).map _

/-- A jump needs a block at its target. -/
theorem loadBlock_spec (insts : Insts) (pc : Nat) (target : Int) :
    Emission (HasBlock insts target) False (loadBlock (isBlockStart insts) pc target) := by
  unfold loadBlock HasBlock
  exact .guard

/-- A conditional jump needs one at the next instruction as well. -/
theorem emitCondJmp_spec (insts : Insts) (pc : Nat) (inst : EbpfInst) :
    Emission (HasBlock insts (inst.offsetTarget pc) ∧ HasBlock insts (pc + 1)) False
      (emitCondJmp (isBlockStart insts) pc inst) := by
  exact ((loadBlock_spec insts pc _).seq (loadBlock_spec insts pc _) _).congr Iff.rfl (by simp)

/-- A helper needs to be registered. -/
theorem emitExtFuncCall_spec (args : JitArgs) (inst : EbpfInst) :
    Emission (inst.imm ∈ args.extFuncs) False (emitExtFuncCall args inst) := by
  unfold emitExtFuncCall
  split
  · next h =>
      split
      · exact .of_ok h
      · exact .of_ok h
  · next h => exact .of_error h

/-- A local call needs its return block, without which an assertion fails, and a block at the function. -/
theorem emitCall_spec (args : JitArgs) (pc : Nat) :
    Emission
      (if (args.insts.inst pc).src = 0x1 then
        HasReturnBlock args.insts pc ∧ HasBlock args.insts ((args.insts.inst pc).immTarget pc)
      else (args.insts.inst pc).imm ∈ args.extFuncs)
      ((args.insts.inst pc).src = 0x1 ∧ ¬ HasReturnBlock args.insts pc)
      (emitCall args (isBlockStart args.insts) pc (args.insts.inst pc)) := by
  unfold emitCall
  by_cases hsrc : (args.insts.inst pc).src = 0x1
  · rw [if_pos hsrc, if_pos hsrc]
    by_cases hret : HasReturnBlock args.insts pc
    · rw [if_pos ((isLocalFuncRetBlk_iff hsrc).mpr hret), and_iff_right hret,
        show (_ ∧ ¬ HasReturnBlock args.insts pc) = False from eq_false fun h => h.2 hret]
      exact (loadBlock_spec ..).map _
    · rw [if_neg ((isLocalFuncRetBlk_iff hsrc).not.mpr hret)]
      exact ⟨fun h => absurd h.1 hret, fun _ => ⟨fun h => hret h.1, rfl⟩, fun _ h => absurd ⟨hsrc, hret⟩ h⟩
  · rw [if_neg hsrc, if_neg hsrc, show (_ = _ ∧ ¬ _) = False from eq_false fun h => hsrc h.1]
    exact emitExtFuncCall_spec ..

/-! ## Kinds of opcodes -/

/-- The opcodes whose code only computes. -/
def plainOpcodes : List (BitVec 8) :=
  aluOpcodes ++ [EBPF_OP_NEG, EBPF_OP_NEG64] ++ movOpcodes ++ [EBPF_OP_LE, EBPF_OP_BE, EBPF_OP_BYTESWAP] ++
    storeOpcodes ++ loadOpcodes ++ [EBPF_ATOMIC_OPCODE_32, EBPF_ATOMIC_OPCODE_64]

/-- The two opcodes of a call. -/
theorem EbpfInst.isCall_iff {inst : EbpfInst} :
    inst.isCall = true ↔ inst.opcode = EBPF_OP_CALL ∨ inst.opcode = EBPF_OP_CALL ||| 0x8 := by
  simp only [EbpfInst.isCall, Bool.or_eq_true, beq_iff_eq]

/-- The class is one of the two of jumps. -/
def jmpClass (op : BitVec 8) : Bool := op &&& EBPF_CLS_MASK == EBPF_CLS_JMP || op &&& EBPF_CLS_MASK == EBPF_CLS_JMP32

/-- Computing opcodes are of no jump class, the others are. -/
theorem plain_not_jmp {inst : EbpfInst} (h : inst.opcode ∈ plainOpcodes ∨ inst.opcode = EBPF_OP_LDDW) :
    isJmp inst = false := by
  have hclass : (EBPF_OP_LDDW :: plainOpcodes).any jmpClass = false := by
    simp only [plainOpcodes, List.any_cons, List.any_append]
    decide +kernel
  exact Bool.eq_false_iff.mpr (List.any_eq_false.mp hclass _ (List.mem_cons.mpr h.symm))

/-- Control flow is in the classes of jumps. -/
theorem isJmp_of_control {inst : EbpfInst} (h : inst.opcode = EBPF_OP_JA ∨ inst.opcode = EBPF_OP_JA_IMM ∨
    inst.opcode = EBPF_OP_EXIT ∨ inst.opcode ∈ condJmpOpcodes ∨
      (inst.opcode = EBPF_OP_CALL ∨ inst.opcode = EBPF_OP_CALL ||| 0x8)) : isJmp inst = true := by
  have hcond : condJmpOpcodes.all jmpClass = true := by decide +kernel
  change jmpClass inst.opcode = true
  rcases h with h | h | h | h | h | h
  case inr.inr.inr.inl => exact List.all_eq_true.mp hcond _ h
  all_goals
    rw [h]
    decide

/-- ALU, memory and `LDDW` are not. -/
theorem plain_not_control {inst : EbpfInst} (h : inst.opcode ∈ plainOpcodes ∨ inst.opcode = EBPF_OP_LDDW) :
    inst.opcode ≠ EBPF_OP_JA ∧ inst.opcode ≠ EBPF_OP_JA_IMM ∧ inst.opcode ≠ EBPF_OP_EXIT ∧
      inst.opcode ∉ condJmpOpcodes ∧ ¬ (inst.opcode = EBPF_OP_CALL ∨ inst.opcode = EBPF_OP_CALL ||| 0x8) := by
  have hnot := mt isJmp_of_control (Bool.eq_false_iff.mp (plain_not_jmp h))
  simpa only [not_or] using hnot

/-- A call is no jump. -/
theorem call_not_jump {op : BitVec 8} (h : op = EBPF_OP_CALL ∨ op = EBPF_OP_CALL ||| 0x8) :
    op ≠ EBPF_OP_JA ∧ op ≠ EBPF_OP_JA_IMM ∧ op ≠ EBPF_OP_EXIT ∧ op ∉ condJmpOpcodes := by
  rcases h with rfl | rfl
  · decide
  · decide

/-! ## One instruction -/

/-- A call is none of the opcodes that the `switch` has before it. -/
theorem call_opcode {inst : EbpfInst} (h : inst.opcode = EBPF_OP_CALL ∨ inst.opcode = EBPF_OP_CALL ||| 0x8) :
    ¬ (inst.opcode ∈ aluOpcodes ∨ inst.opcode = EBPF_OP_NEG ∨ inst.opcode = EBPF_OP_NEG64) ∧
      inst.opcode ∉ movOpcodes ∧
      ¬ (inst.opcode = EBPF_OP_LE ∨ inst.opcode = EBPF_OP_BE ∨ inst.opcode = EBPF_OP_BYTESWAP) ∧
      ¬ (inst.opcode ∈ storeOpcodes ∨ inst.opcode ∈ loadOpcodes) ∧ inst.opcode ≠ EBPF_OP_LDDW ∧
      inst.opcode ≠ EBPF_OP_JA ∧ inst.opcode ≠ EBPF_OP_JA_IMM := by
  have hplain : ¬ (inst.opcode ∈ plainOpcodes ∨ inst.opcode = EBPF_OP_LDDW) := by
    intro hplain
    exact (plain_not_control hplain).2.2.2.2 h
  obtain ⟨hja, hjaImm, -⟩ := call_not_jump h
  simp only [plainOpcodes, List.mem_append, List.mem_cons, List.not_mem_nil, or_false, not_or] at hplain ⊢
  tauto

/-- **What one instruction needs to be emitted.** -/
theorem emitInst_spec (args : JitArgs) (pc : Nat) :
    Emission (Emittable args pc) (FailsAssertion args.insts pc) (emitInst args (isBlockStart args.insts) pc) := by
  unfold emitInst Emittable FailsAssertion
  simp only [← and_assoc]
  by_cases hreg : (args.insts.inst pc).dst ≤ 10 ∧ (args.insts.inst pc).src ≤ 10
  · have hreg' : ¬ ((args.insts.inst pc).dst > 10 ∨ (args.insts.inst pc).src > 10) := by
      rintro (h | h)
      exacts [BitVec.not_lt.mpr hreg.1 h, BitVec.not_lt.mpr hreg.2 h]
    rw [if_neg hreg', and_iff_right hreg, and_iff_right hreg]
    -- the one case with an assertion
    by_cases hcall : (args.insts.inst pc).opcode = EBPF_OP_CALL ∨ (args.insts.inst pc).opcode = EBPF_OP_CALL ||| 0x8
    · obtain ⟨halu, hmov, hend, hmem, hlddw, hja, hjaImm⟩ := call_opcode hcall
      rw [if_neg halu, if_neg hmov, if_neg hend, if_neg hmem, if_neg hlddw, if_neg hja, if_neg hjaImm,
        if_pos hcall, if_neg halu, if_neg hmov, if_neg hend, if_neg hmem, if_neg hlddw, if_neg hja, if_neg hjaImm,
        if_pos hcall, and_iff_right hcall]
      exact emitCall_spec args pc
    · rw [show ((_ ∧ _) ∧ ¬ HasReturnBlock args.insts pc) = False from eq_false fun h => hcall h.1.1]
      -- the other cases of the switch, in their order
      refine .ite (fun _ => .of_ok trivial) fun _ => ?_
      refine .ite (fun _ => .guard) fun _ => ?_
      refine .ite (fun _ => .guard) fun _ => ?_
      refine .ite (fun _ => .of_ok trivial) fun _ => ?_
      refine .ite (fun _ => emitLddw_spec args pc) fun _ => ?_
      refine .ite (fun _ => (loadBlock_spec ..).map _) fun _ => ?_
      refine .ite (fun _ => (loadBlock_spec ..).map _) fun _ => ?_
      refine .ite (fun h => absurd h hcall) fun _ => ?_
      refine .ite (fun _ => .of_ok trivial) fun _ => ?_
      refine .ite (fun _ => emitCondJmp_spec ..) fun _ => ?_
      exact .ite (fun _ => .guard) fun _ => .of_error id
  · have hreg' : (args.insts.inst pc).dst > 10 ∨ (args.insts.inst pc).src > 10 := by
      simpa only [not_and_or, BitVec.not_le] using hreg
    rw [if_pos hreg', show (_ ∧ ¬ HasReturnBlock args.insts pc) = False from eq_false fun h => hreg h.1.1.1]
    exact .of_error fun h => hreg h.1

/-! ## The loop over the instructions -/

/-- The loop stops at the first instruction that cannot be emitted. -/
theorem emitFrom_spec (args : JitArgs) (fuel pc currBB : Nat) :
    Emission (∀ p ∈ positionsFrom args.insts fuel pc, Emittable args p)
      (∃ p ∈ positionsFrom args.insts fuel pc, FailsAssertion args.insts p ∧
        ∀ q ∈ positionsFrom args.insts fuel pc, q < p → Emittable args q)
      (emitFrom args (isBlockStart args.insts) fuel pc currBB) := by
  -- the loop emits the instruction at `pc` and then the rest; an assertion fails if nothing before it was refused
  induction fuel generalizing pc currBB with
  | zero => exact (Emission.of_ok trivial).congr (by simp [positionsFrom]) (by simp [positionsFrom])
  | succ fuel ih =>
      rw [emitFrom, positionsFrom]
      split
      · next hpc =>
          have hw := width_pos (args.insts.inst pc)
          have hafter : ∀ q ∈ positionsFrom args.insts fuel (pc + (args.insts.inst pc).width), pc < q := by
            intro q hq
            have := (mem_positionsFrom hq).1
            omega
          refine ((emitInst_spec args pc).seq (ih (pc + (args.insts.inst pc).width) _) _).congr ?_ ?_
          · simp only [List.forall_mem_cons]
          · constructor
            · rintro (hf | ⟨he, p, hp, hf, hfirst⟩)
              · refine ⟨pc, List.mem_cons_self, hf, fun q hq hlt => ?_⟩
                rcases List.mem_cons.mp hq with rfl | hq
                · exact absurd hlt (Nat.lt_irrefl q)
                · exact absurd hlt (Nat.lt_asymm (hafter q hq))
              · refine ⟨p, List.mem_cons_of_mem _ hp, hf, fun q hq hlt => ?_⟩
                rcases List.mem_cons.mp hq with rfl | hq
                · exact he
                · exact hfirst q hq hlt
            · rintro ⟨p, hp, hf, hfirst⟩
              rcases List.mem_cons.mp hp with rfl | hp
              · exact Or.inl hf
              · exact Or.inr ⟨hfirst pc List.mem_cons_self (hafter p hp), p, hp, hf, fun q hq hlt =>
                  hfirst q (List.mem_cons_of_mem _ hq) hlt⟩
      · exact (Emission.of_ok trivial).congr (by simp) (by simp)

/-! ## The code of one instruction -/

/-- The code that emission gives for an instruction. -/
inductive CodeOf (insts : Insts) (pc : Nat) : Code → Prop
  | plain (hop : (insts.inst pc).opcode ∈ plainOpcodes) : CodeOf insts pc .plain
  | lddw (value : LddwValue) (hop : (insts.inst pc).opcode = EBPF_OP_LDDW) : CodeOf insts pc (.lddw value)
  | ja (hop : (insts.inst pc).opcode = EBPF_OP_JA) (hdst : HasBlock insts ((insts.inst pc).offsetTarget pc)) :
      CodeOf insts pc (.br (dstBlkId ((insts.inst pc).offsetTarget pc)))
  | jaImm (hop : (insts.inst pc).opcode = EBPF_OP_JA_IMM) (hdst : HasBlock insts ((insts.inst pc).immTarget pc)) :
      CodeOf insts pc (.br (dstBlkId ((insts.inst pc).immTarget pc)))
  | localCall (hlocal : (insts.inst pc).isLocalCall = true) (hret : HasReturnBlock insts pc)
      (hdst : HasBlock insts ((insts.inst pc).immTarget pc)) :
      CodeOf insts pc (.localCall (dstBlkId ((insts.inst pc).immTarget pc)) (pc + 1))
  | tailCall (hcall : (insts.inst pc).isCall = true) (hsrc : (insts.inst pc).src ≠ 0x1)
      (himm : (insts.inst pc).imm = BPF_TAIL_CALL) : CodeOf insts pc (.tailCall (insts.inst pc).imm)
  | helper (hcall : (insts.inst pc).isCall = true) (hsrc : (insts.inst pc).src ≠ 0x1)
      (himm : (insts.inst pc).imm ≠ BPF_TAIL_CALL) : CodeOf insts pc (.helper (insts.inst pc).imm)
  | exit (hop : (insts.inst pc).opcode = EBPF_OP_EXIT) : CodeOf insts pc .exitOrReturn
  | condJmp (hop : (insts.inst pc).opcode ∈ condJmpOpcodes)
      (hdst : HasBlock insts ((insts.inst pc).offsetTarget pc)) (hnext : HasBlock insts (pc + 1)) :
      CodeOf insts pc (.condBr (dstBlkId ((insts.inst pc).offsetTarget pc)) (dstBlkId (pc + 1)))

/-- A computation that succeeds has succeeded in both its parts. -/
theorem bind_eq_ok {α β : Type} {x : JitResult α} {f : α → JitResult β} {r : β} (h : x >>= f = .ok r) :
    ∃ a, x = .ok a ∧ f a = .ok r := by
  cases x with
  | error e => cases h
  | ok a => exact ⟨a, rfl, h⟩

/-- A guarded computation that succeeds has passed its guard. -/
theorem ite_eq_ok {α : Type} {c : Prop} [Decidable c] {a r : α} {f : JitFault}
    (h : (if c then .ok a else .error f : JitResult α) = .ok r) : c ∧ a = r := by
  split at h
  · next hc => exact ⟨hc, Except.ok.inj h⟩
  · cases h

/-- The block of a target. -/
theorem loadBlock_eq_ok {insts : Insts} {pc dst : Nat} {target : Int}
    (h : loadBlock (isBlockStart insts) pc target = .ok dst) : HasBlock insts target ∧ dst = dstBlkId target :=
  (ite_eq_ok h).imp id Eq.symm

/-- What is emitted for a call. -/
theorem emitCall_code {args : JitArgs} {pc : Nat} {code : Code} (hcall : (args.insts.inst pc).isCall = true)
    (h : emitCall args (isBlockStart args.insts) pc (args.insts.inst pc) = .ok code) :
    CodeOf args.insts pc code := by
  unfold emitCall at h
  split at h
  · next hsrc =>
      split at h
      · next hret =>
          obtain ⟨dst, hdst, hcode⟩ := bind_eq_ok h
          obtain ⟨hblock, rfl⟩ := loadBlock_eq_ok hdst
          cases hcode
          exact .localCall (by simp [EbpfInst.isLocalCall, hcall, hsrc]) ((isLocalFuncRetBlk_iff hsrc).mp hret) hblock
      · cases h
  · next hsrc =>
      unfold emitExtFuncCall at h
      split at h
      · split at h
        · next himm =>
            cases h
            exact .tailCall hcall hsrc himm
        · next himm =>
            cases h
            exact .helper hcall hsrc himm
      · cases h

/-- For a conditional jump. -/
theorem emitCondJmp_code {insts : Insts} {pc : Nat} {code : Code} (hop : (insts.inst pc).opcode ∈ condJmpOpcodes)
    (h : emitCondJmp (isBlockStart insts) pc (insts.inst pc) = .ok code) : CodeOf insts pc code := by
  obtain ⟨dst, hdst, h⟩ := bind_eq_ok h
  obtain ⟨next, hnext, hcode⟩ := bind_eq_ok h
  obtain ⟨hblock, rfl⟩ := loadBlock_eq_ok hdst
  obtain ⟨hblock', rfl⟩ := loadBlock_eq_ok hnext
  cases hcode
  exact .condJmp hop hblock hblock'

/-- For an `LDDW`. -/
theorem emitLddw_code {args : JitArgs} {pc : Nat} {code : Code} (hop : (args.insts.inst pc).opcode = EBPF_OP_LDDW)
    (h : emitLddw args pc (args.insts.inst pc) = .ok code) : CodeOf args.insts pc code := by
  unfold emitLddw at h
  split at h
  · cases h
  · simp only at h
    split at h
    · cases h
    · obtain ⟨value, -, hcode⟩ := bind_eq_ok h
      cases hcode
      exact .lddw value hop

/-- One branch of the `switch`. -/
theorem branch_code {c : Prop} [Decidable c] {r r' : JitResult Code} {Q : Code → Prop}
    (hpos : c → ∀ code, r = .ok code → Q code) (hneg : ¬ c → ∀ code, r' = .ok code → Q code) :
    ∀ code, (if c then r else r') = .ok code → Q code := by
  intro code h
  split at h
  · next hc => exact hpos hc code h
  · next hc => exact hneg hc code h

/-- **What is emitted for any instruction**, by its opcode. -/
theorem emitInst_code (args : JitArgs) (pc : Nat) :
    ∀ code, emitInst args (isBlockStart args.insts) pc = .ok code → CodeOf args.insts pc code := by
  have hplain : ∀ code, (args.insts.inst pc).opcode ∈ plainOpcodes → .plain = code → CodeOf args.insts pc code := by
    rintro _ hop rfl
    exact .plain hop
  unfold emitInst
  -- case by case through the switch
  refine branch_code (fun _ code h => by cases h) fun _ => ?_
  refine branch_code (fun hop code h => hplain code ?_ (Except.ok.inj h)) fun _ => ?_
  · simp only [plainOpcodes, List.mem_append, List.mem_cons, List.not_mem_nil]
    tauto
  refine branch_code (fun hop code h => hplain code ?_ (ite_eq_ok h).2) fun _ => ?_
  · simp only [plainOpcodes, List.mem_append]
    tauto
  refine branch_code (fun hop code h => hplain code ?_ (ite_eq_ok h).2) fun _ => ?_
  · simp only [plainOpcodes, List.mem_append, List.mem_cons, List.not_mem_nil]
    tauto
  refine branch_code (fun hop code h => hplain code ?_ (Except.ok.inj h)) fun _ => ?_
  · simp only [plainOpcodes, List.mem_append]
    tauto
  refine branch_code (fun hop code h => emitLddw_code hop h) fun _ => ?_
  refine branch_code (fun hop code h => ?_) fun _ => ?_
  · obtain ⟨dst, hdst, hcode⟩ := bind_eq_ok h
    obtain ⟨hblock, rfl⟩ := loadBlock_eq_ok hdst
    cases hcode
    exact .ja hop hblock
  refine branch_code (fun hop code h => ?_) fun _ => ?_
  · obtain ⟨dst, hdst, hcode⟩ := bind_eq_ok h
    obtain ⟨hblock, rfl⟩ := loadBlock_eq_ok hdst
    cases hcode
    exact .jaImm hop hblock
  refine branch_code (fun hop code h => emitCall_code (EbpfInst.isCall_iff.mpr hop) h) fun _ => ?_
  refine branch_code (fun hop code h => ?_) fun _ => ?_
  · cases h
    exact .exit hop
  refine branch_code (fun hop code h => emitCondJmp_code hop h) fun _ => ?_
  refine branch_code (fun hop code h => hplain code ?_ (ite_eq_ok h).2) fun _ code h => by cases h
  simp only [plainOpcodes, List.mem_append, List.mem_cons, List.not_mem_nil]
  tauto

end Vm
