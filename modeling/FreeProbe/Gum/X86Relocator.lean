import FreeProbe.Gum.X86Writer

/-!
# `Gum.X86Relocator` — moving a function's first instructions

`GumX86Relocator` for x86-64 Linux. It reads instructions until enough bytes are read (`readUntil`) and writes them to
another place, where what depends on the place is rewritten (`writeOne`). The disassembler is Capstone's: `Capstone` is
any function with what its users rely on.

`form` says beforehand what becomes of an instruction at a place, `emits_writeOne` that it does.
-/

namespace Gum

open X86 Lib.Memory Lib.Fixups GumX86Writer

/-! ## Instructions -/

/-- `x86_insn`, as far as the relocator tells instructions apart. -/
inductive X86Insn where
  | jo | jno | jb | jae | je | jne | jbe | ja | js | jns | jp | jnp | jl | jge | jle | jg
  | jecxz | jrcxz | jmp | ret | retf | call | push | cmpxchg | other
deriving DecidableEq, Repr

namespace X86Insn

/-- `gum_x86_reader_insn_is_jcc`. -/
def isJcc : X86Insn → Bool
  | .jo | .jno | .jb | .jae | .je | .jne | .jbe | .ja | .js | .jns | .jp | .jnp | .jl | .jge | .jle | .jg => true
  | _ => false

/-- `gum_get_jcc_opcode`. -/
def jccOpcode : X86Insn → Byte
  | .jo => 0x70
  | .jno => 0x71
  | .jb => 0x72
  | .jae => 0x73
  | .je => 0x74
  | .jne => 0x75
  | .jbe => 0x76
  | .ja => 0x77
  | .js => 0x78
  | .jns => 0x79
  | .jp => 0x7a
  | .jnp => 0x7b
  | .jl => 0x7c
  | .jge => 0x7d
  | .jle => 0x7e
  | .jg => 0x7f
  | _ => 0xe3

/-- The instructions that `gum_x86_relocator_rewrite_conditional_branch` gets. -/
def isConditional (id : X86Insn) : Bool := id = .jecxz || id = .jrcxz || id.isJcc

/-- The instructions behind which nothing is read. -/
def endsInput (id : X86Insn) : Bool := id = .jmp || id = .ret || id = .retf

end X86Insn

/-- The first operand. -/
inductive X86Op where
  | imm (value : Word)
  | mem
  | reg
  | invalid
deriving DecidableEq, Repr

/-- `cs_insn` with its details: `modrmOffset` is 0 in an instruction without that byte, `accesses` are the registers
    that `cs_reg_read` or `cs_reg_write` finds. -/
structure CsInsn where
  id          : X86Insn
  address     : Word
  bytes       : List Byte
  operand     : X86Op
  modrm       : Byte
  modrmOffset : Nat
  dispOffset  : Nat
  disp        : Word
  accesses    : List GumX86Reg
deriving DecidableEq, Repr

namespace CsInsn

def size (insn : CsInsn) : Nat := insn.bytes.length

/-- Where the next instruction is. -/
def pc (insn : CsInsn) : Word := insn.address + BitVec.ofNat 64 insn.size

/-- `gum_x86_call_is_to_next_instruction`, of any instruction. -/
def IsToNextInstruction (insn : CsInsn) : Prop := insn.operand = .imm insn.pc

instance (insn : CsInsn) : Decidable insn.IsToNextInstruction := inferInstanceAs (Decidable (_ = _))

/-- The address of the memory operand is an offset from the next instruction. -/
def IsRipRelative (insn : CsInsn) : Prop :=
  insn.modrmOffset ≠ 0 ∧ (insn.modrm &&& 0xc0) >>> 6 = 0 ∧ insn.modrm &&& 0x07 = 5

instance (insn : CsInsn) : Decidable insn.IsRipRelative := inferInstanceAs (Decidable (_ ∧ _ ∧ _))

/-- `cpu_regs`. -/
def cpuRegs : List GumX86Reg := [.rax, .rcx, .rdx, .rbx, .rbp, .rsi, .rdi]

/-- `rip_reg`: the first register that the instruction leaves alone. -/
def ripReg (insn : CsInsn) : Option GumX86Reg :=
  cpuRegs.find? fun reg =>
    reg ≠ .ofIndex ((insn.modrm &&& 0x38) >>> 3) ∧ ¬ (insn.id = .cmpxchg ∧ reg = .rax) ∧ reg ∉ insn.accesses

/-- What holds of an instruction of the processor: at most 15 bytes, an opcode beside an operand in the instruction, an
    opcode and the operand byte beside an offset of 4 bytes, and a register that is not used. -/
structure WellFormed (insn : CsInsn) : Prop where
  size_pos    : 0 < insn.size
  size_le     : insn.size ≤ 15
  jump        : insn.id = .call ∨ insn.id = .jmp → 2 ≤ insn.size ∧ insn.operand ≠ .invalid
  conditional : insn.id.isConditional → 2 ≤ insn.size ∧ ∃ target, insn.operand = .imm target
  ripRelative : insn.IsRipRelative → 6 ≤ insn.size ∧ insn.ripReg.isSome

end CsInsn

/-- `cs_disasm_iter` on a function's code. -/
structure Capstone where
  disasmIter : Word → Option CsInsn
  address    : ∀ a insn, disasmIter a = some insn → insn.address = a
  wellFormed : ∀ a insn, disasmIter a = some insn → insn.WellFormed

/-! ## Reading -/

/-- `GumX86Relocator`: where it reads, and what it has read. -/
structure GumX86Relocator where
  inputStart : Word
  inputInsns : List CsInsn
  eoi        : Bool

/-- A call of `g_abort` or a failed assertion. -/
inductive RelocatorAbort where
  | operandType
  | noRipReg
deriving DecidableEq, Repr

namespace GumX86Relocator

variable (cs : Capstone) (self : GumX86Relocator)

/-- `gum_x86_relocator_reset`. -/
def reset (inputCode : Word) : GumX86Relocator := ⟨inputCode, [], false⟩

/-- `input_cur - input_start`. -/
def relocBytes : Nat := (self.inputInsns.map CsInsn.size).sum

/-- Where the next instruction is read. -/
def inputPc : Word := self.inputStart + BitVec.ofNat 64 self.relocBytes

/-- `gum_x86_relocator_read_one`; `none` where it returns 0. -/
def readOne : Option GumX86Relocator :=
  if self.eoi then none
  else (cs.disasmIter self.inputPc).map fun insn =>
    { self with inputInsns := self.inputInsns ++ [insn], eoi := insn.id.endsInput }

/-- The loop of `gum_x86_relocator_can_relocate` and of the trampoline; every turn reads a byte at least. -/
def readUntil (minBytes : Nat) : Nat → GumX86Relocator → Option GumX86Relocator
  | 0, _ => none
  | turns + 1, self =>
    (self.readOne cs).bind fun self => if self.relocBytes < minBytes then readUntil minBytes turns self else some self

/-- The instructions that make room for a redirection, where there are enough of them. -/
def readPrologue (address : Word) (minBytes : Nat) : Option GumX86Relocator :=
  readUntil cs minBytes minBytes (reset address)

/-- `gum_x86_relocator_can_relocate`. -/
def canRelocate (address : Word) (minBytes : Nat) : Bool := (readPrologue cs address minBytes).isSome

/-! ## Writing -/

/-- A call to the next instruction pushes the address of that. -/
def putReturnAddress (address : Word) (cw : GumX86Writer) : GumX86Writer :=
  ((cw.putPushReg .rax).putMovRegAddress .rax address).putXchgRegRegPtr .rax .rsp

/-- `jmp` through the storage: the target is read from there and pushed, and `ret` goes to it. -/
def putIndirectJump (storage : Word) (cw : GumX86Writer) : GumX86Writer :=
  ((((cw.putPushReg .rax).putMovRegAddress .rax storage).putMovRegRegPtr .rax .rax).putXchgRegRegPtr .rax .rsp).putRet

/-- The storage of a call or a jump: the last four bytes are the offset. -/
def storageOf (insn : CsInsn) : Word := insn.pc + BitVec.ofInt 64 (leInt (insn.bytes.drop (insn.size - 4)))

/-- The call's return address is known, and filled in, when its end is written. -/
def putIndirectCall (storage : Word) (cw : GumX86Writer) : GumX86Writer :=
  let placeholder := ((cw.putPushReg .rax).putMovRegAddress .rax 0).offset - 8
  let cw := putIndirectJump storage (putReturnAddress 0 cw)
  { cw with code := store cw.code placeholder (leBytes 8 cw.cur.toNat) }

/-- `data` with other bytes from a place on. -/
def overwrite (data : List Byte) (place : Nat) (bytes : List Byte) : List Byte :=
  data.take place ++ bytes ++ data.drop (place + bytes.length)

/-- `GUM_RED_ZONE_SIZE`. -/
def gumRedZoneSize : Word := 128

/-- The instruction with its address in a register, below the red zone. -/
def putRebased (insn : CsInsn) (ripReg : GumX86Reg) (cw : GumX86Writer) : GumX86Writer :=
  let cw := if insn.id = .push then cw.putPushReg .rax else cw
  let cw := ((cw.putLeaRegRegOffset .rsp .rsp (-gumRedZoneSize)).putPushReg ripReg).putMovRegAddress ripReg insn.pc
  let cw :=
    if insn.id = .push then
      (cw.putMovRegRegOffsetPtr ripReg ripReg insn.disp).putMovRegOffsetPtrReg .rsp (0x08 + gumRedZoneSize) ripReg
    else
      cw.putBytes (insn.bytes.set insn.modrmOffset (2#8 <<< 6 ||| insn.modrm &&& 0x38 ||| ripReg.index))
  (cw.putPopReg ripReg).putLeaRegRegOffset .rsp .rsp gumRedZoneSize

/-- `gum_x86_relocator_rewrite_if_rip_relative`; `none` where it returns `FALSE`. -/
def rewriteIfRipRelative (insn : CsInsn) (cw : GumX86Writer) : Except RelocatorAbort (Option GumX86Writer) :=
  if insn.IsRipRelative then
    let offset := insn.pc + insn.disp - (cw.cur + BitVec.ofNat 64 insn.size)
    if WithinInt32 offset.toInt then
      .ok (some (cw.putBytes ((overwrite insn.bytes insn.dispOffset (leBytes 4 offset.toNat)).take insn.size)))
    else if insn.id = .call then .ok (some (putIndirectCall (storageOf insn) cw))
    else if insn.id = .jmp then .ok (some (putIndirectJump (storageOf insn) cw))
    else
      match insn.ripReg with
      | none => .error .noRipReg
      | some ripReg => .ok (some (putRebased insn ripReg cw))
  else .ok none

/-- `gum_x86_relocator_rewrite_unconditional_branch`. -/
def rewriteUnconditionalBranch (insn : CsInsn) (cw : GumX86Writer) : Except RelocatorAbort (Option GumX86Writer) :=
  if insn.id = .call ∧ insn.IsToNextInstruction then .ok (some (putReturnAddress insn.pc cw))
  else
    match insn.operand with
    | .imm target => .ok (some (if insn.id = .call then cw.putCallAddress target else cw.putJmpAddress target))
    | .mem => rewriteIfRipRelative insn cw
    | .reg => .ok none
    | .invalid => .error .operandType

/-- The target is among the instructions that were read. -/
def IsInside (target : Word) : Prop := self.inputStart ≤ target ∧ target < self.inputPc

instance (target : Word) : Decidable (self.IsInside target) := inferInstanceAs (Decidable (_ ∧ _))

/-- A branch over a jump, whose two labels are made up from where the branch is written. -/
def putFarBranch (opcode : Byte) (target : Word) (cw : GumX86Writer) : GumX86Writer :=
  ((((cw.putJccShortLabel opcode (.isTrue cw.cur)).putJmpShortLabel (.isFalse cw.cur)).putLabel
    (.isTrue cw.cur)).putJmpAddress target).putLabel (.isFalse cw.cur)

/-- `gum_x86_relocator_rewrite_conditional_branch`. -/
def rewriteConditionalBranch (insn : CsInsn) (cw : GumX86Writer) : Except RelocatorAbort (Option GumX86Writer) :=
  match insn.operand with
  | .imm target =>
    if self.IsInside target then .ok (some (cw.putJccShortLabel insn.id.jccOpcode (.insn target)))
    else if insn.id = .jecxz ∨ insn.id = .jrcxz then .ok (some (putFarBranch insn.id.jccOpcode target cw))
    else
      match cw.putJccNear insn.id.jccOpcode target with
      | some cw => .ok (some cw)
      | none => .ok (some (putFarBranch insn.id.jccOpcode target cw))
  | _ => .error .operandType

/-- The rewriting that an instruction gets. -/
def rewrite (insn : CsInsn) (cw : GumX86Writer) : Except RelocatorAbort (Option GumX86Writer) :=
  if insn.id = .call ∨ insn.id = .jmp then rewriteUnconditionalBranch insn cw
  else if insn.id.isConditional then self.rewriteConditionalBranch insn cw
  else rewriteIfRipRelative insn cw

/-- `gum_x86_relocator_write_one`: what is not rewritten is copied. -/
def writeOne (insn : CsInsn) (cw : GumX86Writer) : Except RelocatorAbort GumX86Writer :=
  let cw := cw.putLabel (.insn insn.address)
  (self.rewrite insn cw).map fun rewritten => rewritten.getD (cw.putBytes insn.bytes)

/-- `gum_x86_relocator_write_all`. -/
def writeAll (cw : GumX86Writer) : Except RelocatorAbort GumX86Writer :=
  self.inputInsns.foldlM (fun cw insn => self.writeOne insn cw) cw

/-! ## What becomes of an instruction -/

/-- The code of an instruction, by its labels: `n` bytes without one, a call that stores its target, a branch to
    another of the instructions, or a branch over a jump of `n` bytes. -/
inductive Form where
  | plain (n : Nat)
  | farCall
  | innerBranch (target : Word)
  | farBranch (n : Nat)
deriving DecidableEq, Repr

namespace Form

/-- The bytes of a form. -/
def size : Form → Nat
  | plain n => n
  | farCall => 16
  | innerBranch _ => 2
  | farBranch n => 4 + n

/-- Its labels, where its code is at `place`, which is address `code`. -/
def marks (code : Word) (place : Nat) : Form → List (Label × Nat)
  | plain _ => []
  | farCall => [(.callTargetStorage code, place + 8), (.carryOn code, place + 16)]
  | innerBranch _ => []
  | farBranch n => [(.isTrue code, place + 4), (.isFalse code, place + (4 + n))]

/-- And its references. -/
def links (code : Word) (place : Nat) : Form → List LabelRef
  | plain _ => []
  | farCall => [⟨.callTargetStorage code, place + 6, .near⟩, ⟨.carryOn code, place + 8, .short⟩]
  | innerBranch target => [⟨.insn target, place + 2, .short⟩]
  | farBranch _ => [⟨.isTrue code, place + 2, .short⟩, ⟨.isFalse code, place + 4, .short⟩]

end Form

/-- The bytes of an instruction that may have its address off the next one, at address `code`. -/
def ripSize (insn : CsInsn) (code : Word) : Nat :=
  if insn.IsRipRelative ∧ ¬ WithinInt32 (insn.pc + insn.disp - (code + BitVec.ofNat 64 insn.size)).toInt then
    if insn.id = .call then 35
    else if insn.id = .jmp then 20
    else if insn.id = .push then if WithinInt8 insn.disp.toInt then 41 else 44
    else 28 + insn.size
  else insn.size

/-- A call or a jump. -/
def jumpForm (insn : CsInsn) (code : Word) : Form :=
  if insn.id = .call ∧ insn.IsToNextInstruction then .plain 15
  else
    match insn.operand with
    | .imm target =>
      if insn.id = .call then if WithinInt32 (target - (code + 5)).toInt then .plain 5 else .farCall
      else .plain (jmpSize code target)
    | .mem => .plain (ripSize insn code)
    | _ => .plain insn.size

/-- A conditional branch to `target`. -/
def branchForm (insn : CsInsn) (code target : Word) : Form :=
  if self.IsInside target then .innerBranch target
  else if insn.id ≠ .jecxz ∧ insn.id ≠ .jrcxz ∧ WithinInt32 (target - (code + 6)).toInt then .plain 6
  else .farBranch (jmpSize (code + 4) target)

/-- What an instruction becomes at address `code`. -/
def form (insn : CsInsn) (code : Word) : Form :=
  if insn.id = .call ∨ insn.id = .jmp then jumpForm insn code
  else if insn.id.isConditional then
    match insn.operand with
    | .imm target => self.branchForm insn code target
    | _ => .plain 0
  else .plain (ripSize insn code)

/-! ## It does -/

variable {self} {cw : GumX86Writer} {insn : CsInsn}

/-- The return address is 15 bytes. -/
theorem emits_putReturnAddress (address : Word) (cw : GumX86Writer) :
    Emits cw (putReturnAddress address cw) 15 [] [] :=
  ((emits_putPushReg cw .rax).trans (emits_putMovRegAddress _ .rax address)).trans
    (emits_putBytes _ (0x48 :: 0x87 :: modrm 0x00 .rax .rsp :: sib .rsp))

/-- A jump through memory is 20. -/
theorem emits_putIndirectJump (storage : Word) (cw : GumX86Writer) :
    Emits cw (putIndirectJump storage cw) 20 [] [] :=
  ((((emits_putPushReg cw .rax).trans (emits_putMovRegAddress _ .rax storage)).trans
    (emits_putMovRegRegOffsetPtr _ .rax .rax 0)).trans
      (emits_putBytes _ (0x48 :: 0x87 :: modrm 0x00 .rax .rsp :: sib .rsp))).trans (emits_putRet _)

/-- A call is both. -/
theorem emits_putIndirectCall (storage : Word) (cw : GumX86Writer) :
    Emits cw (putIndirectCall storage cw) 35 [] [] := by
  have h := (emits_putReturnAddress 0 cw).trans (emits_putIndirectJump storage _)
  exact ⟨h.base, h.offset, h.labelDefs, h.labelRefs⟩

/-- `rip_reg` is no stack pointer. -/
theorem ripReg_ne_rsp {reg : GumX86Reg} (h : insn.ripReg = some reg) : reg ≠ .rsp := by
  have hmem : reg ∈ CsInsn.cpuRegs := List.mem_of_find?_eq_some h
  rintro rfl
  revert hmem
  decide

/-- An access relative to the instruction pointer, with the register that stands in for it saved around it. -/
theorem emits_putRebased {reg : GumX86Reg} (h : insn.ripReg = some reg) (cw : GumX86Writer) :
    Emits cw (putRebased insn reg cw)
      (if insn.id = .push then if WithinInt8 insn.disp.toInt then 41 else 44 else 28 + insn.size) [] [] := by
  have hsave := fun cw => ((emits_putLeaRegRegOffset cw .rsp .rsp (-gumRedZoneSize)).trans
    (emits_putPushReg _ reg)).trans (emits_putMovRegAddress _ reg insn.pc)
  have hrestore := fun cw => (emits_putPopReg cw reg).trans (emits_putLeaRegRegOffset _ .rsp .rsp gumRedZoneSize)
  unfold putRebased
  by_cases hpush : insn.id = .push
  · simp only [if_pos hpush]
    refine ((((emits_putPushReg cw .rax).trans (hsave _)).trans
      ((emits_putMovRegRegOffsetPtr _ reg reg insn.disp).trans
        (emits_putMovRegOffsetPtrReg _ .rsp reg (by decide)))).trans (hrestore _)).size_eq ?_
    rw [if_neg (ripReg_ne_rsp h)]
    by_cases hdisp : WithinInt8 insn.disp.toInt
    · rw [if_pos hdisp, if_pos hdisp]
      rfl
    · rw [if_neg hdisp, if_neg hdisp]
      rfl
  · simp only [if_neg hpush]
    refine (((hsave cw).trans (emits_putBytes _ _)).trans (hrestore _)).size_eq ?_
    rw [List.length_set]
    show 9 + 10 + insn.size + 9 = _
    omega

/-- Patching bytes does not change how many there are. -/
theorem length_overwrite (data : List Byte) (place : Nat) (bytes : List Byte) :
    ((overwrite data place bytes).take data.length).length = data.length := by
  rw [List.length_take, overwrite, List.length_append, List.length_append, List.length_take, List.length_drop]
  omega

/-- An instruction off the next one is written at the size `ripSize` says, any other is left to be copied. -/
theorem rewriteIfRipRelative_spec (hwf : insn.WellFormed) (cw : GumX86Writer) :
    ∃ rewritten, rewriteIfRipRelative insn cw = .ok rewritten ∧
      Emits cw (rewritten.getD (cw.putBytes insn.bytes)) (ripSize insn cw.cur) [] [] := by
  unfold rewriteIfRipRelative ripSize
  by_cases hrip : insn.IsRipRelative
  · obtain ⟨reg, hreg⟩ := Option.isSome_iff_exists.mp (hwf.ripRelative hrip).2
    simp only [if_pos hrip]
    by_cases hnear : WithinInt32 (insn.pc + insn.disp - (cw.cur + BitVec.ofNat 64 insn.size)).toInt
    · rw [if_pos hnear, if_neg fun hfar => hfar.2 hnear]
      exact ⟨_, rfl, (emits_putBytes cw _).size_eq (length_overwrite _ _ _)⟩
    · rw [if_neg hnear, if_pos (And.intro hrip hnear)]
      by_cases hcall : insn.id = .call
      · rw [if_pos hcall, if_pos hcall]
        exact ⟨_, rfl, emits_putIndirectCall _ cw⟩
      · rw [if_neg hcall, if_neg hcall]
        by_cases hjmp : insn.id = .jmp
        · rw [if_pos hjmp, if_pos hjmp]
          exact ⟨_, rfl, emits_putIndirectJump _ cw⟩
        · rw [if_neg hjmp, if_neg hjmp, hreg]
          exact ⟨_, rfl, emits_putRebased hreg cw⟩
  · rw [if_neg hrip, if_neg fun h => hrip h.1]
    exact ⟨_, rfl, emits_putBytes cw _⟩

/-- The writer after an instruction whose label is put. -/
abbrev Becomes (cw cw' : GumX86Writer) (f : Form) : Prop :=
  Emits cw cw' f.size (f.marks cw.cur cw.offset) (f.links cw.cur cw.offset)

/-- A call or a jump becomes the form that is foreseen for it, whatever is in front. -/
theorem rewriteUnconditionalBranch_spec (hwf : insn.WellFormed) (hjump : insn.id = .call ∨ insn.id = .jmp)
    (cw : GumX86Writer) :
    ∃ rewritten, rewriteUnconditionalBranch insn cw = .ok rewritten ∧
      Becomes cw (rewritten.getD (cw.putBytes insn.bytes)) (jumpForm insn cw.cur) := by
  unfold rewriteUnconditionalBranch jumpForm
  by_cases hnext : insn.id = .call ∧ insn.IsToNextInstruction
  · rw [if_pos hnext, if_pos hnext]
    exact ⟨_, rfl, emits_putReturnAddress _ cw⟩
  rw [if_neg hnext, if_neg hnext]
  cases hoperand : insn.operand with
  | imm target =>
      refine ⟨_, rfl, ?_⟩
      rw [Option.getD_some]
      by_cases hcall : insn.id = .call
      · simp only [if_pos hcall]
        by_cases hnear : WithinInt32 (target - (cw.cur + 5)).toInt
        · rw [if_pos hnear, putCallAddress, if_pos hnear]
          exact emits_putBytes cw _
        · rw [if_neg hnear]
          exact emits_putCallAddress_far hnear
      · simp only [if_neg hcall]
        exact emits_putJmpAddress cw target
  | mem => exact rewriteIfRipRelative_spec hwf cw
  | reg => exact ⟨_, rfl, emits_putBytes cw _⟩
  | invalid => exact absurd hoperand (hwf.jump hjump).2

/-- A branch over a jump that reaches the target. -/
theorem emits_putFarBranch (opcode : Byte) (target : Word) (cw : GumX86Writer) :
    Becomes cw (putFarBranch opcode target cw) (.farBranch (jmpSize (cw.cur + 4) target)) := by
  have hjcc := emits_putJccShortLabel cw opcode (.isTrue cw.cur)
  have hjmp := hjcc.trans (emits_putJmpShortLabel _ (.isFalse cw.cur))
  have htrue := hjmp.trans (emits_putLabel _ (.isTrue cw.cur))
  have haddress := htrue.trans (emits_putJmpAddress _ target)
  have hall := haddress.trans (emits_putLabel _ (.isFalse cw.cur))
  rw [haddress.offset, hjmp.offset, hjcc.offset, htrue.cur] at hall
  exact hall

/-- And so does a conditional branch. -/
theorem rewriteConditionalBranch_spec {target : Word} (hoperand : insn.operand = .imm target) (cw : GumX86Writer) :
    ∃ rewritten, self.rewriteConditionalBranch insn cw = .ok rewritten ∧
      Becomes cw (rewritten.getD (cw.putBytes insn.bytes)) (self.branchForm insn cw.cur target) := by
  unfold rewriteConditionalBranch branchForm
  rw [hoperand]
  by_cases hinside : self.IsInside target
  · simp only [if_pos hinside]
    exact ⟨_, rfl, emits_putJccShortLabel cw _ _⟩
  simp only [if_neg hinside]
  by_cases hcxz : insn.id = .jecxz ∨ insn.id = .jrcxz
  · rw [if_pos hcxz, if_neg fun h => hcxz.elim h.1 h.2.1]
    exact ⟨_, rfl, emits_putFarBranch _ target cw⟩
  rw [if_neg hcxz, putJccNear]
  rw [not_or] at hcxz
  by_cases hnear : WithinInt32 (target - (cw.cur + 6)).toInt
  · rw [if_pos hnear, if_pos ⟨hcxz.1, hcxz.2, hnear⟩]
    exact ⟨_, rfl, emits_putBytes cw _⟩
  · rw [if_neg hnear, if_neg fun h => hnear h.2.2]
    exact ⟨_, rfl, emits_putFarBranch _ target cw⟩

variable (self) in
/-- An instruction is written as its form says, behind its label. -/
theorem emits_writeOne (hwf : insn.WellFormed) (cw : GumX86Writer) :
    ∃ cw', self.writeOne insn cw = .ok cw' ∧
      Emits cw cw' (self.form insn cw.cur).size
        ((.insn insn.address, cw.offset) :: (self.form insn cw.cur).marks cw.cur cw.offset)
        ((self.form insn cw.cur).links cw.cur cw.offset) := by
  have hlabel := emits_putLabel cw (.insn insn.address)
  have hcur : (cw.putLabel (.insn insn.address)).cur = cw.cur := rfl
  have hspec : ∃ rewritten, self.rewrite insn (cw.putLabel (.insn insn.address)) = .ok rewritten ∧
      Becomes (cw.putLabel (.insn insn.address))
        (rewritten.getD ((cw.putLabel (.insn insn.address)).putBytes insn.bytes)) (self.form insn cw.cur) := by
    unfold rewrite form
    by_cases hjump : insn.id = .call ∨ insn.id = .jmp
    · rw [if_pos hjump, if_pos hjump]
      exact rewriteUnconditionalBranch_spec hwf hjump _
    rw [if_neg hjump, if_neg hjump]
    by_cases hcond : insn.id.isConditional
    · rw [if_pos hcond, if_pos hcond]
      obtain ⟨-, target, hoperand⟩ := hwf.conditional hcond
      rw [hoperand]
      exact rewriteConditionalBranch_spec hoperand _
    · rw [if_neg hcond, if_neg hcond]
      exact rewriteIfRipRelative_spec hwf _
  obtain ⟨rewritten, hok, h⟩ := hspec
  refine ⟨_, ?_, (hlabel.trans h).size_eq (Nat.zero_add _)⟩
  rw [writeOne, hok]
  rfl

/-! ## Several instructions -/

/-- An instruction, where it is written and what it becomes there. -/
structure Placed where
  insn  : CsInsn
  place : Nat
  form  : Form

/-- The labels that an instruction puts, and where. -/
def Placed.marks (base : Word) (p : Placed) : List (Label × Nat) :=
  (.insn p.insn.address, p.place) :: p.form.marks (base + BitVec.ofNat 64 p.place) p.place

/-- The references that it makes to labels. -/
def Placed.links (base : Word) (p : Placed) : List LabelRef := p.form.links (base + BitVec.ofNat 64 p.place) p.place

variable (self) in
/-- The instructions one behind the other, from `place` in the code at `base`. -/
def layout (base : Word) : Nat → List CsInsn → List Placed
  | _, [] => []
  | place, insn :: insns =>
    let form := self.form insn (base + BitVec.ofNat 64 place)
    ⟨insn, place, form⟩ :: layout base (place + form.size) insns

/-- The bytes of a layout. -/
def layoutSize (placed : List Placed) : Nat := (placed.map fun p => p.form.size).sum

/-- One instruction, and the rest. -/
theorem layoutSize_cons (p : Placed) (placed : List Placed) :
    layoutSize (p :: placed) = p.form.size + layoutSize placed := List.sum_cons

/-- Two layouts, one after the other. -/
theorem layoutSize_append (placed placed' : List Placed) :
    layoutSize (placed ++ placed') = layoutSize placed + layoutSize placed' := by
  rw [layoutSize, List.map_append, List.sum_append, ← layoutSize, ← layoutSize]

/-- One instruction. -/
theorem layoutSize_singleton (base : Word) (place : Nat) (insn : CsInsn) :
    layoutSize (self.layout base place [insn]) = (self.form insn (base + BitVec.ofNat 64 place)).size := Nat.add_zero _

/-- **The relocator's loop writes what the layout says**: its bytes, its labels and its references. -/
theorem emits_foldlM {insns : List CsInsn} (hwf : ∀ insn ∈ insns, insn.WellFormed) (cw : GumX86Writer) :
    let placed := self.layout cw.base cw.offset insns
    ∃ cw', insns.foldlM (fun cw insn => self.writeOne insn cw) cw = .ok cw' ∧
      Emits cw cw' (layoutSize placed) (placed.flatMap (Placed.marks cw.base))
        (placed.flatMap (Placed.links cw.base)) := by
  induction insns generalizing cw with
  | nil => exact ⟨cw, rfl, .refl⟩
  | cons insn insns ih =>
      rw [List.forall_mem_cons] at hwf
      obtain ⟨cw₁, hone, hemits⟩ := emits_writeOne self hwf.1 cw
      obtain ⟨cw₂, hrest, hemits₂⟩ := ih hwf.2 cw₁
      refine ⟨cw₂, ?_, ?_⟩
      · rw [List.foldlM_cons, hone]
        exact hrest
      · rw [hemits.base, hemits.offset] at hemits₂
        exact hemits.trans hemits₂

/-- All instructions are written, as they are laid out. -/
theorem emits_writeAll (hwf : ∀ insn ∈ self.inputInsns, insn.WellFormed) (cw : GumX86Writer) :
    let placed := self.layout cw.base cw.offset self.inputInsns
    ∃ cw', self.writeAll cw = .ok cw' ∧
      Emits cw cw' (layoutSize placed) (placed.flatMap (Placed.marks cw.base))
        (placed.flatMap (Placed.links cw.base)) := emits_foldlM hwf cw

/-! ## How much it is -/

/-- An access is at most 44 bytes, and at most ten for each of its own. -/
theorem ripSize_le (hwf : insn.WellFormed) (code : Word) :
    ripSize insn code ≤ 44 ∧ ripSize insn code ≤ 10 * insn.size := by
  have hsize := hwf.size_le
  unfold ripSize
  split
  · next hfar =>
      have hsix := (hwf.ripRelative hfar.1).1
      split
      · omega
      · split
        · omega
        · split
          · split <;> omega
          · omega
  · omega

/-- So is a call or a jump. -/
theorem jumpForm_size_le (hwf : insn.WellFormed) (hjump : insn.id = .call ∨ insn.id = .jmp) (code : Word) :
    (jumpForm insn code).size ≤ 44 ∧ (jumpForm insn code).size ≤ 10 * insn.size := by
  have hsize := hwf.size_le
  have htwo := (hwf.jump hjump).1
  unfold jumpForm
  split
  · simp only [Form.size]
    omega
  · cases hoperand : insn.operand with
    | imm target =>
        have hjmp := jmpSize_le code target
        simp only
        split
        · split <;> simp only [Form.size] <;> omega
        · simp only [Form.size]
          omega
    | mem => exact ripSize_le hwf code
    | reg =>
        simp only [Form.size]
        omega
    | invalid =>
        simp only [Form.size]
        omega

/-- And a conditional branch. -/
theorem branchForm_size_le (hwf : insn.WellFormed) (hcond : insn.id.isConditional) (code target : Word) :
    (self.branchForm insn code target).size ≤ 44 ∧ (self.branchForm insn code target).size ≤ 10 * insn.size := by
  have htwo := (hwf.conditional hcond).1
  have hjmp := jmpSize_le (code + 4) target
  unfold branchForm
  split
  · simp only [Form.size]
    omega
  · split <;> simp only [Form.size] <;> omega

variable (self) in
/-- A byte that is read is ten at most that are written: a branch of two bytes grows to twenty. -/
theorem form_size_le (hwf : insn.WellFormed) (code : Word) :
    (self.form insn code).size ≤ 44 ∧ (self.form insn code).size ≤ 10 * insn.size := by
  unfold form
  by_cases hjump : insn.id = .call ∨ insn.id = .jmp
  · rw [if_pos hjump]
    exact jumpForm_size_le hwf hjump code
  rw [if_neg hjump]
  by_cases hcond : insn.id.isConditional
  · obtain ⟨-, target, hoperand⟩ := hwf.conditional hcond
    rw [if_pos hcond, hoperand]
    exact branchForm_size_le hwf hcond code target
  · rw [if_neg hcond]
    exact ripSize_le hwf code

variable (self) in
/-- **What is written is at most ten bytes for every byte that was read.** -/
theorem layoutSize_le {insns : List CsInsn} (hwf : ∀ insn ∈ insns, insn.WellFormed) (base : Word) (place : Nat) :
    layoutSize (self.layout base place insns) ≤ 10 * (insns.map CsInsn.size).sum := by
  induction insns generalizing place with
  | nil => exact Nat.le_refl 0
  | cons insn insns ih =>
      rw [List.forall_mem_cons] at hwf
      have hone := (form_size_le self hwf.1 (base + BitVec.ofNat 64 place)).2
      have hrest := ih hwf.2 (place + (self.form insn (base + BitVec.ofNat 64 place)).size)
      rw [List.map_cons, List.sum_cons, Nat.mul_add]
      exact Nat.add_le_add hone hrest

/-- The second part is laid out behind the first. -/
theorem layout_append (base : Word) (place : Nat) (insns insns' : List CsInsn) :
    self.layout base place (insns ++ insns') =
      self.layout base place insns ++
        self.layout base (place + layoutSize (self.layout base place insns)) insns' := by
  induction insns generalizing place with
  | nil => rfl
  | cons insn insns ih =>
      rw [List.cons_append, layout, ih, layout, List.cons_append, layoutSize_cons, ← Nat.add_assoc]

/-! ## What is read -/

/-- Instructions of the function from `start` on, one behind the other. -/
def Consecutive (cs : Capstone) : Word → List CsInsn → Prop
  | _, [] => True
  | start, insn :: insns => cs.disasmIter start = some insn ∧ Consecutive cs insn.pc insns

variable {cs : Capstone} {start : Word} {insns insns' : List CsInsn}

/-- Instructions behind instructions. -/
theorem Consecutive.append (h : Consecutive cs start insns)
    (h' : Consecutive cs (start + BitVec.ofNat 64 (insns.map CsInsn.size).sum) insns') :
    Consecutive cs start (insns ++ insns') := by
  induction insns generalizing start with
  | nil => simpa using h'
  | cons insn insns ih =>
      refine ⟨h.1, ih h.2 ?_⟩
      rw [CsInsn.pc, cs.address start insn h.1, add_assoc, ← BitVec.ofNat_add]
      exact h'

/-- Each is as the disassembler says. -/
theorem Consecutive.wellFormed (h : Consecutive cs start insns) : ∀ insn ∈ insns, insn.WellFormed := by
  induction insns generalizing start with
  | nil =>
      intro insn hmem
      cases hmem
  | cons insn insns ih =>
      rw [List.forall_mem_cons]
      exact ⟨cs.wellFormed _ _ h.1, ih h.2⟩

/-- What the reading loop leaves: the last instruction is the first to make up the number of bytes. -/
structure Prologue (cs : Capstone) (address : Word) (minBytes : Nat) (rl : GumX86Relocator) : Prop where
  start       : rl.inputStart = address
  consecutive : Consecutive cs address rl.inputInsns
  enough      : minBytes ≤ rl.relocBytes
  last        : ∃ init insn, rl.inputInsns = init ++ [insn] ∧ (init.map CsInsn.size).sum < minBytes

/-- **Reading until there are enough bytes gives a prologue.** -/
theorem prologue_of_readUntil {minBytes turns : Nat} {rl rl' : GumX86Relocator}
    (hconsecutive : Consecutive cs rl.inputStart rl.inputInsns) (hfew : rl.relocBytes < minBytes)
    (h : readUntil cs minBytes turns rl = some rl') : Prologue cs rl.inputStart minBytes rl' := by
  induction turns generalizing rl with
  | zero => cases h
  | succ turns ih =>
      rw [readUntil, Option.bind_eq_some_iff] at h
      obtain ⟨rl₁, hread, h⟩ := h
      rw [readOne] at hread
      split at hread
      · cases hread
      rw [Option.map_eq_some_iff] at hread
      obtain ⟨insn, hinsn, rfl⟩ := hread
      have hconsecutive₁ := hconsecutive.append (show Consecutive cs _ [insn] from ⟨hinsn, trivial⟩)
      split at h
      · next hmore =>
          exact @ih { rl with inputInsns := rl.inputInsns ++ [insn], eoi := insn.id.endsInput } hconsecutive₁ hmore h
      · next henough =>
          cases h
          exact ⟨rfl, hconsecutive₁, Nat.le_of_not_lt henough, _, insn, rfl, hfew⟩

/-- The prologue of a function that can be relocated. -/
theorem prologue_of_read {address : Word} {minBytes : Nat} {rl : GumX86Relocator} (hpos : 0 < minBytes)
    (h : readPrologue cs address minBytes = some rl) : Prologue cs address minBytes rl :=
  prologue_of_readUntil (show Consecutive cs (reset address).inputStart (reset address).inputInsns from trivial) hpos h

/-- The loop ends of itself: no more turns are made than bytes are wanted. -/
theorem readUntil_add {minBytes turns : Nat} {rl : GumX86Relocator} (hturns : minBytes ≤ rl.relocBytes + turns)
    (hfew : rl.relocBytes < minBytes) (k : Nat) :
    readUntil cs minBytes (turns + k) rl = readUntil cs minBytes turns rl := by
  induction turns generalizing rl with
  | zero => omega
  | succ turns ih =>
      rw [Nat.add_right_comm, readUntil, readUntil]
      cases hread : rl.readOne cs with
      | none => rfl
      | some rl₁ =>
          rw [Option.bind_some, Option.bind_some]
          rw [readOne] at hread
          split at hread
          · cases hread
          rw [Option.map_eq_some_iff] at hread
          obtain ⟨insn, hinsn, rfl⟩ := hread
          have hpos := (cs.wellFormed _ _ hinsn).size_pos
          split
          · next hmore =>
              refine ih ?_ hmore
              simp only [relocBytes, List.map_append, List.sum_append, List.map_cons, List.map_nil, List.sum_cons,
                List.sum_nil] at hturns ⊢
              omega
          · rfl

end GumX86Relocator

end Gum
