import FreeProbe.Lib.Llvm
import FreeProbe.Lib.Memory
import FreeProbe.Vm.Jit

/-!
# `Vm.JitAlu` — the arithmetic instructions of `generateModule`

The code that the ALU cases of the switch in `compiler.cpp` emit, with the emitters of `compiler_utils.cpp`, against the
instruction set. A case computes one value from the registers' slots and stores it in that of `dst`.

The divisions are emitted before the tests that are to guard them, and both are executed: by zero, and in the signed
forms of the least number by -1, the emitted `udiv`, `sdiv`, `urem` or `srem` is undefined. The signed 64-bit forms
divide by the sign-extended low word of the source.
-/

namespace Vm

open Lib Lib.Llvm

/-- What the emitter computes with. -/
abbrev AluValue := Value (BitVec 4)

/-- And what it stores. -/
abbrev AluStore := Store (BitVec 4)

/-- The registers' slots. -/
abbrev AluRegs := BitVec 4 → BitVec 64

/-! ## The emitters -/

/-- `is_alu64` -/
def EbpfInst.isAlu64 (inst : EbpfInst) : Bool := inst.opcode &&& 0x07 = EBPF_CLS_ALU64

/-- The width of an instruction's operands. -/
def EbpfInst.aluWidth (inst : EbpfInst) : Nat := if inst.isAlu64 then 64 else 32

/-- `emitLoadALUSource` -/
def emitLoadALUSource (inst : EbpfInst) : AluValue inst.aluWidth :=
  if inst.isAlu64 then
    if inst.opcode &&& 0x08 = EBPF_SRC_IMM then .const (inst.imm.signExtend _) else .load _ inst.src
  else
    if inst.opcode &&& 0x08 = EBPF_SRC_IMM then .const (inst.imm.setWidth _) else .trunc _ (.load 64 inst.src)

/-- `emitLoadALUDest` -/
def emitLoadALUDest (inst : EbpfInst) : AluValue inst.aluWidth := .load _ inst.dst

/-- `emitStoreALUResult`: a 32-bit result is extended with zeros. -/
def emitStoreALUResult (inst : EbpfInst) {w : Nat} (result : AluValue w) : AluStore :=
  if inst.isAlu64 then ⟨inst.dst, w, result⟩ else ⟨inst.dst, 64, .zext 64 result⟩

/-- `emitALUWithDstAndSrc` -/
def emitALUWithDstAndSrc (inst : EbpfInst) (func : AluValue inst.aluWidth → AluValue inst.aluWidth → AluValue inst.aluWidth) :
    AluStore :=
  emitStoreALUResult inst (func (emitLoadALUDest inst) (emitLoadALUSource inst))

/-- `EBPF_OP_DIV_IMM` to `EBPF_OP_DIV64_REG` -/
def emitDiv (inst : EbpfInst) {w : Nat} (dstVal srcVal : AluValue w) : AluValue w :=
  let srcIsZero := .icmpEq srcVal (.const 0)
  let signed (srcVal : AluValue w) : AluValue w :=
    let overflowCond := .bin .and (.icmpEq dstVal (.const (BitVec.intMin w))) (.icmpEq srcVal (.const (-1)))
    .select overflowCond (.const (BitVec.intMin w)) (.bin .sdiv dstVal srcVal)
  let result :=
    if inst.offset = 1 then signed (if inst.isAlu64 then .sext w (.trunc 32 srcVal) else srcVal)
    else .bin .udiv dstVal srcVal
  .select srcIsZero (.const 0) result

/-- `EBPF_OP_MOD_IMM` to `EBPF_OP_MOD64_REG` -/
def emitMod (inst : EbpfInst) {w : Nat} (dstVal srcVal : AluValue w) : AluValue w :=
  .select (.icmpEq srcVal (.const 0)) dstVal
    (if inst.offset = 1 then
      .bin .srem (if inst.isAlu64 then .sext w dstVal else dstVal)
        (if inst.isAlu64 then .sext w (.trunc 32 srcVal) else srcVal)
    else .bin .urem dstVal srcVal)

/-- The shifts. -/
def emitShift (inst : EbpfInst) (op : BinOp) {w : Nat} (dstVal srcVal : AluValue w) : AluValue w :=
  .bin op dstVal (.bin .urem srcVal (.const (if inst.isAlu64 then 64 else 32)))

/-- `CreateNeg` -/
def createNeg {w : Nat} (val : AluValue w) : AluValue w := .bin .sub (.const 0) val

/-- `EBPF_OP_MOV_IMM` to `EBPF_OP_MOV64_REG` -/
def emitMovValue (pc : Nat) (inst : EbpfInst) : JitResult AluStore :=
  let srcVal := emitLoadALUSource inst
  let signExtended (bits : Nat) : AluStore := emitStoreALUResult inst (.sext inst.aluWidth (.sext bits (.trunc bits srcVal)))
  if inst.offset ≠ 0 then
    if inst.offset = 8 then .ok (signExtended 8)
    else if inst.offset = 16 then .ok (signExtended 16)
    else if inst.offset = 32 then .ok (signExtended 32)
    else .error (.error (.invalidMovsxOffset inst.offset.toInt pc))
  else .ok (emitStoreALUResult inst srcVal)

/-- The bytes of the `dst` register, from the lowest up. -/
def splitBytes (imm : BitVec 32) (dstVal : AluValue 64) : List (AluValue 64) :=
  (List.range (imm.toNat / 8)).map fun i =>
    .bin .and (.bin .lshr dstVal (.const (BitVec.ofNat 64 (8 * i)))) (.const 0xff)

/-- The bytes are merged in reversed order; `none` is a null pointer. -/
def mergeBytes (bytes : List (AluValue 64)) : Option (AluValue 64) :=
  bytes.foldl (fun last val =>
    match last with
    | none => some val
    | some last => some (.bin .or (.bin .shl last (.const 8)) val)) none

/-- `emitALUEndianConversion` -/
def emitALUEndianConversion (inst : EbpfInst) (dstVal : AluValue 64) : JitResult (Σ w, AluValue w) :=
  if inst.imm ≠ 16 ∧ inst.imm ≠ 32 ∧ inst.imm ≠ 64 then .error (.error (.unexpectedEndianSize inst.imm.toInt))
  else if inst.isAlu64 ∨ inst.opcode &&& 0x08 = 0x08 then
    match mergeBytes (splitBytes inst.imm dstVal) with
    | some last => .ok ⟨64, last⟩
    | none => .error .undefined
  else if inst.imm = 16 then .ok ⟨16, .trunc 16 dstVal⟩
  else if inst.imm = 32 then .ok ⟨32, .trunc 32 dstVal⟩
  else .ok ⟨64, dstVal⟩

/-- The opcodes of an operation on two operands. -/
def aluForms (op : BitVec 8) : List (BitVec 8) :=
  opcodes [EBPF_CLS_ALU, EBPF_CLS_ALU64] [EBPF_SRC_IMM, EBPF_SRC_REG] [op]

/-- The ALU cases of the switch; `none` is another case. -/
def emitAlu (pc : Nat) (inst : EbpfInst) : JitResult (Option AluStore) :=
  if inst.dst > 10 ∨ inst.src > 10 then .error (.error (.illegalRegister pc))
  else if inst.opcode ∈ aluForms EBPF_ALU_OP_ADD then .ok (emitALUWithDstAndSrc inst (.bin .add))
  else if inst.opcode ∈ aluForms EBPF_ALU_OP_SUB then .ok (emitALUWithDstAndSrc inst (.bin .sub))
  else if inst.opcode ∈ aluForms EBPF_ALU_OP_MUL then .ok (emitALUWithDstAndSrc inst (.bin .mul))
  else if inst.opcode ∈ aluForms EBPF_ALU_OP_DIV then .ok (emitALUWithDstAndSrc inst (emitDiv inst))
  else if inst.opcode ∈ aluForms EBPF_ALU_OP_OR then .ok (emitALUWithDstAndSrc inst (.bin .or))
  else if inst.opcode ∈ aluForms EBPF_ALU_OP_AND then .ok (emitALUWithDstAndSrc inst (.bin .and))
  else if inst.opcode ∈ aluForms EBPF_ALU_OP_LSH then .ok (emitALUWithDstAndSrc inst (emitShift inst .shl))
  else if inst.opcode ∈ aluForms EBPF_ALU_OP_RSH then .ok (emitALUWithDstAndSrc inst (emitShift inst .lshr))
  else if inst.opcode = EBPF_OP_NEG ∨ inst.opcode = EBPF_OP_NEG64 then
    .ok (emitStoreALUResult inst (createNeg (emitLoadALUDest inst)))
  else if inst.opcode ∈ aluForms EBPF_ALU_OP_MOD then .ok (emitALUWithDstAndSrc inst (emitMod inst))
  else if inst.opcode ∈ aluForms EBPF_ALU_OP_XOR then .ok (emitALUWithDstAndSrc inst (.bin .xor))
  else if inst.opcode ∈ aluForms EBPF_ALU_OP_MOV then do return some (← emitMovValue pc inst)
  else if inst.opcode ∈ aluForms EBPF_ALU_OP_ARSH then .ok (emitALUWithDstAndSrc inst (emitShift inst .ashr))
  else if inst.opcode = EBPF_OP_LE ∨ inst.opcode = EBPF_OP_BE ∨ inst.opcode = EBPF_OP_BYTESWAP then do
    let result ← emitALUEndianConversion inst (.load 64 inst.dst)
    return some (emitStoreALUResult inst result.2)
  else .ok none

/-! ## The instruction set -/

/-- The source operand at the instruction's width. -/
def EbpfInst.aluSource (inst : EbpfInst) (regs : AluRegs) : BitVec inst.aluWidth :=
  if inst.opcode &&& 0x08 = EBPF_SRC_IMM then inst.imm.signExtend _ else (regs inst.src).setWidth _

/-- The destination operand at the instruction's width. -/
def EbpfInst.aluDest (inst : EbpfInst) (regs : AluRegs) : BitVec inst.aluWidth := (regs inst.dst).setWidth _

/-- The result of an operation at a width. -/
def isaResult (op : BitVec 8) (offset : BitVec 16) {w : Nat} (dst src : BitVec w) : BitVec w :=
  if op = EBPF_ALU_OP_ADD then dst + src
  else if op = EBPF_ALU_OP_SUB then dst - src
  else if op = EBPF_ALU_OP_MUL then dst * src
  else if op = EBPF_ALU_OP_DIV then
    if src = 0 then 0
    else if offset = 1 then
      if dst = BitVec.intMin w ∧ src = -1 then BitVec.intMin w else dst.sdiv src
    else dst / src
  else if op = EBPF_ALU_OP_OR then dst ||| src
  else if op = EBPF_ALU_OP_AND then dst &&& src
  else if op = EBPF_ALU_OP_LSH then dst <<< (src.toNat % w)
  else if op = EBPF_ALU_OP_RSH then dst >>> (src.toNat % w)
  else if op = EBPF_ALU_OP_NEG then -dst
  else if op = EBPF_ALU_OP_MOD then
    if src = 0 then dst else if offset = 1 then dst.srem src else dst % src
  else if op = EBPF_ALU_OP_XOR then dst ^^^ src
  else if op = EBPF_ALU_OP_MOV then
    if offset = 0 then src else (src.setWidth offset.toNat).signExtend w
  else dst.sshiftRight (src.toNat % w)

/-- The low bytes of a number in reversed order. -/
def swapBytes (count : Nat) (x : BitVec 64) : BitVec 64 :=
  BitVec.ofNat 64 (Memory.leNat (Memory.leBytes count x.toNat).reverse)

/-- The new value of `dst`, on a little-endian machine. -/
def isaValue (inst : EbpfInst) (regs : AluRegs) : BitVec 64 :=
  if inst.opcode = EBPF_OP_LE then ((regs inst.dst).setWidth inst.imm.toNat).setWidth 64
  else if inst.opcode = EBPF_OP_BE ∨ inst.opcode = EBPF_OP_BYTESWAP then swapBytes (inst.imm.toNat / 8) (regs inst.dst)
  else (isaResult (inst.opcode &&& 0xf0) inst.offset (inst.aluDest regs) (inst.aluSource regs)).setWidth 64

/-- The code that the JIT emits for an instruction runs without an undefined instruction and changes `dst` only, as the
instruction set has it. -/
def AluLawful (inst : EbpfInst) (code : AluStore) (regs : AluRegs) : Prop :=
  code.run regs = some (Function.update regs inst.dst (isaValue inst regs))

/-! ## The condition -/

/-- What the signed forms divide by: at 64 bits, the sign-extended low word. -/
def EbpfInst.signedDivisor (inst : EbpfInst) (regs : AluRegs) : BitVec inst.aluWidth :=
  if inst.isAlu64 then ((inst.aluSource regs).setWidth 32).signExtend _ else inst.aluSource regs

/-- **The condition.** A divisor is not zero. In the signed forms it is the low word that is not zero, nor -1 with the
least number as the dividend; and where the divisor is not its low word, the quotient by that is zero, or the remainders
by the two are the same, which is to say that the dividend's remainder by their least common multiple is. -/
def DivisorFits (inst : EbpfInst) (regs : AluRegs) : Prop :=
  let dst := inst.aluDest regs
  let src := inst.aluSource regs
  let divisor := inst.signedDivisor regs
  if inst.opcode ∈ aluForms EBPF_ALU_OP_DIV then
    if inst.offset = 1 then
      divisor ≠ 0 ∧ ¬ (dst = BitVec.intMin _ ∧ divisor = -1) ∧
        (divisor = src ∨ dst.toInt.natAbs < divisor.toInt.natAbs)
    else src ≠ 0
  else if inst.opcode ∈ aluForms EBPF_ALU_OP_MOD then
    if inst.offset = 1 then
      divisor ≠ 0 ∧ ¬ (dst = BitVec.intMin _ ∧ divisor = -1) ∧
        dst.toInt.natAbs % divisor.toInt.natAbs.lcm src.toInt.natAbs < divisor.toInt.natAbs
    else src ≠ 0
  else True

/-! ## Operands -/

section Operands
variable {inst : EbpfInst} {regs : AluRegs}

/-- No ALU instruction is narrower than 32 bits. -/
theorem aluWidth_ge (inst : EbpfInst) : 32 ≤ inst.aluWidth := by
  unfold EbpfInst.aluWidth
  split <;> decide

/-- Nor wider than 64. -/
theorem aluWidth_le (inst : EbpfInst) : inst.aluWidth ≤ 64 := by
  unfold EbpfInst.aluWidth
  split <;> decide

/-- The source that is loaded. -/
theorem eval_source : (emitLoadALUSource inst).eval regs = some (inst.aluSource regs) := by
  unfold emitLoadALUSource EbpfInst.aluSource
  cases h64 : inst.isAlu64 with
  | true =>
      simp only [if_true]
      split <;> rfl
  | false =>
      have hwidth : inst.aluWidth = 32 := by
        unfold EbpfInst.aluWidth
        rw [h64]
        rfl
      simp only [Bool.false_eq_true, if_false]
      split
      · rw [eval_const, hwidth, BitVec.setWidth_eq, BitVec.signExtend_eq]
      · rw [eval_trunc (eval_load 64 _), BitVec.setWidth_eq]

/-- The destination that is loaded. -/
theorem eval_dest : (emitLoadALUDest inst).eval regs = some (inst.aluDest regs) := rfl

/-- What a stored result does to the registers. -/
theorem run_emitStoreALUResult {w : Nat} {result : AluValue w} (hw : inst.isAlu64 → 64 ≤ w) {value : Option (BitVec w)}
    (h : result.eval regs = value) :
    (emitStoreALUResult inst result).run regs = value.map fun x => Function.update regs inst.dst (x.setWidth 64) := by
  have hupdate (v : Nat) (hv : 64 ≤ v) (x : BitVec v) :
      (fun slot => if slot = inst.dst then storeLow (regs slot) x else regs slot) =
        Function.update regs inst.dst (x.setWidth 64) := by
    funext slot
    by_cases hslot : slot = inst.dst
    · rw [hslot, Function.update_self, if_pos rfl, storeLow_of_le hv]
    · rw [Function.update_of_ne hslot, if_neg hslot]
  unfold emitStoreALUResult
  cases h64 : inst.isAlu64 with
  | true =>
      rw [if_pos rfl]
      show (result.eval regs >>= fun x => some _) = _
      rw [h]
      cases value with
      | none => rfl
      | some x => exact congrArg some (hupdate w (hw h64) x)
  | false =>
      rw [if_neg Bool.false_ne_true]
      show ((Value.zext 64 result).eval regs >>= fun x => some _) = _
      cases value with
      | none =>
          show ((result.eval regs >>= fun x => some (x.setWidth 64)) >>= fun x => some _) = _
          rw [h]
          rfl
      | some x =>
          rw [eval_zext h]
          show some _ = some _
          rw [hupdate 64 le_rfl, BitVec.setWidth_eq]

/-- The width of a 64-bit instruction. -/
theorem aluWidth_eq (h : inst.isAlu64) : inst.aluWidth = 64 := if_pos h

/-- Extending with zeros loses nothing. -/
theorem setWidth_injective {w : Nat} (hw : w ≤ 64) {x y : BitVec w} (h : x.setWidth 64 = y.setWidth 64) : x = y := by
  have hback := congrArg (BitVec.setWidth w) h
  rwa [BitVec.setWidth_setWidth_of_le _ hw, BitVec.setWidth_setWidth_of_le _ hw, BitVec.setWidth_eq, BitVec.setWidth_eq]
    at hback

/-- **A result at the operands' width** is lawful exactly if it has the value of the instruction set. -/
theorem lawful_store {result : AluValue inst.aluWidth} {expected : BitVec inst.aluWidth}
    (hvalue : isaValue inst regs = expected.setWidth 64) :
    AluLawful inst (emitStoreALUResult inst result) regs ↔ result.eval regs = some expected := by
  unfold AluLawful
  rw [run_emitStoreALUResult (fun h => (aluWidth_eq h).ge) rfl, hvalue]
  constructor
  · intro h
    obtain ⟨x, hx, heq⟩ := Option.map_eq_some_iff.mp h
    have hdst := congrFun heq inst.dst
    rw [Function.update_self, Function.update_self] at hdst
    rw [hx, setWidth_injective (aluWidth_le inst) hdst]
  · intro h
    rw [h]
    rfl

end Operands

/-! ## The operations -/

section Operations
variable {regs : AluRegs} {w : Nat} {dstVal srcVal : AluValue w} {dst src : BitVec w}

/-- The low word of a wide operand, as a number. -/
theorem toInt_lowWord (hw : 32 ≤ w) (src : BitVec w) :
    ((src.setWidth 32).signExtend w).toInt = src.toInt.bmod (2 ^ 32) := by
  rw [BitVec.toInt_signExtend_of_le hw, BitVec.toInt_setWidth, BitVec.toInt_eq_toNat_bmod]
  exact (Int.bmod_bmod_of_dvd (Nat.pow_dvd_pow 2 hw)).symm

/-- A number that is not its signed low word, but of its sign, is at least twice as large. -/
theorem lowWord_far {a : Int} (hne : a.bmod (2 ^ 32) ≠ a) (hzero : a.bmod (2 ^ 32) ≠ 0)
    (hsign : (a.bmod (2 ^ 32)).sign = a.sign) : 2 * (a.bmod (2 ^ 32)).natAbs ≤ a.natAbs := by
  have hlow : ∃ k : Int, a = a.bmod (2 ^ 32) + k * 2 ^ 32 ∧ -2 ^ 31 ≤ a.bmod (2 ^ 32) ∧ a.bmod (2 ^ 32) < 2 ^ 31 := by
    rw [Int.bmod_def]
    split
    · exact ⟨a / 2 ^ 32, by omega, by omega, by omega⟩
    · exact ⟨a / 2 ^ 32 + 1, by omega, by omega, by omega⟩
  obtain ⟨k, ha, hge, hlt⟩ := hlow
  generalize a.bmod (2 ^ 32) = s at *
  rcases lt_trichotomy s 0 with hs | hs | hs
  · rw [Int.sign_eq_neg_one_of_neg hs] at hsign
    have haneg : a < 0 := Int.sign_eq_neg_one_iff_neg.mp hsign.symm
    omega
  · exact absurd hs hzero
  · rw [Int.sign_eq_one_of_pos hs] at hsign
    have hapos : 0 < a := Int.sign_eq_one_iff_pos.mp hsign.symm
    omega

/-- The low word is no larger than the number. -/
theorem natAbs_lowWord_le (a : Int) : (a.bmod (2 ^ 32)).natAbs ≤ a.natAbs := by
  rw [Int.bmod_def]
  split <;> omega

/-- The quotients by a number and by its low word agree only if they are zero. -/
theorem tdiv_lowWord_iff (a b : Int) (hne : b.bmod (2 ^ 32) ≠ 0) :
    a.tdiv (b.bmod (2 ^ 32)) = a.tdiv b ↔ b.bmod (2 ^ 32) = b ∨ a.natAbs < (b.bmod (2 ^ 32)).natAbs := by
  have hle := natAbs_lowWord_le b
  constructor
  · intro heq
    by_contra! h
    obtain ⟨hb, ha⟩ := h
    have hpos : 0 < (b.bmod (2 ^ 32)).natAbs := Int.natAbs_pos.mpr hne
    have hone : 1 ≤ a.natAbs / (b.bmod (2 ^ 32)).natAbs := (Nat.one_le_div_iff hpos).mpr ha
    have hquot : a.natAbs / (b.bmod (2 ^ 32)).natAbs = a.natAbs / b.natAbs := by
      have habs := congrArg Int.natAbs heq
      rwa [Int.natAbs_tdiv, Int.natAbs_tdiv] at habs
    -- neither quotient is zero, so their signs are those of the divisors
    have hsign : (b.bmod (2 ^ 32)).sign = b.sign := by
      have hsigns := congrArg Int.sign heq
      have hab : ¬ a.natAbs < b.natAbs := fun hlt => by
        rw [Nat.div_eq_of_lt hlt] at hquot
        omega
      have hazero : a.sign ≠ 0 := fun hzero => by
        rw [Int.sign_eq_zero_iff_zero.mp hzero] at ha
        exact absurd hpos (not_lt.mpr ha)
      rw [Int.sign_tdiv, Int.sign_tdiv, if_neg (not_lt.mpr ha), if_neg hab] at hsigns
      exact Int.eq_of_mul_eq_mul_left hazero hsigns
    have htwice := lowWord_far hb hne hsign
    have hhalf : a.natAbs / b.natAbs ≤ a.natAbs / (b.bmod (2 ^ 32)).natAbs / 2 := by
      rw [Nat.div_div_eq_div_mul]
      exact Nat.div_le_div_left (by omega) (by omega)
    omega
  · rintro (heq | hlt)
    · rw [heq]
    · have hlow := Int.sign_eq_zero_iff_zero.mp ((Int.sign_tdiv a _).trans (if_pos hlt))
      have hb := Int.sign_eq_zero_iff_zero.mp ((Int.sign_tdiv a b).trans (if_pos (hlt.trans_le hle)))
      rw [hlow, hb]

/-- A remainder has the sign of the dividend. -/
theorem tmod_eq_iff (a m n : Int) : a.tmod m = a.tmod n ↔ a.natAbs % m.natAbs = a.natAbs % n.natAbs := by
  rw [← Int.natAbs_tmod, ← Int.natAbs_tmod]
  rcases le_total 0 a with ha | ha
  · have hm := Int.tmod_nonneg m ha
    have hn := Int.tmod_nonneg n ha
    omega
  · have hm := Int.tmod_nonneg m (neg_nonneg.mpr ha)
    have hn := Int.tmod_nonneg n (neg_nonneg.mpr ha)
    rw [Int.neg_tmod] at hm hn
    omega

/-- The remainders by a number and by a larger one agree if they are the remainder by the least common multiple. -/
theorem mod_eq_iff_lcm {a m n : Nat} (hpos : 0 < m) (hle : m ≤ n) : a % m = a % n ↔ a % m.lcm n < m := by
  have hdvd : a % m.lcm n % m = a % m ∧ a % m.lcm n % n = a % n :=
    ⟨Nat.mod_mod_of_dvd a (Nat.dvd_lcm_left m n), Nat.mod_mod_of_dvd a (Nat.dvd_lcm_right m n)⟩
  constructor
  · intro heq
    have hm : a ≡ a % m [MOD m] := (Nat.mod_modEq a m).symm
    have hn : a ≡ a % m [MOD n] := by
      rw [heq]
      exact (Nat.mod_modEq a n).symm
    have hlt : a % m < m.lcm n :=
      (Nat.mod_lt a hpos).trans_le (Nat.le_of_dvd (Nat.lcm_pos hpos (hpos.trans_le hle)) (Nat.dvd_lcm_left m n))
    have hlcm : a % m.lcm n = a % m % m.lcm n := Nat.mod_lcm hm hn
    rw [hlcm, Nat.mod_eq_of_lt hlt]
    exact Nat.mod_lt a hpos
  · intro hlt
    rw [← hdvd.1, ← hdvd.2, Nat.mod_eq_of_lt hlt, Nat.mod_eq_of_lt (hlt.trans_le hle)]

/-- The remainders by a number and by its low word. -/
theorem tmod_lowWord_iff (a b : Int) (hne : b.bmod (2 ^ 32) ≠ 0) :
    a.tmod (b.bmod (2 ^ 32)) = a.tmod b ↔
      a.natAbs % (b.bmod (2 ^ 32)).natAbs.lcm b.natAbs < (b.bmod (2 ^ 32)).natAbs := by
  rw [tmod_eq_iff]
  exact mod_eq_iff_lcm (Int.natAbs_pos.mpr hne) (natAbs_lowWord_le b)

/-- The emitted divisor of the signed forms. -/
theorem eval_signedDivisor (inst : EbpfInst) (hsrc : srcVal.eval regs = some src) :
    (if inst.isAlu64 then Value.sext w (.trunc 32 srcVal) else srcVal).eval regs =
      some (if inst.isAlu64 then (src.setWidth 32).signExtend w else src) := by
  cases inst.isAlu64 with
  | true => exact eval_sext (eval_trunc hsrc)
  | false => exact hsrc

/-- The low word of 0 and of -1. -/
theorem signedDivisor_of_eq (inst : EbpfInst) (hw : 32 ≤ w) {c : BitVec w} (hc : c = 0 ∨ c = -1) (hsrc : src = c) :
    (if inst.isAlu64 then (src.setWidth 32).signExtend w else src) = c := by
  cases inst.isAlu64 with
  | false => exact hsrc
  | true =>
      rw [if_pos rfl]
      refine BitVec.toInt_inj.mp ?_
      rw [toInt_lowWord hw, hsrc]
      rcases hc with rfl | rfl
      · simp
      · have hone : (-1 : BitVec w).toInt = -1 := by
          show (-1#w).toInt = -1
          rw [BitVec.neg_one_eq_allOnes, BitVec.toInt_allOnes, if_pos (by omega)]
        rw [hone]
        decide

/-- The emitted test for an overflow. -/
theorem eval_overflow {divisor : BitVec w} {divisorVal : AluValue w} (hdst : dstVal.eval regs = some dst)
    (hdivisor : divisorVal.eval regs = some divisor) :
    (Value.bin .and (.icmpEq dstVal (.const (BitVec.intMin w))) (.icmpEq divisorVal (.const (-1)))).eval regs =
      some (if dst = BitVec.intMin w ∧ divisor = -1 then 1 else 0) := by
  rw [eval_bin (eval_icmpEq hdst (eval_const _)) (eval_icmpEq hdivisor (eval_const _))]
  by_cases hmin : dst = BitVec.intMin w <;> by_cases hone : divisor = -1 <;>
    simp only [hmin, hone, true_and, false_and, if_true, if_false] <;> rfl

/-- The quotients by the source and by what is divided by. -/
theorem sdiv_signedDivisor_iff (inst : EbpfInst) (hw : 32 ≤ w) {divisor : BitVec w}
    (hdivisor : divisor = if inst.isAlu64 then (src.setWidth 32).signExtend w else src)
    (hzero : divisor ≠ 0) (hover : ¬ (dst = BitVec.intMin w ∧ divisor = -1)) (hsrc : ¬ (dst = BitVec.intMin w ∧ src = -1)) :
    dst.sdiv divisor = dst.sdiv src ↔ divisor = src ∨ dst.toInt.natAbs < divisor.toInt.natAbs := by
  cases h64 : inst.isAlu64 with
  | false =>
      rw [h64] at hdivisor
      exact ⟨fun _ => Or.inl hdivisor, fun _ => by rw [hdivisor]; rfl⟩
  | true =>
      rw [h64, if_pos rfl] at hdivisor
      have hlow : divisor.toInt = src.toInt.bmod (2 ^ 32) := by rw [hdivisor, toInt_lowWord hw]
      have hne : src.toInt.bmod (2 ^ 32) ≠ 0 := by
        rw [← hlow]
        exact fun h => hzero (BitVec.toInt_inj.mp (h.trans (by simp)))
      rw [← BitVec.toInt_inj, BitVec.toInt_sdiv_of_ne_or_ne _ _ (not_and_or.mp hover),
        BitVec.toInt_sdiv_of_ne_or_ne _ _ (not_and_or.mp hsrc), ← BitVec.toInt_inj, hlow]
      exact tdiv_lowWord_iff _ _ hne

/-- The remainders by the source and by what is divided by. -/
theorem srem_signedDivisor_iff (inst : EbpfInst) (hw : 32 ≤ w) {divisor : BitVec w}
    (hdivisor : divisor = if inst.isAlu64 then (src.setWidth 32).signExtend w else src) (hzero : divisor ≠ 0) :
    dst.srem divisor = dst.srem src ↔
      dst.toInt.natAbs % divisor.toInt.natAbs.lcm src.toInt.natAbs < divisor.toInt.natAbs := by
  have hne : divisor.toInt ≠ 0 := fun h => hzero (BitVec.toInt_inj.mp (h.trans (by simp)))
  rw [← BitVec.toInt_inj, BitVec.toInt_srem, BitVec.toInt_srem]
  cases h64 : inst.isAlu64 with
  | false =>
      rw [h64] at hdivisor
      have hsame : divisor = src := hdivisor
      rw [hsame, Nat.lcm_self]
      rw [hsame] at hne
      exact ⟨fun _ => Nat.mod_lt _ (Int.natAbs_pos.mpr hne), fun _ => rfl⟩
  | true =>
      rw [h64, if_pos rfl] at hdivisor
      have hlow : divisor.toInt = src.toInt.bmod (2 ^ 32) := by rw [hdivisor, toInt_lowWord hw]
      rw [hlow] at hne ⊢
      exact tmod_lowWord_iff _ _ hne

/-- A division has the value of the instruction set exactly if its divisor is not zero and, signed, is as the condition has it. -/
theorem eval_emitDiv {inst : EbpfInst} (hw : 32 ≤ w) (hdst : dstVal.eval regs = some dst)
    (hsrc : srcVal.eval regs = some src) :
    (emitDiv inst dstVal srcVal).eval regs = some (isaResult EBPF_ALU_OP_DIV inst.offset dst src) ↔
      if inst.offset = 1 then
        let divisor := if inst.isAlu64 then (src.setWidth 32).signExtend w else src
        divisor ≠ 0 ∧ ¬ (dst = BitVec.intMin _ ∧ divisor = -1) ∧
          (divisor = src ∨ dst.toInt.natAbs < divisor.toInt.natAbs)
      else src ≠ 0 := by
  have hresult : isaResult EBPF_ALU_OP_DIV inst.offset dst src =
      if src = 0 then 0
      else if inst.offset = 1 then
        if dst = BitVec.intMin w ∧ src = -1 then BitVec.intMin w else dst.sdiv src
      else dst / src := rfl
  have hzero : (Value.icmpEq srcVal (.const 0)).eval regs = some (if src = 0 then 1 else 0) := eval_icmpEq hsrc (eval_const _)
  unfold emitDiv
  rw [eval_select hzero (eval_const _), hresult]
  by_cases hoffset : inst.offset = 1
  · simp only [hoffset, if_true]
    have hdivisor := eval_signedDivisor inst hsrc
    generalize hs : (if inst.isAlu64 then (src.setWidth 32).signExtend w else src) = divisor at hdivisor ⊢
    rw [eval_select (eval_overflow hdst hdivisor) (eval_const _), eval_bin hdst hdivisor, BinOp.eval_sdiv]
    by_cases hundef : divisor = 0 ∨ dst = BitVec.intMin w ∧ divisor = -1
    · rw [if_pos hundef]
      constructor
      · intro h
        cases h
      · rintro ⟨hne, hover, -⟩
        exact absurd hundef (not_or.mpr ⟨hne, hover⟩)
    · obtain ⟨hne, hover⟩ := not_or.mp hundef
      have hsrc0 : src ≠ 0 := fun h => hne (hs.symm.trans (signedDivisor_of_eq inst hw (Or.inl rfl) h))
      have hsrcover : ¬ (dst = BitVec.intMin w ∧ src = -1) := fun h =>
        hover ⟨h.1, hs.symm.trans (signedDivisor_of_eq inst hw (Or.inr rfl) h.2)⟩
      rw [if_neg hundef, Option.map_some, Option.map_some, if_neg hover, if_neg hsrc0, if_neg hsrc0, if_neg hsrcover,
        Option.some.injEq, sdiv_signedDivisor_iff inst hw hs.symm hne hover hsrcover]
      exact ⟨fun h => ⟨hne, hover, h⟩, fun h => h.2.2⟩
  · simp only [hoffset, if_false]
    rw [eval_bin hdst hsrc, BinOp.eval_udiv]
    by_cases hsrc0 : src = 0 <;> simp [hsrc0]

/-- A remainder has the value of the instruction set exactly if its divisor is not zero and, signed, is as the condition has it. -/
theorem eval_emitMod {inst : EbpfInst} (hw : 32 ≤ w) (hdst : dstVal.eval regs = some dst)
    (hsrc : srcVal.eval regs = some src) :
    (emitMod inst dstVal srcVal).eval regs = some (isaResult EBPF_ALU_OP_MOD inst.offset dst src) ↔
      if inst.offset = 1 then
        let divisor := if inst.isAlu64 then (src.setWidth 32).signExtend w else src
        divisor ≠ 0 ∧ ¬ (dst = BitVec.intMin _ ∧ divisor = -1) ∧
          dst.toInt.natAbs % divisor.toInt.natAbs.lcm src.toInt.natAbs < divisor.toInt.natAbs
      else src ≠ 0 := by
  have hresult : isaResult EBPF_ALU_OP_MOD inst.offset dst src =
      if src = 0 then dst else if inst.offset = 1 then dst.srem src else dst % src := rfl
  have hzero : (Value.icmpEq srcVal (.const 0)).eval regs = some (if src = 0 then 1 else 0) := eval_icmpEq hsrc (eval_const _)
  have hdst' : (if inst.isAlu64 then Value.sext w dstVal else dstVal).eval regs = some dst := by
    cases inst.isAlu64 with
    | true => exact (eval_sext hdst).trans (congrArg some (BitVec.signExtend_eq dst))
    | false => exact hdst
  unfold emitMod
  rw [eval_select hzero hdst, hresult]
  by_cases hoffset : inst.offset = 1
  · simp only [hoffset, if_true]
    have hdivisor := eval_signedDivisor inst hsrc
    generalize hs : (if inst.isAlu64 then (src.setWidth 32).signExtend w else src) = divisor at hdivisor ⊢
    rw [eval_bin hdst' hdivisor, BinOp.eval_srem]
    by_cases hundef : divisor = 0 ∨ dst = BitVec.intMin w ∧ divisor = -1
    · rw [if_pos hundef]
      constructor
      · intro h
        cases h
      · rintro ⟨hne, hover, -⟩
        exact absurd hundef (not_or.mpr ⟨hne, hover⟩)
    · obtain ⟨hne, hover⟩ := not_or.mp hundef
      have hsrc0 : src ≠ 0 := fun h => hne (hs.symm.trans (signedDivisor_of_eq inst hw (Or.inl rfl) h))
      rw [if_neg hundef, Option.map_some, if_neg hsrc0, if_neg hsrc0, Option.some.injEq,
        srem_signedDivisor_iff inst hw hs.symm hne]
      exact ⟨fun h => ⟨hne, hover, h⟩, fun h => h.2.2⟩
  · simp only [hoffset, if_false]
    rw [eval_bin hdst hsrc, BinOp.eval_urem]
    by_cases hsrc0 : src = 0 <;> simp [hsrc0]

/-- A shift: the count is taken at the operands' width. -/
theorem eval_emitShift {inst : EbpfInst} {op : BinOp} {shifted : BitVec inst.aluWidth}
    (hop : ∀ count : BitVec inst.aluWidth, count.toNat = (inst.aluSource regs).toNat % inst.aluWidth →
      op.eval (inst.aluDest regs) count = some shifted) :
    (emitShift inst op (emitLoadALUDest inst) (emitLoadALUSource inst)).eval regs = some shifted := by
  have hconst : (if inst.isAlu64 then 64 else 32 : BitVec inst.aluWidth) = BitVec.ofNat _ inst.aluWidth := by
    unfold EbpfInst.aluWidth
    cases inst.isAlu64 <;> rfl
  have hlt : inst.aluWidth < 2 ^ inst.aluWidth := Nat.lt_two_pow_self
  have hpos : 0 < inst.aluWidth := (by decide : 0 < 32).trans_le (aluWidth_ge inst)
  have hne : BitVec.ofNat inst.aluWidth inst.aluWidth ≠ 0 := by
    intro h
    have hnat := congrArg BitVec.toNat h
    rw [BitVec.toNat_ofNat, Nat.mod_eq_of_lt hlt] at hnat
    exact hpos.ne' (hnat.trans (by simp))
  have hcount : (Value.bin .urem (emitLoadALUSource inst) (.const (if inst.isAlu64 then 64 else 32))).eval regs =
      some (inst.aluSource regs % BitVec.ofNat _ inst.aluWidth) := by
    rw [eval_bin eval_source (eval_const _), hconst, BinOp.eval_urem, if_neg hne]
  refine (eval_bin eval_dest hcount).trans (hop _ ?_)
  rw [BitVec.toNat_umod, BitVec.toNat_ofNat, Nat.mod_eq_of_lt hlt]

end Operations

end Vm
