import FreeProbe.Vm.JitAlu

/-!
# `Vm.JitAluLawful` — the emitted arithmetic against the instruction set

The byte swaps and the cases of the switch, then the equivalence: the code of an arithmetic instruction does what the
instruction set says exactly if the divisor, in a division, meets the condition of `DivisorFits`. The control flow of
`Vm.Jit` sees the code of these instructions as `plain`.
-/

namespace Vm

open Lib Lib.Llvm

/-! ## Byte swaps -/

section Swap
variable {regs : AluRegs} {dstVal : AluValue 64} {dst : BitVec 64}

/-- A value is the byte. -/
def IsByte (regs : AluRegs) (val : AluValue 64) (byte : BitVec 8) : Prop :=
  val.eval regs = some (BitVec.ofNat 64 byte.toNat)

/-- The bytes that are split off, from the `k`th up. -/
theorem splitBytes_forall₂ (hdst : dstVal.eval regs = some dst) (count k : Nat) (hk : k + count ≤ 8) :
    List.Forall₂ (IsByte regs)
      ((List.range' k count).map fun i =>
        Value.bin .and (.bin .lshr dstVal (.const (BitVec.ofNat 64 (8 * i)))) (.const 0xff))
      (Memory.leBytes count (dst.toNat / 2 ^ (8 * k))) := by
  induction count generalizing k with
  | zero => exact .nil
  | succ count ih =>
      have hhead : IsByte regs (Value.bin .and (.bin .lshr dstVal (.const (BitVec.ofNat 64 (8 * k)))) (.const 0xff))
          (BitVec.ofNat 8 (dst.toNat / 2 ^ (8 * k))) := by
        have hshift : (BitVec.ofNat 64 (8 * k)).toNat = 8 * k := by
          rw [BitVec.toNat_ofNat]
          omega
        have hlshr : (Value.bin .lshr dstVal (.const (BitVec.ofNat 64 (8 * k)))).eval regs = some (dst >>> (8 * k)) := by
          rw [eval_bin hdst (eval_const _), BinOp.eval_lshr, hshift, if_pos (by omega)]
        refine (eval_bin hlshr (eval_const _)).trans (congrArg some (BitVec.eq_of_toNat_eq ?_))
        show (dst >>> (8 * k)).toNat &&& 2 ^ 8 - 1 = _
        rw [Nat.and_two_pow_sub_one_eq_mod, BitVec.toNat_ushiftRight, Nat.shiftRight_eq_div_pow, BitVec.toNat_ofNat,
          BitVec.toNat_ofNat]
        omega
      have hrest := ih (k + 1) (by omega)
      rw [Nat.mul_add, Nat.pow_add, ← Nat.div_div_eq_div_mul] at hrest
      exact .cons hhead hrest

/-- A byte is appended to a number at its low end. -/
theorem shiftLeft_or_byte (acc : Nat) (byte : BitVec 8) :
    BitVec.ofNat 64 acc <<< 8 ||| BitVec.ofNat 64 byte.toNat = BitVec.ofNat 64 (byte.toNat + 2 ^ 8 * acc) := by
  have hbyte : byte.toNat < 2 ^ 8 := byte.isLt
  have hhigh : (BitVec.ofNat 64 acc <<< 8).toNat = 2 ^ 8 * (acc % 2 ^ 56) := by
    rw [BitVec.toNat_shiftLeft, BitVec.toNat_ofNat, Nat.shiftLeft_eq]
    omega
  refine BitVec.eq_of_toNat_eq ?_
  rw [BitVec.toNat_or, hhigh, BitVec.toNat_ofNat, BitVec.toNat_ofNat, Nat.mod_eq_of_lt (by omega : byte.toNat < 2 ^ 64),
    ← Nat.two_pow_add_eq_or_of_lt hbyte]
  omega

/-- The merged bytes, after those of `low` in reversed order. -/
theorem mergeBytes_foldl {vals : List (AluValue 64)} {bytes : List (BitVec 8)} (h : List.Forall₂ (IsByte regs) vals bytes)
    (low : List (BitVec 8)) {last : AluValue 64} (hlast : last.eval regs = some (BitVec.ofNat 64 (Memory.leNat low))) :
    ∃ result, vals.foldl (fun last val =>
        match last with
        | none => some val
        | some last => some (Value.bin .or (.bin .shl last (.const 8)) val)) (some last) = some result ∧
      result.eval regs = some (BitVec.ofNat 64 (Memory.leNat (bytes.reverse ++ low))) := by
  induction h generalizing last low with
  | nil => exact ⟨last, rfl, hlast⟩
  | @cons val byte vals bytes hval _ ih =>
      have hshl : (Value.bin .shl last (.const 8)).eval regs = some (BitVec.ofNat 64 (Memory.leNat low) <<< 8) :=
        eval_bin hlast (eval_const _)
      have hnext : (Value.bin .or (.bin .shl last (.const 8)) val).eval regs =
          some (BitVec.ofNat 64 (Memory.leNat (byte :: low))) :=
        (eval_bin hshl hval).trans (congrArg some (shiftLeft_or_byte _ byte))
      obtain ⟨result, hfold, heval⟩ := ih (byte :: low) hnext
      refine ⟨result, hfold, ?_⟩
      rw [List.reverse_cons, List.append_assoc]
      exact heval

/-- The emitted code of a byte swap. -/
theorem mergeBytes_splitBytes (hdst : dstVal.eval regs = some dst) (imm : BitVec 32) (hpos : 0 < imm.toNat / 8)
    (hle : imm.toNat / 8 ≤ 8) :
    ∃ result, mergeBytes (splitBytes imm dstVal) = some result ∧
      result.eval regs = some (swapBytes (imm.toNat / 8) dst) := by
  have hbytes := splitBytes_forall₂ hdst (imm.toNat / 8) 0 (by omega)
  rw [← List.range_eq_range', Nat.mul_zero, Nat.pow_zero, Nat.div_one] at hbytes
  have hlength : (Memory.leBytes (imm.toNat / 8) dst.toNat).length ≠ 0 := by
    rw [Memory.length_leBytes]
    exact hpos.ne'
  unfold mergeBytes splitBytes swapBytes
  revert hbytes
  generalize (List.range (imm.toNat / 8)).map _ = vals
  generalize Memory.leBytes (imm.toNat / 8) dst.toNat = bytes at hlength
  intro hbytes
  cases hbytes with
  | nil => exact absurd rfl hlength
  | @cons val byte vals bytes hval hrest =>
      rw [List.reverse_cons]
      exact mergeBytes_foldl hrest [byte] hval

end Swap

/-! ## The switch -/

section Switch
variable {inst : EbpfInst} {regs : AluRegs} {op : BitVec 8}

/-- The operation is in the upper half of the opcode, whatever the class and the source. -/
theorem op_of_mem (h : inst.opcode ∈ aluForms op) : inst.opcode &&& 0xf0 = op &&& 0xf0 := by
  have hforms : aluForms op =
      [EBPF_CLS_ALU ||| EBPF_SRC_IMM ||| op, EBPF_CLS_ALU ||| EBPF_SRC_REG ||| op, EBPF_CLS_ALU64 ||| EBPF_SRC_IMM ||| op,
        EBPF_CLS_ALU64 ||| EBPF_SRC_REG ||| op] := rfl
  rw [hforms] at h
  simp only [List.mem_cons, List.not_mem_nil, or_false] at h
  -- the class and the source bit are among the low four bits
  rcases h with h | h | h | h <;> rw [h, BitVec.and_or_distrib_right] <;> exact BitVec.zero_or

/-- The instruction set's value, outside the byte swaps. -/
theorem isaValue_eq (hop : inst.opcode &&& 0xf0 = op) (hend : op ≠ EBPF_ALU_OP_END) :
    isaValue inst regs = (isaResult op inst.offset (inst.aluDest regs) (inst.aluSource regs)).setWidth 64 := by
  have hne (c : BitVec 8) (hc : c &&& 0xf0 = EBPF_ALU_OP_END) : inst.opcode ≠ c := fun h => hend (by rw [← hop, h, hc])
  unfold isaValue
  rw [if_neg (hne _ (by decide)), if_neg (not_or.mpr ⟨hne _ (by decide), hne _ (by decide)⟩), hop]

/-- The condition, outside the divisions. -/
theorem divisorFits_of_op (hop : inst.opcode &&& 0xf0 = op) (hdiv : op ≠ EBPF_ALU_OP_DIV) (hmod : op ≠ EBPF_ALU_OP_MOD) :
    DivisorFits inst regs := by
  unfold DivisorFits
  rw [if_neg, if_neg]
  · trivial
  · exact fun h => hmod (hop.symm.trans (op_of_mem h))
  · exact fun h => hdiv (hop.symm.trans (op_of_mem h))

/-- The result of an operation without a divisor. -/
theorem lawful_of_eval {result : AluValue inst.aluWidth} (hop : inst.opcode &&& 0xf0 = op) (hend : op ≠ EBPF_ALU_OP_END)
    (hdiv : op ≠ EBPF_ALU_OP_DIV) (hmod : op ≠ EBPF_ALU_OP_MOD)
    (h : result.eval regs = some (isaResult op inst.offset (inst.aluDest regs) (inst.aluSource regs))) :
    AluLawful inst (emitStoreALUResult inst result) regs ↔ DivisorFits inst regs :=
  iff_of_true ((lawful_store (isaValue_eq hop hend)).mpr h) (divisorFits_of_op hop hdiv hmod)

/-- A move. -/
theorem emitMovValue_ok (regs : AluRegs) {pc : Nat} {code : AluStore} (h : emitMovValue pc inst = .ok code) :
    ∃ result, code = emitStoreALUResult inst result ∧ result.eval regs =
      some (isaResult EBPF_ALU_OP_MOV inst.offset (inst.aluDest regs) (inst.aluSource regs)) := by
  have hresult : isaResult EBPF_ALU_OP_MOV inst.offset (inst.aluDest regs) (inst.aluSource regs) =
      if inst.offset = 0 then inst.aluSource regs
      else ((inst.aluSource regs).setWidth inst.offset.toNat).signExtend _ := rfl
  -- a move with an offset extends the sign of the low bits
  have hsext (bits : Nat) : (Value.sext inst.aluWidth (.sext bits (.trunc bits (emitLoadALUSource inst)))).eval regs =
      some (((inst.aluSource regs).setWidth bits).signExtend _) := by
    rw [eval_sext (eval_sext (eval_trunc eval_source)), BitVec.signExtend_eq]
  unfold emitMovValue at h
  rw [hresult]
  by_cases hzero : inst.offset = 0
  · rw [if_neg (not_not.mpr hzero)] at h
    cases h
    exact ⟨_, rfl, by rw [eval_source, if_pos hzero]⟩
  · simp only [if_pos hzero, if_neg hzero] at h ⊢
    split at h
    · next h8 =>
        cases h
        rw [h8]
        exact ⟨_, rfl, hsext 8⟩
    · split at h
      · next h16 =>
          cases h
          rw [h16]
          exact ⟨_, rfl, hsext 16⟩
      · split at h
        · next h32 =>
            cases h
            rw [h32]
            exact ⟨_, rfl, hsext 32⟩
        · cases h

/-- A byte swap. -/
theorem lawful_endian {result : Σ w, AluValue w}
    (hop : inst.opcode = EBPF_OP_LE ∨ inst.opcode = EBPF_OP_BE ∨ inst.opcode = EBPF_OP_BYTESWAP)
    (h : emitALUEndianConversion inst (.load 64 inst.dst) = .ok result) :
    AluLawful inst (emitStoreALUResult inst result.2) regs := by
  have hload : (Value.load 64 inst.dst).eval regs = some (regs inst.dst) := by
    rw [eval_load, BitVec.setWidth_eq]
  have hlawful {w : Nat} {val : AluValue w} {x : BitVec w} (hw : inst.isAlu64 → 64 ≤ w) (heval : val.eval regs = some x)
      (hvalue : x.setWidth 64 = isaValue inst regs) : AluLawful inst (emitStoreALUResult inst val) regs := by
    unfold AluLawful
    rw [run_emitStoreALUResult hw heval, ← hvalue]
    rfl
  unfold emitALUEndianConversion at h
  split at h
  · cases h
  · next himm =>
      -- the three widths that `emitALUEndianConversion` accepts
      have hsize : inst.imm = 16 ∨ inst.imm = 32 ∨ inst.imm = 64 := by tauto
      split at h
      · next hreverse =>
          obtain ⟨last, hlast, heval⟩ := mergeBytes_splitBytes hload inst.imm
            (by rcases hsize with h | h | h <;> rw [h] <;> decide) (by rcases hsize with h | h | h <;> rw [h] <;> decide)
          rw [hlast] at h
          cases h
          refine hlawful (fun _ => le_rfl) heval ?_
          have hle : inst.opcode ≠ EBPF_OP_LE := by
            intro hle
            unfold EbpfInst.isAlu64 at hreverse
            rw [hle] at hreverse
            revert hreverse
            decide
          unfold isaValue
          rw [if_neg hle, if_pos (hop.resolve_left hle), BitVec.setWidth_eq]
      · next hreverse =>
          have hle : inst.opcode = EBPF_OP_LE := by
            rcases hop with hop | hop | hop
            · exact hop
            all_goals
              unfold EbpfInst.isAlu64 at hreverse
              rw [hop] at hreverse
              exact absurd (by decide) hreverse
          have h64 : ¬ inst.isAlu64 := fun h64 => hreverse (Or.inl h64)
          have hvalue : isaValue inst regs = ((regs inst.dst).setWidth inst.imm.toNat).setWidth 64 := if_pos hle
          rcases hsize with himm | himm | himm
          · rw [if_pos himm] at h
            cases h
            exact hlawful (fun h => absurd h h64) (eval_trunc hload) (by rw [hvalue, himm]; rfl)
          · rw [if_neg (by rw [himm]; decide), if_pos himm] at h
            cases h
            exact hlawful (fun h => absurd h h64) (eval_trunc hload) (by rw [hvalue, himm]; rfl)
          · rw [if_neg (by rw [himm]; decide), if_neg (by rw [himm]; decide)] at h
            cases h
            refine hlawful (fun h => absurd h h64) hload ?_
            rw [hvalue, himm]
            exact (BitVec.setWidth_eq _).symm

/-- The operations that are one instruction. -/
def binaryOps : List (BitVec 8 × BinOp) :=
  [(EBPF_ALU_OP_ADD, .add), (EBPF_ALU_OP_SUB, .sub), (EBPF_ALU_OP_MUL, .mul), (EBPF_ALU_OP_OR, .or),
    (EBPF_ALU_OP_AND, .and), (EBPF_ALU_OP_XOR, .xor)]

/-- The shifts, whose amount is masked. -/
def shiftOps : List (BitVec 8 × BinOp) :=
  [(EBPF_ALU_OP_LSH, .shl), (EBPF_ALU_OP_RSH, .lshr), (EBPF_ALU_OP_ARSH, .ashr)]

/-- The cases of the switch with what each emits. -/
inductive AluCase (pc : Nat) (inst : EbpfInst) : AluStore → Prop where
  | binary {op : BitVec 8} {binOp : BinOp} (hop : inst.opcode ∈ aluForms op) (hin : (op, binOp) ∈ binaryOps) :
      AluCase pc inst (emitALUWithDstAndSrc inst (.bin binOp))
  | shift {op : BitVec 8} {binOp : BinOp} (hop : inst.opcode ∈ aluForms op) (hin : (op, binOp) ∈ shiftOps) :
      AluCase pc inst (emitALUWithDstAndSrc inst (emitShift inst binOp))
  | div (hop : inst.opcode ∈ aluForms EBPF_ALU_OP_DIV) : AluCase pc inst (emitALUWithDstAndSrc inst (emitDiv inst))
  | mod (hop : inst.opcode ∈ aluForms EBPF_ALU_OP_MOD) : AluCase pc inst (emitALUWithDstAndSrc inst (emitMod inst))
  | neg (hop : inst.opcode = EBPF_OP_NEG ∨ inst.opcode = EBPF_OP_NEG64) :
      AluCase pc inst (emitStoreALUResult inst (createNeg (emitLoadALUDest inst)))
  | mov {code : AluStore} (hop : inst.opcode ∈ aluForms EBPF_ALU_OP_MOV) (hmov : emitMovValue pc inst = .ok code) :
      AluCase pc inst code
  | endian {result : Σ w, AluValue w}
      (hop : inst.opcode = EBPF_OP_LE ∨ inst.opcode = EBPF_OP_BE ∨ inst.opcode = EBPF_OP_BYTESWAP)
      (hend : emitALUEndianConversion inst (.load 64 inst.dst) = .ok result) :
      AluCase pc inst (emitStoreALUResult inst result.2)

/-- What a case of the switch has emitted. -/
theorem emitAlu_cases {pc : Nat} {code : AluStore} (h : emitAlu pc inst = .ok (some code)) :
    ¬ (inst.dst > 10 ∨ inst.src > 10) ∧ AluCase pc inst code := by
  unfold emitAlu at h
  by_cases hregs : inst.dst > 10 ∨ inst.src > 10
  · rw [if_pos hregs] at h
    cases h
  refine ⟨hregs, ?_⟩
  rw [if_neg hregs] at h
  -- one case for each `case` of the switch, in its order
  by_cases hop : inst.opcode ∈ aluForms EBPF_ALU_OP_ADD
  · rw [if_pos hop] at h
    cases h
    exact .binary hop (by decide)
  rw [if_neg hop] at h
  by_cases hop : inst.opcode ∈ aluForms EBPF_ALU_OP_SUB
  · rw [if_pos hop] at h
    cases h
    exact .binary hop (by decide)
  rw [if_neg hop] at h
  by_cases hop : inst.opcode ∈ aluForms EBPF_ALU_OP_MUL
  · rw [if_pos hop] at h
    cases h
    exact .binary hop (by decide)
  rw [if_neg hop] at h
  by_cases hop : inst.opcode ∈ aluForms EBPF_ALU_OP_DIV
  · rw [if_pos hop] at h
    cases h
    exact .div hop
  rw [if_neg hop] at h
  by_cases hop : inst.opcode ∈ aluForms EBPF_ALU_OP_OR
  · rw [if_pos hop] at h
    cases h
    exact .binary hop (by decide)
  rw [if_neg hop] at h
  by_cases hop : inst.opcode ∈ aluForms EBPF_ALU_OP_AND
  · rw [if_pos hop] at h
    cases h
    exact .binary hop (by decide)
  rw [if_neg hop] at h
  by_cases hop : inst.opcode ∈ aluForms EBPF_ALU_OP_LSH
  · rw [if_pos hop] at h
    cases h
    exact .shift hop (by decide)
  rw [if_neg hop] at h
  by_cases hop : inst.opcode ∈ aluForms EBPF_ALU_OP_RSH
  · rw [if_pos hop] at h
    cases h
    exact .shift hop (by decide)
  rw [if_neg hop] at h
  by_cases hop : inst.opcode = EBPF_OP_NEG ∨ inst.opcode = EBPF_OP_NEG64
  · rw [if_pos hop] at h
    cases h
    exact .neg hop
  rw [if_neg hop] at h
  by_cases hop : inst.opcode ∈ aluForms EBPF_ALU_OP_MOD
  · rw [if_pos hop] at h
    cases h
    exact .mod hop
  rw [if_neg hop] at h
  by_cases hop : inst.opcode ∈ aluForms EBPF_ALU_OP_XOR
  · rw [if_pos hop] at h
    cases h
    exact .binary hop (by decide)
  rw [if_neg hop] at h
  by_cases hop : inst.opcode ∈ aluForms EBPF_ALU_OP_MOV
  · rw [if_pos hop] at h
    cases hmov : emitMovValue pc inst with
    | error e =>
        rw [hmov] at h
        cases h
    | ok result =>
        rw [hmov] at h
        cases h
        exact .mov hop hmov
  rw [if_neg hop] at h
  by_cases hop : inst.opcode ∈ aluForms EBPF_ALU_OP_ARSH
  · rw [if_pos hop] at h
    cases h
    exact .shift hop (by decide)
  rw [if_neg hop] at h
  by_cases hop : inst.opcode = EBPF_OP_LE ∨ inst.opcode = EBPF_OP_BE ∨ inst.opcode = EBPF_OP_BYTESWAP
  · rw [if_pos hop] at h
    cases hend : emitALUEndianConversion inst (.load 64 inst.dst) with
    | error e =>
        rw [hend] at h
        cases h
    | ok result =>
        rw [hend] at h
        cases h
        exact .endian hop hend
  · rw [if_neg hop] at h
    cases h

/-- The results of the instructions that are no more than an operation. -/
theorem isaResult_binary {binOp : BinOp} (hin : (op, binOp) ∈ binaryOps) {w : Nat} (offset : BitVec 16) (dst src : BitVec w) :
    binOp.eval dst src = some (isaResult op offset dst src) ∧
      op &&& 0xf0 = op ∧ op ≠ EBPF_ALU_OP_END ∧ op ≠ EBPF_ALU_OP_DIV ∧ op ≠ EBPF_ALU_OP_MOD := by
  simp only [binaryOps, List.mem_cons, List.not_mem_nil, or_false, Prod.mk.injEq] at hin
  rcases hin with ⟨rfl, rfl⟩ | ⟨rfl, rfl⟩ | ⟨rfl, rfl⟩ | ⟨rfl, rfl⟩ | ⟨rfl, rfl⟩ | ⟨rfl, rfl⟩ <;>
    exact ⟨rfl, by decide, by decide, by decide, by decide⟩

/-- The results of the shifts. -/
theorem isaResult_shift {binOp : BinOp} (hin : (op, binOp) ∈ shiftOps) {w : Nat} (hw : 0 < w) (offset : BitVec 16)
    (dst src count : BitVec w) (hcount : count.toNat = src.toNat % w) :
    binOp.eval dst count = some (isaResult op offset dst src) ∧
      op &&& 0xf0 = op ∧ op ≠ EBPF_ALU_OP_END ∧ op ≠ EBPF_ALU_OP_DIV ∧ op ≠ EBPF_ALU_OP_MOD := by
  have hlt : count.toNat < w := hcount ▸ Nat.mod_lt _ hw
  simp only [shiftOps, List.mem_cons, List.not_mem_nil, or_false, Prod.mk.injEq] at hin
  rcases hin with ⟨rfl, rfl⟩ | ⟨rfl, rfl⟩ | ⟨rfl, rfl⟩
  · rw [BinOp.eval_shl, if_pos hlt, hcount]
    exact ⟨rfl, by decide, by decide, by decide, by decide⟩
  · rw [BinOp.eval_lshr, if_pos hlt, hcount]
    exact ⟨rfl, by decide, by decide, by decide, by decide⟩
  · rw [BinOp.eval_ashr, if_pos hlt, hcount]
    exact ⟨rfl, by decide, by decide, by decide, by decide⟩

/-! ## Results -/

/-- **The emitted arithmetic** is that of the instruction set, without an undefined instruction, exactly if the divisor
meets the condition. -/
theorem alu_lawful_iff {pc : Nat} {code : AluStore} (h : emitAlu pc inst = .ok (some code)) (regs : AluRegs) :
    AluLawful inst code regs ↔ DivisorFits inst regs := by
  have hpos : 0 < inst.aluWidth := (by decide : 0 < 32).trans_le (aluWidth_ge inst)
  -- only a division and a remainder ask anything of the registers
  cases (emitAlu_cases h).2 with
  | binary hop hin =>
      obtain ⟨heval, hmask, hend, hdiv, hmod⟩ :=
        isaResult_binary hin inst.offset (inst.aluDest regs) (inst.aluSource regs)
      exact lawful_of_eval ((op_of_mem hop).trans hmask) hend hdiv hmod ((eval_bin eval_dest eval_source).trans heval)
  | shift hop hin =>
      have hshift := isaResult_shift hin hpos inst.offset (inst.aluDest regs) (inst.aluSource regs)
      obtain ⟨-, hmask, hend, hdiv, hmod⟩ := isaResult_shift hin hpos inst.offset (inst.aluDest regs) 0 0 (Nat.zero_mod _).symm
      exact lawful_of_eval ((op_of_mem hop).trans hmask) hend hdiv hmod
        (eval_emitShift fun count hcount => (hshift count hcount).1)
  | div hop =>
      refine (lawful_store (isaValue_eq (op_of_mem hop) (by decide))).trans ?_
      refine (eval_emitDiv (aluWidth_ge inst) eval_dest eval_source).trans ?_
      unfold DivisorFits
      rw [if_pos hop]
      rfl
  | mod hop =>
      have hdiv : inst.opcode ∉ aluForms EBPF_ALU_OP_DIV := fun hdiv =>
        absurd ((op_of_mem hdiv).symm.trans (op_of_mem hop)) (by decide)
      refine (lawful_store (isaValue_eq (op_of_mem hop) (by decide))).trans ?_
      refine (eval_emitMod (aluWidth_ge inst) eval_dest eval_source).trans ?_
      unfold DivisorFits
      rw [if_neg hdiv, if_pos hop]
      rfl
  | neg hop =>
      have hneg : inst.opcode &&& 0xf0 = EBPF_ALU_OP_NEG := by rcases hop with hop | hop <;> rw [hop] <;> rfl
      refine lawful_of_eval hneg (by decide) (by decide) (by decide) ((eval_bin (eval_const _) eval_dest).trans ?_)
      exact congrArg some (BitVec.zero_sub _)
  | mov hop hmov =>
      obtain ⟨result, rfl, heval⟩ := emitMovValue_ok regs hmov
      exact lawful_of_eval (op_of_mem hop) (by decide) (by decide) (by decide) heval
  | endian hop hend =>
      have hopcode : inst.opcode &&& 0xf0 = EBPF_ALU_OP_END := by rcases hop with hop | hop | hop <;> rw [hop] <;> rfl
      exact iff_of_true (lawful_endian hop hend) (divisorFits_of_op hopcode (by decide) (by decide))

/-- A division by a register. -/
theorem alu_lawful_iff_div :
    AluLawful ⟨EBPF_CLS_ALU64 ||| EBPF_SRC_REG ||| EBPF_ALU_OP_DIV, 1, 2, 0, 0⟩
        (emitALUWithDstAndSrc ⟨EBPF_CLS_ALU64 ||| EBPF_SRC_REG ||| EBPF_ALU_OP_DIV, 1, 2, 0, 0⟩
          (emitDiv ⟨EBPF_CLS_ALU64 ||| EBPF_SRC_REG ||| EBPF_ALU_OP_DIV, 1, 2, 0, 0⟩)) (fun r => if r = 2 then 3 else 7) ↔
      DivisorFits ⟨EBPF_CLS_ALU64 ||| EBPF_SRC_REG ||| EBPF_ALU_OP_DIV, 1, 2, 0, 0⟩ (fun r => if r = 2 then 3 else 7) :=
  alu_lawful_iff (show emitAlu 0 _ = .ok (some _) from rfl) _

/-- The division by zero is executed before its result is left out. -/
theorem alu_not_lawful :
    ¬ ∀ pc inst code regs, emitAlu pc inst = .ok (some code) → AluLawful inst code regs := by
  intro h
  have hdiv := h 0 ⟨EBPF_CLS_ALU64 ||| EBPF_SRC_REG ||| EBPF_ALU_OP_DIV, 1, 2, 0, 0⟩ _ (fun _ => 0) rfl
  unfold AluLawful at hdiv
  have hnone : (emitALUWithDstAndSrc ⟨EBPF_CLS_ALU64 ||| EBPF_SRC_REG ||| EBPF_ALU_OP_DIV, 1, 2, 0, 0⟩
      (emitDiv ⟨EBPF_CLS_ALU64 ||| EBPF_SRC_REG ||| EBPF_ALU_OP_DIV, 1, 2, 0, 0⟩)).run (fun _ => (0 : BitVec 64)) = none := rfl
  rw [hnone] at hdiv
  cases hdiv

/-- The operations of `aluOpcodes`. -/
def aluOps : List (BitVec 8) :=
  [EBPF_ALU_OP_ADD, EBPF_ALU_OP_SUB, EBPF_ALU_OP_MUL, EBPF_ALU_OP_DIV, EBPF_ALU_OP_OR, EBPF_ALU_OP_AND, EBPF_ALU_OP_LSH,
    EBPF_ALU_OP_RSH, EBPF_ALU_OP_MOD, EBPF_ALU_OP_XOR, EBPF_ALU_OP_ARSH]

/-- The opcodes of one operation are among those of all. -/
theorem mem_aluOpcodes (hop : op ∈ aluOps) (h : inst.opcode ∈ aluForms op) : inst.opcode ∈ aluOpcodes := by
  obtain ⟨op', hop', hmem⟩ := List.mem_flatMap.mp h
  rw [List.mem_singleton.mp hop'] at hmem
  exact List.mem_flatMap.mpr ⟨op, hop, hmem⟩

/-- The code of an arithmetic instruction has no part in the control flow. -/
theorem emitInst_of_emitAlu {args : JitArgs} {blockBegin : Nat → Bool} {pc : Nat} {code : AluStore}
    (h : emitAlu pc (args.insts.inst pc) = .ok (some code)) : emitInst args blockBegin pc = .ok .plain := by
  obtain ⟨hregs, hcase⟩ := emitAlu_cases h
  have hbinary : ∀ p ∈ binaryOps, p.1 ∈ aluOps := by decide
  have hshift : ∀ p ∈ shiftOps, p.1 ∈ aluOps := by decide
  unfold emitInst
  generalize args.insts.inst pc = inst at *
  dsimp only
  rw [if_neg hregs]
  -- the switch of `emitInst` comes to the same case
  cases hcase with
  | binary hop hin => exact if_pos (Or.inl (mem_aluOpcodes (hbinary _ hin) hop))
  | shift hop hin => exact if_pos (Or.inl (mem_aluOpcodes (hshift _ hin) hop))
  | div hop => exact if_pos (Or.inl (mem_aluOpcodes (by decide) hop))
  | mod hop => exact if_pos (Or.inl (mem_aluOpcodes (by decide) hop))
  | neg hop => exact if_pos (Or.inr hop)
  | mov hop hmov =>
      have hmem : inst.opcode ∈ movOpcodes := hop
      have hother : ∀ c ∈ movOpcodes, ¬ (c ∈ aluOpcodes ∨ c = EBPF_OP_NEG ∨ c = EBPF_OP_NEG64) := by decide
      rw [if_neg (hother _ hmem), if_pos hmem]
      refine if_pos ?_
      by_contra hoffset
      obtain ⟨h0, h8, h16, h32⟩ : inst.offset ≠ 0 ∧ inst.offset ≠ 8 ∧ inst.offset ≠ 16 ∧ inst.offset ≠ 32 := by tauto
      simp only [emitMovValue, ne_eq, h0, h8, h16, h32, not_false_eq_true, if_true, if_false] at hmov
      cases hmov
  | endian hop hend =>
      have hother : ¬ (inst.opcode ∈ aluOpcodes ∨ inst.opcode = EBPF_OP_NEG ∨ inst.opcode = EBPF_OP_NEG64) ∧
          inst.opcode ∉ movOpcodes := by rcases hop with hop | hop | hop <;> rw [hop] <;> decide
      rw [if_neg hother.1, if_neg hother.2, if_pos hop]
      refine if_pos ?_
      by_contra himm
      have hbad : inst.imm ≠ 16 ∧ inst.imm ≠ 32 ∧ inst.imm ≠ 64 := by tauto
      unfold emitALUEndianConversion at hend
      rw [if_pos hbad] at hend
      cases hend

end Switch

end Vm
