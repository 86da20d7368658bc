import FreeProbe.Vm.EbpfRun
import FreeProbe.Vm.JitCalls
import FreeProbe.Vm.JitControlFlow

/-!
# `Vm.JitProgram` — compiled programs against the instruction set

A module of `generateModule` run as a whole: control flow, registers, memory, `LDDW`s, helpers and local calls. Its
steps are those of the program by the instruction set (`jitRunStep_rel`), so whole runs go alike, up to the same result or
the same fault (`compiled_runs_alike`).

The code puts a callee's frame `STACK_SIZE` bytes below its caller's, and the instruction set `EBPF_STACK_SIZE` bytes. In
a local function `r10` differs, so that runs go alike where no local function names `r10`.
-/

namespace Vm

open Lib Lib.Llvm Lib.Memory

/-! ## The machine

A piece of code runs on the registers and the memory of the machine, and a helper also on the state of the world. The
pieces are those of `Vm.Jit`, with the meaning that LLVM gives to them in `Lib.Llvm`; where LLVM gives none, the step is
stuck. -/

section Machine

variable {ω : Type} (env : Env ω)

/-- What the code of an instruction does to registers, memory and world, and whether its branch is taken; `none` is a
fault or an undefined instruction. -/
def Emitted.effect (e : Emitted) (s : Machine) (world : ω) : Option (Machine × ω × Bool) :=
  match e.code with
  | .plain => (runPlain env.undefinedAt e.pc e.inst s).map (·, world, false)
  | .lddw (.const value) => some (s.set e.inst.dst value, world, false)
  | .lddw (.mapVal mapPtr offset) => some (s.set e.inst.dst (env.rel.mapVal mapPtr + offset), world, false)
  | .helper index | .tailCall index => (callHelper env index s world).map fun out => (out.1, out.2, false)
  | .condBr _ _ => (emitTest e.inst).bind fun br => (br.taken s.regs).map fun taken => (s, world, taken)
  | .lddw .unset | .br _ | .localCall _ _ | .exitOrReturn => some (s, world, false)

/-- The module at work: where it is, the memory it shares with the program, and the world of the helpers. -/
structure JitWorld (ω : Type) where
  jit   : JitState
  mem   : Heap
  world : ω

/-- The registers and the memory. -/
def JitWorld.machine (t : JitWorld ω) : Machine := ⟨t.jit.regs, t.mem⟩

/-- One piece of code, from the label it settles at. -/
def jitRunStep (m : Module) (t : JitWorld ω) : StepResult (JitWorld ω) (Result ω) :=
  match (m.settle t.jit).rest with
  | [] => .stuck
  | e :: rest =>
    match e.effect env ⟨(m.settle t.jit).regs, t.mem⟩ t.world with
    | none => .stuck
    | some (machine, world, taken) =>
      match execute m ⟨taken, machine.regs⟩ { m.settle t.jit with rest := rest } e with
      | .next jit => .next ⟨jit, machine.mem, world⟩
      | .leave => .exit ⟨machine.regs 0, machine.mem, world⟩
      | .undefined => .stuck

end Machine

/-! ## The code of the module

The simulation below looks at one piece of code and the instruction it was made from. All it needs of the module is that
each piece came out of `emitInst` for its instruction. -/

/-- Each piece of code is what `emitInst` makes of its instruction. -/
theorem emitFrom_emitInst {args : JitArgs} {blockBegin : Nat → Bool} {fuel pc currBB : Nat} {code : List (Nat × Emitted)}
    (h : emitFrom args blockBegin fuel pc currBB = .ok code) :
    ∀ c ∈ code, emitInst args blockBegin c.2.pc = .ok c.2.code := by
  induction fuel generalizing pc currBB code with
  | zero =>
      cases h
      exact fun _ hc => absurd hc List.not_mem_nil
  | succ fuel ih =>
      rw [emitFrom] at h
      split at h
      · obtain ⟨piece, hpiece, h⟩ := bind_eq_ok h
        obtain ⟨rest, hrest, h⟩ := bind_eq_ok h
        cases h
        intro c hc
        -- the piece made in this round, or one of a later round
        rcases List.mem_cons.mp hc with rfl | hc
        · exact hpiece
        · exact ih hrest c hc
      · cases h
        exact fun _ hc => absurd hc List.not_mem_nil

/-- Each piece of the code was made by `emitInst`. -/
theorem code_emitInst {args : JitArgs} {m : Module} (h : generateModule args = .ok m) {c : Nat × Emitted}
    (hc : c ∈ m.code) : emitInst args (isBlockStart args.insts) c.2.pc = .ok c.2.code := by
  obtain ⟨⟨hne, hlen, hinside, hemit, hends⟩, -⟩ := generateModule_compiled h
  obtain ⟨code, hcode⟩ := (emission args).ok hemit
  have hmodule := (generateModule_of_code hne hlen hinside hcode).2.1 hends
  rw [h] at hmodule
  cases hmodule
  exact emitFrom_emitInst hcode c hc

/-! ## The conditions

What has to hold for a program to run as the instruction set says. `Linked` and `Suits` are about the program and what
it was compiled with, and are checked once; `StepFits` is about the state before a step. -/

/-- What the program was compiled with is what it runs with. -/
structure Linked (args : JitArgs) (rel : Relocation) : Prop where
  mapByFd  : ∀ imm, mapOf args.lddw.mapByFd imm = rel.mapByFd imm
  mapByIdx : ∀ imm, mapOf args.lddw.mapByIdx imm = rel.mapByIdx imm
  mapVal   : ∀ f ∈ args.lddw.mapVal, f = rel.mapVal
  varAddr  : ∀ f ∈ args.lddw.varAddr, f = rel.varAddr
  codeAddr : ∀ f ∈ args.lddw.codeAddr, f = rel.codeAddr

/-- No jump or call has a bad target, no `LDDW` is of an unknown kind, and `r10` is not written. -/
structure Suits (insts : Insts) : Prop where
  targets : ¬ HasBadTarget insts
  kinds   : ∀ pc ∈ positions insts, (insts.inst pc).opcode = EBPF_OP_LDDW → (insts.inst pc).src ≤ 6
  keeps   : KeepsFramePointer insts

/-- The divisor or the atomic access is one that the code has right, a local call finds room, and in a local function
the instruction does not name `r10`. -/
structure StepFits {ω : Type} (env : Env ω) (insts : Insts) (s : EbpfState ω) : Prop where
  plain : (insts.inst s.pc).opcode ∈ plainOpcodes → PlainFits env.undefinedAt (insts.inst s.pc) s.machine
  room  : (insts.inst s.pc).isLocalCall = true → s.frames.length < CALL_STACK_SIZE
  frame : s.frames ≠ [] → (insts.inst s.pc).src ≠ 10 ∧ (insts.inst s.pc).dst ≠ 10

/-! ## `LDDW`

The value of an `LDDW` is known when the module is compiled, but for the address of a map's values: that is asked of a
function which may run at either time. `Linked` says that the functions agree with the relocation of the program. -/

section Lddw

variable {args : JitArgs} {rel : Relocation}

/-- What the code of an `LDDW` loads at run time. -/
def LddwValue.of (rel : Relocation) : LddwValue → Option (BitVec 64)
  | const value => some value
  | mapVal mapPtr offset => some (rel.mapVal mapPtr + offset)
  | unset => none

/-- The address is the same whether `map_val` is asked when the module is compiled or when it runs. -/
theorem of_emitMapVal (hlinked : Linked args rel) {pc : Nat} {mapPtr : BitVec 64} {offset : BitVec 32} {e : JitError}
    {value : LddwValue} (h : emitMapVal args pc mapPtr offset e = .ok value) :
    value.of rel = some (rel.mapVal mapPtr + offset.signExtend 64) := by
  unfold emitMapVal at h
  split at h
  · split at h
    · next f hf =>
        cases h
        rw [LddwValue.of, hlinked.mapVal f hf]
    · cases h
  · split at h
    · cases h
      rfl
    · cases h

/-- **An `LDDW`** gets the value of its kind. -/
theorem of_lddwValue (hlinked : Linked args rel) {pc : Nat} {inst next : EbpfInst} {value : LddwValue}
    (hkind : inst.src ≤ 6) (h : lddwValue args pc inst next = .ok value) : value.of rel = some (rel.value inst next) := by
  unfold lddwValue at h
  unfold Relocation.value
  -- kind by kind, in the order of the code
  by_cases h0 : inst.src = 0
  · rw [if_pos h0] at h ⊢
    rw [← Except.ok.inj h, LddwValue.of, BitVec.or_comm, ← BitVec.setWidth_append_eq_shiftLeft_setWidth_or,
      BitVec.setWidth_eq]
  rw [if_neg h0] at h ⊢
  by_cases h1 : inst.src = 1
  · rw [if_pos h1] at h ⊢
    cases h
    rw [LddwValue.of, hlinked.mapByFd]
  rw [if_neg h1] at h ⊢
  by_cases h2 : inst.src = 2
  · rw [if_pos h2] at h ⊢
    rw [of_emitMapVal hlinked h, hlinked.mapByFd]
  rw [if_neg h2] at h ⊢
  by_cases h3 : inst.src = 3
  · rw [if_pos h3] at h ⊢
    cases hf : args.lddw.varAddr with
    | none =>
        rw [hf] at h
        cases h
    | some f =>
        rw [hf] at h
        cases h
        rw [LddwValue.of, hlinked.varAddr f hf]
  rw [if_neg h3] at h ⊢
  by_cases h4 : inst.src = 4
  · rw [if_pos h4] at h ⊢
    cases hf : args.lddw.codeAddr with
    | none =>
        rw [hf] at h
        cases h
    | some f =>
        rw [hf] at h
        cases h
        rw [LddwValue.of, hlinked.codeAddr f hf]
  rw [if_neg h4] at h ⊢
  by_cases h5 : inst.src = 5
  · rw [if_pos h5] at h ⊢
    cases h
    rw [LddwValue.of, hlinked.mapByIdx]
  rw [if_neg h5] at h ⊢
  -- what is left of the kinds up to 6
  have h6 : inst.src = 6 := by bv_omega
  rw [if_pos h6] at h
  rw [of_emitMapVal hlinked h, hlinked.mapByIdx]

end Lddw

/-! ## Registers

The code of a plain instruction stores to one register or to none, and the others keep what they had. The instruction set
says the same, but for an atomic exchange, where it writes `src` and the code does not. -/

/-- An atomic access writes the register that its result goes to, and no other. -/
theorem isaAtomic_frame {undefinedAt : Nat → BitVec 64 → Bool} {inst : EbpfInst} {s s' : Machine}
    (hatomic : inst.opcode = EBPF_ATOMIC_OPCODE_32 ∨ inst.opcode = EBPF_ATOMIC_OPCODE_64)
    (hfits : AtomicFits undefinedAt inst s.regs s.total fun _ => []) (h : isaAtomic inst s = some s') {r : BitVec 4}
    (hr : inst.writes r = false) : s'.regs r = s.regs r := by
  have hnot : ∀ op ∈ storeOpcodes, ¬ (op = EBPF_ATOMIC_OPCODE_32 ∨ op = EBPF_ATOMIC_OPCODE_64) := by decide +kernel
  obtain ⟨bytes, hbytes, h⟩ := Option.bind_eq_some_iff.mp h
  obtain ⟨stored, -, h⟩ := Option.bind_eq_some_iff.mp h
  cases h
  unfold AtomicFits at hfits
  dsimp only [runOthers, List.foldl_nil] at hfits
  rw [EbpfInst.writes, if_neg fun hstore => hnot _ hstore hatomic, if_pos hatomic] at hr
  change isaRegs inst s.regs (BitVec.ofNat inst.atomicWidth (leNat bytes)) r = s.regs r
  rw [read_of_load hbytes, isaRegs]
  -- a compare and exchange fetches into `r0`, the others into `src`
  by_cases hcmpxchg : inst.imm = EBPF_ATOMIC_OP_CMPXCHG
  · rw [if_pos hcmpxchg] at hr ⊢
    exact Function.update_of_ne (beq_eq_false_iff_ne.mp hr) _ _
  rw [if_neg hcmpxchg] at hr hfits ⊢
  by_cases hxchg : inst.imm = EBPF_ATOMIC_OP_XCHG
  · -- the code leaves `src`, which already holds what the location does
    rw [if_pos hxchg] at hfits
    rw [if_pos (by rw [hxchg]; decide), ← hfits.2, Function.update_eq_self]
  rw [if_neg hxchg] at hr
  by_cases hfetch : inst.imm &&& EBPF_ATOMIC_OP_FETCH = EBPF_ATOMIC_OP_FETCH
  · rw [hfetch, beq_self_eq_true, Bool.true_and] at hr
    rw [if_pos hfetch]
    exact Function.update_of_ne (beq_eq_false_iff_ne.mp hr) _ _
  · rw [if_neg hfetch]

/-- A register that the code of a plain instruction does not store to is unchanged. For an atomic exchange this needs
the condition on the step: the code does not write `src` back, and the instruction set does. -/
theorem isaPlain_frame {undefinedAt : Nat → BitVec 64 → Bool} {inst : EbpfInst} {s s' : Machine}
    (hfits : PlainFits undefinedAt inst s) (h : isaPlain inst s = some s') {r : BitVec 4}
    (hr : inst.writes r = false) : s'.regs r = s.regs r := by
  unfold isaPlain at h
  unfold PlainFits at hfits
  by_cases hatomic : inst.opcode = EBPF_ATOMIC_OPCODE_32 ∨ inst.opcode = EBPF_ATOMIC_OPCODE_64
  · rw [if_pos hatomic] at h hfits
    exact isaAtomic_frame hatomic hfits h hr
  rw [if_neg hatomic, EbpfInst.exec] at h
  rw [EbpfInst.writes, if_neg hatomic] at hr
  by_cases hstore : inst.opcode ∈ storeOpcodes
  · rw [if_pos hstore] at h
    rw [store_regs h]
  rw [if_neg hstore] at h hr
  have hne : r ≠ inst.dst := beq_eq_false_iff_ne.mp hr
  by_cases hload : inst.opcode ∈ loadOpcodes
  · rw [if_pos hload] at h
    obtain ⟨bytes, -, h⟩ := Option.map_eq_some_iff.mp h
    rw [← h]
    exact Function.update_of_ne hne _ _
  rw [if_neg hload] at h
  by_cases halu : inst.opcode ∈ aluOpcodes ++ movOpcodes ++ unaryOpcodes
  · rw [if_pos halu] at h
    cases h
    exact Function.update_of_ne hne _ _
  · rw [if_neg halu] at h
    cases h

/-! ## The frame pointer

In a local function the two runs have different frame pointers. So each effect is shown not to depend on `r10`, for an
instruction that does not name it: setting the register before or after the instruction is the same. -/

section FramePointer

variable {undefinedAt : Nat → BitVec 64 → Bool} {inst : EbpfInst} {s : Machine} {v : BitVec 64}

/-- The instruction does the same with this `r10`: it does not name the register, or that is what the register holds. -/
def BlindTo (v : BitVec 64) (inst : EbpfInst) (s : Machine) : Prop := s.regs 10 = v ∨ inst.src ≠ 10 ∧ inst.dst ≠ 10

/-- Loads do not see a register that is set. -/
@[simp] theorem set_load (r : BitVec 4) (addr : BitVec 64) (count : Nat) : (s.set r v).load addr count = s.load addr count :=
  rfl

/-- Nor does the view of the whole memory. -/
@[simp] theorem set_total (r : BitVec 4) : (s.set r v).total = s.total := rfl

/-- Nor do stores. -/
theorem set_store (r : BitVec 4) (addr : BitVec 64) (bytes : List (BitVec 8)) :
    (s.set r v).store addr bytes = (s.store addr bytes).map (·.set r v) := by
  unfold Machine.store
  rw [set_load]
  split
  · rfl
  · rfl

/-- Setting `r10` to what it is. -/
theorem set_self (h : s.regs 10 = v) : s.set 10 v = s := by
  rw [Machine.set, ← h, Function.update_eq_self]

/-- `r10` and another register are set in any order. -/
theorem set_comm {r : BitVec 4} (h : r ≠ 10) (x : BitVec 64) : (s.set 10 v).set r x = (s.set r x).set 10 v := by
  simp only [Machine.set, Function.update_comm h]

/-- The other registers stay. -/
theorem set_regs {r : BitVec 4} (h : r ≠ 10) : (s.set 10 v).regs r = s.regs r := Function.update_of_ne h _ _

/-- The value computed does not depend on `r10` if neither operand is `r10`. -/
theorem isaValue_set (hsrc : inst.src ≠ 10) (hdst : inst.dst ≠ 10) : isaValue inst (s.set 10 v).regs = isaValue inst s.regs := by
  simp only [isaValue, EbpfInst.aluDest, EbpfInst.aluSource, set_regs hsrc, set_regs hdst]

/-- Nor does the branch. -/
theorem isaTaken_set (h : BlindTo v inst s) : isaTaken inst (s.set 10 v).regs = isaTaken inst s.regs := by
  rcases h with hsame | ⟨hsrc, hdst⟩
  · rw [set_self hsame]
  · simp only [isaTaken, set_regs hsrc, set_regs hdst]

/-- Nor do the conditions. -/
theorem plainFits_set (h : BlindTo v inst s) : PlainFits undefinedAt inst (s.set 10 v) ↔ PlainFits undefinedAt inst s := by
  rcases h with hsame | ⟨hsrc, hdst⟩
  · rw [set_self hsame]
  · simp only [PlainFits, AtomicFits, DivisorFits, EbpfInst.atomicAddr, EbpfInst.aluDest, EbpfInst.aluSource,
      EbpfInst.signedDivisor, set_total, set_regs hsrc, set_regs hdst]

/-- Nor what the instruction does to the other registers and the memory. -/
theorem exec_set (hsrc : inst.src ≠ 10) (hdst : inst.dst ≠ 10) : inst.exec (s.set 10 v) = (inst.exec s).map (·.set 10 v) := by
  unfold EbpfInst.exec
  rw [set_regs hsrc, set_regs hdst, set_load, isaValue_set hsrc hdst]
  by_cases hstore : inst.opcode ∈ storeOpcodes
  · rw [if_pos hstore, if_pos hstore]
    exact set_store 10 _ _
  rw [if_neg hstore, if_neg hstore]
  by_cases hload : inst.opcode ∈ loadOpcodes
  · rw [if_pos hload, if_pos hload, Option.map_map]
    exact congrArg (Option.map · _) (funext fun bytes => set_comm hdst _)
  rw [if_neg hload, if_neg hload]
  split
  · exact congrArg some (set_comm hdst _)
  · rfl

/-- Nor what an atomic access does to the other registers. -/
theorem isaRegs_set (hsrc : inst.src ≠ 10) {w : Nat} (old : BitVec w) :
    isaRegs inst (s.set 10 v).regs old = Function.update (isaRegs inst s.regs old) 10 v := by
  have hzero : (0 : BitVec 4) ≠ 10 := by decide
  unfold isaRegs
  split
  · exact Function.update_comm hzero.symm v _ s.regs
  split
  · exact Function.update_comm hsrc.symm v _ s.regs
  · rfl

/-- Nor the access itself. -/
theorem isaAtomic_set (hsrc : inst.src ≠ 10) (hdst : inst.dst ≠ 10) :
    isaAtomic inst (s.set 10 v) = (isaAtomic inst s).map (·.set 10 v) := by
  have haddr : inst.atomicAddr (s.set 10 v).regs = inst.atomicAddr s.regs := by
    rw [EbpfInst.atomicAddr, EbpfInst.atomicAddr, set_regs hdst]
  have hupdate : ∀ old : BitVec inst.atomicWidth, isaUpdate inst (s.set 10 v).regs old = isaUpdate inst s.regs old := by
    intro old
    simp only [isaUpdate, set_regs hsrc, set_regs (show (0 : BitVec 4) ≠ 10 by decide)]
  simp only [isaAtomic, haddr, hupdate, set_load, set_store, isaRegs_set hsrc]
  cases s.load (inst.atomicAddr s.regs) (inst.atomicWidth / 8) with
  | none => rfl
  | some bytes =>
      simp only [Option.bind_eq_bind, Option.bind_some]
      cases s.store (inst.atomicAddr s.regs) _ with
      | none => rfl
      | some s' => rfl

/-- A plain instruction that keeps `r10` and is blind to it does the same but for `r10`. -/
theorem isaPlain_set (h : BlindTo v inst s) (hkeeps : inst.writes 10 = false) (hfits : PlainFits undefinedAt inst s) :
    isaPlain inst (s.set 10 v) = (isaPlain inst s).map (·.set 10 v) := by
  rcases h with hsame | ⟨hsrc, hdst⟩
  · rw [set_self hsame]
    cases hresult : isaPlain inst s with
    | none => rfl
    | some s' =>
        have hten : s'.regs 10 = v := (isaPlain_frame hfits hresult hkeeps).trans hsame
        rw [Option.map_some, set_self hten]
  · unfold isaPlain
    split
    · exact isaAtomic_set hsrc hdst
    · exact exec_set hsrc hdst

end FramePointer

/-! ## The step of the instruction set, by the code

`ebpfEffect` is a chain of cases on the opcode. One equation for each kind of code that `emitInst` makes takes the step
to its case, so that the simulation below never unfolds it. -/

section Effects

variable {ω : Type} {env : Env ω} {insts : Insts} {s : EbpfState ω}

/-- ALU, memory and atomic instructions. -/
theorem ebpfEffect_plain (hop : (insts.inst s.pc).opcode ∈ plainOpcodes) :
    ebpfEffect env insts s = (isaPlain (insts.inst s.pc) s.machine).map (·, s.world) :=
  if_pos hop

/-- The one instruction of two slots is not among them. -/
theorem not_plain_lddw : EBPF_OP_LDDW ∉ plainOpcodes := by decide +kernel

/-- `LDDW`, with both of its slots. -/
theorem ebpfEffect_lddw (hop : (insts.inst s.pc).opcode = EBPF_OP_LDDW) : ebpfEffect env insts s =
    some (s.machine.set (insts.inst s.pc).dst (env.rel.value (insts.inst s.pc) (insts.inst (s.pc + 1))), s.world) := by
  have hplain : (insts.inst s.pc).opcode ∉ plainOpcodes := hop ▸ not_plain_lddw
  simp only [ebpfEffect]
  rw [if_neg hplain, if_pos hop]

/-- A call is neither. -/
theorem call_not_straight (h : (insts.inst s.pc).isCall = true) :
    (insts.inst s.pc).opcode ∉ plainOpcodes ∧ (insts.inst s.pc).opcode ≠ EBPF_OP_LDDW := by
  have hcall := EbpfInst.isCall_iff.mp h
  exact ⟨fun hop => (plain_not_control (Or.inl hop)).2.2.2.2 hcall,
    fun hop => (plain_not_control (Or.inr hop)).2.2.2.2 hcall⟩

/-- A local call gives the callee a frame of its own. -/
theorem ebpfEffect_local (hlocal : (insts.inst s.pc).isLocalCall = true) : ebpfEffect env insts s =
    some (s.machine.set 10 (s.machine.regs 10 - BitVec.ofNat 64 EBPF_STACK_SIZE), s.world) := by
  obtain ⟨hplain, hlddw⟩ := call_not_straight (Bool.and_eq_true_iff.mp hlocal).1
  simp only [ebpfEffect]
  rw [if_neg hplain, if_neg hlddw, if_pos hlocal]

/-- Any other call is a helper's. -/
theorem ebpfEffect_call (hcall : (insts.inst s.pc).isCall = true) (hsrc : (insts.inst s.pc).src ≠ 0x1) :
    ebpfEffect env insts s = callHelper env (insts.inst s.pc).imm s.machine s.world := by
  obtain ⟨hplain, hlddw⟩ := call_not_straight hcall
  simp only [ebpfEffect]
  rw [if_neg hplain, if_neg hlddw, if_neg (src_not_local hsrc), if_pos hcall]

/-- A return from a local function gets the registers of the caller; in the main program nothing is left to do. -/
theorem ebpfEffect_exit (hop : (insts.inst s.pc).opcode = EBPF_OP_EXIT) : ebpfEffect env insts s =
    match s.frames with
    | [] => some (s.machine, s.world)
    | frame :: _ => some ({ s.machine with regs := restored s.machine.regs frame.regs }, s.world) := by
  have hplain : (insts.inst s.pc).opcode ∉ plainOpcodes := fun h => (plain_not_control (Or.inl h)).2.2.1 hop
  have hlddw : (insts.inst s.pc).opcode ≠ EBPF_OP_LDDW := fun h => (plain_not_control (Or.inr h)).2.2.1 hop
  have hlocal := exit_not_local hop
  have hcall : ¬ (insts.inst s.pc).isCall = true := fun h => (call_not_jump (EbpfInst.isCall_iff.mp h)).2.2.1 hop
  cases hframes : s.frames with
  | nil =>
      simp only [ebpfEffect, hframes]
      rw [if_neg hplain, if_neg hlddw, if_neg hlocal, if_neg hcall, if_pos hop]
  | cons frame frames =>
      simp only [ebpfEffect, hframes]
      rw [if_neg hplain, if_neg hlddw, if_neg hlocal, if_neg hcall, if_pos hop]

/-- A jump changes neither registers nor memory. -/
theorem ebpfEffect_jump (hop : (insts.inst s.pc).opcode ∈ EBPF_OP_JA :: EBPF_OP_JA_IMM :: condJmpOpcodes) :
    ebpfEffect env insts s = some (s.machine, s.world) := by
  obtain ⟨hexit, hlocal⟩ := jump_not_call _ hop
  have hnot : ∀ op ∈ EBPF_OP_JA :: EBPF_OP_JA_IMM :: condJmpOpcodes,
      ¬ (op = EBPF_OP_CALL ∨ op = EBPF_OP_CALL ||| 0x8) := by decide +kernel
  have hcall : ¬ (insts.inst s.pc).isCall = true := fun h => hnot _ hop (EbpfInst.isCall_iff.mp h)
  have hstraight : ¬ ((insts.inst s.pc).opcode ∈ plainOpcodes ∨ (insts.inst s.pc).opcode = EBPF_OP_LDDW) := by
    intro h
    obtain ⟨hja, hjaImm, -, hcond, -⟩ := plain_not_control h
    simp only [List.mem_cons] at hop
    rcases hop with hop | hop | hop
    exacts [hja hop, hjaImm hop, hcond hop]
  obtain ⟨hplain, hlddw⟩ := not_or.mp hstraight
  simp only [List.mem_cons] at hop
  simp only [ebpfEffect]
  rw [if_neg hplain, if_neg hlddw, if_neg hlocal, if_neg hcall, if_neg hexit, if_pos hop]

/-- Only a local call and a return change the open calls. -/
theorem framesAfter_other (hlocal : ¬ (insts.inst s.pc).isLocalCall = true)
    (hexit : (insts.inst s.pc).opcode ≠ EBPF_OP_EXIT) : framesAfter insts s = s.frames := by
  rw [framesAfter, if_neg hlocal, if_neg hexit]

end Effects

/-! ## The simulation

The module takes 64 bytes off `r10` for each call that is open, and the instruction set 512. So within a
callee the two runs disagree about `r10`, and about nothing else: the relation `Alike` says by how much, from the number
of the open calls, and a step of a callee must not look at the register. -/

/-- `r10` by the instruction set, with so many calls open. -/
def frameEnd (stackEnd : BitVec 64) (depth : Nat) : BitVec 64 := stackEnd - BitVec.ofNat 64 (EBPF_STACK_SIZE * depth)

/-- The open calls of a module, as the instruction set has them. -/
def framesOf (stackEnd : BitVec 64) : List OpenCall → List Frame
  | [] => []
  | call :: calls =>
    ⟨call.pc + 1, Function.update call.before.regs 10 (frameEnd stackEnd calls.length)⟩ :: framesOf stackEnd calls

/-- The run of the program and that of the module are at the same place, with the same registers but for a callee's
`r10`, and with the same memory, world and open calls. -/
structure Alike {ω : Type} (insts : Insts) (m : Module) (stackEnd : BitVec 64) (s : EbpfState ω)
    (t : JitWorld ω) : Prop where
  here    : At insts m s.pc t.jit
  machine : s.machine = t.machine.set 10 (frameEnd stackEnd s.frames.length)
  world   : s.world = t.world
  calls   : ∃ calls : List OpenCall, s.frames = framesOf stackEnd calls ∧
    Stacked t.jit.callStack calls t.jit.callItemCnt ∧ FramePointer stackEnd calls (t.jit.regs 10)
  starts  : ∀ frame ∈ s.frames, frame.ret ∈ positions insts ∧ isBlockStart insts frame.ret = true

/-- As many frames as open calls. -/
@[simp] theorem length_framesOf (stackEnd : BitVec 64) (calls : List OpenCall) :
    (framesOf stackEnd calls).length = calls.length := by
  induction calls with
  | nil => rfl
  | cons call calls ih => rw [framesOf, List.length_cons, List.length_cons, ih]

/-- The main program has the frame of the start. -/
theorem frameEnd_zero (stackEnd : BitVec 64) : frameEnd stackEnd 0 = stackEnd := BitVec.sub_zero stackEnd

/-- A call that is opened goes down by one frame. -/
theorem frameEnd_succ (stackEnd : BitVec 64) (depth : Nat) :
    frameEnd stackEnd (depth + 1) = frameEnd stackEnd depth - BitVec.ofNat 64 EBPF_STACK_SIZE := by
  rw [frameEnd, frameEnd, Nat.mul_succ, BitVec.ofNat_add]
  bv_omega

/-- With no call open `r10` is the same. -/
theorem Alike.blind {ω : Type} {env : Env ω} {insts : Insts} {m : Module} {stackEnd : BitVec 64} {s : EbpfState ω}
    {t : JitWorld ω} (halike : Alike insts m stackEnd s t) (hfits : StepFits env insts s) :
    BlindTo (frameEnd stackEnd s.frames.length) (insts.inst s.pc) t.machine := by
  obtain ⟨calls, hframes, -, hpointer⟩ := halike.calls
  cases calls with
  | nil =>
      refine .inl ?_
      rw [hframes, framesOf, List.length_nil, frameEnd_zero]
      exact hpointer
  | cons call calls => exact .inr (hfits.frame (by rw [hframes]; exact List.cons_ne_nil _ _))

/-- In a callee it is not, unless more calls are open than the call stack has room for. The two frame pointers differ by
448 bytes for each open call. -/
theorem Alike.frame_ne {ω : Type} {insts : Insts} {m : Module} {stackEnd : BitVec 64} {s : EbpfState ω} {t : JitWorld ω}
    (halike : Alike insts m stackEnd s t) (hopen : s.frames ≠ []) (hroom : s.frames.length ≤ CALL_STACK_SIZE) :
    s.machine.regs 10 ≠ t.machine.regs 10 := by
  obtain ⟨calls, hframes, -, hpointer⟩ := halike.calls
  have hten : t.machine.regs 10 = _ := framePointer_eq hpointer
  have hlength : s.frames.length = calls.length := by rw [hframes, length_framesOf]
  have hpos : 0 < s.frames.length := List.length_pos_iff.mpr hopen
  -- by the instruction set `r10` went down by 512 bytes for each call
  have hisa : s.machine.regs 10 = frameEnd stackEnd s.frames.length := by
    rw [halike.machine]
    exact Function.update_self (10 : BitVec 4) _ t.machine.regs
  rw [hisa, hten, frameEnd, hlength]
  rw [hlength] at hroom hpos
  generalize calls.length = depth at hroom hpos ⊢
  simp only [EBPF_STACK_SIZE, STACK_SIZE, CALL_STACK_SIZE] at hroom ⊢
  -- and in the module by 64; with so few calls the two cannot meet again modulo `2 ^ 64`
  intro heq
  bv_omega

/-- The piece of code at a position, and the state that it runs in. -/
structure Piece (insts : Insts) (m : Module) (pc : Nat) (s s₁ : JitState) (e : Emitted) : Prop where
  pc_eq   : e.pc = pc
  inst_eq : e.inst = insts.inst pc
  mem     : ∃ label, (label, e) ∈ m.code
  code    : CodeOf insts pc e.code
  settled : m.settle s = { s₁ with rest := e :: s₁.rest }
  same    : s₁ = { s with block := s₁.block, rest := s₁.rest }
  goesOn  : ∀ s', s'.block = s₁.block → s'.rest = s₁.rest → At insts m (pc + (insts.inst pc).width) s'

/-- At an instruction there is a piece of code to run. -/
theorem At.piece {insts : Insts} {m : Module} (h : Compiled insts m) {pc : Nat} {s : JitState} (hat : At insts m pc s)
    (hpc : pc ∈ positions insts) : ∃ s₁ e, Piece insts m pc s s₁ e := by
  cases hat with
  | outside hout => exact absurd (lt_of_mem_positions hpc) (Nat.not_lt.mpr hout)
  | @inside currBB label e pre post hcut hreached hsettle =>
      obtain ⟨-, -, he, hinst, hcode, -⟩ := hreached.laid
      refine ⟨{ s with block := label, rest := codeIn label post }, e,
        { pc_eq := he, inst_eq := hinst, mem := ⟨label, by simp [hcut]⟩, code := hcode, settled := hsettle, same := rfl,
          goesOn := fun s' hblock hrest => at_fall h (by simp [hcut]) hreached.next hblock hrest }⟩

/-- Past the last instruction there is none. -/
theorem At.rest_outside {insts : Insts} {m : Module} (h : Compiled insts m) {pc : Nat} {s : JitState}
    (hat : At insts m pc s) (hpc : pc ∉ positions insts) : (m.settle s).rest = [] := by
  cases hat with
  | outside _ hsettle => exact hsettle
  | @inside currBB label e pre post hcut hreached =>
      obtain ⟨-, -, he, -⟩ := hreached.laid
      exact absurd (he ▸ (h.codeOf (c := (label, e)) (by simp [hcut])).1) hpc

section Simulation

variable {ω : Type} {env : Env ω} {insts : Insts} {m : Module} {stackEnd : BitVec 64} {s : EbpfState ω} {t : JitWorld ω}
  {s₁ : JitState} {e : Emitted}

/-- Settling at a label keeps the registers. -/
theorem Piece.regs_eq {pc : Nat} {s : JitState} (hpiece : Piece insts m pc s s₁ e) : s₁.regs = s.regs := by
  rw [hpiece.same]

/-- A step of the module, from its piece. -/
theorem Piece.jitRunStep (hpiece : Piece insts m s.pc t.jit s₁ e) (halike : Alike insts m stackEnd s t) :
    jitRunStep env m t =
      match e.effect env t.machine s.world with
      | none => .stuck
      | some (machine, world, taken) =>
        match execute m ⟨taken, machine.regs⟩ s₁ e with
        | .next jit => .next ⟨jit, machine.mem, world⟩
        | .leave => .exit ⟨machine.regs 0, machine.mem, world⟩
        | .undefined => .stuck := by
  rw [Vm.jitRunStep, hpiece.settled, halike.world, JitWorld.machine, ← hpiece.regs_eq]

/-- The results of the two steps. -/
abbrev StepAlike (insts : Insts) (m : Module) (stackEnd : BitVec 64) :
    StepResult (EbpfState ω) (Result ω) → StepResult (JitWorld ω) (Result ω) → Prop :=
  StepResult.Rel (Alike insts m stackEnd) Eq

variable {machine : Machine} {world : ω} {taken : Bool}

/-- Where the code has no meaning the instruction has none. -/
theorem alike_stuck (hpiece : Piece insts m s.pc t.jit s₁ e) (halike : Alike insts m stackEnd s t)
    (heffect : e.effect env t.machine s.world = none) (hisa : ebpfEffect env insts s = none) :
    StepAlike insts m stackEnd (ebpfStep env insts s) (jitRunStep env m t) := by
  rw [hpiece.jitRunStep halike, heffect, ebpfStep, hisa]
  split
  · exact .stuck
  · exact .stuck

/-- Both runs end with the same `r0`. -/
theorem alike_leave (hpiece : Piece insts m s.pc t.jit s₁ e) (halike : Alike insts m stackEnd s t)
    (hpc : s.pc ∈ positions insts) {v : BitVec 64}
    (heffect : e.effect env t.machine s.world = some (machine, world, taken))
    (hisa : ebpfEffect env insts s = some (machine.set 10 v, world)) (hexec : execute m ⟨taken, machine.regs⟩ s₁ e = .leave)
    (hflow : flowStep insts (isaTaken (insts.inst s.pc) s.machine.regs) s.pc (s.frames.map Frame.ret) = .leave) :
    StepAlike insts m stackEnd (ebpfStep env insts s) (jitRunStep env m t) := by
  rw [hpiece.jitRunStep halike, heffect, ebpfStep, if_pos hpc, hisa]
  simp only [hexec, hflow]
  exact .exit rfl

/-- Both runs go on, and are alike after the step. -/
theorem alike_next (hpiece : Piece insts m s.pc t.jit s₁ e) (halike : Alike insts m stackEnd s t)
    (hpc : s.pc ∈ positions insts) {machine' : Machine} {jit : JitState} {pc : Nat} {returns : List Nat}
    (heffect : e.effect env t.machine s.world = some (machine, world, taken))
    (hisa : ebpfEffect env insts s = some (machine', world)) (hexec : execute m ⟨taken, machine.regs⟩ s₁ e = .next jit)
    (hflow : flowStep insts (isaTaken (insts.inst s.pc) s.machine.regs) s.pc (s.frames.map Frame.ret) = .next pc returns)
    (hafter : Alike insts m stackEnd ⟨pc, framesAfter insts s, machine', world⟩ ⟨jit, machine.mem, world⟩) :
    StepAlike insts m stackEnd (ebpfStep env insts s) (jitRunStep env m t) := by
  rw [hpiece.jitRunStep halike, heffect, ebpfStep, if_pos hpc, hisa]
  simp only [hexec, hflow]
  exact .next hafter

/-- After code that keeps the open calls and `r10`. -/
theorem alike_after (hpiece : Piece insts m s.pc t.jit s₁ e) (halike : Alike insts m stackEnd s t) {jit : JitState}
    {pc : Nat} (hat : At insts m pc jit) (hstack : jit.callStack = s₁.callStack)
    (hcount : jit.callItemCnt = s₁.callItemCnt) (hlocal : ¬ (insts.inst s.pc).isLocalCall = true)
    (hexit : (insts.inst s.pc).opcode ≠ EBPF_OP_EXIT)
    (hregs : machine.regs = jit.regs) (hr10 : machine.regs 10 = t.machine.regs 10) :
    Alike insts m stackEnd ⟨pc, framesAfter insts s, machine.set 10 (frameEnd stackEnd s.frames.length), world⟩
      ⟨jit, machine.mem, world⟩ where
  here := hat
  -- `r10` aside, what the code leaves in the registers is what the instruction does
  machine := by
    rw [framesAfter_other hlocal hexit]
    exact congrArg (fun regs => Machine.set ⟨regs, machine.mem⟩ 10 _) hregs
  world := rfl
  calls := by
    obtain ⟨calls, hframes, hstacked, hpointer⟩ := halike.calls
    have hsame := hpiece.same
    refine ⟨calls, (framesAfter_other hlocal hexit).trans hframes, ?_, ?_⟩
    · rw [hstack, hcount, hsame]
      exact hstacked
    · change FramePointer stackEnd calls (jit.regs 10)
      rw [← hregs, hr10]
      exact hpointer
  starts := by
    rw [framesAfter_other hlocal hexit]
    exact halike.starts

/-- What is not control flow is no local call and no return. -/
theorem straight_not_local (hop : (insts.inst s.pc).opcode ∈ plainOpcodes ∨ (insts.inst s.pc).opcode = EBPF_OP_LDDW) :
    ¬ (insts.inst s.pc).isLocalCall = true ∧ (insts.inst s.pc).opcode ≠ EBPF_OP_EXIT := by
  obtain ⟨-, -, hexit, -, hcall⟩ := plain_not_control hop
  exact ⟨fun h => hcall (EbpfInst.isCall_iff.mp (Bool.and_eq_true_iff.mp h).1), hexit⟩

variable {args : JitArgs}

/-- A plain instruction. -/
theorem alike_plain (hm : generateModule args = .ok m) (hkeeps : KeepsFramePointer args.insts)
    (hpiece : Piece args.insts m s.pc t.jit s₁ e) (halike : Alike args.insts m stackEnd s t)
    (hpc : s.pc ∈ positions args.insts)
    (hcode : e.code = .plain) (hop : (args.insts.inst s.pc).opcode ∈ plainOpcodes) (hfits : StepFits env args.insts s) :
    StepAlike args.insts m stackEnd (ebpfStep env args.insts s) (jitRunStep env m t) := by
  obtain ⟨label, hmem⟩ := hpiece.mem
  have hemit := code_emitInst hm hmem
  rw [hpiece.pc_eq] at hemit
  change emitInst _ _ _ = .ok e.code at hemit
  rw [hcode] at hemit
  have hblind := halike.blind hfits
  have hkeep := hkeeps s.pc hpc (plain_not_jmp (Or.inl hop))
  have hplain := hfits.plain hop
  rw [halike.machine, plainFits_set hblind] at hplain
  -- the code computes what the instruction says, from the module's registers
  have hsame := plain_exec hemit hop hplain
  have hisa : ebpfEffect env args.insts s = _ := ebpfEffect_plain hop
  -- and the instruction does not see that `r10` differs
  rw [halike.machine, isaPlain_set hblind hkeep hplain] at hisa
  have heffect : e.effect env t.machine s.world =
      (isaPlain (args.insts.inst s.pc) t.machine).map (·, s.world, false) := by
    simp only [Emitted.effect, hcode]
    rw [hpiece.pc_eq, hpiece.inst_eq, hsame]
  cases hresult : isaPlain (args.insts.inst s.pc) t.machine with
  | none =>
      rw [hresult] at hisa heffect
      exact alike_stuck hpiece halike heffect hisa
  | some machine =>
      rw [hresult] at hisa heffect
      have hframe := fun r => isaPlain_frame (r := r) hplain hresult
      -- the registers that the code does not store to are as the instruction leaves them
      have hregs : (fun r => if e.inst.writes r then machine.regs r else s₁.regs r) = machine.regs := by
        funext r
        split
        · rfl
        · next hwrites =>
            rw [hpiece.inst_eq] at hwrites
            rw [hframe r (Bool.eq_false_iff.mpr hwrites), hpiece.regs_eq]
            rfl
      obtain ⟨hlocal, hexit⟩ := straight_not_local (Or.inl hop)
      have hexec : execute m ⟨false, machine.regs⟩ s₁ e = .next { s₁ with regs := machine.regs } := by
        simp only [execute, hcode, hregs]
      exact alike_next hpiece halike hpc heffect hisa hexec (flowStep_plain (Or.inl hop))
        (alike_after hpiece halike (hpiece.goesOn _ rfl rfl) rfl rfl hlocal hexit rfl
          (hframe 10 hkeep))

/-- What `emitInst` makes of an `LDDW` has the value of `lddwValue`, and both slots are there. -/
theorem emitInst_lddw {pc : Nat} {value : LddwValue} (h : emitInst args (isBlockStart args.insts) pc = .ok (.lddw value))
    (hop : (args.insts.inst pc).opcode = EBPF_OP_LDDW) :
    lddwValue args pc (args.insts.inst pc) (args.insts.inst (pc + 1)) = .ok value := by
  unfold emitInst at h
  generalize args.insts.inst pc = inst at h hop ⊢
  dsimp only at h
  have hregs : ¬ (inst.dst > 10 ∨ inst.src > 10) := by
    intro hregs
    rw [if_pos hregs] at h
    cases h
  have hlddw : emitLddw args pc inst = .ok (.lddw value) := by
    rw [if_neg hregs, hop] at h
    exact h
  unfold emitLddw at hlddw
  by_cases hlast : pc + 1 ≥ args.insts.length
  · rw [if_pos hlast] at hlddw
    cases hlddw
  rw [if_neg hlast] at hlddw
  dsimp only at hlddw
  split at hlddw
  · cases hlddw
  · obtain ⟨value', hvalue, hlddw⟩ := bind_eq_ok hlddw
    cases hlddw
    exact hvalue

/-- An `LDDW`. -/
theorem alike_lddw (hm : generateModule args = .ok m) (hlinked : Linked args env.rel) (hsuits : Suits args.insts)
    (hpiece : Piece args.insts m s.pc t.jit s₁ e) (halike : Alike args.insts m stackEnd s t)
    (hpc : s.pc ∈ positions args.insts)
    {value : LddwValue} (hcode : e.code = .lddw value) (hop : (args.insts.inst s.pc).opcode = EBPF_OP_LDDW) :
    StepAlike args.insts m stackEnd (ebpfStep env args.insts s) (jitRunStep env m t) := by
  obtain ⟨label, hmem⟩ := hpiece.mem
  have hemit := code_emitInst hm hmem
  rw [hpiece.pc_eq] at hemit
  change emitInst _ _ _ = .ok e.code at hemit
  rw [hcode] at hemit
  have hvalue := of_lddwValue hlinked (hsuits.kinds s.pc hpc hop) (emitInst_lddw hemit hop)
  generalize hv : env.rel.value (args.insts.inst s.pc) (args.insts.inst (s.pc + 1)) = v at hvalue
  have hwrites := hsuits.keeps s.pc hpc (plain_not_jmp (Or.inr hop))
  rw [writes_lddw hop, beq_eq_false_iff_ne] at hwrites
  have hisa : ebpfEffect env args.insts s = _ := ebpfEffect_lddw hop
  rw [hv, halike.machine, set_comm hwrites.symm] at hisa
  -- a constant is known when the code is made, an address of a map's values when it runs
  have hboth : e.effect env t.machine s.world = some (t.machine.set (args.insts.inst s.pc).dst v, s.world, false) ∧
      execute m ⟨false, (t.machine.set (args.insts.inst s.pc).dst v).regs⟩ s₁ e =
        .next { s₁ with regs := Function.update s₁.regs (args.insts.inst s.pc).dst v } := by
    cases value with
    | const value =>
        cases hvalue
        simp only [Emitted.effect, execute, hcode, hpiece.inst_eq]
        exact ⟨trivial, trivial⟩
    | mapVal mapPtr offset =>
        cases hvalue
        simp only [Emitted.effect, execute, hcode, hpiece.inst_eq, Machine.set, Function.update_self]
        exact ⟨trivial, trivial⟩
    | unset => cases hvalue
  obtain ⟨heffect, hexec⟩ := hboth
  obtain ⟨hlocal, hexit⟩ := straight_not_local (Or.inr hop)
  refine alike_next hpiece halike hpc heffect hisa hexec (flowStep_plain (Or.inr hop))
    (alike_after hpiece halike (hpiece.goesOn _ rfl rfl) rfl rfl hlocal hexit ?_ (Function.update_of_ne hwrites _ _))
  rw [hpiece.regs_eq]
  rfl

/-- A helper does not get `r10`. -/
theorem callHelper_set (index : BitVec 32) (machine : Machine) (v : BitVec 64) (world : ω) :
    callHelper env index (machine.set 10 v) world =
      (callHelper env index machine world).map fun out => (out.1.set 10 v, out.2) := by
  have hargs : helperArgs (machine.set 10 v).regs = helperArgs machine.regs := rfl
  unfold callHelper
  rw [hargs, Option.map_map]
  refine congrArg (Option.map · _) (funext fun out => ?_)
  simp only [Function.comp_apply, Machine.set, Function.update_comm (show (0 : BitVec 4) ≠ 10 by decide)]

/-- A call of a helper that returns. -/
theorem alike_helper (hpiece : Piece insts m s.pc t.jit s₁ e) (halike : Alike insts m stackEnd s t)
    (hpc : s.pc ∈ positions insts) (hcode : e.code = .helper (insts.inst s.pc).imm)
    (hcall : (insts.inst s.pc).isCall = true) (hsrc : (insts.inst s.pc).src ≠ 0x1)
    (himm : (insts.inst s.pc).imm ≠ BPF_TAIL_CALL) : StepAlike insts m stackEnd (ebpfStep env insts s) (jitRunStep env m t) := by
  have hisa : ebpfEffect env insts s = _ := ebpfEffect_call hcall hsrc
  rw [halike.machine, callHelper_set] at hisa
  have heffect : e.effect env t.machine s.world =
      (callHelper env (insts.inst s.pc).imm t.machine s.world).map fun out => (out.1, out.2, false) := by
    simp only [Emitted.effect, hcode]
  unfold callHelper at hisa heffect
  cases hout : env.helper (insts.inst s.pc).imm (helperArgs t.machine.regs) t.machine.mem s.world with
  | none =>
      rw [hout] at hisa heffect
      exact alike_stuck hpiece halike heffect hisa
  | some out =>
      rw [hout] at hisa heffect
      have hten : Function.update t.machine.regs 0 out.1 10 = t.machine.regs 10 :=
        Function.update_of_ne (show (10 : BitVec 4) ≠ 0 by decide) _ _
      have hexec : execute m ⟨false, Function.update t.machine.regs 0 out.1⟩ s₁ e =
          .next { s₁ with regs := Function.update s₁.regs 0 out.1 } := by
        simp only [execute, hcode, Function.update_self]
      refine alike_next hpiece halike hpc heffect hisa hexec (flowStep_helper hcall hsrc himm)
        (alike_after hpiece halike (hpiece.goesOn _ rfl rfl) rfl rfl (src_not_local hsrc)
          (call_not_jump (EbpfInst.isCall_iff.mp hcall)).2.2.1 ?_ hten)
      rw [hpiece.regs_eq]
      rfl

/-- `bpf_tail_call` -/
theorem alike_tailCall (hpiece : Piece insts m s.pc t.jit s₁ e) (halike : Alike insts m stackEnd s t)
    (hpc : s.pc ∈ positions insts) (hcode : e.code = .tailCall (insts.inst s.pc).imm)
    (hcall : (insts.inst s.pc).isCall = true) (hsrc : (insts.inst s.pc).src ≠ 0x1)
    (himm : (insts.inst s.pc).imm = BPF_TAIL_CALL) : StepAlike insts m stackEnd (ebpfStep env insts s) (jitRunStep env m t) := by
  have hisa : ebpfEffect env insts s = _ := ebpfEffect_call hcall hsrc
  rw [halike.machine, callHelper_set] at hisa
  have heffect : e.effect env t.machine s.world =
      (callHelper env (insts.inst s.pc).imm t.machine s.world).map fun out => (out.1, out.2, false) := by
    simp only [Emitted.effect, hcode]
  cases hout : callHelper env (insts.inst s.pc).imm t.machine s.world with
  | none =>
      rw [hout] at hisa heffect
      exact alike_stuck hpiece halike heffect hisa
  | some out =>
      rw [hout] at hisa heffect
      refine alike_leave hpiece halike hpc heffect hisa ?_ (flowStep_tailCall hcall hsrc himm)
      simp only [execute, hcode]

/-- What only jumps. -/
theorem alike_jump (h : Compiled insts m) (hpiece : Piece insts m s.pc t.jit s₁ e) (halike : Alike insts m stackEnd s t)
    (hpc : s.pc ∈ positions insts) (hop : (insts.inst s.pc).opcode ∈ EBPF_OP_JA :: EBPF_OP_JA_IMM :: condJmpOpcodes)
    (heffect : e.effect env t.machine s.world = some (t.machine, s.world, taken)) {dst : Nat}
    (hexec : execute m ⟨taken, t.machine.regs⟩ s₁ e = .next (m.goto s₁ dst)) (hdst : dst ∈ positions insts)
    (hstart : isBlockStart insts dst = true) {returns : List Nat}
    (hflow : flowStep insts (isaTaken (insts.inst s.pc) s.machine.regs) s.pc (s.frames.map Frame.ret) = .next dst returns) :
    StepAlike insts m stackEnd (ebpfStep env insts s) (jitRunStep env m t) := by
  obtain ⟨hexit, hlocal⟩ := jump_not_call _ hop
  have hisa : ebpfEffect env insts s = _ := ebpfEffect_jump hop
  rw [halike.machine] at hisa
  refine alike_next hpiece halike hpc heffect hisa hexec hflow
    (alike_after hpiece halike (at_goto h hdst hstart s₁) rfl rfl hlocal hexit ?_ rfl)
  change t.jit.regs = s₁.regs
  rw [hpiece.regs_eq]

/-- A conditional jump. -/
theorem alike_condJmp (h : Compiled insts m) (hgood : ¬ HasBadTarget insts) (hlen : insts.length ≤ 0xffff)
    (hpiece : Piece insts m s.pc t.jit s₁ e) (halike : Alike insts m stackEnd s t) (hpc : s.pc ∈ positions insts)
    (hcode : e.code = .condBr (dstBlkId ((insts.inst s.pc).offsetTarget s.pc)) (dstBlkId (s.pc + 1)))
    (hop : (insts.inst s.pc).opcode ∈ condJmpOpcodes) (hdst : HasBlock insts ((insts.inst s.pc).offsetTarget s.pc))
    (hnext : HasBlock insts (s.pc + 1)) (hfits : StepFits env insts s) :
    StepAlike insts m stackEnd (ebpfStep env insts s) (jitRunStep env m t) := by
  obtain ⟨br, hbr, htaken⟩ : ∃ br, emitTest (insts.inst s.pc) = some br ∧
      br.taken t.machine.regs = some (isaTaken (insts.inst s.pc) t.machine.regs) := taken_emitTest hop
  have heffect : e.effect env t.machine s.world =
      some (t.machine, s.world, isaTaken (insts.inst s.pc) t.machine.regs) := by
    simp only [Emitted.effect, hcode]
    rw [hpiece.inst_eq, hbr, Option.bind_some, htaken, Option.map_some]
  rw [← isaTaken_set (halike.blind hfits), ← halike.machine] at heffect
  have hflow : flowStep insts (isaTaken (insts.inst s.pc) s.machine.regs) s.pc (s.frames.map Frame.ret) = _ :=
    flowStep_condJmp hop
  have hmem : (insts.inst s.pc).opcode ∈ EBPF_OP_JA :: EBPF_OP_JA_IMM :: condJmpOpcodes :=
    List.mem_cons_of_mem _ (List.mem_cons_of_mem _ hop)
  -- taken, to the block of the target; else to the block of the next instruction
  cases hif : isaTaken (insts.inst s.pc) s.machine.regs with
  | true =>
      rw [hif] at heffect
      rw [hif, if_pos rfl] at hflow
      obtain ⟨hpos, hstart, hid⟩ := target_found hgood hlen hpc (target_offset (Or.inr hop)) hdst
      refine alike_jump h hpiece halike hpc hmem heffect ?_ hpos hstart (by rw [hif]; exact hflow)
      simp only [execute, hcode, if_pos, hid]
  | false =>
      rw [hif] at heffect
      rw [hif, if_neg Bool.false_ne_true] at hflow
      have hid := dstBlkId_succ hlen (lt_of_mem_positions hpc)
      have hne : (insts.inst s.pc).opcode ≠ EBPF_OP_LDDW := fun hlddw => by
        rw [hlddw] at hop
        exact absurd hop (by decide)
      rw [HasBlock, hid] at hnext
      refine alike_jump h hpiece halike hpc hmem heffect ?_ (succ_found hpc hne hnext) hnext (by rw [hif]; exact hflow)
      simp only [execute, hcode, Bool.false_eq_true, if_false, hid]

/-- A local call, where the call stack has room. -/
theorem alike_localCall (h : Compiled insts m) (hgood : ¬ HasBadTarget insts) (hlen : insts.length ≤ 0xffff)
    (hpiece : Piece insts m s.pc t.jit s₁ e) (halike : Alike insts m stackEnd s t) (hpc : s.pc ∈ positions insts)
    (hcode : e.code = .localCall (dstBlkId ((insts.inst s.pc).immTarget s.pc)) (s.pc + 1))
    (hlocal : (insts.inst s.pc).isLocalCall = true) (hret : HasReturnBlock insts s.pc)
    (hdst : HasBlock insts ((insts.inst s.pc).immTarget s.pc)) (hroom : s.frames.length < CALL_STACK_SIZE) :
    StepAlike insts m stackEnd (ebpfStep env insts s) (jitRunStep env m t) := by
  obtain ⟨hpos, hstart, hid⟩ := target_found hgood hlen hpc (if_pos (Or.inr hlocal)) hdst
  obtain ⟨calls, hframes, hstacked, hpointer⟩ := halike.calls
  have hcs : s₁.callStack = t.jit.callStack ∧ s₁.callItemCnt = t.jit.callItemCnt ∧ s₁.regs = t.machine.regs := by
    rw [hpiece.same]
    exact ⟨rfl, rfl, rfl⟩
  rw [← hcs.1, ← hcs.2.1] at hstacked
  have hcount := hstacked.count_eq
  have hlength : s.frames.length = calls.length := by rw [hframes, length_framesOf]
  have heffect : e.effect env t.machine s.world = some (t.machine, s.world, false) := by
    simp only [Emitted.effect, hcode]
  -- the guard of the call stack is not hit, as there is room
  have hexec : execute m ⟨false, t.machine.regs⟩ s₁ e =
      .next (m.goto (pushCall s₁ (s.pc + 1)) (jumpTo insts ((insts.inst s.pc).immTarget s.pc))) := by
    simp only [execute, hcode, hid]
    exact if_neg (by omega)
  have hafter : framesAfter insts s = ⟨s.pc + 1, s.machine.regs⟩ :: s.frames := if_pos hlocal
  refine alike_next hpiece halike hpc heffect (ebpfEffect_local hlocal) hexec (flowStep_localCall hlocal)
    { here := at_goto h hpos hstart _, machine := ?_, world := rfl,
      calls := ⟨⟨s.pc, s₁⟩ :: calls, ?_, ?_, ?_, ?_⟩, starts := ?_ }
  · -- the two callees differ in `r10` only
    rw [hafter, List.length_cons, frameEnd_succ, halike.machine]
    simp only [JitWorld.machine, Machine.set, Module.goto, pushCall, Function.update_self, Function.update_idem, hcs.2.2]
  · change framesAfter insts s = _
    rw [hafter, framesOf, ← hframes, hcs.2.2, halike.machine, hlength]
    rfl
  · exact pushCall_stacked hstacked s.pc
  · exact Function.update_self (10 : BitVec 4) _ s₁.regs
  · change FramePointer stackEnd calls (s₁.regs 10)
    rw [hcs.2.2]
    exact hpointer
  · intro frame hframe
    change frame ∈ framesAfter insts s at hframe
    rw [hafter] at hframe
    rcases List.mem_cons.mp hframe with rfl | hframe
    · exact ret_found hpc hret
    · exact halike.starts frame hframe

/-- A return puts `r6` to `r10` back. -/
theorem popCall_restored {o : Outcome} {call : OpenCall} {calls : List OpenCall} {s : JitState}
    (hstacked : Stacked s.callStack (call :: calls) s.callItemCnt)
    (hpointer : FramePointer stackEnd (call :: calls) (s.regs 10)) :
    (popCall o s).regs = restored s.regs call.before.regs := by
  obtain ⟨-, -, hsaved, -⟩ := popCall_stacked o hstacked
  have hr10 : (popCall o s).regs 10 = call.before.regs 10 := by
    change s.regs 10 + BitVec.ofNat 64 STACK_SIZE = _
    rw [hpointer.1, BitVec.sub_add_cancel]
  have hother : ∀ r : BitVec 4, r ∉ [(6 : BitVec 4), 7, 8, 9, 10] → ¬ (6 ≤ r ∧ r ≤ 10) := by decide
  funext r
  unfold restored
  by_cases hr : r ∈ [(6 : BitVec 4), 7, 8, 9, 10]
  · have hrange : ∀ r ∈ [(6 : BitVec 4), 7, 8, 9, 10], 6 ≤ r ∧ r ≤ 10 := by decide
    rw [if_pos (hrange r hr)]
    by_cases hten : r = 10
    · rw [hten, hr10]
    · refine hsaved r ?_
      simp only [List.mem_cons, List.not_mem_nil, or_false] at hr ⊢
      tauto
  · rw [if_neg (hother r hr)]
    simp only [List.mem_cons, List.not_mem_nil, or_false, not_or] at hr
    simp only [popCall]
    rw [if_neg hr.1, if_neg hr.2.1, if_neg hr.2.2.1, if_neg hr.2.2.2.1, if_neg hr.2.2.2.2]

/-- What a return restores of `r10` is the caller's, whatever the callee had. -/
theorem restored_update (regs saved : AluRegs) (v w : BitVec 64) :
    restored (Function.update regs 10 v) (Function.update saved 10 w) = Function.update (restored regs saved) 10 w := by
  funext r
  unfold restored
  by_cases hten : r = 10
  · subst hten
    rw [if_pos (by decide), Function.update_self, Function.update_self]
  · rw [Function.update_of_ne hten, Function.update_of_ne hten, Function.update_of_ne hten]

/-- `EXIT` -/
theorem alike_exit (h : Compiled insts m) (hpiece : Piece insts m s.pc t.jit s₁ e) (halike : Alike insts m stackEnd s t)
    (hpc : s.pc ∈ positions insts) (hcode : e.code = .exitOrReturn) (hop : (insts.inst s.pc).opcode = EBPF_OP_EXIT) :
    StepAlike insts m stackEnd (ebpfStep env insts s) (jitRunStep env m t) := by
  obtain ⟨calls, hframes, hstacked, hpointer⟩ := halike.calls
  have hcs : s₁.callStack = t.jit.callStack ∧ s₁.callItemCnt = t.jit.callItemCnt ∧ s₁.regs = t.machine.regs := by
    rw [hpiece.same]
    exact ⟨rfl, rfl, rfl⟩
  have hr10 : s₁.regs 10 = t.jit.regs 10 := by rw [hpiece.regs_eq]
  rw [← hcs.1, ← hcs.2.1] at hstacked
  rw [← hr10] at hpointer
  have heffect : e.effect env t.machine s.world = some (t.machine, s.world, false) := by
    simp only [Emitted.effect, hcode]
  have hisa : ebpfEffect env insts s = _ := ebpfEffect_exit hop
  have hflow : flowStep insts (isaTaken (insts.inst s.pc) s.machine.regs) s.pc (s.frames.map Frame.ret) = _ :=
    flowStep_exit hop
  -- with no open call the program leaves, and with one it returns
  cases calls with
  | nil =>
      rw [framesOf] at hframes
      rw [hframes, halike.machine] at hisa
      rw [hframes] at hflow
      refine alike_leave hpiece halike hpc heffect hisa ?_ (by rw [hframes]; exact hflow)
      simp only [execute, hcode]
      exact if_pos hstacked
  | cons call calls =>
      rw [framesOf] at hframes
      rw [hframes] at hisa
      have hflow : flowStep insts (isaTaken (insts.inst s.pc) s.machine.regs) s.pc (s.frames.map Frame.ret) =
          .next (call.pc + 1) ((framesOf stackEnd calls).map Frame.ret) := by
        rw [hflow, hframes]
        rfl
      obtain ⟨hret, -, -, hrest⟩ := popCall_stacked ⟨false, t.machine.regs⟩ hstacked
      have hcount := hstacked.1
      -- the test of the count and the indirect branch take the module to the return label
      have hexec : execute m ⟨false, t.machine.regs⟩ s₁ e =
          .next (m.goto (popCall ⟨false, t.machine.regs⟩ s₁) (call.pc + 1)) := by
        simp only [execute, hcode, hret]
        exact if_neg (by omega)
      have hframe : ⟨call.pc + 1, Function.update call.before.regs 10 (frameEnd stackEnd calls.length)⟩ ∈ s.frames := by
        rw [hframes]
        exact List.mem_cons_self
      obtain ⟨hpos, hstart⟩ := halike.starts _ hframe
      have hregs := popCall_restored (o := ⟨false, t.machine.regs⟩) hstacked hpointer
      have hafter : framesAfter insts s = framesOf stackEnd calls := by
        rw [framesAfter, if_neg (exit_not_local hop), if_pos hop, hframes, List.tail_cons]
      refine alike_next hpiece halike hpc heffect hisa hexec hflow
        { here := at_goto h hpos hstart _, machine := ?_, world := rfl, calls := ⟨calls, hafter, hrest, ?_⟩,
          starts := ?_ }
      · rw [hafter, length_framesOf, halike.machine]
        change Machine.mk (restored (Function.update t.machine.regs 10 _) _) t.mem =
          Machine.set ⟨(popCall ⟨false, t.machine.regs⟩ s₁).regs, t.mem⟩ 10 _
        rw [hregs, hcs.2.2, restored_update, Machine.set]
      · change FramePointer stackEnd calls ((popCall ⟨false, t.machine.regs⟩ s₁).regs 10)
        rw [hregs]
        exact hpointer.2
      · intro frame hmem
        change frame ∈ framesAfter insts s at hmem
        refine halike.starts frame ?_
        rw [hframes]
        rw [hafter] at hmem
        exact List.mem_cons_of_mem _ hmem

/-- **One step** of the program by the instruction set, and of its module. Both are stuck, both end with the same
result, or both go on and are alike again. -/
theorem jitRunStep_rel (hm : generateModule args = .ok m) (hlinked : Linked args env.rel) (hsuits : Suits args.insts)
    (halike : Alike args.insts m stackEnd s t) (hfits : StepFits env args.insts s) :
    StepAlike args.insts m stackEnd (ebpfStep env args.insts s) (jitRunStep env m t) := by
  obtain ⟨⟨-, hlen, -⟩, h⟩ := generateModule_compiled hm
  have hgood := hsuits.targets
  by_cases hpc : s.pc ∈ positions args.insts
  · obtain ⟨s₁, e, hpiece⟩ := halike.here.piece h hpc
    have hof := hpiece.code
    generalize hcode : e.code = code at hof
    -- by the code of the piece, of which there is one kind for each kind of instruction
    cases hof with
    | plain hop => exact alike_plain hm hsuits.keeps hpiece halike hpc hcode hop hfits
    | lddw value hop => exact alike_lddw hm hlinked hsuits hpiece halike hpc hcode hop
    | helper hcall hsrc himm => exact alike_helper hpiece halike hpc hcode hcall hsrc himm
    | tailCall hcall hsrc himm => exact alike_tailCall hpiece halike hpc hcode hcall hsrc himm
    | condJmp hop hdst hnext => exact alike_condJmp h hgood hlen hpiece halike hpc hcode hop hdst hnext hfits
    | localCall hlocal hret hdst =>
        exact alike_localCall h hgood hlen hpiece halike hpc hcode hlocal hret hdst (hfits.room hlocal)
    | exit hop => exact alike_exit h hpiece halike hpc hcode hop
    | ja hop hdst =>
        obtain ⟨hpos, hstart, hid⟩ := target_found hgood hlen hpc (target_offset (Or.inl hop)) hdst
        have heffect : e.effect env t.machine s.world = some (t.machine, s.world, false) := by
          simp only [Emitted.effect, hcode]
        refine alike_jump h hpiece halike hpc (by simp [hop]) heffect ?_ hpos hstart (flowStep_ja hop)
        simp only [execute, hcode, hid]
    | jaImm hop hdst =>
        obtain ⟨hpos, hstart, hid⟩ := target_found hgood hlen hpc (if_pos (Or.inl hop)) hdst
        have heffect : e.effect env t.machine s.world = some (t.machine, s.world, false) := by
          simp only [Emitted.effect, hcode]
        refine alike_jump h hpiece halike hpc (by simp [hop]) heffect ?_ hpos hstart (flowStep_jaImm hop)
        simp only [execute, hcode, hid]
  -- out of the program: neither run has a step
  · rw [ebpfStep, if_neg hpc, jitRunStep, halike.here.rest_outside h hpc]
    exact .stuck

end Simulation

/-! ## Runs

The step lemma, along a run. -/

section Runs

variable {ω : Type} {env : Env ω} {args : JitArgs} {m : Module}

/-- The start of the program, with the registers of the module's start. -/
def ebpfStart (s : JitWorld ω) : EbpfState ω := ⟨0, [], ⟨s.jit.regs, s.mem⟩, s.world⟩

/-- **Compiled programs run as the instruction set says**: for any number of steps the module is where the program is,
with the same registers, memory, world and open calls, or both have ended with the same result, or both have faulted. -/
theorem compiled_runs_alike (hm : generateModule args = .ok m) (hlinked : Linked args env.rel) (hsuits : Suits args.insts)
    (stackBegin : BitVec 64) (regs : Regs) (callStack : Nat → Cell) (mem : Heap) (world : ω) (n : Nat)
    (hfits : Along (ebpfStep env args.insts) (StepFits env args.insts) n
      (ebpfStart ⟨m.start stackBegin regs callStack, mem, world⟩)) :
    StepResult.Rel (Alike args.insts m ((m.start stackBegin regs callStack).regs 10)) Eq
      (runFor (ebpfStep env args.insts) n (ebpfStart ⟨m.start stackBegin regs callStack, mem, world⟩))
      (runFor (jitRunStep env m) n ⟨m.start stackBegin regs callStack, mem, world⟩) := by
  obtain ⟨-, h⟩ := generateModule_compiled hm
  refine Along.lockstep (fun s t halike hfits => jitRunStep_rel hm hlinked hsuits halike hfits) ?_ hfits
  exact { here := at_start h stackBegin regs callStack, machine := (set_self (frameEnd_zero _).symm).symm, world := rfl,
          calls := ⟨[], rfl, rfl, rfl⟩, starts := fun frame hframe => absurd hframe List.not_mem_nil }

/-- A step goes where the control flow does. -/
theorem ebpfStep_next {insts : Insts} {s s' : EbpfState ω} (h : ebpfStep env insts s = .next s') :
    s'.frames = framesAfter insts s ∧ ∃ returns,
      flowStep insts (isaTaken (insts.inst s.pc) s.machine.regs) s.pc (s.frames.map Frame.ret) = .next s'.pc returns := by
  unfold ebpfStep at h
  split at h
  · split at h
    · cases h
    · split at h
      · next hflow =>
          cases h
          exact ⟨rfl, _, hflow⟩
      · cases h
  · cases h

end Runs

/-- `r1` is kept in `r6`, doubled by a local function, stored on the stack, and given to helper 1. -/
def callStoreHelp : JitArgs where
  insts := [⟨EBPF_OP_MOV64_REG, 6, 1, 0, 0⟩, ⟨EBPF_OP_CALL, 0, 1, 0, 3⟩, ⟨EBPF_OP_STXDW, 10, 1, -8, 0⟩,
    ⟨EBPF_OP_CALL, 0, 0, 0, 1⟩, ⟨EBPF_OP_EXIT, 0, 0, 0, 0⟩, ⟨0x0f, 1, 1, 0, 0⟩, ⟨EBPF_OP_EXIT, 0, 0, 0, 0⟩]
  lddw := ⟨none, none, none, none, none⟩
  extFuncs := [1]
  mapValHelper := false
  patchMapValAtCompileTime := true
  isGpu := false

/-- What `generateModule` makes of `callStoreHelp`. -/
def callStoreHelpModule : Module where
  labels := [0, 2, 4, 5]
  code := [(0, ⟨0, ⟨EBPF_OP_MOV64_REG, 6, 1, 0, 0⟩, .plain⟩),
    (0, ⟨1, ⟨EBPF_OP_CALL, 0, 1, 0, 3⟩, .localCall 5 2⟩),
    (2, ⟨2, ⟨EBPF_OP_STXDW, 10, 1, -8, 0⟩, .plain⟩), (2, ⟨3, ⟨EBPF_OP_CALL, 0, 0, 0, 1⟩, .helper 1⟩),
    (4, ⟨4, ⟨EBPF_OP_EXIT, 0, 0, 0, 0⟩, .exitOrReturn⟩), (5, ⟨5, ⟨0x0f, 1, 1, 0, 0⟩, .plain⟩),
    (5, ⟨6, ⟨EBPF_OP_EXIT, 0, 0, 0, 0⟩, .exitOrReturn⟩)]

/-- Evaluated: the front end accepts it. -/
theorem callStoreHelp_module : generateModule callStoreHelp = .ok callStoreHelpModule := by
  rfl

/-- Helper 1 returns its first argument and counts its calls. -/
def countingEnv : Env Nat where
  rel := ⟨fun imm => imm.signExtend 64, fun imm => imm.signExtend 64, id, fun imm => imm.signExtend 64,
    fun imm => imm.signExtend 64⟩
  helper index args mem world := if index = 1 then some (args.headD 0, mem, world + 1) else none
  undefinedAt _ _ := false

/-- It loads no addresses. -/
theorem callStoreHelp_linked : Linked callStoreHelp countingEnv.rel where
  mapByFd := fun _ => rfl
  mapByIdx := fun _ => rfl
  mapVal := fun f hf => by cases hf
  varAddr := fun f hf => by cases hf
  codeAddr := fun f hf => by cases hf

/-- It jumps to its own instructions only, and leaves `r10` alone. -/
theorem callStoreHelp_suits : Suits callStoreHelp.insts := by
  have hpositions : positions callStoreHelp.insts = [0, 1, 2, 3, 4, 5, 6] := by decide
  refine { targets := ?_, kinds := ?_, keeps := ?_ }
  · rintro ⟨pc, hpc, target, htarget, hbad⟩
    rw [hpositions] at hpc hbad
    have hnone : ∀ pc ∈ [0, 2, 3, 4, 5, 6], (callStoreHelp.insts.inst pc).target pc = none := by decide
    by_cases hcall : pc = 1
    · subst hcall
      obtain rfl : 5 = target := Option.some.inj htarget
      exact hbad (by decide)
    · have hother : pc ∈ [0, 2, 3, 4, 5, 6] := by
        simp only [List.mem_cons, List.not_mem_nil, or_false] at hpc ⊢
        omega
      rw [hnone pc hother] at htarget
      cases htarget
  · rw [hpositions]
    decide
  · rw [KeepsFramePointer, hpositions]
    decide

/-- No instruction of `callStoreHelp` divides or is atomic. -/
theorem callStoreHelp_plain (pc : Nat) (s : Machine) :
    PlainFits countingEnv.undefinedAt (callStoreHelp.insts.inst pc) s := by
  have hall : ∀ inst ∈ default :: callStoreHelp.insts,
      ¬ (inst.opcode = EBPF_ATOMIC_OPCODE_32 ∨ inst.opcode = EBPF_ATOMIC_OPCODE_64) ∧
        inst.opcode ∉ aluForms EBPF_ALU_OP_DIV ∧ inst.opcode ∉ aluForms EBPF_ALU_OP_MOD := by decide
  have hmem : callStoreHelp.insts.inst pc ∈ default :: callStoreHelp.insts := by
    unfold Insts.inst
    rw [List.getD_eq_getElem?_getD]
    cases hget : callStoreHelp.insts[pc]? with
    | none => exact List.mem_cons_self
    | some inst => exact List.mem_cons_of_mem _ (List.mem_of_getElem? hget)
  obtain ⟨hatomic, hdiv, hmod⟩ := hall _ hmem
  rw [PlainFits, if_neg hatomic, DivisorFits, if_neg hdiv, if_neg hmod]
  trivial

/-- Its local function is open in the function's own two instructions only. -/
def CallStoreHelpRun (s : EbpfState Nat) : Prop :=
  s.pc < 5 ∧ s.frames = [] ∨ (s.pc = 5 ∨ s.pc = 6) ∧ s.frames.map Frame.ret = [2]

/-- The invariant of its run: outside of the local function no call is open, inside there is one, that returns to 2. -/
theorem callStoreHelpRun_step {s s' : EbpfState Nat} (h : CallStoreHelpRun s)
    (hstep : ebpfStep countingEnv callStoreHelp.insts s = .next s') : CallStoreHelpRun s' := by
  obtain ⟨hframes, returns, hflow⟩ := ebpfStep_next hstep
  generalize isaTaken (callStoreHelp.insts.inst s.pc) s.machine.regs = taken at hflow
  obtain ⟨pc, frames, machine, world⟩ := s
  obtain ⟨pc', frames', machine', world'⟩ := s'
  rcases h with ⟨hpc, hnil⟩ | ⟨hpc, hopen⟩
  · -- in the main program
    have hmain : ∀ pc < 5, ∀ taken, flowStep callStoreHelp.insts taken pc [] =
        [.next 1 [], .next 5 [2], .next 3 [], .next 4 [], .leave].getD pc .leave := by decide
    change pc < 5 at hpc
    subst hnil
    rw [List.map_nil, hmain pc hpc taken] at hflow
    obtain rfl | rfl | rfl | rfl | rfl : pc = 0 ∨ pc = 1 ∨ pc = 2 ∨ pc = 3 ∨ pc = 4 := by omega
    · cases hflow
      exact .inl ⟨show 1 < 5 by decide, hframes⟩
    · cases hflow
      exact .inr ⟨.inl rfl, by rw [hframes]; rfl⟩
    · cases hflow
      exact .inl ⟨show 3 < 5 by decide, hframes⟩
    · cases hflow
      exact .inl ⟨show 4 < 5 by decide, hframes⟩
    · cases hflow
  · -- in the local function
    change frames.map Frame.ret = [2] at hopen
    change pc = 5 ∨ pc = 6 at hpc
    rw [hopen] at hflow
    rcases hpc with rfl | rfl
    · have hdouble : ∀ taken, flowStep callStoreHelp.insts taken 5 [2] = .next 6 [2] := by decide
      rw [hdouble taken] at hflow
      cases hflow
      exact .inr ⟨.inr rfl, by rw [hframes]; exact hopen⟩
    · have hreturn : ∀ taken, flowStep callStoreHelp.insts taken 6 [2] = .next 2 [] := by decide
      rw [hreturn taken] at hflow
      cases hflow
      have htail : frames.tail.map Frame.ret = [] := by rw [List.map_tail, hopen, List.tail_cons]
      exact .inl ⟨show 2 < 5 by decide, hframes.trans (List.map_eq_nil_iff.mp htail)⟩

/-- So every step of the run meets the conditions. -/
theorem callStoreHelp_fits (n : Nat) (s : EbpfState Nat) (h : CallStoreHelpRun s) :
    Along (ebpfStep countingEnv callStoreHelp.insts) (StepFits countingEnv callStoreHelp.insts) n s := by
  refine Along.of_inv (fun s s' => callStoreHelpRun_step) (fun s h => ?_) n h
  refine { plain := fun _ => callStoreHelp_plain s.pc s.machine, room := fun _ => ?_, frame := fun hopen => ?_ }
  · rcases h with ⟨-, hnil⟩ | ⟨-, hopen⟩
    · rw [hnil]
      decide
    · have hlength := congrArg List.length hopen
      rw [List.length_map] at hlength
      rw [hlength]
      decide
  · rcases h with ⟨-, hnil⟩ | ⟨hpc, -⟩
    · exact absurd hnil hopen
    · rcases hpc with hpc | hpc
      · rw [hpc]
        decide
      · rw [hpc]
        decide

/-- Eight steps, through the call and its return. -/
theorem compiled_runs_alike_callStoreHelp :
    StepResult.Rel (Alike callStoreHelp.insts callStoreHelpModule
        ((callStoreHelpModule.start 0x1000 (fun _ => 3) fun _ => .reg 0).regs 10)) Eq
      (runFor (ebpfStep countingEnv callStoreHelp.insts) 8
        (ebpfStart ⟨callStoreHelpModule.start 0x1000 (fun _ => 3) fun _ => .reg 0, fun _ => some 0, 0⟩))
      (runFor (jitRunStep countingEnv callStoreHelpModule) 8
        ⟨callStoreHelpModule.start 0x1000 (fun _ => 3) fun _ => .reg 0, fun _ => some 0, 0⟩) :=
  compiled_runs_alike callStoreHelp_module callStoreHelp_linked callStoreHelp_suits 0x1000 (fun _ => 3) (fun _ => .reg 0)
    (fun _ => some 0) 0 8 (callStoreHelp_fits 8 _ (.inl ⟨by decide, rfl⟩))

end Vm
