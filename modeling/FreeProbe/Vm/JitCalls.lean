import FreeProbe.Vm.JitSim
import Mathlib.Data.Set.Defs

/-!
# `Vm.JitCalls` — frames and registers of local calls

A running module with its open calls. What a return has to restore, `returns_exact` shows restored in every run:
the saved registers, the count, and the place to go on; with `r10` left alone by the program, `r10` and the frames'
place in the stack too. The frames themselves overlap: the code moves `r10` by `STACK_SIZE`, which counts words, so
`localCalls_exact_iff` holds of the runs without a local call only.
-/

namespace Vm

/-- A running machine and its open calls, the innermost first. -/
structure Running where
  state : JitState
  calls : List OpenCall

/-- The open calls after a step. -/
def callsAfter (r : Running) (e : Emitted) : List OpenCall :=
  if e.inst.isLocalCall then ⟨e.pc, r.state⟩ :: r.calls
  else if e.inst.opcode = EBPF_OP_EXIT then r.calls.tail
  else r.calls

/-- `P` holds of every step of the run, as far as no more calls are open than there are frames for. -/
def EveryStep (m : Module) (P : Running → Emitted → JitState → Prop) : List Outcome → Running → Prop
  | [], _ => True
  | o :: outcomes, r => ∀ e s', jitStep m o r.state = some (e, .next s') →
      (callsAfter r e).length ≤ MAX_LOCAL_FUNC_DEPTH → P r e s' ∧ EveryStep m P outcomes ⟨s', callsAfter r e⟩

/-! ## What a call and a return should do

The instruction set gives each function a frame of 512 bytes, and `r6` to `r9` back to the caller. -/

/-- The addresses of the frame below a value of `r10`. -/
def frame (r10 : BitVec 64) : Set (BitVec 64) :=
  {a | ∃ i < EBPF_STACK_SIZE, a = r10 - BitVec.ofNat 64 (i + 1)}

/-- The addresses of the allocated stack. -/
def stackArea (stackBegin : BitVec 64) : Set (BitVec 64) :=
  {a | ∃ i < 8 * (STACK_SIZE * MAX_LOCAL_FUNC_DEPTH + 10), a = stackBegin + BitVec.ofNat 64 i}

/-- A callee's frame has nothing in common with those of its callers. -/
def FramesApart (r : Running) (e : Emitted) (s' : JitState) : Prop :=
  e.inst.isLocalCall = true → ∀ call ∈ callsAfter r e, ∀ a ∈ frame (s'.regs 10), a ∉ frame (call.before.regs 10)

/-- A callee's frame is in the stack. -/
def FrameInside (stackBegin : BitVec 64) (e : Emitted) (s' : JitState) : Prop :=
  e.inst.isLocalCall = true → frame (s'.regs 10) ⊆ stackArea stackBegin

/-- The registers are what they were before the call that the step returns from. -/
def Restores (saved : List (BitVec 4)) (r : Running) (e : Emitted) (s' : JitState) : Prop :=
  e.inst.opcode = EBPF_OP_EXIT → ∀ call ∈ r.calls.head?, ∀ reg ∈ saved, s'.regs reg = call.before.regs reg

/-- The count is what it was before the call that the step returns from, and the instruction after the call is
    next. -/
def GoesOn (m : Module) (r : Running) (e : Emitted) (s' : JitState) : Prop :=
  e.inst.opcode = EBPF_OP_EXIT → ∀ call ∈ r.calls.head?, s'.callItemCnt = call.before.callItemCnt ∧
    ∀ o, ∃ e' step, jitStep m o s' = some (e', step) ∧ e'.pc = call.pc + 1

/-- Every local call of the run gets a frame of its own inside the stack, and every return restores its caller. -/
def LocalCallsExact (m : Module) (stackBegin : BitVec 64) (outcomes : List Outcome) (r : Running) : Prop :=
  EveryStep m (fun r e s' => FramesApart r e s' ∧ FrameInside stackBegin e s' ∧ Restores [6, 7, 8, 9, 10] r e s' ∧
    GoesOn m r e s') outcomes r

/-! ## One step

Of the instructions only a local call and an `EXIT` change the open calls. A step is looked at by the piece of code that
it executes. -/

/-- The pieces left of the block are pieces of the module. -/
def FromCode (m : Module) (s : JitState) : Prop := ∀ e ∈ s.rest, ∃ label, (label, e) ∈ m.code

/-- A jump to a block. -/
theorem fromCode_goto (m : Module) (s : JitState) (label : Nat) : FromCode m (m.goto s label) := by
  intro e he
  obtain ⟨⟨l, e'⟩, hmem, rfl⟩ := List.mem_map.mp he
  exact ⟨l, List.mem_of_mem_filter hmem⟩

/-- And falling into the next. -/
theorem fromCode_fallThrough {m : Module} (labels : List Nat) {s : JitState} (h : FromCode m s) :
    FromCode m (m.fallThrough labels s) := by
  induction labels generalizing s with
  | nil => exact h
  | cons label labels ih =>
      rw [Module.fallThrough]
      split
      · exact ih (fromCode_goto m s label)
      · exact h

/-- Falling through changes only the place in the code. -/
theorem settle_same (m : Module) (s : JitState) :
    m.settle s = { s with block := (m.settle s).block, rest := (m.settle s).rest } := by
  have hall : ∀ labels s, (m.fallThrough labels s) =
      { s with block := (m.fallThrough labels s).block, rest := (m.fallThrough labels s).rest } := by
    intro labels
    induction labels with
    | nil => exact fun _ => rfl
    | cons label labels ih =>
        intro s
        rw [Module.fallThrough]
        split
        · rw [ih (m.goto s label)]
          rfl
        · rfl
  exact hall _ s

/-- What runs of an accepted vector keep: the calls are on the call stack, and a block starts after each. -/
structure CallsInv (insts : Insts) (m : Module) (r : Running) : Prop where
  code    : FromCode m r.state
  stacked : Stacked r.state.callStack r.calls r.state.callItemCnt
  starts  : ∀ call ∈ r.calls, call.pc + 1 ∈ positions insts ∧ isBlockStart insts (call.pc + 1) = true

/-- The piece of code that a step executes, and the state it executes it in. -/
theorem step_code {insts : Insts} {m : Module} (h : Compiled insts m) {s : JitState} (hcode : FromCode m s) {o : Outcome}
    {e : Emitted} {step : JitStep} (hstep : jitStep m o s = some (e, step)) :
    e.pc ∈ positions insts ∧ e.inst = insts.inst e.pc ∧ CodeOf insts e.pc e.code ∧
      ∃ s₁, step = execute m o s₁ e ∧ s₁ = { s with block := s₁.block, rest := s₁.rest } ∧ FromCode m s₁ := by
  have hsettled : FromCode m (m.settle s) := fromCode_fallThrough _ hcode
  simp only [jitStep] at hstep
  split at hstep
  · cases hstep
  · next e' rest hrest =>
      cases hstep
      obtain ⟨label, hmem⟩ := hsettled e (by simp [hrest])
      obtain ⟨hpc, hinst, hof⟩ := h.codeOf hmem
      refine ⟨hpc, hinst, hof, _, rfl, ?_, fun e' he' => hsettled e' (by simp only at he'; simp [hrest, he'])⟩
      rw [settle_same m s]

/-- What a step that goes on does to the open calls. -/
inductive CallStep (insts : Insts) (m : Module) (r : Running) (e : Emitted) (s' : JitState) : Prop
  | other (hlocal : ¬ e.inst.isLocalCall = true) (hexit : e.inst.opcode ≠ EBPF_OP_EXIT)
      (hstack : s'.callStack = r.state.callStack) (hcount : s'.callItemCnt = r.state.callItemCnt)
      (hr10 : (isJmp e.inst = false → e.inst.writes 10 = false) → s'.regs 10 = r.state.regs 10)
  | call {dst : Nat} (hlocal : e.inst.isLocalCall = true) (hret : HasReturnBlock insts e.pc)
      (hs' : s' = m.goto (pushCall r.state (e.pc + 1)) dst)
  | ret {o : Outcome} {call : OpenCall} {calls : List OpenCall} (hexit : e.inst.opcode = EBPF_OP_EXIT)
      (hcalls : r.calls = call :: calls) (hs' : s' = m.goto (popCall o r.state) (call.pc + 1))

/-- A return is no call. -/
theorem exit_not_local {inst : EbpfInst} (h : inst.opcode = EBPF_OP_EXIT) : ¬ inst.isLocalCall = true := by
  intro hlocal
  have hcall := EbpfInst.isCall_iff.mp (Bool.and_eq_true_iff.mp hlocal).1
  exact (call_not_jump hcall).2.2.1 h

/-- A call whose `src` is not 1 is no local one. -/
theorem src_not_local {inst : EbpfInst} (h : inst.src ≠ 0x1) : ¬ inst.isLocalCall = true := by
  intro hlocal
  exact h (beq_iff_eq.mp (Bool.and_eq_true_iff.mp hlocal).2)

/-- A jump is neither. -/
theorem jump_not_call (inst : EbpfInst) (h : inst.opcode ∈ EBPF_OP_JA :: EBPF_OP_JA_IMM :: condJmpOpcodes) :
    inst.opcode ≠ EBPF_OP_EXIT ∧ ¬ inst.isLocalCall = true := by
  have hnot : ∀ op ∈ EBPF_OP_JA :: EBPF_OP_JA_IMM :: condJmpOpcodes,
      op ≠ EBPF_OP_EXIT ∧ ¬ (op = EBPF_OP_CALL ∨ op = EBPF_OP_CALL ||| 0x8) := by decide +kernel
  obtain ⟨hexit, hcall⟩ := hnot _ h
  exact ⟨hexit, fun h => hcall (EbpfInst.isCall_iff.mp (Bool.and_eq_true_iff.mp h).1)⟩

/-- An `LDDW` writes one register. -/
theorem writes_lddw {inst : EbpfInst} (h : inst.opcode = EBPF_OP_LDDW) (r : BitVec 4) :
    inst.writes r = (r == inst.dst) := by
  rw [EbpfInst.writes, h, if_neg (by decide), if_neg (by decide)]

/-- **A step of the module**, as it is seen from the open calls. -/
theorem callStep {insts : Insts} {m : Module} (h : Compiled insts m) {r : Running} (hinv : CallsInv insts m r)
    {o : Outcome} {e : Emitted} {s' : JitState} (hstep : jitStep m o r.state = some (e, .next s')) :
    CallStep insts m r e s' ∧ FromCode m s' := by
  obtain ⟨hpc, hinst, hof, s₁, hexec, hsame, hfrom⟩ := step_code h hinv.code hstep
  have hcs : s₁.callStack = r.state.callStack ∧ s₁.callItemCnt = r.state.callItemCnt ∧ s₁.regs = r.state.regs := by
    rw [hsame]
    exact ⟨rfl, rfl, rfl⟩
  -- what only jumps
  have hjump : ∀ dst, ¬ e.inst.isLocalCall = true → e.inst.opcode ≠ EBPF_OP_EXIT → s' = m.goto s₁ dst →
      CallStep insts m r e s' ∧ FromCode m s' := by
    rintro dst hlocal hexit rfl
    exact ⟨.other hlocal hexit hcs.1 hcs.2.1 fun _ => congrFun hcs.2.2 10, fromCode_goto m s₁ dst⟩
  -- what only computes
  have hstraight : ∀ regs, (e.inst.opcode ∈ plainOpcodes ∨ e.inst.opcode = EBPF_OP_LDDW) →
      ((isJmp e.inst = false → e.inst.writes 10 = false) → regs 10 = r.state.regs 10) →
      s' = { s₁ with regs := regs } → CallStep insts m r e s' ∧ FromCode m s' := by
    rintro regs hop hr10 rfl
    obtain ⟨-, -, hexit, -, hcall⟩ := plain_not_control hop
    have hlocal : ¬ e.inst.isLocalCall = true :=
      fun h => hcall (EbpfInst.isCall_iff.mp (Bool.and_eq_true_iff.mp h).1)
    exact ⟨.other hlocal hexit hcs.1 hcs.2.1 hr10, hfrom⟩
  rw [hinst] at hjump hstraight
  generalize hc : e.code = code at hof
  cases hof with
  | plain hop =>
      simp only [execute, hc, JitStep.next.injEq] at hexec
      refine hstraight _ (Or.inl hop) (fun hwrites => ?_) hexec
      rw [hinst, if_neg (Bool.eq_false_iff.mp (hwrites (plain_not_jmp (Or.inl hop)))), hcs.2.2]
  | lddw value hop =>
      have hdst : ∀ v, ((isJmp (insts.inst e.pc) = false → (insts.inst e.pc).writes 10 = false) →
          Function.update s₁.regs e.inst.dst v 10 = r.state.regs 10) := by
        intro v hwrites
        have hwrites := hwrites (plain_not_jmp (Or.inr hop))
        rw [writes_lddw hop, beq_eq_false_iff_ne] at hwrites
        rw [hinst, Function.update_of_ne hwrites, hcs.2.2]
      cases value with
      | const value =>
          simp only [execute, hc, JitStep.next.injEq] at hexec
          exact hstraight _ (Or.inr hop) (hdst _) hexec
      | mapVal mapPtr offset =>
          simp only [execute, hc, JitStep.next.injEq] at hexec
          exact hstraight _ (Or.inr hop) (hdst _) hexec
      | unset =>
          simp only [execute, hc, JitStep.next.injEq] at hexec
          exact hstraight s₁.regs (Or.inr hop) (fun _ => congrFun hcs.2.2 10) hexec
  | helper hcall hsrc himm =>
      simp only [execute, hc, JitStep.next.injEq] at hexec
      rw [← hinst] at hcall hsrc
      have hr10 : Function.update s₁.regs 0 (o.values 0) 10 = r.state.regs 10 := by
        rw [Function.update_of_ne (by decide), hcs.2.2]
      refine ⟨?_, ?_⟩
      · rw [hexec]
        exact .other (src_not_local hsrc) (call_not_jump (EbpfInst.isCall_iff.mp hcall)).2.2.1 hcs.1 hcs.2.1 fun _ => hr10
      · rw [hexec]
        exact hfrom
  | tailCall =>
      simp only [execute, hc] at hexec
      cases hexec
  | ja hop =>
      simp only [execute, hc, JitStep.next.injEq] at hexec
      obtain ⟨hexit, hlocal⟩ := jump_not_call (insts.inst e.pc) (by simp [hop])
      exact hjump _ hlocal hexit hexec
  | jaImm hop =>
      simp only [execute, hc, JitStep.next.injEq] at hexec
      obtain ⟨hexit, hlocal⟩ := jump_not_call (insts.inst e.pc) (by simp [hop])
      exact hjump _ hlocal hexit hexec
  | condJmp hop =>
      simp only [execute, hc, JitStep.next.injEq] at hexec
      obtain ⟨hexit, hlocal⟩ := jump_not_call (insts.inst e.pc) (by simp [hop])
      exact hjump _ hlocal hexit hexec
  | localCall hlocal hret =>
      simp only [execute, hc] at hexec
      split at hexec
      · cases hexec
      · cases hexec
        rw [← hinst] at hlocal
        exact ⟨.call hlocal hret (by rw [hsame]; rfl), fromCode_goto _ _ _⟩
  | exit hop =>
      rw [← hinst] at hop
      simp only [execute, hc] at hexec
      split at hexec
      · cases hexec
      · next hcount =>
          cases hcalls : r.calls with
          | nil =>
              have hstacked := hinv.stacked
              rw [hcalls] at hstacked
              exact absurd (hcs.2.1.trans hstacked) hcount
          | cons call calls =>
              have hstacked := hinv.stacked
              rw [hcalls, ← hcs.1, ← hcs.2.1] at hstacked
              rw [(popCall_stacked o hstacked).1] at hexec
              cases hexec
              exact ⟨.ret hop hcalls (by rw [hsame]; rfl), fromCode_goto _ _ _⟩

/-- A step that goes on keeps the invariant. -/
theorem callsInv_step {insts : Insts} {m : Module} (h : Compiled insts m) {r : Running} (hinv : CallsInv insts m r)
    {o : Outcome} {e : Emitted} {s' : JitState} (hstep : jitStep m o r.state = some (e, .next s')) :
    CallsInv insts m ⟨s', callsAfter r e⟩ := by
  obtain ⟨hcall, hfrom⟩ := callStep h hinv hstep
  obtain ⟨hpc, -⟩ := step_code h hinv.code hstep
  refine ⟨hfrom, ?_, ?_⟩
  · cases hcall with
    | other hlocal hexit hstack hcount =>
        rw [callsAfter, if_neg hlocal, if_neg hexit, hstack, hcount]
        exact hinv.stacked
    | call hlocal hret hs' =>
        rw [callsAfter, if_pos hlocal, hs']
        exact pushCall_stacked hinv.stacked e.pc
    | @ret o' call calls hexit hcalls hs' =>
        have hstacked := hinv.stacked
        rw [hcalls] at hstacked
        rw [callsAfter, if_neg (exit_not_local hexit), if_pos hexit, hcalls, hs']
        exact (popCall_stacked o' hstacked).2.2.2
  · intro call hmem
    cases hcall with
    | other hlocal hexit =>
        rw [callsAfter, if_neg hlocal, if_neg hexit] at hmem
        exact hinv.starts call hmem
    | call hlocal hret =>
        rw [callsAfter, if_pos hlocal] at hmem
        rcases List.mem_cons.mp hmem with rfl | hmem
        · exact ret_found hpc hret
        · exact hinv.starts call hmem
    | ret hexit =>
        rw [callsAfter, if_neg (exit_not_local hexit), if_pos hexit] at hmem
        exact hinv.starts call (List.mem_of_mem_tail hmem)

/-- A property of steps that follows from another. -/
theorem EveryStep.mono {m : Module} {P Q : Running → Emitted → JitState → Prop} {outcomes : List Outcome} {r : Running}
    (h : EveryStep m P outcomes r) (hPQ : ∀ r e s', P r e s' → Q r e s') : EveryStep m Q outcomes r := by
  induction outcomes generalizing r with
  | nil => trivial
  | cons o outcomes ih =>
      intro e s' hstep hdepth
      obtain ⟨hP, hrest⟩ := h e s' hstep hdepth
      exact ⟨hPQ r e s' hP, ih hrest⟩

/-- What holds of every step from a state with the invariant holds of every step of a run. -/
theorem everyStep_of_inv {m : Module} {I : Running → Prop} {P : Running → Emitted → JitState → Prop}
    (hstep : ∀ r o e s', I r → jitStep m o r.state = some (e, .next s') →
      (callsAfter r e).length ≤ MAX_LOCAL_FUNC_DEPTH → P r e s' ∧ I ⟨s', callsAfter r e⟩)
    (outcomes : List Outcome) {r : Running} (hinv : I r) : EveryStep m P outcomes r := by
  induction outcomes generalizing r with
  | nil => trivial
  | cons o outcomes ih =>
      intro e s' hs hdepth
      obtain ⟨hP, hI⟩ := hstep r o e s' hinv hs hdepth
      exact ⟨hP, ih hI⟩

/-! ## Returns

The call stack has five cells for each open call. They are written by the call and read by the return. -/

/-- No call is open at the start. -/
theorem callsInv_start {insts : Insts} {m : Module} (stackBegin : BitVec 64) (regs : Regs)
    (callStack : Nat → Cell) : CallsInv insts m ⟨m.start stackBegin regs callStack, []⟩ where
  code := fromCode_goto m (m.start stackBegin regs callStack) 0
  stacked := rfl
  starts := fun _ hcall => absurd hcall List.not_mem_nil

/-- A return restores `r6` to `r9` and the count, and goes on after the call. -/
theorem restores_step {insts : Insts} {m : Module} (h : Compiled insts m) {r : Running} (hinv : CallsInv insts m r)
    {o : Outcome} {e : Emitted} {s' : JitState} (hstep : jitStep m o r.state = some (e, .next s')) :
    Restores [6, 7, 8, 9] r e s' ∧ GoesOn m r e s' := by
  obtain ⟨hcall, -⟩ := callStep h hinv hstep
  cases hcall with
  | other hlocal hexit => exact ⟨fun h => absurd h hexit, fun h => absurd h hexit⟩
  | call hlocal => exact ⟨fun h => absurd hlocal (exit_not_local h), fun h => absurd hlocal (exit_not_local h)⟩
  | @ret o' call calls hexit hcalls hs' =>
      have hstacked := hinv.stacked
      rw [hcalls] at hstacked
      obtain ⟨-, hcount, hregs, -⟩ := popCall_stacked o' hstacked
      obtain ⟨hpos, hstart⟩ := hinv.starts call (by simp [hcalls])
      refine ⟨fun _ call' hmem reg hreg => ?_, fun _ call' hmem => ?_⟩
      · obtain rfl : call = call' := by simpa [hcalls] using hmem
        rw [hs']
        exact hregs reg hreg
      · obtain rfl : call = call' := by simpa [hcalls] using hmem
        rw [hs']
        refine ⟨hcount, fun o => ?_⟩
        cases (at_goto h hpos hstart (popCall o' r.state)).fetch h o with
        | instruction _ he _ _ hstep => exact ⟨_, _, hstep, he⟩
        | outside hout => exact absurd hpos hout

/-- The program does not write `r10`. -/
def KeepsFramePointer (insts : Insts) : Prop :=
  ∀ pc ∈ positions insts, isJmp (insts.inst pc) = false → (insts.inst pc).writes 10 = false

/-- `r10`, given the open calls: each took `STACK_SIZE` off it. -/
def FramePointer (stackEnd : BitVec 64) : List OpenCall → BitVec 64 → Prop
  | [], r10 => r10 = stackEnd
  | call :: calls, r10 =>
    r10 = call.before.regs 10 - BitVec.ofNat 64 STACK_SIZE ∧ FramePointer stackEnd calls (call.before.regs 10)

/-- Each open call has taken 64 bytes off `r10`. -/
theorem framePointer_eq {stackEnd : BitVec 64} {calls : List OpenCall} {r10 : BitVec 64}
    (h : FramePointer stackEnd calls r10) : r10 = stackEnd - BitVec.ofNat 64 (STACK_SIZE * calls.length) := by
  induction calls generalizing r10 with
  | nil =>
      rw [h, List.length_nil, Nat.mul_zero]
      exact (BitVec.sub_zero stackEnd).symm
  | cons call calls ih =>
      obtain ⟨rfl, hcalls⟩ := h
      rw [ih hcalls, List.length_cons, Nat.mul_succ, BitVec.ofNat_add]
      bv_omega

/-- A step keeps that, in a program that leaves `r10` alone. -/
theorem framePointer_step {insts : Insts} {m : Module} (h : Compiled insts m) (hkeeps : KeepsFramePointer insts)
    {stackEnd : BitVec 64} {r : Running} (hinv : CallsInv insts m r)
    (hr10 : FramePointer stackEnd r.calls (r.state.regs 10)) {o : Outcome} {e : Emitted} {s' : JitState}
    (hstep : jitStep m o r.state = some (e, .next s')) :
    FramePointer stackEnd (callsAfter r e) (s'.regs 10) ∧ Restores [10] r e s' := by
  obtain ⟨hpc, hinst, -⟩ := step_code h hinv.code hstep
  obtain ⟨hcall, -⟩ := callStep h hinv hstep
  cases hcall with
  | other hlocal hexit _ _ hsame =>
      rw [callsAfter, if_neg hlocal, if_neg hexit, hsame (hinst ▸ hkeeps e.pc hpc)]
      exact ⟨hr10, fun h => absurd h hexit⟩
  | call hlocal _ hs' =>
      rw [callsAfter, if_pos hlocal, hs']
      refine ⟨⟨?_, hr10⟩, fun h => absurd hlocal (exit_not_local h)⟩
      exact Function.update_self (10 : BitVec 4) _ r.state.regs
  | @ret o' call calls hexit hcalls hs' =>
      rw [hcalls] at hr10
      have hback : s'.regs 10 = call.before.regs 10 := by
        rw [hs']
        change r.state.regs 10 + BitVec.ofNat 64 STACK_SIZE = _
        rw [hr10.1, BitVec.sub_add_cancel]
      rw [callsAfter, if_neg (exit_not_local hexit), if_pos hexit, hcalls, hback]
      refine ⟨hr10.2, fun _ call' hmem reg hreg => ?_⟩
      obtain rfl : call = call' := by simpa [hcalls] using hmem
      obtain rfl := List.mem_singleton.mp hreg
      exact hback

/-- With `r10` at most `MAX_LOCAL_FUNC_DEPTH` calls below the end, a frame is inside the stack. -/
theorem frame_inside {stackBegin r10 : BitVec 64} {calls : List OpenCall} (hdepth : calls.length ≤ MAX_LOCAL_FUNC_DEPTH)
    (h : FramePointer (stackBegin + BitVec.ofNat 64 (8 * (STACK_SIZE * MAX_LOCAL_FUNC_DEPTH))) calls r10) :
    frame r10 ⊆ stackArea stackBegin := by
  rintro a ⟨i, hi, rfl⟩
  rw [framePointer_eq h]
  simp only [STACK_SIZE, MAX_LOCAL_FUNC_DEPTH, EBPF_STACK_SIZE] at hi hdepth ⊢
  refine ⟨8 * (64 * 32) - 64 * calls.length - (i + 1), ?_, ?_⟩
  · simp only [STACK_SIZE, EBPF_STACK_SIZE, MAX_LOCAL_FUNC_DEPTH]
    omega
  · bv_omega

/-- **What local calls get right**: in every run of a module, a return restores `r6` to `r9` and the count and goes
    on after the call; `r10` too, and with frames inside the stack, if the program does not write it. -/
theorem returns_exact {args : JitArgs} {m : Module} (hm : generateModule args = .ok m) (stackBegin : BitVec 64)
    (regs : Regs) (callStack : Nat → Cell) (outcomes : List Outcome) :
    EveryStep m (fun r e s' => Restores [6, 7, 8, 9] r e s' ∧ GoesOn m r e s') outcomes
        ⟨m.start stackBegin regs callStack, []⟩ ∧
      (KeepsFramePointer args.insts → EveryStep m (fun r e s' => Restores [10] r e s' ∧ FrameInside stackBegin e s')
        outcomes ⟨m.start stackBegin regs callStack, []⟩) := by
  obtain ⟨-, h⟩ := generateModule_compiled hm
  have hstart : CallsInv args.insts m ⟨m.start stackBegin regs callStack, []⟩ := callsInv_start stackBegin regs callStack
  refine ⟨everyStep_of_inv (I := CallsInv args.insts m) ?_ outcomes hstart, fun hkeeps => ?_⟩
  · intro r o e s' hinv hstep _
    exact ⟨restores_step h hinv hstep, callsInv_step h hinv hstep⟩
  · let I : Running → Prop := fun r => CallsInv args.insts m r ∧
      FramePointer (stackBegin + BitVec.ofNat 64 (8 * (STACK_SIZE * MAX_LOCAL_FUNC_DEPTH))) r.calls (r.state.regs 10)
    have hend : (m.start stackBegin regs callStack).regs 10 =
        stackBegin + BitVec.ofNat 64 (8 * (STACK_SIZE * MAX_LOCAL_FUNC_DEPTH)) :=
      Function.update_self (10 : BitVec 4) _ regs
    refine everyStep_of_inv (I := I) ?_ outcomes ⟨hstart, hend⟩
    rintro r o e s' ⟨hinv, hr10⟩ hstep hdepth
    obtain ⟨hr10', hrestores⟩ := framePointer_step h hkeeps hinv hr10 hstep
    exact ⟨⟨hrestores, fun _ => frame_inside hdepth hr10'⟩, callsInv_step h hinv hstep, hr10'⟩

/-! ## Frames

A call moves `r10` down by `STACK_SIZE`, which counts words of the stack. As bytes this is less than a frame. -/

/-- A frame and the one `STACK_SIZE` below it overlap. -/
theorem frame_overlap (r10 : BitVec 64) : ∃ a ∈ frame (r10 - BitVec.ofNat 64 STACK_SIZE), a ∈ frame r10 := by
  have hcallee : r10 - BitVec.ofNat 64 65 ∈ frame (r10 - BitVec.ofNat 64 STACK_SIZE) := by
    refine ⟨0, by decide, ?_⟩
    simp only [STACK_SIZE, EBPF_STACK_SIZE]
    bv_omega
  have hcaller : r10 - BitVec.ofNat 64 65 ∈ frame r10 := ⟨64, by decide, rfl⟩
  exact ⟨_, hcallee, hcaller⟩

/-- The code of a local call. -/
theorem code_of_local {insts : Insts} {pc : Nat} {code : Code} (h : CodeOf insts pc code)
    (hlocal : (insts.inst pc).isLocalCall = true) : ∃ dst, code = .localCall dst (pc + 1) := by
  have hcall := EbpfInst.isCall_iff.mp (Bool.and_eq_true_iff.mp hlocal).1
  cases h with
  | localCall => exact ⟨_, rfl⟩
  | plain hop => exact absurd hcall (plain_not_control (Or.inl hop)).2.2.2.2
  | lddw value hop => exact absurd hcall (plain_not_control (Or.inr hop)).2.2.2.2
  | helper _ hsrc => exact absurd hlocal (src_not_local hsrc)
  | tailCall _ hsrc => exact absurd hlocal (src_not_local hsrc)
  | exit hop => exact absurd hlocal (exit_not_local hop)
  | ja hop => exact absurd hlocal (jump_not_call _ (by simp [hop])).2
  | jaImm hop => exact absurd hlocal (jump_not_call _ (by simp [hop])).2
  | condJmp hop => exact absurd hlocal (jump_not_call _ (by simp [hop])).2

/-- The first local call goes on. -/
theorem local_goesOn {insts : Insts} {m : Module} (h : Compiled insts m) {s : JitState}
    (hinv : CallsInv insts m ⟨s, []⟩) {o : Outcome} {e : Emitted} {step : JitStep}
    (hstep : jitStep m o s = some (e, step)) (hlocal : (insts.inst e.pc).isLocalCall = true) :
    ∃ s', step = .next s' := by
  obtain ⟨-, -, hof, s₁, rfl, hsame, -⟩ := step_code h hinv.code hstep
  obtain ⟨dst, hcode⟩ := code_of_local hof hlocal
  have hcount : s₁.callItemCnt = 0 := by
    rw [hsame]
    exact hinv.stacked
  refine ⟨m.goto (pushCall s₁ (e.pc + 1)) dst, ?_⟩
  simp only [execute, hcode, hcount]
  exact if_neg (by decide)

/-- The first local call's frame starts `STACK_SIZE` bytes below its caller's. -/
theorem local_overlaps {insts : Insts} {m : Module} (h : Compiled insts m) {s : JitState}
    (hinv : CallsInv insts m ⟨s, []⟩) {o : Outcome} {e : Emitted} {s' : JitState}
    (hstep : jitStep m o s = some (e, .next s')) (hlocal : e.inst.isLocalCall = true) :
    ¬ FramesApart ⟨s, []⟩ e s' := by
  intro hframes
  have hafter : callsAfter ⟨s, []⟩ e = [⟨e.pc, s⟩] := if_pos hlocal
  obtain ⟨hcall, -⟩ := callStep h hinv hstep
  cases hcall with
  | other hnot => exact hnot hlocal
  | ret hexit => exact exit_not_local hexit hlocal
  | call _ _ hs' =>
      have hr10 : s'.regs 10 = s.regs 10 - BitVec.ofNat 64 STACK_SIZE := by
        rw [hs']
        exact Function.update_self (10 : BitVec 4) _ s.regs
      have hdisjoint := hframes hlocal ⟨e.pc, s⟩ (by simp [hafter])
      rw [hr10] at hdisjoint
      obtain ⟨a, hcallee, hcaller⟩ := frame_overlap (s.regs 10)
      exact hdisjoint a hcallee hcaller

/-- A run without open calls that has every callee apart executes no local call. -/
theorem noLocalCall_of_apart {insts : Insts} {m : Module} (h : Compiled insts m) (outcomes : List Outcome)
    {s : JitState} (hinv : CallsInv insts m ⟨s, []⟩) (hapart : EveryStep m FramesApart outcomes ⟨s, []⟩) :
    ∀ pc ∈ (jitTrace m outcomes s).pcs, (insts.inst pc).isLocalCall = false := by
  induction outcomes generalizing s with
  | nil => exact fun pc hpc => absurd hpc List.not_mem_nil
  | cons o outcomes ih =>
      intro pc hpc
      rw [jitTrace] at hpc
      -- a step that ends the run is no local call
      have hends : ∀ e step, jitStep m o s = some (e, step) → (∀ s', step ≠ .next s') →
          (insts.inst e.pc).isLocalCall = false := by
        intro e step hstep hend
        by_contra hlocal
        obtain ⟨s', hs'⟩ := local_goesOn h hinv hstep (Bool.not_eq_false _ ▸ hlocal)
        exact hend s' hs'
      split at hpc
      · exact absurd hpc List.not_mem_nil
      · next e s' hstep =>
          obtain ⟨-, hinst, -⟩ := step_code h hinv.code hstep
          have hfirst : ¬ e.inst.isLocalCall = true := by
            intro hlocal
            have hdepth : (callsAfter ⟨s, []⟩ e).length ≤ MAX_LOCAL_FUNC_DEPTH := by
              rw [callsAfter, if_pos hlocal]
              exact Nat.le_add_left 1 31
            exact local_overlaps h hinv hstep hlocal (hapart e s' hstep hdepth).1
          have hafter : callsAfter ⟨s, []⟩ e = [] := by simp [callsAfter, hfirst]
          rcases List.mem_cons.mp hpc with rfl | hpc
          · rw [← hinst]
            exact Bool.eq_false_iff.mpr hfirst
          · have hinv' := callsInv_step h hinv hstep
            obtain ⟨-, hrest⟩ := hapart e s' hstep (by simp [hafter])
            rw [hafter] at hinv' hrest
            exact ih hinv' hrest pc hpc
      · next e hstep =>
          obtain rfl := List.mem_singleton.mp hpc
          exact hends e _ hstep fun s' hs' => by cases hs'
      · next e hstep =>
          obtain rfl := List.mem_singleton.mp hpc
          exact hends e _ hstep fun s' hs' => by cases hs'

/-- Without a local call there is nothing to get wrong. -/
theorem exact_of_noLocalCall {insts : Insts} {m : Module} (h : Compiled insts m) (stackBegin : BitVec 64)
    (outcomes : List Outcome) {s : JitState} (hinv : CallsInv insts m ⟨s, []⟩)
    (hnone : ∀ pc ∈ (jitTrace m outcomes s).pcs, (insts.inst pc).isLocalCall = false) :
    LocalCallsExact m stackBegin outcomes ⟨s, []⟩ := by
  induction outcomes generalizing s with
  | nil => trivial
  | cons o outcomes ih =>
      intro e s' hstep hdepth
      rw [jitTrace, hstep] at hnone
      obtain ⟨-, hinst, -⟩ := step_code h hinv.code hstep
      have hlocal : ¬ e.inst.isLocalCall = true := by
        rw [hinst, hnone e.pc List.mem_cons_self]
        exact Bool.false_ne_true
      have hafter : callsAfter ⟨s, []⟩ e = [] := by simp [callsAfter, hlocal]
      have hinv' := callsInv_step h hinv hstep
      rw [hafter] at hinv' ⊢
      refine ⟨⟨fun hl => absurd hl hlocal, fun hl => absurd hl hlocal, fun _ call hcall => ?_, fun _ call hcall => ?_⟩,
        ih hinv' fun pc hpc => hnone pc (List.mem_cons_of_mem _ hpc)⟩
      · cases hcall
      · cases hcall

/-- **Local calls are exact in the runs that execute none.** -/
theorem localCalls_exact_iff {args : JitArgs} {m : Module} (hm : generateModule args = .ok m)
    (stackBegin : BitVec 64) (regs : Regs) (callStack : Nat → Cell) (outcomes : List Outcome) :
    LocalCallsExact m stackBegin outcomes ⟨m.start stackBegin regs callStack, []⟩ ↔
      ∀ pc ∈ (jitTrace m outcomes (m.start stackBegin regs callStack)).pcs,
        (args.insts.inst pc).isLocalCall = false := by
  obtain ⟨-, h⟩ := generateModule_compiled hm
  have hstart : CallsInv args.insts m ⟨m.start stackBegin regs callStack, []⟩ := callsInv_start stackBegin regs callStack
  constructor
  · intro hexact
    exact noLocalCall_of_apart h outcomes hstart (hexact.mono fun _ _ _ hP => hP.1)
  · exact exact_of_noLocalCall h stackBegin outcomes hstart

/-- A function that sets `r6`, calls the one at position 3, and exits. -/
def callOnce : JitArgs where
  insts := [⟨0xb7, 6, 0, 0, 1⟩, ⟨EBPF_OP_CALL, 0, 1, 0, 1⟩, ⟨EBPF_OP_EXIT, 0, 0, 0, 0⟩, ⟨EBPF_OP_EXIT, 0, 0, 0, 0⟩]
  lddw := ⟨none, none, none, none, none⟩
  extFuncs := []
  mapValHelper := false
  patchMapValAtCompileTime := true
  isGpu := false

/-- What `generateModule` makes of `callOnce`. -/
def callOnceModule : Module where
  labels := [0, 2, 3]
  code := [(0, ⟨0, ⟨0xb7, 6, 0, 0, 1⟩, .plain⟩), (0, ⟨1, ⟨EBPF_OP_CALL, 0, 1, 0, 1⟩, .localCall 3 2⟩),
    (2, ⟨2, ⟨EBPF_OP_EXIT, 0, 0, 0, 0⟩, .exitOrReturn⟩), (3, ⟨3, ⟨EBPF_OP_EXIT, 0, 0, 0, 0⟩, .exitOrReturn⟩)]

/-- Evaluated. -/
theorem callOnce_module : generateModule callOnce = .ok callOnceModule := by
  rfl

/-- The run up to the call is exact, and the whole run, through the call, its return and the exit, is not. -/
theorem localCalls_exact_callOnce :
    LocalCallsExact callOnceModule 0 [⟨false, fun _ => 1⟩] ⟨callOnceModule.start 0 (fun _ => 0) fun _ => .reg 0, []⟩ ∧
      (jitTrace callOnceModule (List.replicate 4 ⟨false, fun _ => 1⟩)
        (callOnceModule.start 0 (fun _ => 0) fun _ => .reg 0)).pcs = [0, 1, 3, 2] ∧
      ¬ LocalCallsExact callOnceModule 0 (List.replicate 4 ⟨false, fun _ => 1⟩)
        ⟨callOnceModule.start 0 (fun _ => 0) fun _ => .reg 0, []⟩ := by
  have hiff := localCalls_exact_iff callOnce_module 0 (fun _ => 0) fun _ => .reg 0
  have hwhole : (jitTrace callOnceModule (List.replicate 4 ⟨false, fun _ => 1⟩)
      (callOnceModule.start 0 (fun _ => 0) fun _ => .reg 0)).pcs = [0, 1, 3, 2] := by decide
  refine ⟨(hiff _).mpr (by decide), hwhole, fun hexact => ?_⟩
  have hnone := (hiff _).mp hexact 1 (by rw [hwhole]; decide)
  exact absurd hnone (by decide)

/-- In the run of `callOnce` the callee's frame overlaps its caller's. -/
theorem callOnce_not_exact :
    generateModule callOnce = .ok callOnceModule ∧
      ¬ LocalCallsExact callOnceModule 0 [⟨false, fun _ => 1⟩, ⟨false, fun _ => 1⟩]
        ⟨callOnceModule.start 0 (fun _ => 0) fun _ => .reg 0, []⟩ := by
  refine ⟨callOnce_module, fun hexact => ?_⟩
  obtain ⟨-, h⟩ := generateModule_compiled callOnce_module
  have hnone := noLocalCall_of_apart h _ (callsInv_start 0 (fun _ => 0) fun _ => .reg 0) (hexact.mono fun _ _ _ hP => hP.1)
  have hcalled : 1 ∈ (jitTrace callOnceModule [⟨false, fun _ => 1⟩, ⟨false, fun _ => 1⟩]
      (callOnceModule.start 0 (fun _ => 0) fun _ => .reg 0)).pcs := by decide
  exact absurd (hnone 1 hcalled) (by decide)

end Vm
