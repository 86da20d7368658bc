import FreeProbe.Vm.JitSim

/-!
# `Vm.JitControlFlow` — the emitted control flow against eBPF's

Where no jump or call has a bad target, a module steps with the eBPF program (`step_sim`) as long as its call stack
has room, so the two execute the same instructions. `controlFlow_exact_iff` puts this together with what
`generateModule` refuses.
-/

namespace Vm

/-! ## Targets

Block ids are 16-bit numbers, and so are the positions of an accepted vector. -/

/-- A target in the 16-bit range is its own block id. -/
theorem dstBlkId_of_lt {target : Int} (hle : 0 ≤ target) (hlt : target < 0x10000) :
    dstBlkId target = target.toNat := by
  rw [dstBlkId, BitVec.toNat_ofInt, Int.emod_eq_of_lt hle (by simpa using hlt)]

/-- So is the next instruction, as a program has at most 65535. -/
theorem dstBlkId_succ {insts : Insts} {pc : Nat} (hlen : insts.length ≤ 0xffff) (hpc : pc < insts.length) :
    dstBlkId (pc + 1) = pc + 1 := by
  rw [dstBlkId_of_lt (by omega) (by omega)]
  omega

/-- The target of a jump by offset. -/
theorem target_offset {insts : Insts} {pc : Nat}
    (h : (insts.inst pc).opcode = EBPF_OP_JA ∨ (insts.inst pc).opcode ∈ condJmpOpcodes) :
    (insts.inst pc).target pc = some ((insts.inst pc).offsetTarget pc) := by
  have hnot : ∀ op ∈ EBPF_OP_JA :: condJmpOpcodes,
      op ≠ EBPF_OP_JA_IMM ∧ ¬ (op = EBPF_OP_CALL ∨ op = EBPF_OP_CALL ||| 0x8) := by decide +kernel
  obtain ⟨hjaImm, hcall⟩ := hnot _ (List.mem_cons.mpr h)
  have hlocal : ¬ (insts.inst pc).isLocalCall = true :=
    fun h => hcall (EbpfInst.isCall_iff.mp (Bool.and_eq_true_iff.mp h).1)
  rw [EbpfInst.target, if_neg (not_or.mpr ⟨hjaImm, hlocal⟩), if_pos h]

/-- A target that is a position is found as what it is. -/
theorem target_found {insts : Insts} {pc : Nat} {target : Int} (hgood : ¬ HasBadTarget insts)
    (hlen : insts.length ≤ 0xffff) (hpc : pc ∈ positions insts) (htarget : (insts.inst pc).target pc = some target)
    (hblock : HasBlock insts target) :
    jumpTo insts target ∈ positions insts ∧ isBlockStart insts (jumpTo insts target) = true ∧
      dstBlkId target = jumpTo insts target := by
  have hpos : 0 ≤ target ∧ target.toNat ∈ positions insts := by
    by_contra hbad
    exact hgood ⟨pc, hpc, target, htarget, hbad⟩
  have hlt := lt_of_mem_positions hpos.2
  have hid : dstBlkId target = target.toNat := dstBlkId_of_lt hpos.1 (by omega)
  rw [HasBlock, hid] at hblock
  rw [jumpTo, if_pos hpos.1]
  exact ⟨hpos.2, hblock, hid⟩

/-! ## The eBPF step, by the code

Where an instruction goes, by its opcode. -/

section FlowStep

variable {insts : Insts} {taken : Bool} {pc : Nat} {returns : List Nat}

/-- To the next instruction. -/
theorem flowStep_plain (hop : (insts.inst pc).opcode ∈ plainOpcodes ∨ (insts.inst pc).opcode = EBPF_OP_LDDW) :
    flowStep insts taken pc returns = .next (pc + (insts.inst pc).width) returns := by
  obtain ⟨hja, hjaImm, hexit, hcond, hcall⟩ := plain_not_control hop
  have hcall : ¬ (insts.inst pc).isCall = true := fun h => hcall (EbpfInst.isCall_iff.mp h)
  have hlocal : ¬ (insts.inst pc).isLocalCall = true := fun h => hcall (Bool.and_eq_true_iff.mp h).1
  simp only [flowStep]
  rw [if_neg hja, if_neg hjaImm, if_neg hcond, if_neg hlocal, if_neg fun h => hcall h.1, if_neg hexit]

/-- The same after a helper. -/
theorem flowStep_helper (hcall : (insts.inst pc).isCall = true) (hsrc : (insts.inst pc).src ≠ 0x1)
    (himm : (insts.inst pc).imm ≠ BPF_TAIL_CALL) :
    flowStep insts taken pc returns = .next (pc + (insts.inst pc).width) returns := by
  obtain ⟨hja, hjaImm, hexit, hcond⟩ := call_not_jump (EbpfInst.isCall_iff.mp hcall)
  have hlocal : ¬ (insts.inst pc).isLocalCall = true := by simpa [EbpfInst.isLocalCall, hcall] using hsrc
  simp only [flowStep]
  rw [if_neg hja, if_neg hjaImm, if_neg hcond, if_neg hlocal, if_neg fun h => himm h.2, if_neg hexit]

/-- A tail call does not come back. -/
theorem flowStep_tailCall (hcall : (insts.inst pc).isCall = true) (hsrc : (insts.inst pc).src ≠ 0x1)
    (himm : (insts.inst pc).imm = BPF_TAIL_CALL) : flowStep insts taken pc returns = .leave := by
  obtain ⟨hja, hjaImm, hexit, hcond⟩ := call_not_jump (EbpfInst.isCall_iff.mp hcall)
  have hlocal : ¬ (insts.inst pc).isLocalCall = true := by simpa [EbpfInst.isLocalCall, hcall] using hsrc
  simp only [flowStep]
  rw [if_neg hja, if_neg hjaImm, if_neg hcond, if_neg hlocal, if_pos ⟨hcall, himm⟩]

/-- To the function, and the next instruction is where it returns to. -/
theorem flowStep_localCall (hlocal : (insts.inst pc).isLocalCall = true) :
    flowStep insts taken pc returns = .next (jumpTo insts ((insts.inst pc).immTarget pc)) ((pc + 1) :: returns) := by
  have hcall := EbpfInst.isCall_iff.mp (Bool.and_eq_true_iff.mp hlocal).1
  obtain ⟨hja, hjaImm, hexit, hcond⟩ := call_not_jump hcall
  simp only [flowStep]
  rw [if_neg hja, if_neg hjaImm, if_neg hcond, if_pos hlocal]

/-- To the target or to the next instruction. -/
theorem flowStep_condJmp (hop : (insts.inst pc).opcode ∈ condJmpOpcodes) :
    flowStep insts taken pc returns =
      .next (if taken then jumpTo insts ((insts.inst pc).offsetTarget pc) else pc + 1) returns := by
  have hnot : ∀ op ∈ condJmpOpcodes, op ≠ EBPF_OP_JA ∧ op ≠ EBPF_OP_JA_IMM := by decide +kernel
  obtain ⟨hja, hjaImm⟩ := hnot _ hop
  simp only [flowStep]
  rw [if_neg hja, if_neg hjaImm, if_pos hop]

/-- To the target. -/
theorem flowStep_ja (hop : (insts.inst pc).opcode = EBPF_OP_JA) :
    flowStep insts taken pc returns = .next (jumpTo insts ((insts.inst pc).offsetTarget pc)) returns :=
  if_pos hop

/-- The same, with the offset in `imm`. -/
theorem flowStep_jaImm (hop : (insts.inst pc).opcode = EBPF_OP_JA_IMM) :
    flowStep insts taken pc returns = .next (jumpTo insts ((insts.inst pc).immTarget pc)) returns := by
  have hja : (insts.inst pc).opcode ≠ EBPF_OP_JA := by
    rw [hop]
    decide
  simp only [flowStep]
  rw [if_neg hja, if_pos hop]

/-- To the caller, if a local function is open. -/
theorem flowStep_exit (hop : (insts.inst pc).opcode = EBPF_OP_EXIT) :
    flowStep insts taken pc returns =
      match returns with
      | [] => .leave
      | ret :: returns => .next ret returns := by
  have hnot : EBPF_OP_EXIT ≠ EBPF_OP_JA ∧ EBPF_OP_EXIT ≠ EBPF_OP_JA_IMM ∧ EBPF_OP_EXIT ∉ condJmpOpcodes ∧
      ¬ (EBPF_OP_EXIT = EBPF_OP_CALL ∨ EBPF_OP_EXIT = EBPF_OP_CALL ||| 0x8) := by decide
  rw [← hop] at hnot
  obtain ⟨hja, hjaImm, hcond, hcall⟩ := hnot
  have hcall : ¬ (insts.inst pc).isCall = true := fun h => hcall (EbpfInst.isCall_iff.mp h)
  have hlocal : ¬ (insts.inst pc).isLocalCall = true := fun h => hcall (Bool.and_eq_true_iff.mp h).1
  cases returns with
  | nil =>
      simp only [flowStep]
      rw [if_neg hja, if_neg hjaImm, if_neg hcond, if_neg hlocal, if_neg fun h => hcall h.1, if_pos hop]
  | cons ret returns =>
      simp only [flowStep]
      rw [if_neg hja, if_neg hjaImm, if_neg hcond, if_neg hlocal, if_neg fun h => hcall h.1, if_pos hop]

end FlowStep

/-! ## The simulation

The machine's call stack has the open calls of the program, so both go to the same place. -/

/-- The machine comes to `pc` next, and its call stack holds the open calls. -/
structure Sim (insts : Insts) (m : Module) (pc : Nat) (returns : List Nat) (s : JitState) : Prop where
  here   : At insts m pc s
  calls  : ∃ calls : List OpenCall, calls.map (fun call => call.pc + 1) = returns ∧
    Stacked s.callStack calls s.callItemCnt
  starts : ∀ ret ∈ returns, ret ∈ positions insts ∧ isBlockStart insts ret = true
  depth  : returns.length ≤ CALL_STACK_SIZE

/-- One step of the machine beside one step of eBPF. -/
inductive StepSim (insts : Insts) (m : Module) (o : Outcome) (pc : Nat) (returns : List Nat) (s : JitState) : Prop
  | next {e : Emitted} {s' : JitState} {pc' : Nat} {returns' : List Nat} (he : e.pc = pc)
      (hflow : flowStep insts o.taken pc returns = .next pc' returns') (hstep : jitStep m o s = some (e, .next s'))
      (hsim : Sim insts m pc' returns' s')
  | leave {e : Emitted} (he : e.pc = pc) (hflow : flowStep insts o.taken pc returns = .leave)
      (hstep : jitStep m o s = some (e, .leave))
  | overflow {e : Emitted} {pc' : Nat} {returns' : List Nat} (he : e.pc = pc)
      (hflow : flowStep insts o.taken pc returns = .next pc' returns') (hdepth : CALL_STACK_SIZE < returns'.length)
      (hstep : jitStep m o s = some (e, .undefined))

section Simulation

variable {insts : Insts} {m : Module}

/-- The module starts at the first instruction with no call open. -/
theorem sim_start (h : Compiled insts m) (stackBegin : BitVec 64) (regs : Regs) (callStack : Nat → Cell) :
    Sim insts m 0 [] (m.start stackBegin regs callStack) where
  here := at_start h stackBegin regs callStack
  calls := ⟨[], rfl, rfl⟩
  starts := fun _ hret => absurd hret List.not_mem_nil
  depth := Nat.zero_le _

/-- **A step of the module is a step of eBPF**, where no target is bad and the call stack has room. -/
theorem step_sim (h : Compiled insts m) (hgood : ¬ HasBadTarget insts) (hlen : insts.length ≤ 0xffff) {pc : Nat}
    {returns : List Nat} {s : JitState} (hsim : Sim insts m pc returns s) (hpc : pc ∈ positions insts) (o : Outcome) :
    StepSim insts m o pc returns s := by
  obtain ⟨hat, ⟨calls, hcalls, hstacked⟩, hstarts, hdepth⟩ := hsim
  cases hat.fetch h o with
  | outside hout => exact absurd hpc hout
  | @instruction e s₁ _ he hinst hcode hstep hsame hnext =>
  have hcs : s₁.callStack = s.callStack ∧ s₁.callItemCnt = s.callItemCnt := by
    rw [hsame]
    exact ⟨rfl, rfl⟩
  rw [← hcs.1, ← hcs.2] at hstacked
  -- what goes on without a jump
  have hplain : e.code.isTerminator = false →
      flowStep insts o.taken pc returns = .next (pc + (insts.inst pc).width) returns →
      StepSim insts m o pc returns s := by
    intro hterm hflow
    obtain ⟨regs, hexec⟩ := @execute_straight m o s₁ e hterm
    rw [hexec] at hstep
    exact .next he hflow hstep ⟨hnext _ rfl rfl, ⟨calls, hcalls, hstacked⟩, hstarts, hdepth⟩
  -- what jumps to a block
  have hjump : ∀ dst, execute m o s₁ e = .next (m.goto s₁ dst) → dst ∈ positions insts →
      isBlockStart insts dst = true → flowStep insts o.taken pc returns = .next dst returns →
      StepSim insts m o pc returns s := by
    intro dst hexec hdst hstart hflow
    rw [hexec] at hstep
    exact .next he hflow hstep ⟨at_goto h hdst hstart s₁, ⟨calls, hcalls, hstacked⟩, hstarts, hdepth⟩
  generalize hc : e.code = code at hcode
  cases hcode with
  | plain hop => exact hplain (by rw [hc]; rfl) (flowStep_plain (Or.inl hop))
  | lddw value hop => exact hplain (by rw [hc]; rfl) (flowStep_plain (Or.inr hop))
  | helper hcall hsrc himm => exact hplain (by rw [hc]; rfl) (flowStep_helper hcall hsrc himm)
  | tailCall hcall hsrc himm =>
      exact .leave he (flowStep_tailCall hcall hsrc himm) (by simp only [hstep, execute, hc])
  | ja hop hdst =>
      obtain ⟨hpos, hstart, hid⟩ := target_found hgood hlen hpc (target_offset (Or.inl hop)) hdst
      exact hjump _ (by simp only [execute, hc, hid]) hpos hstart (flowStep_ja hop)
  | jaImm hop hdst =>
      obtain ⟨hpos, hstart, hid⟩ := target_found hgood hlen hpc (if_pos (Or.inl hop)) hdst
      exact hjump _ (by simp only [execute, hc, hid]) hpos hstart (flowStep_jaImm hop)
  | condJmp hop hdst hnextBlk =>
      have hflow : flowStep insts o.taken pc returns = _ := flowStep_condJmp hop
      cases htaken : o.taken with
      | true =>
          rw [htaken] at hflow
          obtain ⟨hpos, hstart, hid⟩ := target_found hgood hlen hpc (target_offset (Or.inr hop)) hdst
          exact hjump _ (by simp only [execute, hc, htaken, hid, if_pos]) hpos hstart (by rw [htaken]; exact hflow)
      | false =>
          rw [htaken] at hflow
          have hid := dstBlkId_succ hlen (lt_of_mem_positions hpc)
          have hne : (insts.inst pc).opcode ≠ EBPF_OP_LDDW := fun hlddw => by
            rw [hlddw] at hop
            exact absurd hop (by decide)
          rw [HasBlock, hid] at hnextBlk
          refine hjump (pc + 1) ?_ (succ_found hpc hne hnextBlk) hnextBlk (by rw [htaken]; exact hflow)
          simp only [execute, hc, htaken, hid, Bool.false_eq_true, if_false]
  | localCall hlocal hret hdst =>
      obtain ⟨hpos, hstart, hid⟩ := target_found hgood hlen hpc (if_pos (Or.inr hlocal)) hdst
      have hcount := hstacked.count_eq
      have hlength : calls.length = returns.length := by rw [← hcalls, List.length_map]
      have hflow : flowStep insts o.taken pc returns = _ := flowStep_localCall hlocal
      by_cases hroom : returns.length < CALL_STACK_SIZE
      · have hexec : execute m o s₁ e = .next (m.goto (pushCall s₁ (pc + 1)) (jumpTo insts ((insts.inst pc).immTarget pc))) := by
          simp only [execute, hc, hid]
          exact if_neg (by omega)
        rw [hexec] at hstep
        refine .next he hflow hstep
          ⟨at_goto h hpos hstart _, ⟨⟨pc, s₁⟩ :: calls, by simp [hcalls], pushCall_stacked hstacked pc⟩, ?_, hroom⟩
        intro ret hmem
        rcases List.mem_cons.mp hmem with rfl | hmem
        · exact ret_found hpc hret
        · exact hstarts ret hmem
      · have hexec : execute m o s₁ e = .undefined := by
          simp only [execute, hc]
          exact if_pos (by omega)
        exact .overflow he hflow (by rw [List.length_cons]; omega) (by rw [hstep, hexec])
  | exit hop =>
      have hflow : flowStep insts o.taken pc returns = _ := flowStep_exit hop
      cases calls with
      | nil =>
          subst hcalls
          have hexec : execute m o s₁ e = .leave := by
            simp only [execute, hc]
            exact if_pos hstacked
          exact .leave he hflow (by rw [hstep, hexec])
      | cons call calls =>
          subst hcalls
          obtain ⟨hret, -, -, hrest⟩ := popCall_stacked o hstacked
          have hcount := hstacked.1
          have hexec : execute m o s₁ e = .next (m.goto (popCall o s₁) (call.pc + 1)) := by
            simp only [execute, hc, hret]
            exact if_neg (by omega)
          obtain ⟨hpos, hstart⟩ := hstarts (call.pc + 1) List.mem_cons_self
          rw [hexec] at hstep
          refine .next he hflow hstep
            ⟨at_goto h hpos hstart _, ⟨calls, rfl, hrest⟩, fun ret hmem => hstarts ret (List.mem_cons_of_mem _ hmem), ?_⟩
          exact Nat.le_of_succ_le hdepth

/-! ## Runs -/

section Unfold

variable {taken : Bool} {os : List Bool} {pc pc' : Nat} {returns returns' : List Nat}

/-- The trace of a run that goes on. -/
theorem flowTrace_next (hpc : pc ∈ positions insts) (hflow : flowStep insts taken pc returns = .next pc' returns') :
    flowTrace insts (taken :: os) pc returns = (flowTrace insts os pc' returns').cons pc := by
  rw [flowTrace, if_pos hpc, hflow]

/-- And of one that ends. -/
theorem flowTrace_leave (hpc : pc ∈ positions insts) (hflow : flowStep insts taken pc returns = .leave) :
    flowTrace insts (taken :: os) pc returns = ⟨[pc], .left⟩ := by
  rw [flowTrace, if_pos hpc, hflow]

/-- The open calls of a run that goes on. -/
theorem openCalls_next (hpc : pc ∈ positions insts) (hflow : flowStep insts taken pc returns = .next pc' returns') :
    openCalls insts (taken :: os) pc returns = openCalls insts os pc' returns' := by
  rw [openCalls, if_pos hpc, hflow]

/-- And of one that ends. -/
theorem openCalls_leave (hpc : pc ∈ positions insts) (hflow : flowStep insts taken pc returns = .leave) :
    openCalls insts (taken :: os) pc returns = returns := by
  rw [openCalls, if_pos hpc, hflow]

end Unfold

/-- A run that never has too many calls open is that of the module. -/
theorem trace_of_nested (h : Compiled insts m) (hgood : ¬ HasBadTarget insts) (hlen : insts.length ≤ 0xffff)
    (outcomes : List Outcome) {pc : Nat} {returns : List Nat} {s : JitState} (hsim : Sim insts m pc returns s)
    (hnested : ∀ os : List Bool, (openCalls insts os pc returns).length ≤ CALL_STACK_SIZE) :
    jitTrace m outcomes s = flowTrace insts (outcomes.map Outcome.taken) pc returns := by
  induction outcomes generalizing pc returns s with
  | nil => rfl
  | cons o outcomes ih =>
      rw [List.map_cons, jitTrace]
      by_cases hpc : pc ∈ positions insts
      · cases step_sim h hgood hlen hsim hpc o with
        | next he hflow hstep hsim' =>
            rw [hstep, flowTrace_next hpc hflow, ← he]
            refine congrArg (Trace.cons _) (ih hsim' fun os => ?_)
            rw [← openCalls_next hpc hflow]
            exact hnested (o.taken :: os)
        | leave he hflow hstep =>
            rw [hstep, flowTrace_leave hpc hflow, ← he]
        | overflow he hflow hdepth hstep =>
            -- the call that has no room is one too many
            have := hnested [o.taken]
            rw [openCalls_next hpc hflow, openCalls] at this
            exact absurd this (Nat.not_le.mpr hdepth)
      · cases hsim.here.fetch h o with
        | instruction hin => exact absurd hin hpc
        | outside _ hstep => rw [hstep, flowTrace, if_neg hpc]

/-- A run with one call too many is not: the module leaves where it should go on. -/
theorem nested_of_trace (h : Compiled insts m) (hgood : ¬ HasBadTarget insts) (hlen : insts.length ≤ 0xffff)
    (os : List Bool) {pc : Nat} {returns : List Nat} {s : JitState} (hsim : Sim insts m pc returns s)
    (htrace : ∀ outcomes, jitTrace m outcomes s = flowTrace insts (outcomes.map Outcome.taken) pc returns) :
    (openCalls insts os pc returns).length ≤ CALL_STACK_SIZE := by
  -- the first step that goes wrong is a call with the call stack full
  induction os generalizing pc returns s with
  | nil => exact hsim.depth
  | cons taken os ih =>
      by_cases hpc : pc ∈ positions insts
      · cases step_sim h hgood hlen hsim hpc ⟨taken, fun _ => 0⟩ with
        | next he hflow hstep hsim' =>
            rw [openCalls_next hpc hflow]
            refine ih hsim' fun outcomes => ?_
            have := htrace (⟨taken, fun _ => 0⟩ :: outcomes)
            rw [List.map_cons, jitTrace, hstep, flowTrace_next hpc hflow] at this
            simp only [Trace.cons, Trace.mk.injEq, List.cons.injEq] at this
            exact congrArg₂ Trace.mk this.1.2 this.2
        | leave he hflow hstep =>
            rw [openCalls_leave hpc hflow]
            exact hsim.depth
        | overflow he hflow hdepth hstep =>
            have := htrace [⟨taken, fun _ => 0⟩]
            rw [List.map_cons, jitTrace, hstep, flowTrace_next hpc hflow] at this
            cases congrArg Trace.last this
      · rw [openCalls, if_neg hpc]
        exact hsim.depth

end Simulation

/-! ## The front end as a whole

What the passes refuse, and what becomes of the vectors that they do not. -/

/-- Every run of a module executes what eBPF does, and a vector with a bad target gets none. -/
def ControlFlowExact (args : JitArgs) : Prop :=
  (∀ m, generateModule args = .ok m → ∀ (stackBegin : BitVec 64) (regs : Regs) (callStack : Nat → Cell) outcomes,
    jitTrace m outcomes (m.start stackBegin regs callStack) =
      flowTrace args.insts (outcomes.map Outcome.taken) 0 []) ∧
  (HasBadTarget args.insts → ∃ e, generateModule args = .error (.error e))

/-- **Control flow is exact** except for vectors with a bad target that the checks of `generateModule` let pass,
    and for accepted ones that nest more local calls than the call stack holds. -/
theorem controlFlow_exact_iff (args : JitArgs) :
    ControlFlowExact args ↔
      (HasBadTarget args.insts → Refused args) ∧
        (¬ HasBadTarget args.insts → Accepted args → CallsNestAtMost args.insts CALL_STACK_SIZE) := by
  unfold ControlFlowExact
  rw [generateModule_refused_iff, and_comm]
  refine and_congr_right fun hrefused => ?_
  by_cases hbad : HasBadTarget args.insts
  · -- refused, so there is no module
    refine iff_of_true (fun m hm => ?_) fun hgood => absurd hbad hgood
    obtain ⟨e, he⟩ := (generateModule_refused_iff args).mpr (hrefused hbad)
    rw [he] at hm
    cases hm
  · constructor
    · intro htrace _ haccepted os
      obtain ⟨m, hm, hcompiled⟩ := generateModule_accepted haccepted
      exact nested_of_trace hcompiled hbad haccepted.2.1 os (sim_start hcompiled 0 (fun _ => 0) fun _ => .reg 0)
        (htrace m hm 0 (fun _ => 0) fun _ => .reg 0)
    · intro hnested m hm stackBegin regs callStack outcomes
      obtain ⟨haccepted, hcompiled⟩ := generateModule_compiled hm
      exact trace_of_nested hcompiled hbad haccepted.2.1 outcomes (sim_start hcompiled stackBegin regs callStack)
        (hnested hbad haccepted)

/-- No callback, no helper. -/
def noLddw : LddwHelpers := ⟨none, none, none, none, none⟩

/-- A jump to the second slot of an `LDDW`: `JA +1`, the `LDDW`, `JA +0`, `EXIT`. -/
def jumpToSlot : JitArgs where
  insts := [⟨EBPF_OP_JA, 0, 0, 1, 0⟩, ⟨EBPF_OP_LDDW, 1, 0, 0, 7⟩, ⟨0, 0, 0, 0, 0⟩, ⟨EBPF_OP_JA, 0, 0, 0, 0⟩,
    ⟨EBPF_OP_EXIT, 0, 0, 0, 0⟩]
  lddw := noLddw
  extFuncs := []
  mapValHelper := false
  patchMapValAtCompileTime := true
  isGpu := false

/-- The vector is accepted; its first jump goes past the jump at position 3. -/
theorem jumpToSlot_not_exact : ¬ ControlFlowExact jumpToSlot := by
  intro h
  have hbad : HasBadTarget jumpToSlot.insts := ⟨0, by decide, 2, by decide, by decide⟩
  obtain ⟨e, he⟩ := h.2 hbad
  have haccepted : (generateModule jumpToSlot).isOk = true := by decide +kernel
  rw [he] at haccepted
  cases haccepted

end Vm
