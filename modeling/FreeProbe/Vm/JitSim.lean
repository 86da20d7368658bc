import FreeProbe.Vm.JitLayout
import FreeProbe.Vm.JitMachine

/-!
# `Vm.JitSim` — where a running module is

`At` says that the machine comes to a position next. It holds after a jump to a block that starts at the position
(`at_goto`) and after the code of the instruction before (`At.next`), whatever empty blocks lie between. `Stacked`
reads the call stack as a list of open calls, which `pushCall` and `popCall` extend and shorten.
-/

namespace Vm

/-! ## Falling through -/

section FallThrough

variable {m : Module} {s : JitState}

/-- Code that is left is run where it is. -/
theorem fallThrough_of_rest {labels : List Nat} (h : s.rest ≠ []) : m.fallThrough labels s = s := by
  cases labels with
  | nil => rfl
  | cons label labels => rw [Module.fallThrough, if_neg (by simpa using h)]

/-- Past blocks without code, to the first with code. -/
theorem fallThrough_goto {labels : List Nat} {label : Nat} (hrest : s.rest = []) (hsorted : labels.Pairwise (· < ·))
    (hmem : label ∈ labels) (hempty : ∀ l ∈ labels, l < label → m.block l = []) (hblock : m.block label ≠ []) :
    m.fallThrough labels s = m.goto s label := by
  induction labels generalizing s with
  | nil => cases hmem
  | cons l labels ih =>
      rw [Module.fallThrough, if_pos (by simp [hrest])]
      rcases List.mem_cons.mp hmem with rfl | hmem
      · exact fallThrough_of_rest hblock
      · have hlt : l < label := List.rel_of_pairwise_cons hsorted hmem
        exact ih (hempty l List.mem_cons_self hlt) hsorted.of_cons hmem fun l' hl' =>
          hempty l' (List.mem_cons_of_mem l hl')

/-- With only empty blocks behind it, none is left. -/
theorem fallThrough_rest {labels : List Nat} (hrest : s.rest = []) (hempty : ∀ l ∈ labels, m.block l = []) :
    (m.fallThrough labels s).rest = [] := by
  induction labels generalizing s with
  | nil => exact hrest
  | cons l labels ih =>
      rw [Module.fallThrough, if_pos (by simp [hrest])]
      exact ih (hempty l List.mem_cons_self) fun l' hl' => hempty l' (List.mem_cons_of_mem l hl')

end FallThrough

/-- The code of a block, from two parts of the module. -/
theorem codeIn_append (label : Nat) (code code' : List (Nat × Emitted)) :
    codeIn label (code ++ code') = codeIn label code ++ codeIn label code' := by
  simp [codeIn]

/-- A part that has none of it. -/
theorem codeIn_nil {label : Nat} {code : List (Nat × Emitted)} (h : ∀ c ∈ code, c.1 ≠ label) :
    codeIn label code = [] := by
  simpa [codeIn, List.filter_eq_nil_iff] using fun a b hc => h (a, b) hc

/-- A piece of the block, and the rest. -/
theorem codeIn_cons_self (label : Nat) (e : Emitted) (code : List (Nat × Emitted)) :
    codeIn label ((label, e) :: code) = e :: codeIn label code := by
  simp [codeIn]

/-! ## Positions of the machine -/

/-- The machine comes to position `pc` next: to the piece of code there, or to the end of the code. -/
inductive At (insts : Insts) (m : Module) (pc : Nat) (s : JitState) : Prop
  | inside {currBB label : Nat} {e : Emitted} {pre post : List (Nat × Emitted)}
      (hcut : m.code = pre ++ (label, e) :: post) (hreached : Reached insts pc currBB pre ((label, e) :: post))
      (hsettle : m.settle s = { s with block := label, rest := e :: codeIn label post }) : At insts m pc s
  | outside (hpc : insts.length ≤ pc) (hsettle : (m.settle s).rest = []) : At insts m pc s

section Positions

variable {insts : Insts} {m : Module}

/-- The blocks behind one are in order. -/
theorem after_sorted (h : Compiled insts m) (label : Nat) : (m.after label).Pairwise (· < ·) := by
  rw [Module.after, h.labels]
  exact (List.pairwise_lt_range.filter _).filter _

/-- And are those that start behind it. -/
theorem mem_after (h : Compiled insts m) {label l : Nat} :
    l ∈ m.after label ↔ l < insts.length ∧ isBlockStart insts l = true ∧ label < l := by
  simp only [Module.after, h.labels, List.mem_filter, List.mem_range, decide_eq_true_eq, and_assoc]

/-- After a jump to a block that starts at a position. -/
theorem at_goto (h : Compiled insts m) {pc : Nat} (hpc : pc ∈ positions insts) (hstart : isBlockStart insts pc = true)
    (s : JitState) : At insts m pc (m.goto s pc) := by
  obtain ⟨⟨label, e⟩, hc, rfl⟩ := h.exists_code hpc
  obtain ⟨currBB, pre, post, hcut, hreached⟩ := h.reached hc
  have hlabel : label = e.pc := by simpa [hstart] using hreached.laid.2.1
  subst hlabel
  have hblock : m.block e.pc = e :: codeIn e.pc post := by
    rw [Module.block, hcut, codeIn_append, codeIn_cons_self, codeIn_nil, List.nil_append]
    intro c hc
    have := hreached.before c hc
    simp only at this
    omega
  refine .inside hcut hreached ?_
  rw [Module.settle, fallThrough_of_rest]
  · rw [Module.goto, hblock]
  · rw [Module.goto, hblock]
    exact List.cons_ne_nil _ _

/-- After the code of the instruction before, in its block. -/
theorem at_fall (h : Compiled insts m) {pc currBB : Nat} {pre post : List (Nat × Emitted)}
    (hcut : m.code = pre ++ post) (hreached : Reached insts pc currBB pre post) {s : JitState}
    (hblock : s.block = currBB) (hrest : s.rest = codeIn currBB post) : At insts m pc s := by
  -- blocks later than this one have no code before `pc`
  have hpre : ∀ l, currBB < l → codeIn l pre = [] := by
    intro l hl
    refine codeIn_nil fun c hc => ?_
    have := hreached.before c hc
    omega
  cases post with
  | nil =>
      refine .outside hreached.laid (fallThrough_rest hrest fun l hl => ?_)
      rw [Module.block, hcut, List.append_nil]
      exact hpre l (hblock ▸ ((mem_after h).mp hl).2.2)
  | cons c post =>
      obtain ⟨label, e⟩ := c
      refine .inside hcut hreached ?_
      obtain ⟨hpc, hlabel, -⟩ := hreached.laid
      by_cases hsame : label = currBB
      · subst hsame
        rw [codeIn_cons_self] at hrest
        rw [Module.settle, fallThrough_of_rest (by rw [hrest]; exact List.cons_ne_nil _ _), ← hrest, ← hblock]
      · -- a new block starts at `pc`: what is left of this one is nothing
        have hstart : isBlockStart insts pc = true := by
          by_contra hne
          exact hsame (by rw [hlabel, if_neg hne])
        rw [if_pos hstart] at hlabel
        subst hlabel
        have hle := hreached.le
        have hlater : ∀ l, l < label → codeIn l ((label, e) :: post) = [] := by
          intro l hl
          refine codeIn_nil fun c hc => ?_
          rcases (hreached.laid.mem hc).1 with ⟨-, hne⟩ | hge
          · rw [hstart] at hne
            cases hne
          · omega
        have hgoto : m.block label = e :: codeIn label post := by
          rw [Module.block, hcut, codeIn_append, hpre label (by omega), codeIn_cons_self, List.nil_append]
        rw [hlater currBB (by omega)] at hrest
        have hmem : label ∈ m.after s.block := (mem_after h).mpr ⟨hpc, hstart, by omega⟩
        rw [Module.settle, fallThrough_goto hrest (after_sorted h s.block) hmem]
        · rw [Module.goto, hgoto]
        · intro l hl hlt
          rw [Module.block, hcut, codeIn_append, hpre l (hblock ▸ ((mem_after h).mp hl).2.2), hlater l hlt,
            List.nil_append]
        · rw [hgoto]
          exact List.cons_ne_nil _ _

/-- The module begins with the first instruction. -/
theorem at_start (h : Compiled insts m) (stackBegin : BitVec 64) (regs : Regs) (callStack : Nat → Cell) :
    At insts m 0 (m.start stackBegin regs callStack) :=
  at_fall h (List.nil_append _).symm (Reached.start h.laid) rfl rfl

/-- The next step, by the position the machine comes to. -/
inductive Fetch (insts : Insts) (m : Module) (pc : Nat) (o : Outcome) (s : JitState) : Prop
  | instruction {e : Emitted} {s₁ : JitState} (hpc : pc ∈ positions insts) (he : e.pc = pc) (hinst : e.inst = insts.inst pc)
      (hcode : CodeOf insts pc e.code) (hstep : jitStep m o s = some (e, execute m o s₁ e))
      (hsame : s₁ = { s with block := s₁.block, rest := s₁.rest })
      (hnext : ∀ s', s'.block = s₁.block → s'.rest = s₁.rest → At insts m (pc + (insts.inst pc).width) s')
  | outside (hpc : pc ∉ positions insts) (hstep : jitStep m o s = none)

/-- **What a module runs next**: the piece of the instruction that it is at. -/
theorem At.fetch (h : Compiled insts m) {pc : Nat} {s : JitState} (hat : At insts m pc s) (o : Outcome) :
    Fetch insts m pc o s := by
  cases hat with
  | @inside currBB label e pre post hcut hreached hsettle =>
      obtain ⟨-, -, he, hinst, hcode, -⟩ := hreached.laid
      have hmem : (label, e) ∈ m.code := by simp [hcut]
      have hpc : pc ∈ positions insts := he ▸ (h.codeOf hmem).1
      let s₁ : JitState := { s with block := label, rest := codeIn label post }
      refine @Fetch.instruction insts m pc o s e s₁ hpc he hinst hcode ?_ rfl ?_
      · simp only [jitStep, hsettle, s₁]
      · intro s' hblock hrest
        exact at_fall h (by simp [hcut]) hreached.next hblock hrest
  | outside hpc hsettle =>
      refine .outside (fun hmem => absurd (lt_of_mem_positions hmem) (Nat.not_lt.mpr hpc)) ?_
      simp only [jitStep, hsettle]

end Positions

/-- Code that is no terminator only writes registers. -/
theorem execute_straight {m : Module} {o : Outcome} {s : JitState} {e : Emitted} (h : e.code.isTerminator = false) :
    ∃ regs, execute m o s e = .next { s with regs := regs } := by
  unfold execute
  generalize e.code = code at h ⊢
  cases code with
  | plain => exact ⟨_, rfl⟩
  | lddw value =>
      cases value with
      | const value => exact ⟨_, rfl⟩
      | mapVal mapPtr offset => exact ⟨_, rfl⟩
      | unset => exact ⟨_, rfl⟩
  | helper index => exact ⟨_, rfl⟩
  | tailCall index => cases h
  | br dst => cases h
  | condBr dst next => cases h
  | localCall dst ret => cases h
  | exitOrReturn => cases h

/-! ## The call stack -/

/-- An open call: where it is, and the machine's state before it. -/
structure OpenCall where
  pc     : Nat
  before : JitState

/-- The call stack holds the calls, the innermost first: the return block on top of the saved registers. -/
def Stacked (callStack : Nat → Cell) : List OpenCall → Nat → Prop
  | [], count => count = 0
  | call :: calls, count =>
    call.before.callItemCnt + 5 = count ∧
      callStack (call.before.callItemCnt + 4) = .addr (call.pc + 1) ∧
      callStack (call.before.callItemCnt + 3) = .reg (call.before.regs 6) ∧
      callStack (call.before.callItemCnt + 2) = .reg (call.before.regs 7) ∧
      callStack (call.before.callItemCnt + 1) = .reg (call.before.regs 8) ∧
      callStack call.before.callItemCnt = .reg (call.before.regs 9) ∧
      Stacked callStack calls call.before.callItemCnt

/-- Only the cells below the count matter. -/
theorem Stacked.congr {callStack callStack' : Nat → Cell} {calls : List OpenCall} {count : Nat}
    (h : Stacked callStack calls count) (heq : ∀ i < count, callStack' i = callStack i) :
    Stacked callStack' calls count := by
  induction calls generalizing count with
  | nil => exact h
  | cons call calls ih =>
      obtain ⟨hcount, haddr, h6, h7, h8, h9, hcalls⟩ := h
      refine ⟨hcount, ?_, ?_, ?_, ?_, ?_, ih hcalls fun i hi => heq i (by omega)⟩
      · rw [heq _ (by omega), haddr]
      · rw [heq _ (by omega), h6]
      · rw [heq _ (by omega), h7]
      · rw [heq _ (by omega), h8]
      · rw [heq _ (by omega), h9]

/-- Five cells for each open call. -/
theorem Stacked.count_eq {callStack : Nat → Cell} {calls : List OpenCall} {count : Nat}
    (h : Stacked callStack calls count) : count = 5 * calls.length := by
  induction calls generalizing count with
  | nil => exact h
  | cons call calls ih =>
      have hcount := h.1
      have := ih h.2.2.2.2.2.2
      rw [List.length_cons]
      omega

/-- A call puts five more there: four registers and where it returns to. -/
theorem pushCall_stacked {s : JitState} {calls : List OpenCall} (h : Stacked s.callStack calls s.callItemCnt)
    (pc : Nat) : Stacked (pushCall s (pc + 1)).callStack (⟨pc, s⟩ :: calls) (pushCall s (pc + 1)).callItemCnt := by
  refine ⟨rfl, ?_, ?_, ?_, ?_, ?_, h.congr fun i hi => ?_⟩
  · simp [pushCall]
  · simp [pushCall]
  · simp [pushCall]
  · simp [pushCall]
  · simp [pushCall]
  · simp only [pushCall]
    rw [if_neg (by omega), if_neg (by omega), if_neg (by omega), if_neg (by omega), if_neg (by omega)]

/-- **A return undoes the call**: the return block is the call's, and the saved registers and the count are what
    they were before it. -/
theorem popCall_stacked {s : JitState} {call : OpenCall} {calls : List OpenCall} (o : Outcome)
    (h : Stacked s.callStack (call :: calls) s.callItemCnt) :
    s.callStack (s.callItemCnt - 1) = .addr (call.pc + 1) ∧
      (popCall o s).callItemCnt = call.before.callItemCnt ∧
      (∀ r ∈ [(6 : BitVec 4), 7, 8, 9], (popCall o s).regs r = call.before.regs r) ∧
      Stacked (popCall o s).callStack calls (popCall o s).callItemCnt := by
  obtain ⟨hcount, haddr, h6, h7, h8, h9, hcalls⟩ := h
  have hpop : s.callItemCnt - 5 = call.before.callItemCnt := by omega
  refine ⟨?_, hpop, ?_, ?_⟩
  · rw [← hcount, ← haddr]
    rfl
  · simp only [List.forall_mem_cons, List.not_mem_nil, false_imp_iff, implies_true, and_true, popCall, ← hcount]
    refine ⟨?_, ?_, ?_, ?_⟩
    · simp [h6, Cell.load]
    · simp [h7, Cell.load]
    · simp [h8, Cell.load]
    · simp [h9, Cell.load]
  · simp only [popCall, hpop]
    exact hcalls

end Vm
