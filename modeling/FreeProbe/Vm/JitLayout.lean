import FreeProbe.Vm.JitEmit

/-!
# `Vm.JitLayout` — the code of a module, and which modules there are

Where the code of each instruction lies: `Laid` follows the emission loop, and `Reached` cuts the code at an
instruction. With it the check of the terminators becomes a condition on the instructions, and
`generateModule_spec` says which vectors are accepted and which are refused with an error.
-/

namespace Vm

/-! ## The code of the module

One list of pieces: each instruction has its code, and a block begins where a jump or a return leads. -/

/-- Code laid out from `pc` on, where `currBB` is the block before: one piece for each instruction, in the block
    that starts at it or else in the one before. -/
def Laid (insts : Insts) : Nat → Nat → List (Nat × Emitted) → Prop
  | pc, _, [] => insts.length ≤ pc
  | pc, currBB, (label, e) :: code =>
    pc < insts.length ∧ label = (if isBlockStart insts pc then pc else currBB) ∧ e.pc = pc ∧ e.inst = insts.inst pc ∧
      CodeOf insts pc e.code ∧ Laid insts (pc + (insts.inst pc).width) label code

/-- The loop lays the pieces of code out in the order of the instructions. -/
theorem emitFrom_laid {args : JitArgs} {fuel pc currBB : Nat} {code : List (Nat × Emitted)}
    (hfuel : args.insts.length ≤ pc + fuel)
    (h : emitFrom args (isBlockStart args.insts) fuel pc currBB = .ok code) : Laid args.insts pc currBB code := by
  induction fuel generalizing pc currBB code with
  | zero =>
      cases h
      exact hfuel
  | succ fuel ih =>
      rw [emitFrom] at h
      split at h
      · next hpc =>
          have hw := width_pos (args.insts.inst pc)
          obtain ⟨c, hc, h⟩ := bind_eq_ok h
          obtain ⟨rest, hrest, h⟩ := bind_eq_ok h
          cases h
          exact ⟨hpc, rfl, rfl, rfl, emitInst_code args pc c hc, ih (by omega) hrest⟩
      · next hpc =>
          cases h
          exact Nat.le_of_not_lt hpc

/-- There is one piece for each instruction. -/
theorem Laid.pcs {insts : Insts} {fuel pc currBB : Nat} {code : List (Nat × Emitted)}
    (h : Laid insts pc currBB code) (hfuel : insts.length ≤ pc + fuel) :
    code.map (fun c => c.2.pc) = positionsFrom insts fuel pc := by
  induction fuel generalizing pc currBB code with
  | zero =>
      cases code with
      | nil => rfl
      | cons c code =>
          have := h.1
          omega
  | succ fuel ih =>
      rw [positionsFrom]
      cases code with
      | nil => rw [if_neg (Nat.not_lt.mpr h), List.map_nil]
      | cons c code =>
          obtain ⟨hpc, -, he, -, -, hrest⟩ := h
          have hw := width_pos (insts.inst pc)
          rw [if_pos hpc, List.map_cons, he, ih hrest (by omega)]

/-- Pieces of code from `pc` on are at positions from `pc` on, and in the block before or one from `pc` on. -/
theorem Laid.mem {insts : Insts} {pc currBB : Nat} {code : List (Nat × Emitted)} (h : Laid insts pc currBB code)
    {c : Nat × Emitted} (hc : c ∈ code) : (c.1 = currBB ∧ isBlockStart insts pc = false ∨ pc ≤ c.1) ∧ pc ≤ c.2.pc := by
  induction code generalizing pc currBB with
  | nil => cases hc
  | cons d code ih =>
      obtain ⟨-, hlabel, he, -, -, hrest⟩ := h
      have hw := width_pos (insts.inst pc)
      rcases List.mem_cons.mp hc with rfl | hc
      · refine ⟨?_, he.ge⟩
        cases hstart : isBlockStart insts pc with
        | true => exact Or.inr (by simp [hlabel, hstart])
        | false => exact Or.inl ⟨by simp [hlabel, hstart], rfl⟩
      · obtain ⟨hmem, hle⟩ := ih hrest hc
        refine ⟨?_, by omega⟩
        rcases hmem with ⟨hmem, -⟩ | hmem
        · rw [hmem, hlabel]
          cases hstart : isBlockStart insts pc with
          | true => exact Or.inr (by simp)
          | false => exact Or.inl ⟨by simp, rfl⟩
        · exact Or.inr (by omega)

/-- Which is what the instruction asks for. -/
theorem Laid.codeOf {insts : Insts} {pc currBB : Nat} {code : List (Nat × Emitted)} (h : Laid insts pc currBB code)
    {c : Nat × Emitted} (hc : c ∈ code) : c.2.inst = insts.inst c.2.pc ∧ CodeOf insts c.2.pc c.2.code := by
  induction code generalizing pc currBB with
  | nil => cases hc
  | cons d code ih =>
      obtain ⟨-, -, he, hinst, hcode, hrest⟩ := h
      rcases List.mem_cons.mp hc with rfl | hc
      · rw [he]
        exact ⟨hinst, hcode⟩
      · exact ih hrest hc

/-! ## Cutting the code at an instruction

What stands behind an instruction is the code of the next, unless a block begins there. -/

/-- The code of a module is `pre` and then `post`, the code from `pc` on; `currBB` is the block before. -/
structure Reached (insts : Insts) (pc currBB : Nat) (pre post : List (Nat × Emitted)) : Prop where
  laid    : Laid insts pc currBB post
  le      : currBB ≤ pc
  isStart : isBlockStart insts currBB = true
  before  : ∀ c ∈ pre, c.1 ≤ currBB ∧ c.1 ≤ c.2.pc ∧ c.2.pc < pc
  own     : ∀ c ∈ pre, isBlockStart insts c.2.pc = true → c.1 = c.2.pc
  passed  : currBB ≠ pc → currBB ∈ pre.map fun c => c.2.pc

/-- The first instruction is reached with nothing before it. -/
theorem Reached.start {insts : Insts} {code : List (Nat × Emitted)} (h : Laid insts 0 0 code) :
    Reached insts 0 0 [] code where
  laid := h
  le := Nat.le_refl 0
  isStart := isBlockStart_zero insts
  before := fun _ hc => absurd hc List.not_mem_nil
  own := fun _ hc => absurd hc List.not_mem_nil
  passed := fun hne => absurd rfl hne

/-- From one instruction to the next. -/
theorem Reached.next {insts : Insts} {pc currBB label : Nat} {pre post : List (Nat × Emitted)} {e : Emitted}
    (h : Reached insts pc currBB pre ((label, e) :: post)) :
    Reached insts (pc + (insts.inst pc).width) label (pre ++ [(label, e)]) post := by
  obtain ⟨-, hlabel, he, -, -, hrest⟩ := h.laid
  have hw := width_pos (insts.inst pc)
  have hle := h.le
  -- a block starts here, or the current one goes on
  have hbb : currBB ≤ label ∧ label ≤ pc ∧ isBlockStart insts label = true ∧
      (isBlockStart insts pc = true → label = pc) ∧ (label = pc ∨ label = currBB) := by
    cases hstart : isBlockStart insts pc with
    | true =>
        rw [hstart] at hlabel
        simp [hlabel, hle, hstart]
    | false =>
        rw [hstart] at hlabel
        simp [hlabel, hle, h.isStart]
  obtain ⟨hcurr, hpc, hstart, hown, hfrom⟩ := hbb
  refine ⟨hrest, by omega, hstart, fun c hc => ?_, fun c hc hstart => ?_, fun _ => ?_⟩
  · rcases List.mem_append.mp hc with hc | hc
    · have := h.before c hc
      omega
    · cases List.mem_singleton.mp hc
      refine ⟨Nat.le_refl label, ?_, ?_⟩
      · rw [he]
        exact hpc
      · rw [he]
        omega
  · rcases List.mem_append.mp hc with hc | hc
    · exact h.own c hc hstart
    · cases List.mem_singleton.mp hc
      rw [he] at hstart ⊢
      exact hown hstart
  · rw [List.map_append, List.mem_append]
    by_cases hlab : label = pc
    · exact Or.inr (by simp [he, hlab])
    · have hcarried := hfrom.resolve_left hlab
      rw [hcarried] at hlab ⊢
      exact Or.inl (h.passed hlab)

/-- The code can be cut at every piece. -/
theorem Reached.exists_cut {insts : Insts} {pc currBB : Nat} {pre post : List (Nat × Emitted)}
    (h : Reached insts pc currBB pre post) {c : Nat × Emitted} (hc : c ∈ post) :
    ∃ currBB' pre' post', pre ++ post = pre' ++ c :: post' ∧ Reached insts c.2.pc currBB' pre' (c :: post') := by
  induction post generalizing pc currBB pre with
  | nil => cases hc
  | cons d post ih =>
      rcases List.mem_cons.mp hc with rfl | hc
      · refine ⟨currBB, pre, post, rfl, ?_⟩
        rw [h.laid.2.2.1]
        exact h
      · obtain ⟨currBB', pre', post', hcut, hreached⟩ := ih h.next hc
        exact ⟨currBB', pre', post', by rw [← hcut, List.append_assoc, List.singleton_append], hreached⟩

/-! ## The modules of a vector

What `generateModule` returns, as the loop over the instructions leaves it. -/

/-- What `generateModule` builds of a vector: the block starts as labels, and the code laid out over them. -/
structure Compiled (insts : Insts) (m : Module) : Prop where
  labels : m.labels = (List.range insts.length).filter (isBlockStart insts)
  laid   : Laid insts 0 0 m.code

namespace Compiled

variable {insts : Insts} {m : Module}

/-- The labels are the starts of blocks. -/
theorem mem_labels (h : Compiled insts m) (hne : insts ≠ []) {l : Nat} :
    l ∈ m.labels ↔ isBlockStart insts l = true := by
  rw [h.labels, List.mem_filter, List.mem_range]
  refine ⟨fun hl => hl.2, fun hl => ⟨?_, hl⟩⟩
  rcases Nat.eq_zero_or_pos l with rfl | hpos
  · exact List.length_pos_iff.mpr hne
  · exact isBlockStart_lt (Nat.ne_of_gt hpos) hl

/-- One piece of code for each instruction. -/
theorem pcs (h : Compiled insts m) : m.code.map (fun c => c.2.pc) = positions insts :=
  h.laid.pcs (Nat.le_add_left _ _)

/-- So each has one. -/
theorem exists_code (h : Compiled insts m) {p : Nat} (hp : p ∈ positions insts) : ∃ c ∈ m.code, c.2.pc = p := by
  rw [← h.pcs] at hp
  exact List.mem_map.mp hp

/-- And each piece is reached by the loop. -/
theorem reached (h : Compiled insts m) {c : Nat × Emitted} (hc : c ∈ m.code) :
    ∃ currBB pre post, m.code = pre ++ c :: post ∧ Reached insts c.2.pc currBB pre (c :: post) :=
  (Reached.start h.laid).exists_cut hc

/-- Each piece of code is its instruction's. -/
theorem codeOf (h : Compiled insts m) {c : Nat × Emitted} (hc : c ∈ m.code) :
    c.2.pc ∈ positions insts ∧ c.2.inst = insts.inst c.2.pc ∧ CodeOf insts c.2.pc c.2.code := by
  rw [← h.pcs]
  exact ⟨List.mem_map_of_mem hc, h.laid.codeOf hc⟩

end Compiled

/-- The code of the instruction ends its block. -/
def EbpfInst.terminates (inst : EbpfInst) : Prop :=
  inst.opcode = EBPF_OP_JA ∨ inst.opcode = EBPF_OP_JA_IMM ∨ inst.opcode = EBPF_OP_EXIT ∨
    inst.opcode ∈ condJmpOpcodes ∨ inst.isCall = true ∧ (inst.src = 0x1 ∨ inst.imm = BPF_TAIL_CALL)

/-- The pieces that end a block are those of the instructions that do. -/
theorem CodeOf.isTerminator_iff {insts : Insts} {pc : Nat} {code : Code} (h : CodeOf insts pc code) :
    code.isTerminator = true ↔ (insts.inst pc).terminates := by
  -- straight-line code and helper calls go on
  have hgoesOn : ¬ (insts.inst pc).terminates → (false = true ↔ (insts.inst pc).terminates) :=
    fun hnot => iff_of_false Bool.false_ne_true hnot
  cases h with
  | plain hop =>
      obtain ⟨hja, hjaImm, hexit, hcond, hcall⟩ := plain_not_control (Or.inl hop)
      refine hgoesOn ?_
      rintro (h | h | h | h | ⟨h, -⟩)
      exacts [hja h, hjaImm h, hexit h, hcond h, hcall (EbpfInst.isCall_iff.mp h)]
  | lddw value hop =>
      obtain ⟨hja, hjaImm, hexit, hcond, hcall⟩ := plain_not_control (Or.inr hop)
      refine hgoesOn ?_
      rintro (h | h | h | h | ⟨h, -⟩)
      exacts [hja h, hjaImm h, hexit h, hcond h, hcall (EbpfInst.isCall_iff.mp h)]
  | helper hcall hsrc himm =>
      obtain ⟨hja, hjaImm, hexit, hcond⟩ := call_not_jump (EbpfInst.isCall_iff.mp hcall)
      refine hgoesOn ?_
      rintro (h | h | h | h | ⟨-, h | h⟩)
      exacts [hja h, hjaImm h, hexit h, hcond h, hsrc h, himm h]
  | ja hop => exact iff_of_true rfl (Or.inl hop)
  | jaImm hop => exact iff_of_true rfl (Or.inr (Or.inl hop))
  | exit hop => exact iff_of_true rfl (Or.inr (Or.inr (Or.inl hop)))
  | condJmp hop => exact iff_of_true rfl (Or.inr (Or.inr (Or.inr (Or.inl hop))))
  | localCall hlocal =>
      obtain ⟨hcall, hsrc⟩ := Bool.and_eq_true_iff.mp hlocal
      exact iff_of_true rfl (Or.inr (Or.inr (Or.inr (Or.inr ⟨hcall, Or.inl (beq_iff_eq.mp hsrc)⟩))))
  | tailCall hcall hsrc himm => exact iff_of_true rfl (Or.inr (Or.inr (Or.inr (Or.inr ⟨hcall, Or.inr himm⟩))))

/-- What stands after a jump or a call, if there is a block. -/
theorem succ_found {insts : Insts} {pc : Nat} (hpc : pc ∈ positions insts)
    (hop : (insts.inst pc).opcode ≠ EBPF_OP_LDDW) (hstart : isBlockStart insts (pc + 1) = true) :
    pc + 1 ∈ positions insts := by
  have hwidth : (insts.inst pc).width = 1 := if_neg hop
  rw [← hwidth]
  refine next_mem_positions hpc ?_
  rw [hwidth]
  exact isBlockStart_lt (Nat.succ_ne_zero pc) hstart

/-- A local call stands before the block it returns to. -/
theorem ret_found {insts : Insts} {pc : Nat} (hpc : pc ∈ positions insts) (hret : HasReturnBlock insts pc) :
    pc + 1 ∈ positions insts ∧ isBlockStart insts (pc + 1) = true := by
  obtain ⟨-, hlt, hop⟩ := hret
  have hjmp : isJmp (insts.inst pc) = true := by
    rw [isJmp, hop]
    decide
  have hne : (insts.inst pc).opcode ≠ EBPF_OP_LDDW := by
    rw [hop]
    decide
  have hstart := isBlockStart_succ hjmp hlt
  exact ⟨succ_found hpc hne hstart, hstart⟩

/-- The last block holds an instruction that ends it. -/
def LastBlockEnds (insts : Insts) : Prop :=
  ∀ last, isBlockStart insts last = true → (∀ i, isBlockStart insts i = true → i ≤ last) →
    last ∈ positions insts ∧ ∃ p ∈ positions insts, last ≤ p ∧ (insts.inst p).terminates

namespace Compiled

variable {insts : Insts} {m : Module}

/-- A block with code starts at a position, and holds code from there on. -/
theorem label_mem (h : Compiled insts m) {c : Nat × Emitted} (hc : c ∈ m.code) :
    c.1 ∈ positions insts ∧ c.1 ≤ c.2.pc := by
  obtain ⟨currBB, pre, post, hcut, hreached⟩ := h.reached hc
  have hlabel := hreached.laid.2.1
  split at hlabel
  · rw [hlabel]
    exact ⟨(h.codeOf hc).1, Nat.le_refl _⟩
  · next hstart =>
      rw [hlabel]
      have hne : currBB ≠ c.2.pc := fun heq => hstart (heq ▸ hreached.isStart)
      refine ⟨?_, hreached.le⟩
      rw [← h.pcs, hcut, List.map_append]
      exact List.mem_append_left _ (hreached.passed hne)

/-- The code from the last block start on is in that block. -/
theorem last_label (h : Compiled insts m) {last : Nat} (hlast : last ∈ positions insts)
    (hstart : isBlockStart insts last = true) (hmax : ∀ i, isBlockStart insts i = true → i ≤ last)
    {c : Nat × Emitted} (hc : c ∈ m.code) (hle : last ≤ c.2.pc) : c.1 = last := by
  obtain ⟨currBB, pre, post, hcut, hreached⟩ := h.reached hc
  have hlabel := hreached.laid.2.1
  split at hlabel
  · next hpc =>
      have := hmax _ hpc
      omega
  · next hpc =>
      have hne : last ≠ c.2.pc := fun heq => hpc (heq ▸ hstart)
      -- the piece at the last start comes before, and the block has been its own since
      obtain ⟨d, hd, rfl⟩ := h.exists_code hlast
      have hpre : d ∈ pre := by
        rw [hcut] at hd
        rcases List.mem_append.mp hd with hd | hd
        · exact hd
        · have := (hreached.laid.mem hd).2
          omega
      have hown := hreached.own d hpre hstart
      have hbefore := (hreached.before d hpre).1
      have := hmax _ hreached.isStart
      omega

/-- LLVM's check of the module: each block has a terminator, which falling through gives to all but the last. -/
theorem verify_iff (h : Compiled insts m) (hne : insts ≠ []) : m.verify = true ↔ LastBlockEnds insts := by
  have hafter : ∀ l, (m.after l).isEmpty = false ↔ ∃ i, isBlockStart insts i = true ∧ l < i := by
    intro l
    simp [Module.after, h.mem_labels hne]
  have hends : ∀ l, m.hasTerminator l = true ↔ ∃ c ∈ m.code, c.1 = l ∧ (insts.inst c.2.pc).terminates := by
    intro l
    simp only [Module.hasTerminator, Module.block, codeIn, List.any_map, List.any_filter, List.any_eq_true, Function.comp,
      Bool.and_eq_true, beq_iff_eq]
    refine exists_congr fun c => and_congr_right fun hc => and_congr_right fun _ => ?_
    exact (h.codeOf hc).2.2.isTerminator_iff
  simp only [Module.verify, List.all_eq_true, h.mem_labels hne, Bool.or_eq_true, Bool.not_eq_true', hafter, hends]
  constructor
  · intro hall last hstart hmax
    rcases hall last hstart with ⟨c, hc, rfl, hterm⟩ | ⟨i, hi, hlt⟩
    · exact ⟨(h.label_mem hc).1, c.2.pc, (h.codeOf hc).1, (h.label_mem hc).2, hterm⟩
    · exact absurd (hmax i hi) (Nat.not_le.mpr hlt)
  · intro hends l hl
    -- a block with another one behind it falls through
    by_cases hlater : ∃ i, isBlockStart insts i = true ∧ l < i
    · exact Or.inr hlater
    · have hmax : ∀ i, isBlockStart insts i = true → i ≤ l := by
        intro i hi
        exact Nat.le_of_not_lt fun hlt => hlater ⟨i, hi, hlt⟩
      obtain ⟨hpos, p, hp, hle, hterm⟩ := hends l hl hmax
      obtain ⟨c, hc, rfl⟩ := h.exists_code hp
      exact Or.inl ⟨c, hc, h.last_label hpos hl hmax hc hle, hterm⟩

end Compiled

/-! ## Which vectors there are modules of

And the vectors for which it returns one. -/

/-- `generateModule` returns a module. -/
def Accepted (args : JitArgs) : Prop :=
  args.insts ≠ [] ∧ args.insts.length ≤ 0xffff ∧ ImmJmpsInside args.insts ∧
    (∀ p ∈ positions args.insts, Emittable args p) ∧ (args.isGpu = true ∨ LastBlockEnds args.insts)

/-- `generateModule` returns an error. -/
def Refused (args : JitArgs) : Prop :=
  args.insts = [] ∨
    args.insts.length ≤ 0xffff ∧ ImmJmpsInside args.insts ∧
      ¬ (∃ p ∈ positions args.insts, FailsAssertion args.insts p ∧
          ∀ q ∈ positions args.insts, q < p → Emittable args q) ∧
      ¬ ((∀ p ∈ positions args.insts, Emittable args p) ∧ (args.isGpu = true ∨ LastBlockEnds args.insts))

/-- The emission of the whole vector. -/
theorem emission (args : JitArgs) :
    Emission (∀ p ∈ positions args.insts, Emittable args p)
      (∃ p ∈ positions args.insts, FailsAssertion args.insts p ∧
        ∀ q ∈ positions args.insts, q < p → Emittable args q)
      (emitFrom args (isBlockStart args.insts) args.insts.length 0 0) :=
  emitFrom_spec args args.insts.length 0 0

/-- The check at the end, on the code of the vector. -/
theorem generateModule_of_code {args : JitArgs} (hne : args.insts ≠ []) (hlen : args.insts.length ≤ 0xffff)
    (hinside : ImmJmpsInside args.insts) {code : List (Nat × Emitted)}
    (hcode : emitFrom args (isBlockStart args.insts) args.insts.length 0 0 = .ok code) :
    let m : Module := ⟨(List.range args.insts.length).filter (isBlockStart args.insts), code⟩
    Compiled args.insts m ∧
      (args.isGpu = true ∨ LastBlockEnds args.insts → generateModule args = .ok m) ∧
      (¬ (args.isGpu = true ∨ LastBlockEnds args.insts) → generateModule args = .error (.error .invalidModule)) := by
  intro m
  have hcompiled : Compiled args.insts m := ⟨rfl, emitFrom_laid (Nat.le_add_left _ _) hcode⟩
  have hrun : generateModule args = if !args.isGpu && !m.verify then .error (.error .invalidModule) else .ok m := by
    unfold generateModule
    rw [if_neg (by simpa using hne), if_neg (Nat.not_lt.mpr hlen), splitBlocks_ok hinside]
    simp only [bind, Except.bind]
    rw [hcode]
  rw [hrun, ← hcompiled.verify_iff hne]
  refine ⟨hcompiled, fun h => ?_, fun h => ?_⟩
  · exact if_neg (by simpa [or_iff_not_imp_left] using h)
  · exact if_pos (by simpa using h)

/-- How `generateModule` ends. -/
inductive ModuleSpec (args : JitArgs) : JitResult Module → Prop
  | accepted {m : Module} (h : Accepted args) (hrefused : ¬ Refused args) (hcompiled : Compiled args.insts m) :
      ModuleSpec args (.ok m)
  | refused {e : JitError} (h : Refused args) (haccepted : ¬ Accepted args) : ModuleSpec args (.error (.error e))
  | undefined (hrefused : ¬ Refused args) (haccepted : ¬ Accepted args) : ModuleSpec args (.error .undefined)
  | diverges (hrefused : ¬ Refused args) (haccepted : ¬ Accepted args) : ModuleSpec args (.error .diverges)

/-- **When there is a module**, and what comes instead. -/
theorem generateModule_spec (args : JitArgs) : ModuleSpec args (generateModule args) := by
  -- the checks in their order: an empty program, one that is too long, a jump out of it, and then the instructions
  by_cases hne : args.insts = []
  · rw [generateModule, if_pos (by simp [hne])]
    exact .refused (Or.inl hne) fun h => h.1 hne
  by_cases hlen : args.insts.length ≤ 0xffff
  · by_cases hinside : ImmJmpsInside args.insts
    · by_cases hemit : ∀ p ∈ positions args.insts, Emittable args p
      · obtain ⟨code, hcode⟩ := (emission args).ok hemit
        obtain ⟨hcompiled, hok, herror⟩ := generateModule_of_code hne hlen hinside hcode
        have hnofail : ¬ (∃ p ∈ positions args.insts, FailsAssertion args.insts p ∧
            ∀ q ∈ positions args.insts, q < p → Emittable args q) := fun h => ((emission args).undefined h).1 hemit
        by_cases hverify : args.isGpu = true ∨ LastBlockEnds args.insts
        · rw [hok hverify]
          refine .accepted ⟨hne, hlen, hinside, hemit, hverify⟩ ?_ hcompiled
          rintro (h | ⟨-, -, -, h⟩)
          exacts [hne h, h ⟨hemit, hverify⟩]
        · rw [herror hverify]
          exact .refused (Or.inr ⟨hlen, hinside, hnofail, fun h => hverify h.2⟩) fun h => hverify h.2.2.2.2
      · have hrun : ∀ f, emitFrom args (isBlockStart args.insts) args.insts.length 0 0 = .error f →
            generateModule args = .error f := by
          intro f hf
          rw [generateModule, if_neg (by simpa using hne), if_neg (Nat.not_lt.mpr hlen), splitBlocks_ok hinside]
          simp only [bind, Except.bind]
          rw [hf]
        by_cases hfail : ∃ p ∈ positions args.insts, FailsAssertion args.insts p ∧
            ∀ q ∈ positions args.insts, q < p → Emittable args q
        · rw [hrun _ ((emission args).undefined hfail).2]
          refine .undefined ?_ fun h => hemit h.2.2.2.1
          rintro (h | ⟨-, -, h, -⟩)
          exacts [hne h, h hfail]
        · obtain ⟨e, he⟩ := (emission args).refused hemit hfail
          rw [hrun _ he]
          exact .refused (Or.inr ⟨hlen, hinside, hfail, fun h => hemit h.1⟩) fun h => hemit h.2.2.2.1
    · rw [generateModule, if_neg (by simpa using hne), if_neg (Nat.not_lt.mpr hlen), splitBlocks_undefined hinside]
      refine .undefined ?_ fun h => hinside h.2.2.1
      rintro (h | ⟨-, h, -⟩)
      exacts [hne h, hinside h]
  · rw [generateModule, if_neg (by simpa using hne), if_pos (Nat.lt_of_not_le hlen)]
    refine .diverges ?_ fun h => hlen h.2.1
    rintro (h | ⟨h, -⟩)
    exacts [hne h, hlen h]

/-- A program that meets the conditions has a module. -/
theorem generateModule_accepted {args : JitArgs} (h : Accepted args) :
    ∃ m, generateModule args = .ok m ∧ Compiled args.insts m := by
  have hspec := generateModule_spec args
  generalize generateModule args = r at hspec ⊢
  cases hspec with
  | accepted _ _ hcompiled => exact ⟨_, rfl, hcompiled⟩
  | refused _ haccepted => exact absurd h haccepted
  | undefined _ haccepted => exact absurd h haccepted
  | diverges _ haccepted => exact absurd h haccepted

/-- And each module comes from such a program. -/
theorem generateModule_compiled {args : JitArgs} {m : Module} (h : generateModule args = .ok m) :
    Accepted args ∧ Compiled args.insts m := by
  have hspec := generateModule_spec args
  rw [h] at hspec
  cases hspec with
  | accepted haccepted _ hcompiled => exact ⟨haccepted, hcompiled⟩

/-- The others are refused. -/
theorem generateModule_refused_iff (args : JitArgs) :
    (∃ e, generateModule args = .error (.error e)) ↔ Refused args := by
  have hspec := generateModule_spec args
  generalize generateModule args = r at hspec ⊢
  cases hspec with
  | accepted _ hrefused => simp [hrefused]
  | refused hrefused => simp [hrefused]
  | undefined hrefused => simp [hrefused]
  | diverges hrefused => simp [hrefused]

end Vm
