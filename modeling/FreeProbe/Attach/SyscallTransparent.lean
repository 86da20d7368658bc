import FreeProbe.Attach.SyscallHook

/-!
# `Attach.SyscallTransparent` — what a traced system call does

The run goes through the rewritten instruction and page zero (`reaches_hookerAsm`), the assembly up to its call
(`reaches_cxx`, with what the stack holds then in `AtCxx`), the compiled function and `call_orig_syscall`
(`reaches_orig`), and back. Everything the hook writes lies in `Scratch`, below the caller's stack pointer, which
includes the red zone: the call instruction itself writes its first eight bytes.
-/

namespace TextSegment

open X86

variable {kernel : Kernel} {image : Image} {a site next : Word} {s : State} {traps : List Trap} {frame : Nat}
variable {kept : Reg → Prop}

/-! ## The traced text

The rewriting replaces the two bytes of a `syscall`. Everything else is run as it was. -/

/-- Outside page zero there is only the rewriting. -/
theorem traced_eq {ins : TextInsn} (h : image.text a = some (ins, next)) :
    image.traced a = rewriteSegment image.syscallAddr image.text a := by
  have hpage : ¬ a.toNat < 0x1000 := by
    intro hlt
    rw [image.pageZero a hlt] at h
    cases h
  have hjump : a ≠ 512 ∧ a ≠ 513 ∧ a ≠ 523 := by
    refine ⟨?_, ?_, ?_⟩ <;> rintro rfl <;> exact hpage (by decide)
  unfold Image.traced setupSyscallTracer
  rw [if_neg (by unfold nrSyscalls; omega), if_neg hjump.1, if_neg hjump.2.1, if_neg hjump.2.2, if_neg hpage]

/-- An instruction of the text is run, unless it is a `syscall` that was rewritten. -/
theorem traced_of_text {ins : TextInsn} (h : image.text a = some (ins, next))
    (hins : ins ≠ .syscall ∨ a = image.syscallAddr) : image.traced a = some (ins, next) := by
  rw [traced_eq h]
  unfold rewriteSegment
  rw [h]
  split
  · rename_i heq
    cases heq
    rcases hins with hins | hins
    · exact absurd rfl hins
    · rw [if_neg (by simp [hins])]
  · rfl

/-- A rewritten instruction. -/
theorem traced_syscall (h : image.text a = some (.syscall, next)) (hne : a ≠ image.syscallAddr) :
    image.traced a = some (.callReg .rax, next) := by
  rw [traced_eq h]
  unfold rewriteSegment
  rw [h]
  exact if_pos hne

/-- So code without a `syscall` is run as it stands. -/
theorem traced_codeAt {seg : List TextInsn} {b : Word} (h : CodeAt image.text a seg b)
    (hseg : ∀ ins ∈ seg, ins ≠ .syscall) : CodeAt image.traced a seg b := by
  induction seg generalizing a with
  | nil => exact h
  | cons ins rest ih =>
      obtain ⟨next, hins, hrest⟩ := h
      have hne : ins ≠ .syscall := hseg ins (List.mem_cons_self ..)
      exact ⟨next, traced_of_text hins (.inl hne), ih hrest fun ins' hins' => hseg ins' (List.mem_cons_of_mem _ hins')⟩

/-! ## Page zero

The call through `rax` lands at the number of the system call, on page zero, and slides to the jump at its end. -/

/-- The run of nops ends at the jump sequence, wherever it starts. -/
theorem reaches_nops (s : State) (traps : List Trap) {n : Nat} (hn : n ≤ 512) :
    Reaches kernel image.traced ⟨BitVec.ofNat 64 n, s, traps⟩ ⟨512, s, traps⟩ := by
  obtain ⟨k, hk⟩ : ∃ k, n + k = 512 := ⟨512 - n, by omega⟩
  -- on how many no-ops are left before the code at 512
  induction k generalizing n with
  | zero =>
      obtain rfl : n = 512 := hk
      exact Reaches.refl
  | succ k ih =>
      have hnop : image.traced (BitVec.ofNat 64 n) = some (.nop, BitVec.ofNat 64 n + 1) := by
        unfold Image.traced setupSyscallTracer
        rw [if_pos]
        rw [BitVec.toNat_ofNat]
        unfold nrSyscalls
        omega
      have hnext : BitVec.ofNat 64 n + 1 = BitVec.ofNat 64 (n + 1) := by
        rw [BitVec.ofNat_add]
        rfl
      rw [hnext] at hnop
      exact Reaches.head (step_falls hnop rfl) (ih (by omega) (by omega))

/-- The code behind the `nop`s on page zero. -/
theorem pageZero_code (image : Image) : CodeAt image.traced 512 [.pushReg .rax, .movImm .rax image.hookerAsm] 523 :=
  ⟨513, rfl, 523, rfl, rfl⟩

/-- What page zero hands to the assembly: the return address and the number on the stack. -/
def landed (s : State) (next hookerAsm : Word) : State := ((s.push next).push (s.regs .rax)).setReg .rax hookerAsm

/-- The rewritten instruction leads to the assembly. -/
theorem reaches_hookerAsm (kernel : Kernel) (traps : List Trap) (hsite : image.text site = some (.syscall, next)) (hne : site ≠ image.syscallAddr)
    (hnr : (s.regs .rax).toNat < nrSyscalls) :
    Reaches kernel image.traced ⟨site, s, traps⟩
      ⟨image.hookerAsm, landed s next image.hookerAsm, traps⟩ := by
  -- the traced text has `call *%rax` where the system call was: it lands in page zero, at the call's number
  refine Reaches.head (step_at (traced_syscall hsite hne)) ?_
  have hnops : Reaches kernel image.traced ⟨s.regs .rax, s.push next, traps⟩ ⟨512, s.push next, traps⟩ := by
    have h : Reaches kernel image.traced ⟨BitVec.ofNat 64 (s.regs .rax).toNat, s.push next, traps⟩
        ⟨512, s.push next, traps⟩ := reaches_nops _ _ hnr.le
    rwa [BitVec.ofNat_toNat, BitVec.setWidth_eq] at h
  refine Reaches.trans hnops (Reaches.trans (reaches_codeAt (pageZero_code image) rfl) ?_)
  have hjump : image.traced 523 = some (.jmpReg .rax, 525) := rfl
  exact Reaches.head (step_at hjump) Reaches.refl

/-! ## The assembly

`syscall_hooker_asm`, in two parts: it aligns a frame and pushes the registers, and it loads the arguments of a C
function from what it pushed. -/

/-- The stack pointer of the aligned frame: the caller's, two words down and rounded to 16. -/
def alignedRsp (rsp : Word) : Word := below rsp 2 &&& -16

/-- Where the hook writes: the compiled function's frame, nine words, the rounding and two words more. -/
def Scratch (rsp : Word) (frame : Nat) (x : Word) : Prop :=
  InRange (rsp - BitVec.ofNat 64 (103 + frame)) (103 + frame) x

/-- The values that `saveArgs` pushes. -/
def savedArgs (regs : Reg → Word) : List Word :=
  [regs .rax, regs .rdi, regs .rsi, regs .rdx, regs .r10, regs .r8, regs .r9]

/-- The frame is aligned, and the old frame pointer pushed. -/
theorem alignFrame_effects (p : State) (R : Word) (hrsp : p.regs .rsp = below R 1) :
    (effects alignFrame p).regs .rsp = alignedRsp R ∧ (effects alignFrame p).regs .rbp = below R 2 ∧
    (effects alignFrame p).mem = p.mem.write64 (below R 2) (p.regs .rbp) ∧
    ∀ r, r ≠ .rsp → r ≠ .rbp → r ≠ .rcx → (effects alignFrame p).regs r = p.regs r := by
  have hR : p.regs .rsp - 8 = below R 2 := by
    rw [hrsp, below_sub]
  refine ⟨?_, ?_, ?_, fun r hr hr' hr'' => ?_⟩
  · show p.regs .rsp - 8 &&& -16 = _
    rw [hR]
    rfl
  · exact hR
  · show p.mem.write64 (p.regs .rsp - 8) (p.regs .rbp) = _
    rw [hR]
  · simp [effects, alignFrame, TextInsn.effect, hr, hr', hr'']

/-- The loads read the pushed words back. -/
theorem loadArgs_effects (p : State) (A : Word) (hrsp : p.regs .rsp = below A 7) :
    (effects loadArgs p).regs .rsp = below A 8 ∧
    (effects loadArgs p).mem = p.mem.write64 (below A 8) (p.mem.read64 (below A 7)) ∧
    (effects loadArgs p).regs .rdi = p.mem.read64 (below A 1) ∧
    (effects loadArgs p).regs .rsi = p.mem.read64 (below A 2) ∧
    (effects loadArgs p).regs .rdx = p.mem.read64 (below A 3) ∧
    (effects loadArgs p).regs .rcx = p.mem.read64 (below A 4) ∧
    (effects loadArgs p).regs .r8 = p.mem.read64 (below A 5) ∧
    (effects loadArgs p).regs .r9 = p.mem.read64 (below A 6) ∧
    ∀ r, r ≠ .rsp → r ∉ argumentRegs → (effects loadArgs p).regs r = p.regs r := by
  have hword : ∀ k j, k + j = 7 → p.regs .rsp + BitVec.ofNat 64 (8 * j) = below A k := by
    intro k j hkj
    rw [hrsp, ← hkj, below_add]
  refine ⟨?_, ?_, ?_, ?_, ?_, ?_, ?_, ?_, fun r hr hr' => ?_⟩
  · show p.regs .rsp - 8 = _
    rw [hrsp, below_sub]
  · show p.mem.write64 (p.regs .rsp - 8) (p.mem.read64 (p.regs .rsp + 0)) = _
    rw [← hword 7 0 rfl, ← below_sub, hrsp]
    rfl
  · exact congrArg p.mem.read64 (hword 1 6 rfl)
  · exact congrArg p.mem.read64 (hword 2 5 rfl)
  · exact congrArg p.mem.read64 (hword 3 4 rfl)
  · exact congrArg p.mem.read64 (hword 4 3 rfl)
  · exact congrArg p.mem.read64 (hword 5 2 rfl)
  · exact congrArg p.mem.read64 (hword 6 1 rfl)
  · simp only [argumentRegs, List.mem_cons, List.not_mem_nil, or_false, not_or] at hr'
    simp [effects, loadArgs, TextInsn.effect, hr, hr']

/-! ## Where the stack words lie

The hook writes below the caller's stack pointer only. How far below is fixed, but for the rounding to 16 bytes. -/

/-- Aligning goes down by less than 16 bytes more. -/
theorem alignedRsp_eq (R : Word) : ∃ d, d < 16 ∧ alignedRsp R = R - BitVec.ofNat 64 (16 + d) := by
  obtain ⟨d, hd, hA, -⟩ := and_neg16 (below R 2)
  refine ⟨d, hd, hA.trans ?_⟩
  unfold below
  rw [BitVec.ofNat_add]
  abel

/-- The two words above the aligned frame are not in it. -/
theorem aligned_apart {R x : Word} {i j : Nat} (hi : i < 2 ^ 32) (hj : 1 ≤ j ∧ j ≤ 2) (h : InRange (below R j) 8 x) :
    ¬ InRange (below (alignedRsp R) (i + 1)) 8 x := by
  obtain ⟨d, hd, hA⟩ := alignedRsp_eq R
  have hi' : (BitVec.ofNat 64 (8 * (i + 1))).toNat = 8 * (i + 1) := by rw [BitVec.toNat_ofNat]; omega
  have hj' : (BitVec.ofNat 64 (8 * j)).toNat = 8 * j := by rw [BitVec.toNat_ofNat]; omega
  have hd' : (BitVec.ofNat 64 (16 + d)).toNat = 16 + d := by rw [BitVec.toNat_ofNat]; omega
  rw [hA]
  unfold InRange below at *
  bv_omega

/-- The words above the alignment are scratch. -/
theorem scratch_above {R x : Word} {j : Nat} (hframe : frame < 2 ^ 32) (hj : 1 ≤ j ∧ j ≤ 2)
    (h : InRange (below R j) 8 x) : Scratch R frame x :=
  inRange_below h (by omega) (by omega) (by omega)

/-- A word of the aligned frame, counted from the caller's stack pointer. -/
theorem below_aligned (R : Word) (i : Nat) :
    ∃ d, d < 16 ∧ below (alignedRsp R) i = R - BitVec.ofNat 64 (16 + d + 8 * i) := by
  obtain ⟨d, hd, hA⟩ := alignedRsp_eq R
  refine ⟨d, hd, ?_⟩
  unfold below
  rw [hA, BitVec.ofNat_add (16 + d)]
  abel

/-- And so are those below it. -/
theorem scratch_aligned {R x : Word} {i : Nat} (hframe : frame < 2 ^ 32) (hi : 1 ≤ i ∧ i ≤ 9)
    (h : InRange (below (alignedRsp R) i) 8 x) : Scratch R frame x := by
  obtain ⟨d, hd, hA⟩ := below_aligned R i
  rw [hA] at h
  exact inRange_below h (by omega) (by omega) (by omega)

/-- The compiled function's stack is scratch, and apart from the two words above the aligned frame. -/
theorem scratch_ownStack {R x : Word} (hframe : frame < 2 ^ 32)
    (h : ownStack (below (alignedRsp R) 9) frame x) : Scratch R frame x := by
  obtain ⟨d, hd, hA⟩ := below_aligned R 9
  have hbase : below (alignedRsp R) 9 - BitVec.ofNat 64 frame = R - BitVec.ofNat 64 (16 + d + 72 + frame) := by
    rw [hA, BitVec.ofNat_add (16 + d + 72)]
    abel
  unfold ownStack at h
  rw [hbase] at h
  exact inRange_below h (by omega) (by omega) (by omega)

/-- What is pushed first is out of the reach of the callee. -/
theorem ownStack_apart {R x : Word} {j : Nat} (hframe : frame < 2 ^ 32) (hj : 1 ≤ j ∧ j ≤ 2)
    (h : InRange (below R j) 8 x) : ¬ ownStack (below (alignedRsp R) 9) frame x := by
  obtain ⟨d, hd, hA⟩ := alignedRsp_eq R
  have hj' : (BitVec.ofNat 64 (8 * j)).toNat = 8 * j := by rw [BitVec.toNat_ofNat]; omega
  have hd' : (BitVec.ofNat 64 (16 + d)).toNat = 16 + d := by rw [BitVec.toNat_ofNat]; omega
  have hf' : (BitVec.ofNat 64 frame).toNat = frame := by rw [BitVec.toNat_ofNat]; omega
  rw [hA]
  unfold ownStack InRange below at *
  bv_omega

/-! ## Up to the compiled function -/

/-- The stack when the assembly calls: its own pushes on top of the two words from the way in. -/
def calledMem (s : State) (next back : Word) : Mem :=
  let A := alignedRsp (s.regs .rsp)
  let under := ((s.mem.write64 (below (s.regs .rsp) 1) next).write64 (below (s.regs .rsp) 2) (s.regs .rax)).write64
    (below (s.regs .rsp) 2) (s.regs .rbp)
  (((pushed A under 0 (savedArgs s.regs)).write64 (below A 8) (s.regs .r9))).write64 (below A 9) back

/-- Above the alignment the memory has what was pushed there. -/
theorem calledMem_aligned (s : State) (next back : Word) {j : Nat} (hj : 1 ≤ j ∧ j ≤ 2) :
    (calledMem s next back).read64 (below (s.regs .rsp) j) =
      (((s.mem.write64 (below (s.regs .rsp) 1) next).write64 (below (s.regs .rsp) 2) (s.regs .rax)).write64
        (below (s.regs .rsp) 2) (s.regs .rbp)).read64 (below (s.regs .rsp) j) := by
  refine read64_congr fun x hx => ?_
  have hout : ∀ i, 1 ≤ i → i ≤ 9 → ¬ InRange (below (alignedRsp (s.regs .rsp)) i) 8 x := by
    intro i hi hi'
    obtain ⟨i, rfl⟩ := Nat.exists_eq_add_of_le' hi
    exact aligned_apart (by omega) hj hx
  unfold calledMem
  rw [write64_frame (hout 9 (by decide) (by decide)), write64_frame (hout 8 (by decide) (by decide))]
  exact pushed_frame fun i hi hi' => hout i hi (by simp [savedArgs] at hi'; omega)

/-- Out of the scratch nothing has changed. -/
theorem calledMem_scratch (s : State) (next back : Word) {x : Word} (hx : ¬ Scratch (s.regs .rsp) 0 x) :
    calledMem s next back x = s.mem x := by
  have hout : ∀ i, 1 ≤ i → i ≤ 9 → ¬ InRange (below (alignedRsp (s.regs .rsp)) i) 8 x :=
    fun i hi hi' h => hx (scratch_aligned (by decide) ⟨hi, hi'⟩ h)
  have hover : ∀ j, 1 ≤ j → j ≤ 2 → ¬ InRange (below (s.regs .rsp) j) 8 x :=
    fun j hj hj' h => hx (scratch_above (by decide) ⟨hj, hj'⟩ h)
  unfold calledMem
  rw [write64_frame (hout 9 (by decide) (by decide)), write64_frame (hout 8 (by decide) (by decide)),
    pushed_frame fun i hi hi' => hout i hi (by simp [savedArgs] at hi'; omega),
    write64_frame (hover 2 (by decide) (by decide)), write64_frame (hover 2 (by decide) (by decide)),
    write64_frame (hover 1 (by decide) (by decide))]

/-- The assembly's code, taken apart at the branch and at the call. -/
theorem hookerAsm_parts (image : Image) : ∃ a₁ a₂ a₃ back,
    CodeAt image.traced image.hookerAsm popNumber a₁ ∧
    image.traced a₁ = some (.je image.syscallAddr, a₂) ∧
    CodeAt image.traced a₂ (alignFrame ++ saveArgs ++ loadArgs) a₃ ∧
    image.traced a₃ = some (.call image.hookerCxx, back) ∧
    CodeAt image.traced back [.leave, .ret] image.hookerAsmEnd := by
  have hcode : CodeAt image.traced image.hookerAsm (popNumber ++ .je image.syscallAddr ::
      ((alignFrame ++ saveArgs ++ loadArgs) ++ [.call image.hookerCxx, .leave, .ret])) image.hookerAsmEnd := by
    refine traced_codeAt image.hookerAsm_code ?_
    simp [popNumber, alignFrame, saveArgs, loadArgs]
  obtain ⟨a₁, hpop, a₂, hje, hrest⟩ := codeAt_append hcode
  obtain ⟨a₃, hbody, back, hcall, hback⟩ := codeAt_append hrest
  exact ⟨a₁, a₂, a₃, back, hpop, hje, hbody, hcall, hback⟩

/-- The registers of the call, `k` words under the aligned frame. -/
def calledRegs (regs : Reg → Word) (R : Word) (k : Nat) : Reg → Word
  | .rsp => below (alignedRsp R) k
  | .rbp => below R 2
  | .rdi => regs .rax
  | .rsi => regs .rdi
  | .rdx => regs .rsi
  | .rcx => regs .rdx
  | .r8 => regs .r10
  | .r9 => regs .r8
  | r => regs r

/-- The assembly's own part of the stack frame, when it is entered with the return address one word under `R`. -/
theorem body_effects (p : State) (R : Word) (hrsp : p.regs .rsp = below R 1) :
    (effects (alignFrame ++ saveArgs ++ loadArgs) p).regs = calledRegs p.regs R 8 ∧
    (effects (alignFrame ++ saveArgs ++ loadArgs) p).mem =
      (pushed (alignedRsp R) (p.mem.write64 (below R 2) (p.regs .rbp)) 0 (savedArgs p.regs)).write64
        (below (alignedRsp R) 8) (p.regs .r9) := by
  rw [effects_append, effects_append]
  obtain ⟨hrsp₁, hrbp₁, hmem₁, hregs₁⟩ := alignFrame_effects p R hrsp
  generalize effects alignFrame p = p₁ at *
  have hrs : (.rsp : Reg) ∉ [Reg.rax, .rdi, .rsi, .rdx, .r10, .r8, .r9] := by decide
  obtain ⟨hrsp₂, hmem₂, hregs₂⟩ := effects_pushReg hrs (hrsp₁.trans (below_zero _).symm)
  change (effects saveArgs p₁).regs .rsp = _ at hrsp₂
  change (effects saveArgs p₁).mem = pushed _ _ 0 (savedArgs p₁.regs) at hmem₂
  change ∀ r, r ≠ .rsp → (effects saveArgs p₁).regs r = _ at hregs₂
  generalize effects saveArgs p₁ = p₂ at *
  -- saving pushes the registers of the call, as aligning does not touch them
  have hargs : savedArgs p₁.regs = savedArgs p.regs := by
    unfold savedArgs
    rw [hregs₁ .rax, hregs₁ .rdi, hregs₁ .rsi, hregs₁ .rdx, hregs₁ .r10, hregs₁ .r8, hregs₁ .r9] <;> decide
  rw [hargs, hmem₁] at hmem₂
  -- and loading gets each from its place
  have hword : ∀ (i : Nat) (v : Word), (savedArgs p.regs)[i]? = some v →
      p₂.mem.read64 (below (alignedRsp R) (i + 1)) = v := by
    intro i v hi
    rw [hmem₂, ← Nat.zero_add i]
    exact read64_pushed hi (by simp [savedArgs])
  obtain ⟨hrsp₃, hmem₃, hrdi, hrsi, hrdx, hrcx, hr8, hr9, hregs₃⟩ := loadArgs_effects p₂ (alignedRsp R) hrsp₂
  constructor
  · funext r
    have hkept : r ≠ .rsp → r ∉ argumentRegs → r ≠ .rbp → r ≠ .rcx → (effects loadArgs p₂).regs r = p.regs r := by
      intro hsp harg hbp hcx
      rw [hregs₃ r hsp harg, hregs₂ r hsp, hregs₁ r hsp hbp hcx]
    cases r with
    | rsp => exact hrsp₃
    | rbp => exact (hregs₃ _ (by decide) (by decide)).trans ((hregs₂ _ (by decide)).trans hrbp₁)
    | rdi => exact hrdi.trans (hword 0 _ rfl)
    | rsi => exact hrsi.trans (hword 1 _ rfl)
    | rdx => exact hrdx.trans (hword 2 _ rfl)
    | rcx => exact hrcx.trans (hword 3 _ rfl)
    | r8 => exact hr8.trans (hword 4 _ rfl)
    | r9 => exact hr9.trans (hword 5 _ rfl)
    | rax | rbx | r10 | r11 | r12 | r13 | r14 | r15 => exact hkept (by decide) (by decide) (by decide) (by decide)
  · rw [hmem₃, hword 6 _ rfl, hmem₂]

/-- The number is popped back before it is compared. -/
theorem popped_effects (s : State) (next hookerAsm : Word) :
    (effects popNumber (landed s next hookerAsm)).regs .rsp = below (s.regs .rsp) 1 ∧
    (∀ r, r ≠ .rsp → (effects popNumber (landed s next hookerAsm)).regs r = s.regs r) ∧
    (effects popNumber (landed s next hookerAsm)).mem =
      (s.mem.write64 (below (s.regs .rsp) 1) next).write64 (below (s.regs .rsp) 2) (s.regs .rax) ∧
    (effects popNumber (landed s next hookerAsm)).flags.zf = (s.regs .rax - 15 == 0) := by
  have h1 : s.regs .rsp - 8 = below (s.regs .rsp) 1 := by
    rw [← below_sub, below_zero]
  have h2 : s.regs .rsp - 8 - 8 = below (s.regs .rsp) 2 := by
    rw [h1, below_sub]
  have hpop : ((s.mem.write64 (s.regs .rsp - 8) next).write64 (s.regs .rsp - 8 - 8) (s.regs .rax)).read64
      (s.regs .rsp - 8 - 8) = s.regs .rax := read64_write64 _ _ _
  refine ⟨?_, fun r hr => ?_, ?_, ?_⟩
  · show s.regs .rsp - 8 - 8 + 8 = _
    rw [sub_add_cancel, h1]
  · by_cases hrax : r = .rax
    · subst hrax
      exact hpop
    · simp [effects, popNumber, landed, TextInsn.effect, hr, hrax]
  · show (s.mem.write64 (s.regs .rsp - 8) next).write64 (s.regs .rsp - 8 - 8) (s.regs .rax) = _
    rw [h2, h1]
  · show (((s.mem.write64 (s.regs .rsp - 8) next).write64 (s.regs .rsp - 8 - 8) (s.regs .rax)).read64
      (s.regs .rsp - 8 - 8) - 15 == 0) = _
    rw [hpop]

/-- **Up to the compiled function.** -/
theorem reaches_cxx (kernel : Kernel) (traps : List Trap) (hsite : image.text site = some (.syscall, next)) (hne : site ≠ image.syscallAddr)
    (hnr : (s.regs .rax).toNat < nrSyscalls) (hsigreturn : s.regs .rax ≠ 15) :
    ∃ back e, Reaches kernel image.traced ⟨site, s, traps⟩ ⟨image.hookerCxx, e, traps⟩ ∧
      CodeAt image.traced back [.leave, .ret] image.hookerAsmEnd ∧
      e.regs = calledRegs s.regs (s.regs .rsp) 9 ∧ e.mem = calledMem s next back := by
  obtain ⟨a₁, a₂, a₃, back, hpop, hje, hbody, hcall, hback⟩ := hookerAsm_parts image
  obtain ⟨hrsp, hregs, hmem, hzf⟩ := popped_effects s next image.hookerAsm
  have hreach := (reaches_hookerAsm kernel traps hsite hne hnr).trans (reaches_codeAt hpop rfl)
  generalize effects popNumber (landed s next image.hookerAsm) = p at *
  -- the branch is not taken
  have hje' : Thread.exec kernel ⟨a₁, p, traps⟩ a₂ (.je image.syscallAddr) = ⟨a₂, p, traps⟩ := by
    have hzf' : p.flags.zf = false := by
      rw [hzf]
      exact beq_eq_false_iff_ne.mpr fun h => hsigreturn (sub_eq_zero.mp h)
    show Thread.mk (if p.flags.zf then image.syscallAddr else a₂) p traps = _
    rw [hzf', if_neg (by decide)]
  obtain ⟨hregs', hmem'⟩ := body_effects p (s.regs .rsp) hrsp
  have hregs'' : ∀ k, calledRegs p.regs (s.regs .rsp) k = calledRegs s.regs (s.regs .rsp) k := by
    intro k
    funext r
    cases r <;> first | rfl | exact hregs _ (by decide)
  have hargs : savedArgs p.regs = savedArgs s.regs := by
    unfold savedArgs
    rw [hregs .rax, hregs .rdi, hregs .rsi, hregs .rdx, hregs .r10, hregs .r8, hregs .r9] <;> decide
  have hstep : Thread.step kernel image.traced ⟨a₃, effects (alignFrame ++ saveArgs ++ loadArgs) p, traps⟩ =
      some ⟨image.hookerCxx, (effects (alignFrame ++ saveArgs ++ loadArgs) p).push back, traps⟩ := step_at hcall
  rw [hregs''] at hregs'
  rw [hargs, hmem, hregs .rbp (by decide), hregs .r9 (by decide)] at hmem'
  have hbody' : Reaches kernel image.traced ⟨a₂, p, traps⟩
      ⟨a₃, effects (alignFrame ++ saveArgs ++ loadArgs) p, traps⟩ := reaches_codeAt hbody (by decide)
  generalize effects (alignFrame ++ saveArgs ++ loadArgs) p = b at *
  have hreach' : Reaches kernel image.traced ⟨site, s, traps⟩ ⟨image.hookerCxx, b.push back, traps⟩ := by
    refine hreach.trans (Reaches.head (step_at hje) ?_)
    rw [hje']
    exact hbody'.trans (Reaches.head hstep Reaches.refl)
  have hrsp' : b.regs .rsp = below (alignedRsp (s.regs .rsp)) 8 := by
    rw [hregs']
    rfl
  obtain ⟨hcallRsp, hcallMem, hcallRegs⟩ := push_below (v := back) hrsp'
  refine ⟨back, b.push back, hreach', hback, ?_, ?_⟩
  · funext r
    by_cases hr : r = .rsp
    · subst hr
      exact hcallRsp
    · rw [hcallRegs r hr, hregs']
      cases r <;> first | rfl | exact absurd rfl hr
  · rw [hcallMem, hmem']
    rfl

/-! ## The system call

What is handed to the C function and what `call_orig_syscall` makes of it: the number and the six arguments are those of
the caller. -/

/-- The call that `call_orig_syscall` makes of a C function's seven arguments. -/
def origCall (s : State) : SystemCall :=
  ⟨s.regs .rdi, s.regs .rsi, s.regs .rdx, s.regs .rcx, s.regs .r8, s.regs .r9, s.mem.read64 (s.regs .rsp + 8)⟩

/-- Where each argument register of the system call comes from, and is left. -/
def origRegs (s : State) : Reg → Word
  | .rdi => s.regs .rsi
  | .rsi => s.regs .rdx
  | .rdx => s.regs .rcx
  | .r10 => s.regs .r8
  | .r8 => s.regs .r9
  | .r9 => s.mem.read64 (s.regs .rsp + 8)
  | r => s.regs r

/-- The arguments of a C call become those of a `syscall`. -/
theorem shuffleArgs_effects (s : State) :
    SystemCall.ofRegs (effects shuffleArgs s).regs = origCall s ∧ (effects shuffleArgs s).mem = s.mem ∧
      ∀ r, r ≠ .rax → (effects shuffleArgs s).regs r = origRegs s r := by
  refine ⟨rfl, rfl, fun r hr => ?_⟩
  cases r <;> first | rfl | exact absurd rfl hr

/-- **The default hook**: one system call, with the arguments of the C function. -/
theorem reaches_orig (kernel : Kernel) (image : Image) (s : State) (traps : List Trap) :
    ∃ t, Reaches kernel image.traced ⟨image.callOrigSyscall, s, traps⟩
        ⟨(kernel ⟨origCall s, s.regs .rsp⟩ s.mem).2.read64 (s.regs .rsp), t, traps ++ [⟨origCall s, s.regs .rsp⟩]⟩ ∧
      t.mem = (kernel ⟨origCall s, s.regs .rsp⟩ s.mem).2 ∧ t.regs .rax = (kernel ⟨origCall s, s.regs .rsp⟩ s.mem).1 ∧
      t.regs .rsp = s.regs .rsp + 8 ∧
      ∀ r, r ∉ [Reg.rax, .rcx, .r11, .rsp] → t.regs r = origRegs s r := by
  have hcode : CodeAt image.traced image.callOrigSyscall shuffleArgs image.syscallAddr := by
    refine traced_codeAt image.callOrig_code ?_
    simp [shuffleArgs]
  obtain ⟨next, hsyscall, _, hret, -⟩ := image.sigreturn_code
  have hsyscall' : image.traced image.syscallAddr = some (.syscall, next) := traced_of_text hsyscall (.inr rfl)
  have hret' := traced_of_text hret (.inl (by simp))
  obtain ⟨hcall, hmem, hregs⟩ := shuffleArgs_effects s
  -- the arguments are moved, the `syscall` is made, and the function returns
  have hshuffle : Reaches kernel image.traced ⟨image.callOrigSyscall, s, traps⟩
      ⟨image.syscallAddr, effects shuffleArgs s, traps⟩ := reaches_codeAt hcode (by decide)
  generalize effects shuffleArgs s = p at *
  have hrsp : p.regs .rsp = s.regs .rsp := hregs .rsp (by decide)
  have htrap : Thread.step kernel image.traced ⟨image.syscallAddr, p, traps⟩ =
      some ⟨next, p.trap kernel next, traps ++ [⟨.ofRegs p.regs, p.regs .rsp⟩]⟩ := step_at hsyscall'
  have hkernel : (p.trap kernel next).mem = (kernel ⟨origCall s, s.regs .rsp⟩ s.mem).2 := by
    show (kernel ⟨.ofRegs p.regs, p.regs .rsp⟩ p.mem).2 = _
    rw [hcall, hrsp, hmem]
  have hanswer : (p.trap kernel next).regs .rax = (kernel ⟨origCall s, s.regs .rsp⟩ s.mem).1 := by
    show (kernel ⟨.ofRegs p.regs, p.regs .rsp⟩ p.mem).1 = _
    rw [hcall, hrsp, hmem]
  have hother : ∀ r, r ∉ [Reg.rax, .rcx, .r11] → (p.trap kernel next).regs r = p.regs r := by
    intro r hr
    simp only [List.mem_cons, List.not_mem_nil, or_false, not_or] at hr
    simp [State.trap, hr]
  generalize p.trap kernel next = t at *
  refine ⟨t.setReg .rsp (t.regs .rsp + 8), ?_, hkernel, hanswer, ?_, fun r hr => ?_⟩
  · refine hshuffle.trans (Reaches.head htrap (Reaches.head (step_at hret') ?_))
    show Reaches _ _ ⟨t.mem.read64 (t.regs .rsp), _, _⟩ _
    rw [hother .rsp (by decide), hkernel, hcall, hrsp]
    exact Reaches.refl
  · show t.regs .rsp + 8 = _
    rw [hother .rsp (by decide), hrsp]
  · simp only [List.mem_cons, List.not_mem_nil, or_false, not_or] at hr
    rw [State.setReg_regs, if_neg hr.2.2.2, hother r (by simp [hr]), hregs r hr.1]

/-! ## The whole way -/

/-- The registers that carry a system call's arguments. -/
def syscallRegs : List Reg := [.rdi, .rsi, .rdx, .r10, .r8, .r9]

/-- The kernel does not write the stack that the hook uses. -/
def SparesScratch (kernel : Kernel) (frame : Nat) (s : State) : Prop :=
  ∀ rsp m x, Scratch (s.regs .rsp) frame x → (kernel ⟨.ofRegs s.regs, rsp⟩ m).2 x = m x

/-- `call_hook` holds the default hook, and lies outside the stack that the hook uses. -/
structure DefaultHook (image : Image) (frame : Nat) (s : State) : Prop where
  holds : s.mem.read64 image.callHook = image.callOrigSyscall
  apart : ∀ x, InRange image.callHook 8 x → ¬ Scratch (s.regs .rsp) frame x

/-- The system call of `s` has been made and answered, once: `m` is the memory that the kernel found, which is the
    caller's outside the scratch, and `s'` the state after the instruction. -/
structure Answered (kernel : Kernel) (frame : Nat) (kept : Reg → Prop) (s : State) (trap : Trap) (m : Mem)
    (s' : State) : Prop where
  call  : trap.call = .ofRegs s.regs
  found : ∀ x, ¬ Scratch (s.regs .rsp) frame x → m x = s.mem x
  rax   : s'.regs .rax = (kernel trap m).1
  mem   : ∀ x, ¬ Scratch (s.regs .rsp) frame x → s'.mem x = (kernel trap m).2 x
  rsp   : s'.regs .rsp = s.regs .rsp
  saved : ∀ r ∈ calleeSaved, s'.regs r = s.regs r
  args  : ∀ r ∈ syscallRegs, kept r → s'.regs r = s.regs r

theorem aligned_mod (R : Word) : (below (alignedRsp R) 9 + 8).toNat % 16 = 0 := by
  obtain ⟨-, -, -, hmod⟩ := and_neg16 (below R 2)
  have h : below (alignedRsp R) 9 + 8 = alignedRsp R - 64 := below_add (alignedRsp R) 8 1
  have hlt := (alignedRsp R).isLt
  rw [h, BitVec.toNat_sub]
  change (alignedRsp R).toNat % 16 = 0 at hmod
  show (2 ^ 64 - 64 + (alignedRsp R).toNat) % 2 ^ 64 % 16 = 0
  omega

/-- The arguments of the compiled function are the system call's. -/
theorem origCall_of_handsOver {e s' : State} (next back : Word)
    (hregs : e.regs = calledRegs s.regs (s.regs .rsp) 9) (hmem : e.mem = calledMem s next back)
    (h : HandsOver frame e s') : origCall s' = .ofRegs s.regs := by
  have hrsp : e.regs .rsp + 8 = below (alignedRsp (s.regs .rsp)) 8 := by
    rw [hregs]
    exact below_add _ 8 1
  have harg7 : s'.mem.read64 (s'.regs .rsp + 8) = s.regs .r9 := by
    rw [h.arg7, hrsp, hmem]
    unfold calledMem
    rw [read64_below_apart (by decide) (by decide) (by decide), read64_below_same]
  have harg : ∀ r ∈ argumentRegs, s'.regs r = calledRegs s.regs (s.regs .rsp) 9 r := by
    intro r hr
    rw [h.args r hr, hregs]
  unfold origCall
  rw [harg7, harg .rdi (by decide), harg .rsi (by decide), harg .rdx (by decide), harg .rcx (by decide),
    harg .r8 (by decide), harg .r9 (by decide)]
  rfl

theorem Scratch.mono {R x : Word} (hframe : frame < 2 ^ 32) (h : Scratch R 0 x) : Scratch R frame x :=
  inRange_below h (by omega) (by omega) (by omega)

theorem calledMem_top (s : State) (next back : Word) :
    (calledMem s next back).read64 (below (alignedRsp (s.regs .rsp)) 9) = back :=
  read64_below_same ..

theorem calledMem_rbp (s : State) (next back : Word) :
    (calledMem s next back).read64 (below (s.regs .rsp) 2) = s.regs .rbp := by
  rw [calledMem_aligned s next back (by decide), read64_below_same]

theorem calledMem_next (s : State) (next back : Word) :
    (calledMem s next back).read64 (below (s.regs .rsp) 1) = next := by
  rw [calledMem_aligned s next back (by decide), read64_below_apart (by decide) (by decide) (by decide),
    read64_below_apart (by decide) (by decide) (by decide), read64_below_same]

/-- The caller's two words on the stack are, when the compiled function has returned, as the assembly left them. -/
theorem words_kept {e h t r : State} (back : Word) (hframe : frame < 2 ^ 32) (hspares : SparesScratch kernel frame s)
    (hrsp : e.regs .rsp = below (alignedRsp (s.regs .rsp)) 9) (hmem : e.mem = calledMem s next back)
    (hover : HandsOver frame e h) (hkernel : t.mem = (kernel ⟨.ofRegs s.regs, h.regs .rsp⟩ h.mem).2)
    (hback : HandsBack frame kept e t r) {j : Nat} (hj : 1 ≤ j ∧ j ≤ 2) :
    r.mem.read64 (below (s.regs .rsp) j) = (calledMem s next back).read64 (below (s.regs .rsp) j) := by
  refine read64_congr fun x hx => ?_
  have hout : ¬ ownStack (e.regs .rsp) frame x := by
    rw [hrsp]
    exact ownStack_apart hframe hj hx
  rw [hback.mem x hout, hkernel, hspares _ _ x (scratch_above hframe hj hx), hover.mem x hout, hmem]

/-- `leave; ret` with the caller's RBP and the return address on the stack. -/
theorem reaches_next (kernel : Kernel) (traps : List Trap) {back : Word} {r : State} (hback : CodeAt image.traced back [.leave, .ret] image.hookerAsmEnd)
    (hrbp : r.regs .rbp = below (s.regs .rsp) 2) (hold : r.mem.read64 (below (s.regs .rsp) 2) = s.regs .rbp)
    (hnext : r.mem.read64 (below (s.regs .rsp) 1) = next) :
    ∃ s', Reaches kernel image.traced ⟨back, r, traps⟩ ⟨next, s', traps⟩ ∧ s'.mem = r.mem ∧
      s'.regs .rsp = s.regs .rsp ∧ s'.regs .rbp = s.regs .rbp ∧
      ∀ q, q ≠ .rsp → q ≠ .rbp → s'.regs q = r.regs q := by
  have hrsp₁ : below (s.regs .rsp) 2 + 8 = below (s.regs .rsp) 1 := below_add _ 1 1
  have hrsp₀ : below (s.regs .rsp) 1 + 8 = s.regs .rsp := (below_add _ 0 1).trans (below_zero _)
  obtain ⟨a, hleave, _, hret, -⟩ := hback
  refine ⟨(TextInsn.leave.effect r).setReg .rsp (s.regs .rsp), ?_, rfl, rfl, ?_, fun q hq hq' => ?_⟩
  · refine Reaches.head (step_falls hleave rfl) (Reaches.head (step_at hret) ?_)
    show Reaches _ _ ⟨r.mem.read64 (r.regs .rbp + 8), (TextInsn.leave.effect r).setReg .rsp (r.regs .rbp + 8 + 8), _⟩ _
    rw [hrbp, hrsp₁, hrsp₀, hnext]
    exact Reaches.refl
  · show r.mem.read64 (r.regs .rbp) = _
    rw [hrbp, hold]
  · simp [TextInsn.effect, hq, hq']

/-- **The way through the hook and back**, with what is left in the red zone: the return address. -/
theorem hooked_run (hsite : image.text site = some (.syscall, next)) (hne : site ≠ image.syscallAddr)
    (hnr : (s.regs .rax).toNat < nrSyscalls) (hsigreturn : s.regs .rax ≠ 15) (hframe : frame < 2 ^ 32)
    (hcxx : CompiledCxx kernel image.traced image.hookerCxx image.callHook image.callOrigSyscall frame kept)
    (hhook : DefaultHook image frame s) (hspares : SparesScratch kernel frame s) :
    ∃ trap m s', Reaches kernel image.traced ⟨site, s, traps⟩ ⟨next, s', traps ++ [trap]⟩ ∧
      Answered kernel frame kept s trap m s' ∧ s'.mem.read64 (below (s.regs .rsp) 1) = next := by
  obtain ⟨back, e, hreach, hback, hregs, hmem⟩ := reaches_cxx kernel traps hsite hne hnr hsigreturn
  have hrsp : e.regs .rsp = below (alignedRsp (s.regs .rsp)) 9 := by
    rw [hregs]
    rfl
  have hown : ∀ x, ownStack (e.regs .rsp) frame x → Scratch (s.regs .rsp) frame x := by
    intro x hx
    rw [hrsp] at hx
    exact scratch_ownStack hframe hx
  -- the assembly has left the variable alone
  have hholds : e.mem.read64 image.callHook = image.callOrigSyscall := by
    rw [← hhook.holds, hmem]
    exact read64_congr fun x hx => calledMem_scratch s next back fun hin => hhook.apart x hx (hin.mono hframe)
  obtain ⟨h, hcall, hover, hreturn⟩ := hcxx e traps (by rw [hrsp]; exact aligned_mod _) hholds
    fun x hx hin => hhook.apart x hx (hown x hin)
  have hargs := origCall_of_handsOver next back hregs hmem hover
  obtain ⟨t, horig, htmem, htrax, htrsp, htregs⟩ := reaches_orig kernel image h traps
  rw [hargs] at horig htmem htrax
  -- the kernel has spared the return address that the hook reads
  have hspared : ∀ x, ownStack (e.regs .rsp) frame x → t.mem x = h.mem x := by
    intro x hx
    rw [htmem]
    exact hspares _ _ x (hown x hx)
  have hreturnTo : (kernel ⟨.ofRegs s.regs, h.regs .rsp⟩ h.mem).2.read64 (h.regs .rsp) = h.mem.read64 (h.regs .rsp) := by
    obtain ⟨k, hk, hdepth⟩ := hover.depth
    refine read64_congr fun x hx => ?_
    rw [← htmem]
    refine hspared x ?_
    rw [hdepth] at hx
    exact inRange_around hx (by omega) hk (by omega)
  have hsaved : ∀ q ∈ calleeSaved, t.regs q = h.regs q := by
    intro q hq
    simp only [calleeSaved, List.mem_cons, List.not_mem_nil, or_false] at hq
    rcases hq with rfl | rfl | rfl | rfl | rfl | rfl <;> exact htregs _ (by decide)
  obtain ⟨r, hreach', hbacked⟩ := hreturn t (traps ++ [⟨.ofRegs s.regs, h.regs .rsp⟩]) ⟨htrsp, hsaved, hspared⟩
  rw [hreturnTo] at horig
  rw [hmem, hrsp, calledMem_top] at hreach'
  -- the assembly's own frame is as it was, and is left
  have hword : ∀ j, 1 ≤ j ∧ j ≤ 2 →
      r.mem.read64 (below (s.regs .rsp) j) = (calledMem s next back).read64 (below (s.regs .rsp) j) :=
    fun j hj => words_kept back hframe hspares hrsp hmem hover htmem hbacked hj
  have hsaved' : ∀ q ∈ calleeSaved, r.regs q = calledRegs s.regs (s.regs .rsp) 9 q := by
    intro q hq
    rw [hbacked.saved q hq, hregs]
  obtain ⟨s', hend, hmem', hrsp', hrbp', hregs'⟩ := reaches_next kernel (traps ++ [⟨.ofRegs s.regs, h.regs .rsp⟩]) hback (hsaved' .rbp (by decide))
    ((hword 2 (by decide)).trans (calledMem_rbp s next back)) ((hword 1 (by decide)).trans (calledMem_next s next back))
  refine ⟨⟨.ofRegs s.regs, h.regs .rsp⟩, h.mem, s', (hreach.trans hcall).trans ((horig.trans hreach').trans hend), ?_, ?_⟩
  swap
  · rw [hmem', hword 1 (by decide), calledMem_next]
  refine ⟨rfl, fun x hx => ?_, ?_, fun x hx => ?_, hrsp', fun q hq => ?_, fun q hq hkept => ?_⟩
  · rw [hover.mem x fun hin => hx (hown x hin), hmem, calledMem_scratch s next back fun hin => hx (hin.mono hframe)]
  · rw [hregs' .rax (by decide) (by decide), hbacked.rax, htrax]
  · rw [hmem', hbacked.mem x fun hin => hx (hown x hin), htmem]
  · by_cases hq' : q = .rbp
    · subst hq'
      exact hrbp'
    · have hne' : q ≠ .rsp := by
        rintro rfl
        exact absurd hq (by decide)
      rw [hregs' q hne' hq', hsaved' q hq]
      simp only [calleeSaved, List.mem_cons, List.not_mem_nil, or_false] at hq
      rcases hq with rfl | rfl | rfl | rfl | rfl | rfl <;> first | rfl | exact absurd rfl hq'
  · simp only [origCall, SystemCall.ofRegs, SystemCall.mk.injEq] at hargs
    obtain ⟨-, hrdi, hrsi, hrdx, hr10, hr8, hr9⟩ := hargs
    simp only [syscallRegs, List.mem_cons, List.not_mem_nil, or_false] at hq
    have hq' : q ≠ .rsp ∧ q ≠ .rbp ∧ q ∉ [Reg.rax, .rcx, .r11, .rsp] := by
      rcases hq with rfl | rfl | rfl | rfl | rfl | rfl <;> decide
    rw [hregs' q hq'.1 hq'.2.1, hbacked.kept q hkept, htregs q hq'.2.2]
    rcases hq with rfl | rfl | rfl | rfl | rfl | rfl <;> assumption

/-- **A traced system call**, `rt_sigreturn` apart, is made once, with the number and the arguments that the caller gave,
    and goes on after the instruction with the answer in RAX. RSP, the callee-saved registers, the memory outside the
    scratch below RSP and the argument registers that the compiled function does not touch after its call are those of
    the caller. -/
theorem syscall_answered (hsite : image.text site = some (.syscall, next)) (hne : site ≠ image.syscallAddr)
    (hnr : (s.regs .rax).toNat < nrSyscalls) (hsigreturn : s.regs .rax ≠ 15) (hframe : frame < 2 ^ 32)
    (hcxx : CompiledCxx kernel image.traced image.hookerCxx image.callHook image.callOrigSyscall frame kept)
    (hhook : DefaultHook image frame s) (hspares : SparesScratch kernel frame s) :
    ∃ trap m s', Reaches kernel image.traced ⟨site, s, traps⟩ ⟨next, s', traps ++ [trap]⟩ ∧
      Answered kernel frame kept s trap m s' := by
  obtain ⟨trap, m, s', hreach, hanswered, -⟩ := hooked_run hsite hne hnr hsigreturn hframe hcxx hhook hspares
  exact ⟨trap, m, s', hreach, hanswered⟩

/-- `rt_sigreturn` reaches the kernel with the return address of the rewritten instruction still on the stack. -/
theorem sigreturn_trap (hsite : image.text site = some (.syscall, next)) (hne : site ≠ image.syscallAddr)
    (hsigreturn : s.regs .rax = 15) :
    ∃ c, Reaches kernel image.traced ⟨site, s, traps⟩ c ∧
      c.traps = traps ++ [⟨.ofRegs s.regs, s.regs .rsp - 8⟩] := by
  have hnr : (s.regs .rax).toNat < nrSyscalls := by
    rw [hsigreturn]
    decide
  obtain ⟨a₁, a₂, -, -, hpop, hje, -, -, -⟩ := hookerAsm_parts image
  obtain ⟨hrsp, hregs, -, hzf⟩ := popped_effects s next image.hookerAsm
  have hreach := (reaches_hookerAsm kernel traps hsite hne hnr).trans (reaches_codeAt hpop rfl)
  generalize effects popNumber (landed s next image.hookerAsm) = p at *
  have hje' : Thread.exec kernel ⟨a₁, p, traps⟩ a₂ (.je image.syscallAddr) = ⟨image.syscallAddr, p, traps⟩ := by
    show Thread.mk (if p.flags.zf then image.syscallAddr else a₂) p traps = _
    rw [hzf, hsigreturn, if_pos (by decide)]
  obtain ⟨after, hsyscall, -⟩ := image.sigreturn_code
  have hcall : SystemCall.ofRegs p.regs = .ofRegs s.regs := by
    unfold SystemCall.ofRegs
    rw [hregs .rax, hregs .rdi, hregs .rsi, hregs .rdx, hregs .r10, hregs .r8, hregs .r9] <;> decide
  have hrsp' : p.regs .rsp = s.regs .rsp - 8 := by
    rw [hrsp, ← below_sub, below_zero]
  refine ⟨⟨after, p.trap kernel after, traps ++ [⟨.ofRegs p.regs, p.regs .rsp⟩]⟩,
    hreach.trans (Reaches.head (step_at hje) ?_), by rw [hcall, hrsp']⟩
  rw [hje']
  exact Reaches.head (step_at (traced_of_text hsyscall (.inr rfl))) Reaches.refl

/-! ## A traced `getpid` -/

/-- The instructions of a segment, one byte each. -/
def place (base : Word) (seg : List TextInsn) : Text := fun a => (seg[(a - base).toNat]?).map fun ins => (ins, a + 1)

theorem place_none {base a : Word} {seg : List TextInsn} (h : seg.length ≤ (a - base).toNat) : place base seg a = none := by
  unfold place
  rw [List.getElem?_eq_none h]
  rfl

/-- Load the variable, and jump to what it holds, with the arguments where they are. -/
def tailCall (callHook : Word) : List TextInsn := [.movImm .r11 callHook, .movMem .r11 .r11 0, .jmpReg .r11]

/-- One system call at `0x400000`, and the transformer's code, with a compiled function at `0x700000`. -/
def plainText (cxx : List TextInsn) : Text := fun a =>
  place 0x400000 [.syscall] a <|> place 0x500000 (syscallHookerAsm 0x600007 0x700000) a <|>
    place 0x600000 (shuffleArgs ++ handleSigreturn) a <|> place 0x700000 cxx a

theorem plainText_pageZero {cxx : List TextInsn} (hcxx : cxx.length ≤ 0x1000) (a : Word) (h : a.toNat < 0x1000) :
    plainText cxx a = none := by
  unfold plainText
  have hfar : ∀ (base : Word) (seg : List TextInsn), 0x400000 ≤ base.toNat → base.toNat ≤ 0x700000 →
      seg.length ≤ 0x1000 → place base seg a = none := by
    intro base seg hbase hbase' hseg
    refine place_none ?_
    rw [BitVec.toNat_sub]
    omega
  rw [hfar _ _ (by decide) (by decide) (by decide), hfar _ _ (by decide) (by decide) (by decide),
    hfar _ _ (by decide) (by decide) (by decide), hfar _ _ (by decide) (by decide) hcxx]
  rfl

def plainImage (cxx : List TextInsn) (hcxx : cxx.length ≤ 0x1000) : Image where
  text := plainText cxx
  hookerAsm := 0x500000
  hookerCxx := 0x700000
  callHook := 0x800000
  callOrigSyscall := 0x600000
  syscallAddr := 0x600007
  hookerAsmEnd := 0x500018
  callOrigEnd := 0x600009
  pageZero := plainText_pageZero hcxx
  hookerAsm_code := by repeat' first | exact rfl | refine ⟨_, rfl, ?_⟩
  callOrig_code := by repeat' first | exact rfl | refine ⟨_, rfl, ?_⟩
  sigreturn_code := by repeat' first | exact rfl | refine ⟨_, rfl, ?_⟩

/-- The compiled function as a tail call. -/
def tailImage : Image := plainImage (tailCall 0x800000) (by decide)

theorem tailImage_site : tailImage.text 0x400000 = some (.syscall, 0x400001) := rfl

theorem tailImage_end : tailImage.traced 0x400001 = none := by decide

/-- A tail call is a function that hands everything over, and everything back. -/
theorem tailImage_cxx (kernel : Kernel) : CompiledCxx kernel tailImage.traced tailImage.hookerCxx tailImage.callHook
    tailImage.callOrigSyscall 0 fun _ => True := by
  intro s traps _ hhook _
  let s' := (s.setReg .r11 0x800000).setReg .r11 (s.mem.read64 0x800000)
  have hreach : Reaches kernel tailImage.traced ⟨0x700000, s, traps⟩ ⟨0x600000, s', traps⟩ := by
    refine Reaches.head (step_at rfl) (Reaches.head (step_at rfl) (Reaches.head (step_at rfl) ?_))
    show Reaches kernel tailImage.traced ⟨s.mem.read64 0x800000, s', traps⟩ _
    rw [show s.mem.read64 0x800000 = 0x600000 from hhook]
    exact Reaches.refl
  refine ⟨s', hreach, ⟨fun r hr => ?_, rfl, ⟨0, Nat.le_refl _, by simp [s']⟩, fun _ _ => rfl⟩, ?_⟩
  · have hr11 : r ≠ .r11 := by
      rintro rfl
      exact absurd hr (by decide)
    simp [s', hr11]
  · intro r traps' hr
    refine ⟨r, Reaches.refl, ⟨hr.rsp, rfl, fun q hq => ?_, fun _ _ => rfl, fun _ _ => rfl⟩⟩
    have hr11 : q ≠ .r11 := by
      rintro rfl
      exact absurd hq (by decide)
    rw [hr.saved q hq]
    simp [s', hr11]

/-- `getpid` with 5 in RDI, by a function with zeros in its red zone; the default hook is set. -/
def plainCall : State where
  regs := fun r => if r = .rax then 39 else if r = .rsp then 0x8000 else if r = .rdi then 5 else 0
  flags := ⟨false, false, false, false, false, false, 0x202⟩
  fsBase := 0x5000
  mem := Mem.write64 (fun _ => 0) 0x800000 0x600000

/-- A kernel that answers every call with 4242. -/
def plainKernel : Kernel := fun _ m => (4242, m)

theorem plainCall_hook {image : Image} {frame : Nat} (hhook : image.callHook = 0x800000)
    (horig : image.callOrigSyscall = 0x600000) (hframe : frame ≤ 16) : DefaultHook image frame plainCall := by
  refine ⟨by rw [hhook, horig]; exact read64_write64 .., fun x hx => ?_⟩
  rw [hhook] at hx
  show ¬ InRange (0x8000 - BitVec.ofNat 64 (103 + frame)) (103 + frame) x
  have hf : (BitVec.ofNat 64 (103 + frame)).toNat = 103 + frame := by rw [BitVec.toNat_ofNat]; omega
  unfold InRange at *
  bv_omega

theorem syscall_answered_getpid : ∃ trap m s',
    Reaches plainKernel tailImage.traced ⟨0x400000, plainCall, []⟩ ⟨0x400001, s', [] ++ [trap]⟩ ∧
      Answered plainKernel 0 (fun _ => True) plainCall trap m s' :=
  syscall_answered tailImage_site (by decide) (by decide) (by decide) (by decide) (tailImage_cxx plainKernel)
    (plainCall_hook rfl rfl (by decide)) fun _ _ _ _ => rfl

/-! ## What is not preserved -/

/-- The function as a call, which takes its stack argument off into RDI. -/
def popsRdi (callHook : Word) : List TextInsn :=
  [.movImm .r11 callHook, .movMem .r11 .r11 0, .pushMem .rsp 8, .callReg .r11, .popReg .rdi, .ret]

def popsRdiImage : Image := plainImage (popsRdi 0x800000) (by decide)

/-- It keeps to the calling convention. -/
theorem popsRdiImage_cxx (kernel : Kernel) : CompiledCxx kernel popsRdiImage.traced popsRdiImage.hookerCxx
    popsRdiImage.callHook popsRdiImage.callOrigSyscall 16 fun r => r ≠ .rdi ∧ r ≠ .rsp := by
  intro s traps _ hhook _
  let loaded := (s.setReg .r11 0x800000).setReg .r11 (s.mem.read64 0x800000)
  let s' := (loaded.push (s.mem.read64 (s.regs .rsp + 8))).push 0x700004
  have hrsp : s'.regs .rsp = s.regs .rsp - 8 - 8 := rfl
  have hmem : s'.mem = (s.mem.write64 (s.regs .rsp - 8) (s.mem.read64 (s.regs .rsp + 8))).write64
      (s.regs .rsp - 8 - 8) 0x700004 := rfl
  have hregs : ∀ q, q ≠ .rsp → q ≠ .r11 → s'.regs q = s.regs q := by
    intro q hq hq'
    simp [s', loaded, hq, hq']
  have hreach : Reaches kernel popsRdiImage.traced ⟨0x700000, s, traps⟩ ⟨0x600000, s', traps⟩ := by
    refine Reaches.head (step_at rfl) (Reaches.head (step_at rfl) (Reaches.head (step_at rfl)
      (Reaches.head (step_at rfl) ?_)))
    show Reaches kernel popsRdiImage.traced ⟨s.mem.read64 0x800000, s', traps⟩ _
    rw [show s.mem.read64 0x800000 = 0x600000 from hhook]
    exact Reaches.refl
  have hown : ∀ x, InRange (s.regs .rsp - 8) 8 x ∨ InRange (s.regs .rsp - 8 - 8) 8 x ∨ InRange (s.regs .rsp) 8 x →
      ownStack (s.regs .rsp) 16 x := by
    intro x hx
    unfold ownStack InRange at *
    bv_omega
  have harg7 : s'.mem.read64 (s.regs .rsp - 8) = s.mem.read64 (s.regs .rsp + 8) := by
    rw [hmem, read64_write64_frame fun x hx => by unfold InRange at *; bv_omega, read64_write64]
  have hback : s'.mem.read64 (s'.regs .rsp) = 0x700004 := by
    rw [hmem, hrsp, read64_write64]
  refine ⟨s', hreach, ⟨fun r hr => ?_, ?_, ⟨16, Nat.le_refl _, ?_⟩, fun x hx => ?_⟩, fun r traps' hr => ?_⟩
  · refine hregs r ?_ ?_ <;> rintro rfl <;> exact absurd hr (by decide)
  · rw [hrsp, sub_add_cancel, harg7]
  · rw [hrsp]
    bv_omega
  · rw [hmem, write64_frame fun hin => hx (hown x (.inr (.inl hin))), write64_frame fun hin => hx (hown x (.inl hin))]
  · have hrrsp : r.regs .rsp = s.regs .rsp - 8 := by rw [hr.rsp, hrsp, sub_add_cancel]
    have hret : r.mem.read64 (s.regs .rsp) = s.mem.read64 (s.regs .rsp) := by
      refine read64_congr fun x hx => ?_
      rw [hr.mem x (hown x (.inr (.inr hx))), hmem, write64_frame fun hin => by unfold InRange at *; bv_omega,
        write64_frame fun hin => by unfold InRange at *; bv_omega]
    let popped := (r.setReg .rsp (r.regs .rsp + 8)).setReg .rdi (r.mem.read64 (r.regs .rsp))
    have hpopped : popped.regs .rsp = s.regs .rsp := by
      show r.regs .rsp + 8 = _
      rw [hrrsp, sub_add_cancel]
    refine ⟨popped.setReg .rsp (popped.regs .rsp + 8), ?_, ?_⟩
    · rw [hback]
      refine Reaches.head (step_at rfl) (Reaches.head (step_at rfl) ?_)
      show Reaches kernel popsRdiImage.traced
        ⟨r.mem.read64 (popped.regs .rsp), popped.setReg .rsp (popped.regs .rsp + 8), traps'⟩
        ⟨_, popped.setReg .rsp (popped.regs .rsp + 8), traps'⟩
      rw [hpopped, hret]
      exact Reaches.refl
    · refine ⟨by rw [← hpopped]; rfl, rfl, fun q hq => ?_, fun q hq => ?_, fun _ _ => rfl⟩
      · have hne : q ≠ .rsp ∧ q ≠ .r11 ∧ q ≠ .rdi := by
          refine ⟨?_, ?_, ?_⟩ <;> rintro rfl <;> exact absurd hq (by decide)
        rw [← hregs q hne.1 hne.2.1, ← hr.saved q hq]
        simp [popped, hne]
      · simp [popped, hq]

/-- The registers that a system call leaves alone are left alone. -/
def KeepsRegisters (kernel : Kernel) (image : Image) (s : State) (site next : Word) : Prop :=
  ∃ trap s', Reaches kernel image.traced ⟨site, s, []⟩ ⟨next, s', [trap]⟩ ∧
    ∀ r, r ∉ [Reg.rax, .rcx, .r11] → s'.regs r = s.regs r

/-- The red zone is as it was. -/
def KeepsRedZone (kernel : Kernel) (image : Image) (s : State) (site next : Word) : Prop :=
  ∃ trap s', Reaches kernel image.traced ⟨site, s, []⟩ ⟨next, s', [trap]⟩ ∧
    ∀ x, InRange (s.regs .rsp - 128) 128 x → s'.mem x = s.mem x

/-- What is asked of every traced system call of a program whose compiled function keeps to the calling convention. -/
def AlwaysHolds (P : Kernel → Image → State → Word → Word → Prop) : Prop :=
  ∀ (kernel : Kernel) (image : Image) (s : State) (site next : Word) (frame : Nat) (kept : Reg → Prop),
    image.text site = some (.syscall, next) → site ≠ image.syscallAddr → (s.regs .rax).toNat < nrSyscalls →
    frame < 2 ^ 32 → CompiledCxx kernel image.traced image.hookerCxx image.callHook image.callOrigSyscall frame kept →
    DefaultHook image frame s → SparesScratch kernel frame s → P kernel image s site next

/-- The return address is left in the red zone. -/
theorem not_keepsRedZone : ¬ AlwaysHolds KeepsRedZone := by
  intro h
  have hdefault : DefaultHook tailImage 0 plainCall := plainCall_hook rfl rfl (by decide)
  obtain ⟨trap, s', hreach, hred⟩ := h plainKernel tailImage plainCall 0x400000 0x400001 0 (fun _ => True)
    tailImage_site (by decide) (by decide) (by decide) (tailImage_cxx plainKernel) hdefault fun _ _ _ _ => rfl
  have hrun : ∃ trap m s', Reaches plainKernel tailImage.traced ⟨0x400000, plainCall, []⟩ ⟨0x400001, s', [] ++ [trap]⟩ ∧
      Answered plainKernel 0 (fun _ => True) plainCall trap m s' ∧
      s'.mem.read64 (below (plainCall.regs .rsp) 1) = 0x400001 :=
    hooked_run tailImage_site (by decide) (by decide) (by decide) (by decide) (tailImage_cxx plainKernel) hdefault
      fun _ _ _ _ => rfl
  obtain ⟨trap', -, s₁, hreach', -, hleft⟩ := hrun
  have hsame := reaches_unique hreach tailImage_end hreach' tailImage_end
  cases hsame
  have hzero : s'.mem.read64 (below (plainCall.regs .rsp) 1) = plainCall.mem.read64 (below (plainCall.regs .rsp) 1) :=
    read64_congr fun x hx => hred x (inRange_below hx (by decide) (by decide) (by decide))
  rw [hleft] at hzero
  revert hzero
  decide

set_option maxRecDepth 4000 in
theorem popsRdiImage_run :
    ((Thread.mk 0x400000 plainCall []).steps plainKernel popsRdiImage.traced 516).map
      (fun c => (c.pc, c.st.regs .rdi)) = some (0x400001, 0) := by
  decide +kernel

/-- An argument register is lost where the compiled function uses it after its call. -/
theorem not_keepsRegisters : ¬ AlwaysHolds KeepsRegisters := by
  intro h
  obtain ⟨trap, s', hreach, hkeeps⟩ := h plainKernel popsRdiImage plainCall 0x400000 0x400001 16
    (fun r => r ≠ .rdi ∧ r ≠ .rsp) rfl (by decide) (by decide) (by decide) (popsRdiImage_cxx plainKernel)
    (plainCall_hook rfl rfl (by decide)) fun _ _ _ _ => rfl
  obtain ⟨c, hsteps, hends⟩ := Option.map_eq_some_iff.mp popsRdiImage_run
  obtain ⟨hpc, hrdi⟩ := Prod.mk.inj hends
  have hend : popsRdiImage.traced 0x400001 = none := by decide
  obtain rfl := reaches_unique hreach hend (reaches_of_steps hsteps) (by rw [hpc]; exact hend)
  exact absurd (hrdi.symm.trans (hkeeps .rdi (by decide))) (by decide)

/-- A traced system call that nothing of the caller but RAX, RCX and R11 shows: the red zone is unchanged, and the kernel
    finds the RSP of a `rt_sigreturn` where it was. -/
def Transparent (kernel : Kernel) (image : Image) (s : State) (site next : Word) : Prop :=
  ∃ trap s', Reaches kernel image.traced ⟨site, s, []⟩ ⟨next, s', [trap]⟩ ∧ trap.call = .ofRegs s.regs ∧
    (∀ r, r ∉ [Reg.rax, .rcx, .r11] → s'.regs r = s.regs r) ∧
    (∀ x, InRange (s.regs .rsp - 128) 128 x → s'.mem x = s.mem x) ∧
    (s.regs .rax = 15 → trap.rsp = s.regs .rsp)

/-- Transparency fails, and each of its two parts does on its own. -/
theorem syscall_not_transparent :
    ¬ AlwaysHolds Transparent ∧ ¬ AlwaysHolds KeepsRedZone ∧ ¬ AlwaysHolds KeepsRegisters := by
  refine ⟨fun h => not_keepsRedZone ?_, not_keepsRedZone, not_keepsRegisters⟩
  intro kernel image s site next frame kept hsite hne hnr hframe hcxx hhook hspares
  obtain ⟨trap, s', hreach, -, -, hred, -⟩ := h kernel image s site next frame kept hsite hne hnr hframe hcxx hhook hspares
  exact ⟨trap, s', hreach, hred⟩

end TextSegment
