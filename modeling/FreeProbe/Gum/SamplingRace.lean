import FreeProbe.Lib.CounterRace
import FreeProbe.Gum.Sampling
import Mathlib.Tactic.IntervalCases

/-!
# `Gum.SamplingRace` — guards of several threads interleaved instruction by instruction

A world is one memory and, for each thread, a program counter and a CPU. Threads enter the guard at any time;
a scheduler runs one instruction of one thread at a time; everything that is not a guard may write any memory
but the counters, the slot with the context's address and the stack scratch of guards under way.

`Local` is what holds of one thread at each instruction. One instruction keeps it, and is either invisible to
the counters or a step of the counter race (`thread_step`); so the race invariant holds in every reachable
world (`reachable_covered`).
-/

namespace Gum

open X86 Lib

variable {t : TrampolineSite} {ι : Type}

/-- A thread: the CPU it entered the guard with, where it is, and its CPU now. -/
structure Thread where
  entry : Cpu
  pc    : Pc
  cpu   : Cpu

/-- RSP at the thread's entry into the guard. -/
def Thread.rsp (th : Thread) : Word := th.entry.regs .rsp

/-- One instruction, for one thread on the shared memory. -/
def Thread.step (t : TrampolineSite) (m : Mem) (th : Thread) : Config := trampolineStep t ⟨th.pc, ⟨th.cpu, m⟩⟩

/-- The thread is between the guard's first instruction and its end. -/
def Thread.InGuard (th : Thread) : Prop := ∃ k, th.pc = .inside k ∧ k < onInvokeTrampoline

/-- The index of the guard's byte load. -/
def counterLoad : Nat := 7

/-- The thread has done the guard's byte load, and is not yet at its end. -/
def Thread.Counting (th : Thread) : Prop :=
  ∃ k, th.pc = .inside k ∧ counterLoad < k ∧ k < onInvokeTrampoline

/-- Some threads and one memory. -/
structure World (ι : Type) where
  mem     : Mem
  threads : ι → Thread

/-- The bytes that only guards write: the slot, the counters, the scratch of guards under way. -/
def Protected (t : TrampolineSite) (w : World ι) (x : Word) : Prop :=
  InRange t.functionCtxPtr 8 x ∨ (∃ b, x = counterAddress t.functionCtx b) ∨
    ∃ i, (w.threads i).InGuard ∧ Scratch (w.threads i).rsp x

/-- The free stack of a thread about to enter is nobody else's. -/
def EnterOk (t : TrampolineSite) (w : World ι) (cpu : Cpu) : Prop :=
  ∀ x, Scratch (cpu.regs .rsp) x → ¬ Protected t w x

/-- A thread enters the function, or executes one instruction. -/
inductive RaceEvent (ι : Type) where
  | enter (i : ι)
  | exec (i : ι)
  | other

/-- No thread is in the guard, the counters are zero, and the slot holds the context's address. -/
structure Initial (t : TrampolineSite) (w : World ι) : Prop where
  outside : ∀ i, ¬ (w.threads i).InGuard
  zero : samplingCounters w.mem t.functionCtx = zeroCounters
  slot_ctx : w.mem.read64 t.functionCtxPtr = t.functionCtx

variable [DecidableEq ι]

/-- One step of the world. -/
inductive RaceStep (t : TrampolineSite) : World ι → RaceEvent ι → World ι → Prop where
  | enter {w : World ι} (i : ι) (cpu : Cpu) (hi : ¬ (w.threads i).InGuard) (hok : EnterOk t w cpu) :
      RaceStep t w (.enter i) { w with threads := Function.update w.threads i ⟨cpu, .inside 0, cpu⟩ }
  | exec {w : World ι} (i : ι) (hi : (w.threads i).InGuard) :
      RaceStep t w (.exec i)
        { mem := ((w.threads i).step t w.mem).st.mem
          threads := Function.update w.threads i
            ⟨(w.threads i).entry, ((w.threads i).step t w.mem).pc, ((w.threads i).step t w.mem).st.toCpu⟩ }
  | other {w : World ι} (m : Mem) (hm : ∀ x, Protected t w x → m x = w.mem x) :
      RaceStep t w .other { w with mem := m }

/-- The threads' steps in any order. -/
def raceSystem (t : TrampolineSite) (ι : Type) [DecidableEq ι] : System (World ι) (RaceEvent ι) where
  step := RaceStep t

/-! ## What holds of one thread at each instruction

By the program counter: what the registers hold, and what has been pushed. -/

/-- The bucket that RDX holds once it is masked. -/
def bucketReg (cpu : Cpu) : Fin 64 := ⟨(cpu.regs .rdx).toNat % 64, Nat.mod_lt _ (by decide)⟩

/-- RAX and RDX address a counter. -/
def Addressed (t : TrampolineSite) (cpu : Cpu) : Prop :=
  cpu.regs .rax = t.functionCtx ∧ cpu.regs .rdx = BitVec.ofNat 64 (bucketReg cpu)

/-- RSP is at slot `k`, and the pushed context is in place. -/
def Pushed (t : TrampolineSite) (m : Mem) (rsp : Word) (cpu : Cpu) (k : Nat) : Prop :=
  cpu.regs .rsp = slot rsp k ∧ m.read64 (slot rsp 3) = t.functionCtx

/-- What holds when a thread that entered with `rsp` is at `pc`. -/
def Local (t : TrampolineSite) (m : Mem) (rsp : Word) (cpu : Cpu) : Pc → Prop
  | .inside 0 => cpu.regs .rsp = slot rsp 4
  | .inside 1 => Pushed t m rsp cpu 3
  | .inside 2 => Pushed t m rsp cpu 2
  | .inside 3 => Pushed t m rsp cpu 1
  | .inside 4 => Pushed t m rsp cpu 0
  | .inside 5 => cpu.regs .rax = t.functionCtx
  | .inside 6 => cpu.regs .rax = t.functionCtx
  | .inside 7 => Addressed t cpu
  | .inside 8 => Addressed t cpu ∧ (cpu.regs .rcx).toNat < 256
  | .inside 9 => Addressed t cpu ∧ (cpu.regs .rcx).toNat ≤ 256
  | .inside 10 => Addressed t cpu ∧ (cpu.regs .rcx).toNat ≤ 256
  | .inside 11 => Addressed t cpu ∧ cpu.flags.lt = decide ((cpu.regs .rcx).toNat < gumSampleRate)
  | .inside 12 => Addressed t cpu
  | .inside k => k ≤ 22 ∨ k = onInvokeTrampoline
  | .outside _ => True

/-- A thread's place in the counter race. -/
def phaseAt (cpu : Cpu) : Pc → Phase (Fin 64)
  | .inside 8 => .loaded (bucketReg cpu) (cpu.regs .rcx).toNat
  | .inside 9 => .incremented (bucketReg cpu) (cpu.regs .rcx).toNat
  | .inside 10 => .stored (bucketReg cpu) (cpu.regs .rcx).toNat
  | .inside 11 => .stored (bucketReg cpu) (cpu.regs .rcx).toNat
  | .inside 12 => .resetting (bucketReg cpu)
  | _ => .idle

/-- Where a thread is in the guard, and its bucket. -/
def Thread.phase (th : Thread) : Phase (Fin 64) := phaseAt th.cpu th.pc

/-- The counters as numbers. -/
def counts (t : TrampolineSite) (m : Mem) (b : Fin 64) : Nat := (samplingCounters m t.functionCtx b).toNat

/-- A step that the counter race does not see, or one step of it. -/
def RaceMove (t : TrampolineSite) (m : Mem) (p : Phase (Fin 64)) (m' : Mem) (p' : Phase (Fin 64)) : Prop :=
  (counts t m' = counts t m ∧ p' = p) ∨ PhaseStep gumSampleRate 256 (counts t m) p (counts t m') p'

/-- What one instruction of a thread does. -/
structure ThreadStep (t : TrampolineSite) (m : Mem) (rsp : Word) (cpu : Cpu) (pc : Pc) (c : Config) : Prop where
  keeps : Local t c.st.mem rsp c.st.toCpu c.pc
  frame : ∀ x, ¬ Scratch rsp x → (∀ b, x ≠ counterAddress t.functionCtx b) → c.st.mem x = m x
  move : RaceMove t m (phaseAt cpu pc) c.st.mem (phaseAt c.st.toCpu c.pc)

/-! ## One instruction of one thread

The guard's instructions fall into few kinds. Most leave the memory and the thread's place in the race alone. -/

/-- An instruction that writes no memory and is in the same phase before and after. -/
theorem ThreadStep.quiet {m : Mem} {rsp : Word} {cpu : Cpu} {pc : Pc} {c : Config} (hmem : c.st.mem = m)
    (hphase : phaseAt c.st.toCpu c.pc = phaseAt cpu pc) (hkeeps : Local t m rsp c.st.toCpu c.pc) :
    ThreadStep t m rsp cpu pc c where
  keeps := hmem ▸ hkeeps
  frame := fun x _ _ => congrFun hmem x
  move := .inl ⟨congrArg (counts t) hmem, hphase⟩

/-- A push onto slot `j` writes nothing outside the scratch. -/
theorem push_frame {m : Mem} {rsp v : Word} {cpu : Cpu} {j : Nat} (hj : j < 4)
    (hrsp : cpu.regs .rsp = slot rsp (j + 1)) {x : Word} (hx : ¬ Scratch rsp x) :
    (State.push ⟨cpu, m⟩ v).mem x = m x := by
  have hsub : cpu.regs .rsp - 8 = slot rsp j := hrsp ▸ slot_sub rsp j
  rw [State.push_mem, hsub]
  exact write64_frame fun hin => hx (slot_scratch hj hin)

/-- A push takes the next slot. -/
theorem push_rsp {m : Mem} {rsp v : Word} {cpu : Cpu} {j : Nat} (hrsp : cpu.regs .rsp = slot rsp (j + 1)) :
    (State.push ⟨cpu, m⟩ v).regs .rsp = slot rsp j := by
  rw [State.push_regs, if_pos rfl, hrsp]
  exact slot_sub rsp j

/-- The first push puts the context in place. -/
theorem pushed_first {m : Mem} {rsp : Word} {cpu : Cpu} (hrsp : cpu.regs .rsp = slot rsp 4) :
    Pushed t (State.push ⟨cpu, m⟩ t.functionCtx).mem rsp (State.push ⟨cpu, m⟩ t.functionCtx).toCpu 3 := by
  refine ⟨push_rsp hrsp, ?_⟩
  have hsub : cpu.regs .rsp - 8 = slot rsp 3 := hrsp ▸ slot_sub rsp 3
  rw [State.push_mem, hsub, read64_slot_same]

/-- The later pushes leave it in place. -/
theorem pushed_next {m : Mem} {rsp v : Word} {cpu : Cpu} {j : Nat} (hj : j < 3)
    (h : Pushed t m rsp cpu (j + 1)) :
    Pushed t (State.push ⟨cpu, m⟩ v).mem rsp (State.push ⟨cpu, m⟩ v).toCpu j := by
  refine ⟨push_rsp h.1, ?_⟩
  have hsub : cpu.regs .rsp - 8 = slot rsp j := h.1 ▸ slot_sub rsp j
  rw [State.push_mem, hsub, read64_slot_apart (by decide) (by omega) (by omega), h.2]

/-- The counters are out of a push's reach. -/
theorem counts_congr {m m' : Mem} {rsp : Word} (hapart : ∀ b, ¬ Scratch rsp (counterAddress t.functionCtx b))
    (hframe : ∀ x, ¬ Scratch rsp x → m' x = m x) : counts t m' = counts t m := by
  funext b
  exact congrArg BitVec.toNat (hframe _ (hapart b))

/-- A push, as a thread's step. -/
theorem ThreadStep.push {m : Mem} {rsp v : Word} {cpu : Cpu} {j : Nat} {pc : Pc} (pc' : Pc) (hj : j < 4)
    (hrsp : cpu.regs .rsp = slot rsp (j + 1))
    (hapart : ∀ b, ¬ Scratch rsp (counterAddress t.functionCtx b))
    (hphase : ∀ cpu', phaseAt cpu' pc' = phaseAt cpu pc)
    (hkeeps : Local t (State.push ⟨cpu, m⟩ v).mem rsp (State.push ⟨cpu, m⟩ v).toCpu pc') :
    ThreadStep t m rsp cpu pc ⟨pc', State.push ⟨cpu, m⟩ v⟩ where
  keeps := hkeeps
  frame := fun _ hx _ => push_frame hj hrsp hx
  move := .inl ⟨counts_congr hapart fun _ hx => push_frame hj hrsp hx, hphase _⟩

/-- A byte written to a bucket's counter. -/
theorem counts_writeByte (m : Mem) (b : Fin 64) (v : Byte) :
    counts t (m.writeByte (counterAddress t.functionCtx b) v) = Function.update (counts t m) b v.toNat := by
  funext b'
  by_cases hb : b' = b
  · subst hb
    rw [Function.update_self]
    exact congrArg BitVec.toNat (writeByte_same _ _ _)
  · rw [Function.update_of_ne hb]
    exact congrArg BitVec.toNat (writeByte_frame fun h => hb (counterAddress_injective _ h))

/-- The two registers add up to the counter's address. -/
theorem Addressed.counterAddress {cpu : Cpu} (h : Addressed t cpu) :
    cpu.regs .rax + cpu.regs .rdx = counterAddress t.functionCtx (bucketReg cpu) := by
  rw [h.1, h.2]
  rfl

/-- The bucket is in one register. -/
theorem bucketReg_congr {cpu cpu' : Cpu} (h : cpu'.regs .rdx = cpu.regs .rdx) :
    bucketReg cpu' = bucketReg cpu := by
  simp only [bucketReg, h]

/-- And both stay while the registers do. -/
theorem Addressed.congr {cpu cpu' : Cpu} (h : Addressed t cpu) (hrax : cpu'.regs .rax = cpu.regs .rax)
    (hrdx : cpu'.regs .rdx = cpu.regs .rdx) : Addressed t cpu' :=
  ⟨hrax.trans h.1, by rw [hrdx, bucketReg_congr hrdx]; exact h.2⟩

/-- `movzx ecx, byte [rax+rdx]` -/
theorem threadStep_load {m : Mem} {rsp : Word} {cpu : Cpu} (h : Local t m rsp cpu (.inside 7)) :
    ThreadStep t m rsp cpu (.inside 7) (trampolineStep t ⟨.inside 7, ⟨cpu, m⟩⟩) := by
  have ha : Addressed t cpu := h
  have hstep : trampolineStep t ⟨.inside 7, ⟨cpu, m⟩⟩ =
      ⟨.inside 8, State.setReg ⟨cpu, m⟩ .rcx ((m (cpu.regs .rax + cpu.regs .rdx)).setWidth 64)⟩ := rfl
  have hrcx : ((m (cpu.regs .rax + cpu.regs .rdx)).setWidth 64).toNat = counts t m (bucketReg cpu) := by
    rw [ha.counterAddress, BitVec.toNat_setWidth]
    exact Nat.mod_eq_of_lt (Nat.lt_trans (BitVec.isLt _) (by decide))
  rw [hstep]
  refine ⟨⟨ha.congr rfl rfl, ?_⟩, fun _ _ _ => rfl, .inr ?_⟩
  · show ((m (cpu.regs .rax + cpu.regs .rdx)).setWidth 64).toNat < 256
    rw [hrcx]
    exact BitVec.isLt _
  · show PhaseStep _ _ (counts t m) .idle (counts t m) (.loaded (bucketReg cpu) _)
    rw [State.setReg_regs, if_pos rfl, hrcx]
    exact PhaseStep.load _ _

/-- `inc ecx` -/
theorem threadStep_inc {m : Mem} {rsp : Word} {cpu : Cpu} (h : Local t m rsp cpu (.inside 8)) :
    ThreadStep t m rsp cpu (.inside 8) (trampolineStep t ⟨.inside 8, ⟨cpu, m⟩⟩) := by
  obtain ⟨ha, hlt⟩ := h
  have hstep : trampolineStep t ⟨.inside 8, ⟨cpu, m⟩⟩ =
      ⟨.inside 9, (State.setReg ⟨cpu, m⟩ .rcx (((cpu.regs .rcx).setWidth 32 + 1).setWidth 64)).setFlags
        (incFlags ((cpu.regs .rcx).setWidth 32) cpu.flags)⟩ := rfl
  have hone : (1 : BitVec 32).toNat = 1 := rfl
  have hrcx : (((cpu.regs .rcx).setWidth 32 + 1).setWidth 64).toNat = (cpu.regs .rcx).toNat + 1 := by
    rw [BitVec.toNat_setWidth, BitVec.toNat_add, BitVec.toNat_setWidth, hone]
    omega
  rw [hstep]
  refine ⟨⟨ha.congr rfl rfl, ?_⟩, fun _ _ _ => rfl, .inr ?_⟩
  · show (((cpu.regs .rcx).setWidth 32 + 1).setWidth 64).toNat ≤ 256
    omega
  · show PhaseStep _ _ (counts t m) _ (counts t m) (.incremented (bucketReg cpu) _)
    rw [State.setFlags_regs, State.setReg_regs, if_pos rfl, hrcx]
    exact PhaseStep.inc _ _ _

/-- `mov [rax+rdx], cl` -/
theorem threadStep_store {m : Mem} {rsp : Word} {cpu : Cpu} (h : Local t m rsp cpu (.inside 9)) :
    ThreadStep t m rsp cpu (.inside 9) (trampolineStep t ⟨.inside 9, ⟨cpu, m⟩⟩) := by
  obtain ⟨ha, hle⟩ := h
  have hstep : trampolineStep t ⟨.inside 9, ⟨cpu, m⟩⟩ =
      ⟨.inside 10, State.setMem ⟨cpu, m⟩
        (m.writeByte (cpu.regs .rax + cpu.regs .rdx) ((cpu.regs .rcx).setWidth 8))⟩ := rfl
  rw [hstep, ha.counterAddress]
  refine ⟨⟨ha, hle⟩, fun x _ hx => writeByte_frame (hx _), .inr ?_⟩
  rw [State.setMem_mem, counts_writeByte, BitVec.toNat_setWidth]
  exact PhaseStep.store _ _ _

/-- `cmp rcx, 20` -/
theorem threadStep_cmp {m : Mem} {rsp : Word} {cpu : Cpu} (h : Local t m rsp cpu (.inside 10)) :
    ThreadStep t m rsp cpu (.inside 10) (trampolineStep t ⟨.inside 10, ⟨cpu, m⟩⟩) := by
  obtain ⟨ha, hle⟩ := h
  refine ThreadStep.quiet rfl rfl ⟨ha, ?_⟩
  exact lt_subFlags (a := cpu.regs .rcx) (b := BitVec.ofNat 64 gumSampleRate) cpu.flags (by omega) (by decide)

/-- `jl .sampling_skip` -/
theorem threadStep_jl {m : Mem} {rsp : Word} {cpu : Cpu} (h : Local t m rsp cpu (.inside 11)) :
    ThreadStep t m rsp cpu (.inside 11) (trampolineStep t ⟨.inside 11, ⟨cpu, m⟩⟩) := by
  obtain ⟨ha, hlt⟩ := h
  have hstep : trampolineStep t ⟨.inside 11, ⟨cpu, m⟩⟩ =
      ⟨if cpu.flags.lt then .inside 17 else .inside 12, ⟨cpu, m⟩⟩ := by
    rw [trampolineStep, stepCode_inside (.jl .samplingSkip) rfl]
    simp only [Insn.exec]
    cases cpu.flags.lt <;> rfl
  rw [hstep, hlt]
  by_cases hr : (cpu.regs .rcx).toNat < gumSampleRate
  · simp only [hr, decide_true, ↓reduceIte]
    exact ⟨.inl (by decide), fun _ _ _ => rfl, .inr (PhaseStep.skip _ _ hr)⟩
  · simp only [hr, decide_false, Bool.false_eq_true, ↓reduceIte]
    exact ⟨ha, fun _ _ _ => rfl, .inr (PhaseStep.take _ _ (Nat.le_of_not_lt hr))⟩

/-- `mov byte [rax+rdx], 0` -/
theorem threadStep_reset {m : Mem} {rsp : Word} {cpu : Cpu} (h : Local t m rsp cpu (.inside 12)) :
    ThreadStep t m rsp cpu (.inside 12) (trampolineStep t ⟨.inside 12, ⟨cpu, m⟩⟩) := by
  have ha : Addressed t cpu := h
  have hstep : trampolineStep t ⟨.inside 12, ⟨cpu, m⟩⟩ =
      ⟨.inside 13, State.setMem ⟨cpu, m⟩ (m.writeByte (cpu.regs .rax + cpu.regs .rdx) 0)⟩ := rfl
  rw [hstep, ha.counterAddress]
  refine ⟨.inl (by decide), fun x _ hx => writeByte_frame (hx _), .inr ?_⟩
  rw [State.setMem_mem, counts_writeByte]
  exact PhaseStep.reset _ _

/-- The pushes. -/
theorem threadStep_save {m : Mem} {rsp : Word} {cpu : Cpu} {k : Nat} (hk : k < 4)
    (hslot : m.read64 t.functionCtxPtr = t.functionCtx)
    (hapart : ∀ b, ¬ Scratch rsp (counterAddress t.functionCtx b)) (h : Local t m rsp cpu (.inside k)) :
    ThreadStep t m rsp cpu (.inside k) (trampolineStep t ⟨.inside k, ⟨cpu, m⟩⟩) := by
  interval_cases k
  · have hstep : trampolineStep t ⟨.inside 0, ⟨cpu, m⟩⟩ =
        ⟨.inside 1, State.push ⟨cpu, m⟩ (m.read64 t.functionCtxPtr)⟩ := rfl
    rw [hstep, hslot]
    exact ThreadStep.push (j := 3) (.inside 1) (by decide) h hapart (fun _ => rfl) (pushed_first h)
  · exact ThreadStep.push (j := 2) (.inside 2) (by decide) h.1 hapart (fun _ => rfl)
      (pushed_next (by decide) h)
  · exact ThreadStep.push (j := 1) (.inside 3) (by decide) h.1 hapart (fun _ => rfl)
      (pushed_next (by decide) h)
  · exact ThreadStep.push (j := 0) (.inside 4) (by decide) h.1 hapart (fun _ => rfl)
      (pushed_next (by decide) h)

/-- The low six bits are a bucket. -/
theorem and_mask_eq (v : Word) : v &&& 0x3f = BitVec.ofNat 64 ((v &&& 0x3f).toNat % 64) := by
  apply BitVec.eq_of_toNat_eq
  have hmask : (0x3f : Word).toNat = 2 ^ 6 - 1 := rfl
  rw [BitVec.toNat_ofNat, BitVec.toNat_and, hmask, Nat.and_two_pow_sub_one_eq_mod]
  omega

/-- `mov rax, [rsp+18h]; mov rdx, fs:[2d0h]; and rdx, 3fh` -/
theorem threadStep_address {m : Mem} {rsp : Word} {cpu : Cpu} {k : Nat} (hk : 4 ≤ k) (hk' : k < 7)
    (h : Local t m rsp cpu (.inside k)) :
    ThreadStep t m rsp cpu (.inside k) (trampolineStep t ⟨.inside k, ⟨cpu, m⟩⟩) := by
  interval_cases k
  · refine ThreadStep.quiet rfl rfl ?_
    show m.read64 (cpu.regs .rsp + 24#64) = t.functionCtx
    rw [h.1, slot_add_three, h.2]
  · exact ThreadStep.quiet rfl rfl h
  · exact ThreadStep.quiet rfl rfl ⟨h, and_mask_eq _⟩

/-- The restoring tails. -/
theorem threadStep_restore {m : Mem} {rsp : Word} {cpu : Cpu} {k : Nat} (hk : 13 ≤ k) (hk' : k ≤ 22) :
    ThreadStep t m rsp cpu (.inside k) (trampolineStep t ⟨.inside k, ⟨cpu, m⟩⟩) := by
  interval_cases k
  iterate 3 exact ThreadStep.quiet rfl rfl (.inl (by decide))
  · exact ThreadStep.quiet rfl rfl trivial
  iterate 5 exact ThreadStep.quiet rfl rfl (.inl (by decide))
  have hstep : trampolineStep t ⟨.inside 22, ⟨cpu, m⟩⟩ = ⟨.inside onInvokeTrampoline, ⟨cpu, m⟩⟩ := rfl
  rw [hstep]
  exact ThreadStep.quiet rfl rfl (.inr rfl)

/-- **One instruction of a thread in the guard** keeps the thread's own invariant, writes nothing but its
    scratch and the counters, and is a step of the counter race or invisible to it. -/
theorem thread_step {m : Mem} {rsp : Word} {cpu : Cpu} {k : Nat} (hk : k < onInvokeTrampoline)
    (hslot : m.read64 t.functionCtxPtr = t.functionCtx)
    (hapart : ∀ b, ¬ Scratch rsp (counterAddress t.functionCtx b)) (h : Local t m rsp cpu (.inside k)) :
    ThreadStep t m rsp cpu (.inside k) (trampolineStep t ⟨.inside k, ⟨cpu, m⟩⟩) := by
  rcases Nat.lt_or_ge k 4 with h4 | h4
  · exact threadStep_save h4 hslot hapart h
  rcases Nat.lt_or_ge k 7 with h7 | h7
  · exact threadStep_address h4 h7 h
  rcases Nat.lt_or_ge k 13 with h13 | h13
  · interval_cases k
    · exact threadStep_load h
    · exact threadStep_inc h
    · exact threadStep_store h
    · exact threadStep_cmp h
    · exact threadStep_jl h
    · exact threadStep_reset h
  · have hk22 : k ≤ 22 := by
      unfold onInvokeTrampoline at hk
      interval_cases k <;> first | decide | (rcases h with h | h <;> exact absurd h (by decide))
    exact threadStep_restore h13 hk22

/-! ## The invariant of a world

The threads' own invariants hold side by side, since no thread writes another's scratch. -/

/-- What a thread has of its own while it restores its registers. -/
theorem local_restoring {m : Mem} {rsp : Word} {cpu : Cpu} (j : Nat) :
    Local t m rsp cpu (.inside (j + 13)) = (j + 13 ≤ 22 ∨ j + 13 = onInvokeTrampoline) := rfl

/-- A thread's invariant survives whatever leaves its scratch alone. -/
theorem Local.frame {m m' : Mem} {rsp : Word} {cpu : Cpu} {pc : Pc} (h : Local t m rsp cpu pc)
    (hm : ∀ x, Scratch rsp x → m' x = m x) : Local t m' rsp cpu pc := by
  have hctx : m'.read64 (slot rsp 3) = m.read64 (slot rsp 3) :=
    read64_congr fun x hx => hm x (slot_scratch (by decide) hx)
  have hpushed : ∀ k, Pushed t m rsp cpu k → Pushed t m' rsp cpu k := fun k hp => ⟨hp.1, hctx.trans hp.2⟩
  rcases pc with k | a
  · rcases Nat.lt_or_ge k 13 with hk | hk
    · interval_cases k <;> simp only [Local] at h ⊢
      · exact h
      · exact hpushed 3 h
      · exact hpushed 2 h
      · exact hpushed 1 h
      · exact hpushed 0 h
      all_goals exact h
    · obtain ⟨j, rfl⟩ := Nat.exists_eq_add_of_le' hk
      rw [local_restoring] at h ⊢
      exact h
  · trivial

/-- What holds in every reachable world: the slot is intact; a guard under way keeps its own invariant, on
    scratch that is neither the slot, nor a counter, nor another guard's; and the race invariant holds. -/
structure WorldInv (t : TrampolineSite) (w : World ι) : Prop where
  slot_ctx : w.mem.read64 t.functionCtxPtr = t.functionCtx
  slot_apart : ∀ i, (w.threads i).InGuard → ∀ x, Scratch (w.threads i).rsp x →
    ¬ InRange t.functionCtxPtr 8 x
  counters_apart : ∀ i, (w.threads i).InGuard → ∀ b,
    ¬ Scratch (w.threads i).rsp (counterAddress t.functionCtx b)
  disjoint : ∀ i j, i ≠ j → (w.threads i).InGuard → (w.threads j).InGuard → ∀ x,
    Scratch (w.threads i).rsp x → ¬ Scratch (w.threads j).rsp x
  locals : ∀ i, (w.threads i).InGuard → Local t w.mem (w.threads i).rsp (w.threads i).cpu (w.threads i).pc
  covered : Covered gumSampleRate (counts t w.mem) fun i => (w.threads i).phase

/-- A thread outside of the guard is in no phase. -/
theorem phase_idle {th : Thread} (h : ¬ th.InGuard) : th.phase = .idle := by
  obtain ⟨entry, pc, cpu⟩ := th
  rcases pc with k | a
  · rcases Nat.lt_or_ge k onInvokeTrampoline with hk | hk
    · exact absurd ⟨k, rfl, hk⟩ h
    · obtain ⟨j, rfl⟩ := Nat.exists_eq_add_of_le' hk
      rfl
  · rfl

/-- The phases after one thread has been replaced. -/
theorem phase_update (threads : ι → Thread) (i : ι) (th : Thread) :
    (fun j => (Function.update threads i th j).phase) =
      Function.update (fun j => (threads j).phase) i th.phase :=
  Function.comp_update Thread.phase threads i th

/-- Every property of all threads in the guard, after one thread has been replaced. -/
theorem forall_update {threads : ι → Thread} {i : ι} {th : Thread} {P : ι → Thread → Prop} (hi : P i th)
    (hne : ∀ j, j ≠ i → P j (threads j)) (j : ι) : P j (Function.update threads i th j) := by
  by_cases hj : j = i
  · subst hj; rwa [Function.update_self]
  · rw [Function.update_of_ne hj]; exact hne j hj

omit [DecidableEq ι] in
/-- The invariant holds at the start. -/
theorem initial_inv {w : World ι} (h : Initial t w) : WorldInv t w where
  slot_ctx := h.slot_ctx
  slot_apart := fun i hi => absurd hi (h.outside i)
  counters_apart := fun i hi => absurd hi (h.outside i)
  disjoint := fun i _ _ hi => absurd hi (h.outside i)
  locals := fun i hi => absurd hi (h.outside i)
  covered := by
    intro b hb
    have hz : counts t w.mem b = 0 := congrArg (fun c : Counters => (c b).toNat) h.zero
    exact absurd (hz ▸ hb) (by decide)

/-- A thread enters. -/
theorem enter_inv {w : World ι} {i : ι} {cpu : Cpu} (h : WorldInv t w) (hi : ¬ (w.threads i).InGuard)
    (hok : EnterOk t w cpu) :
    WorldInv t { w with threads := Function.update w.threads i ⟨cpu, .inside 0, cpu⟩ } where
  slot_ctx := h.slot_ctx
  slot_apart := forall_update (P := fun _ th => th.InGuard → ∀ x, Scratch th.rsp x → ¬ InRange t.functionCtxPtr 8 x)
    (fun _ x hx hp => hok x hx (.inl hp)) fun j _ => h.slot_apart j
  counters_apart :=
    forall_update (P := fun _ th => th.InGuard → ∀ b, ¬ Scratch th.rsp (counterAddress t.functionCtx b))
      (fun _ b hb => hok _ hb (.inr (.inl ⟨b, rfl⟩))) fun j _ => h.counters_apart j
  disjoint := by
    intro j k hjk
    by_cases hj : j = i
    · subst hj
      simp only [Function.update_self, Function.update_of_ne (Ne.symm hjk)]
      exact fun _ hk x hx hx' => hok x hx (.inr (.inr ⟨k, hk, hx'⟩))
    · by_cases hk : k = i
      · subst hk
        simp only [Function.update_self, Function.update_of_ne hjk]
        exact fun hj _ x hx hx' => hok x hx' (.inr (.inr ⟨j, hj, hx⟩))
      · simp only [Function.update_of_ne hj, Function.update_of_ne hk]
        exact h.disjoint j k hjk
  locals := forall_update (P := fun _ th => th.InGuard → Local t w.mem th.rsp th.cpu th.pc)
    (fun _ => (slot_four _).symm) fun j _ => h.locals j
  covered := by
    have hphase : (Thread.mk cpu (.inside 0) cpu).phase = (w.threads i).phase := (phase_idle hi).symm
    rw [phase_update, hphase, Function.update_eq_self]
    exact h.covered

/-- One instruction of one thread. -/
theorem exec_inv {w : World ι} {i : ι} (h : WorldInv t w) (hi : (w.threads i).InGuard) :
    WorldInv t
      { mem := ((w.threads i).step t w.mem).st.mem
        threads := Function.update w.threads i
          ⟨(w.threads i).entry, ((w.threads i).step t w.mem).pc, ((w.threads i).step t w.mem).st.toCpu⟩ } := by
  have hs : ThreadStep t w.mem (w.threads i).rsp (w.threads i).cpu (w.threads i).pc
      ((w.threads i).step t w.mem) := by
    obtain ⟨k, hpc, hk⟩ := hi
    have hl := h.locals i ⟨k, hpc, hk⟩
    rw [Thread.step]
    rw [hpc] at hl ⊢
    exact thread_step hk h.slot_ctx (h.counters_apart i ⟨k, hpc, hk⟩) hl
  generalize hc : (w.threads i).step t w.mem = c at hs
  refine ⟨?_, ?_, ?_, ?_, ?_, ?_⟩
  · -- the slot is neither scratch nor a counter
    rw [← h.slot_ctx]
    refine read64_congr fun x hx => hs.frame x (fun hx' => h.slot_apart i hi x hx' hx) fun b hb => ?_
    exact t.slot_apart b (hb ▸ hx)
  · exact forall_update (P := fun _ th => th.InGuard → ∀ x, Scratch th.rsp x → ¬ InRange t.functionCtxPtr 8 x)
      (fun _ => h.slot_apart i hi) fun j _ => h.slot_apart j
  · exact forall_update (P := fun _ th => th.InGuard → ∀ b, ¬ Scratch th.rsp (counterAddress t.functionCtx b))
      (fun _ => h.counters_apart i hi) fun j _ => h.counters_apart j
  · intro j k hjk
    by_cases hj : j = i
    · subst hj
      simp only [Function.update_self, Function.update_of_ne (Ne.symm hjk)]
      exact fun _ hk => h.disjoint j k hjk hi hk
    · by_cases hk : k = i
      · subst hk
        simp only [Function.update_self, Function.update_of_ne hjk]
        exact fun hj _ => h.disjoint j k hjk hj hi
      · simp only [Function.update_of_ne hj, Function.update_of_ne hk]
        exact h.disjoint j k hjk
  · refine forall_update (P := fun _ th => th.InGuard → Local t c.st.mem th.rsp th.cpu th.pc)
      (fun _ => hs.keeps) fun j hj hg => (h.locals j hg).frame fun x hx => ?_
    exact hs.frame x (h.disjoint j i hj hg hi x hx) fun b hb => h.counters_apart j hg b (hb ▸ hx)
  · rw [phase_update]
    rcases hs.move with ⟨hcounts, hphase⟩ | hmove
    · have hphase' : (Thread.mk (w.threads i).entry c.pc c.st.toCpu).phase = (w.threads i).phase := hphase
      rw [hcounts, hphase', Function.update_eq_self]
      exact h.covered
    · exact h.covered.step (by decide) hmove

omit [DecidableEq ι] in
/-- Anything else. -/
theorem other_inv {w : World ι} {m : Mem} (h : WorldInv t w) (hm : ∀ x, Protected t w x → m x = w.mem x) :
    WorldInv t { w with mem := m } where
  slot_ctx := h.slot_ctx ▸ read64_congr fun x hx => hm x (.inl hx)
  slot_apart := h.slot_apart
  counters_apart := h.counters_apart
  disjoint := h.disjoint
  locals := fun i hi => (h.locals i hi).frame fun x hx => hm x (.inr (.inr ⟨i, hi, hx⟩))
  covered := by
    have hcounts : counts t m = counts t w.mem :=
      funext fun b => congrArg BitVec.toNat (hm _ (.inr (.inl ⟨b, rfl⟩)))
    rw [hcounts]
    exact h.covered

/-- **The invariant of the world** holds after every run. -/
theorem race_inv {w₀ w : World ι} {es : List (RaceEvent ι)} (h₀ : Initial t w₀)
    (h : Run (raceSystem t ι) w₀ es w) : WorldInv t w := by
  refine h.invariant (initial_inv h₀) fun w e w' hw hstep => ?_
  cases hstep with
  | enter i cpu hi hok => exact enter_inv hw hi hok
  | exec i hi => exact exec_inv hw hi
  | other m hm => exact other_inv hw hm

/-! ## Worlds in which no thread is counting

What the counter race says of the numbers, carried over to the bytes. -/

/-- A thread that is not between its load and the end of its guard is idle in the race. -/
theorem phase_of_not_counting {th : Thread} (h : ¬ th.Counting) : th.phase = .idle := by
  obtain ⟨entry, pc, cpu⟩ := th
  rcases pc with k | a
  · by_cases hk : counterLoad < k ∧ k < onInvokeTrampoline
    · exact absurd ⟨k, rfl, hk⟩ h
    · rcases Nat.lt_or_ge counterLoad k with hlo | hlo
      · obtain ⟨j, rfl⟩ := Nat.exists_eq_add_of_le' (Nat.le_of_not_lt fun hhi => hk ⟨hlo, hhi⟩)
        rfl
      · unfold counterLoad at hlo
        interval_cases k <;> rfl
  · rfl

/-- **Racing guards leave the counters valid.** In every reachable world in which no thread is between its
    load and the end of its guard, every counter is in range, and from there every bucket is sampled again:
    at the latest by its call number `20 - c`, where `c` is its counter. -/
theorem race_counters_valid {w₀ w : World ι} {es : List (RaceEvent ι)} (h₀ : Initial t w₀)
    (h : Run (raceSystem t ι) w₀ es w) (hquiet : ∀ i, ¬ (w.threads i).Counting) (b : Fin 64) :
    (samplingCounters w.mem t.functionCtx b).toNat ≤ 19 ∧
    ∀ calls c, Run (callSystem t) (samplingCounters w.mem t.functionCtx) calls c →
      20 - (samplingCounters w.mem t.functionCtx b).toNat ≤ callsIn b calls →
      ∃ e ∈ calls, e.bucket = b ∧ Sampled e := by
  have hlt : ∀ b, counts t w.mem b < gumSampleRate :=
    (race_inv h₀ h).covered.idle fun i => phase_of_not_counting (hquiet i)
  exact ⟨Nat.le_of_lt_succ (hlt b), fun calls c hcalls hn => exists_sampled hlt hcalls hn⟩

/-! ## A store that overtakes a reset -/

instance (th : Thread) : Decidable th.InGuard :=
  match h : th.pc with
  | .inside k => decidable_of_iff (k < onInvokeTrampoline)
      ⟨fun hk => ⟨k, h, hk⟩, fun ⟨_, hk, hlt⟩ => by rw [h] at hk; cases hk; exact hlt⟩
  | .outside _ => .isFalse fun ⟨_, hk, _⟩ => by rw [h] at hk; cases hk

/-- Two threads with a stack and a control block each. -/
def twoCpus (i : Bool) : Cpu where
  regs := fun r => if r = .rsp then (if i then 0x9000 else 0x8000) else 0
  flags := plainEntry.flags
  fsBase := if i then 0x6000 else 0x5000

/-- Their ids, 0 and 64, share bucket 0. Neither has called the function. -/
def twoThreads : World Bool where
  mem := plainEntry.mem.write64 (0x6000 + gumTcbTidOffset) 64
  threads := fun i => ⟨twoCpus i, .outside 0, twoCpus i⟩

/-- The next world, where the event can happen. -/
def nextWorld (w : World Bool) : RaceEvent Bool → Option (World Bool)
  | .enter i =>
    if (w.threads i).InGuard then none
    else some { w with threads := Function.update w.threads i ⟨twoCpus i, .inside 0, twoCpus i⟩ }
  | .exec i =>
    if (w.threads i).InGuard then
      some
        { mem := ((w.threads i).step plainSite w.mem).st.mem
          threads := Function.update w.threads i
            ⟨(w.threads i).entry, ((w.threads i).step plainSite w.mem).pc,
              ((w.threads i).step plainSite w.mem).st.toCpu⟩ }
    else none
  | .other => none

/-- The free stacks of the two threads are apart from each other and from what guards write. -/
theorem twoCpus_enterOk {w : World Bool} {i : Bool} (hentry : ∀ j, (w.threads j).entry = twoCpus j)
    (hi : ¬ (w.threads i).InGuard) : EnterOk plainSite w (twoCpus i) := by
  rintro x hx (hslot | ⟨b, rfl⟩ | ⟨j, hj, hx'⟩)
  · have hslot' : InRange 0x2000 8 x := hslot
    cases i <;> (unfold Scratch InRange twoCpus at hx; unfold InRange at hslot'; simp at hx; bv_omega)
  · have hb := b.isLt
    have hx' : Scratch (if i then 0x9000 else 0x8000) (counterAddress 0x1000 b) := hx
    cases i <;> (unfold Scratch InRange counterAddress at hx'; simp at hx'; bv_omega)
  · have hne : j ≠ i := fun hji => hi (hji ▸ hj)
    rw [Thread.rsp, hentry j] at hx'
    cases i <;> cases j <;>
      first
        | exact hne rfl
        | (unfold Scratch InRange twoCpus at hx hx'; simp at hx hx'; bv_omega)

/-- An event that is computed is a step. -/
theorem nextWorld_step {w w' : World Bool} {e : RaceEvent Bool} (hentry : ∀ j, (w.threads j).entry = twoCpus j)
    (h : nextWorld w e = some w') :
    (raceSystem plainSite Bool).step w e w' ∧ ∀ j, (w'.threads j).entry = twoCpus j := by
  cases e with
  | enter i =>
      simp only [nextWorld, Option.ite_none_left_eq_some, Option.some.injEq] at h
      obtain ⟨hi, rfl⟩ := h
      refine ⟨RaceStep.enter i _ hi (twoCpus_enterOk hentry hi), ?_⟩
      exact forall_update (P := fun j th => th.entry = twoCpus j) rfl fun j _ => hentry j
  | exec i =>
      simp only [nextWorld, Option.ite_none_right_eq_some, Option.some.injEq] at h
      obtain ⟨hi, rfl⟩ := h
      refine ⟨RaceStep.exec i hi, ?_⟩
      exact forall_update (P := fun j th => th.entry = twoCpus j) (hentry i) fun j _ => hentry j
  | other => cases h

/-- And some events are a run. -/
theorem nextWorlds_run (es : List (RaceEvent Bool)) :
    ∀ {w w' : World Bool}, (∀ j, (w.threads j).entry = twoCpus j) → es.foldlM nextWorld w = some w' →
      Run (raceSystem plainSite Bool) w es w' ∧ ∀ j, (w'.threads j).entry = twoCpus j := by
  induction es with
  | nil =>
      rintro w w' hentry h
      cases h
      exact ⟨Run.nil, hentry⟩
  | cons e es ih =>
      rintro w w' hentry h
      rw [List.foldlM_cons] at h
      obtain ⟨v, hv, hrest⟩ := Option.bind_eq_some_iff.mp h
      obtain ⟨hstep, hentry'⟩ := nextWorld_step hentry hv
      obtain ⟨hrun, hlast⟩ := ih hentry' hrest
      exact ⟨(Run.single hstep).append hrun, hlast⟩

/-- A call's first `n` instructions. -/
def callEvents (i : Bool) (n : Nat) : List (RaceEvent Bool) := .enter i :: List.replicate n (.exec i)

/-- Nineteen whole calls of the first thread; then it stores 20 and is about to reset the counter when the second one
    loads it; the reset is overtaken by the store of 21. -/
def staleStore : List (RaceEvent Bool) :=
  (List.replicate 19 (callEvents false 18)).flatten ++ callEvents false 12 ++ callEvents true 9 ++
    [.exec false, .exec true]

/-- Both go on to the end of their guards. -/
def afterStaleStore : List (RaceEvent Bool) := List.replicate 7 (.exec true) ++ List.replicate 4 (.exec false)

set_option maxRecDepth 4000 in
theorem staleStore_evaluates :
    ((staleStore.foldlM nextWorld twoThreads).bind fun w => (afterStaleStore.foldlM nextWorld w).map fun w' =>
      (samplingCounters w.mem plainSite.functionCtx 0, (w'.threads false).pc, (w'.threads true).pc)) =
        some (21, .outside plainSite.enterThunk, .outside plainSite.enterThunk) := by
  decide +kernel

/-- The counter stands at 21 for a while; when both guards are through it is in range, and of the next twenty calls
    of the bucket one is sampled. -/
theorem race_counters_valid_staleStore :
    ∃ w w', Run (raceSystem plainSite Bool) twoThreads staleStore w ∧
      samplingCounters w.mem plainSite.functionCtx 0 = 21 ∧
      Run (raceSystem plainSite Bool) w afterStaleStore w' ∧
      (samplingCounters w'.mem plainSite.functionCtx 0).toNat ≤ 19 ∧
      ∃ e ∈ plainCalls (samplingCounters w'.mem plainSite.functionCtx) (List.replicate 20 64),
        e.bucket = 0 ∧ Sampled e := by
  obtain ⟨w, hw, hrest⟩ := Option.bind_eq_some_iff.mp staleStore_evaluates
  obtain ⟨w', hw', hends⟩ := Option.map_eq_some_iff.mp hrest
  obtain ⟨hcounter, hpcs⟩ := Prod.mk.inj hends
  obtain ⟨hfalse, htrue⟩ := Prod.mk.inj hpcs
  obtain ⟨hrun, hentry⟩ := nextWorlds_run staleStore (fun _ => rfl) hw
  have hrun' := (nextWorlds_run afterStaleStore hentry hw').1
  have hinit : Initial plainSite twoThreads := ⟨fun i ⟨k, hk, _⟩ => Pc.noConfusion hk, by decide, by decide⟩
  have hquiet : ∀ i, ¬ (w'.threads i).Counting := by
    rintro i ⟨k, hk, -⟩
    cases i with
    | false => rw [hfalse] at hk; cases hk
    | true => rw [htrue] at hk; cases hk
  obtain ⟨hvalid, hnext⟩ := race_counters_valid hinit (hrun.append hrun') hquiet 0
  obtain ⟨c, hcalls⟩ := plainCalls_run (List.replicate 20 64) (samplingCounters w'.mem plainSite.functionCtx)
  have htwenty : callsIn 0 (plainCalls (samplingCounters w'.mem plainSite.functionCtx) (List.replicate 20 64)) = 20 :=
    (plainCalls_callsIn 0 _ _).trans (by decide)
  exact ⟨w, w', hrun, hcounter, hrun', hvalid, hnext _ c hcalls (htwenty.symm ▸ Nat.sub_le ..)⟩

end Gum
