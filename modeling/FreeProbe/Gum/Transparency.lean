import FreeProbe.Gum.SamplingGuard

/-!
# `Gum.Transparency` — what the guard leaves of the entry state

A hook may sit at any offset inside a function, so at the trampoline's entry every register and every flag
can be live. The guard restores all registers and writes no memory but its scratch and its own counter; the
enter thunk, for its part, brackets everything in `pushfx`/`popfx`. The guard does not: it hands on the flags
of its last arithmetic instruction. `transparent_iff` is the exact extent of that.
-/

namespace Gum

open X86

variable {t : TrampolineSite}

/-- Memory is as at entry, but for the free bytes below RSP and this call's counter. -/
def MemoryKept (e : GuardEntry t) (c : Config) : Prop :=
  ∀ x, ¬ Scratch e.rsp x → x ≠ e.counterAddr → c.st.mem x = e.mem x

/-- The first relocated instruction is reached in the entry state. -/
structure FastTransparent (e : GuardEntry t) (c : Config) : Prop where
  pc : c.pc = .inside onInvokeTrampoline
  regs : c.st.regs = e.regs
  flags : c.st.flags = e.flags
  mem : MemoryKept e c

/-- The enter thunk is reached in the entry state, with the context pushed. -/
structure SampledTransparent (e : GuardEntry t) (c : Config) : Prop where
  pc : c.pc = .outside t.enterThunk
  rsp : c.st.regs .rsp = e.rsp - 8
  slot : c.st.mem.read64 (e.rsp - 8) = t.functionCtx
  regs : ∀ r, r ≠ .rsp → c.st.regs r = e.regs r
  flags : c.st.flags = e.flags
  mem : MemoryKept e c

/-- The guard shows the hooked function, or the enter thunk, the entry state. -/
def Transparent (e : GuardEntry t) : Prop :=
  if e.counter.toNat + 1 < gumSampleRate then FastTransparent e (guardRun t e)
  else SampledTransparent e (guardRun t e)

/-- The flags at entry are already those that the path's last arithmetic instruction sets: `add rsp, 8` on
    the fast path, `cmp rcx, 20` on the sampled one. -/
def FlagsSurvive (e : GuardEntry t) : Prop :=
  e.flags =
    if e.counter.toNat + 1 < gumSampleRate then addFlags (e.rsp - 8) 8 e.flags
    else subFlags (BitVec.ofNat 64 (e.counter.toNat + 1)) (BitVec.ofNat 64 gumSampleRate) e.flags

theorem guardRun_memoryKept (e : GuardEntry t) : MemoryKept e (guardRun t e) :=
  fun _ hs hx => e.guardRun_frame hs hx

/-- The general registers survive the fast path, RSP among them. -/
theorem guardRun_regs_fast (e : GuardEntry t) (h : e.counter.toNat + 1 < gumSampleRate) :
    (guardRun t e).st.regs = e.regs := by
  rw [e.guardRun_fast h]
  rfl

/-- On the sampled path they survive but for RSP, which is one slot down. -/
theorem guardRun_regs_sampled (e : GuardEntry t) (h : ¬ e.counter.toNat + 1 < gumSampleRate) (r : Reg) :
    (guardRun t e).st.regs r = if r = .rsp then e.rsp - 8 else e.regs r := by
  rw [e.guardRun_sampled h]
  rfl

/-- The extra slot holds the function context. -/
theorem guardRun_slot (e : GuardEntry t) (h : ¬ e.counter.toNat + 1 < gumSampleRate) :
    (guardRun t e).st.mem.read64 (e.rsp - 8) = t.functionCtx := by
  rw [e.guardRun_sampled h]
  have hm : e.Holds e.sampledMem := e.countedMem_holds.writeByte e e.counterAddr_apart 0#8
  have hslot : slot e.rsp 3 = e.rsp - 8 := slot_three _
  exact hslot ▸ hm.ctx

/-- The flags that the guard hands on. -/
theorem guardRun_flags (e : GuardEntry t) :
    (guardRun t e).st.flags =
      if e.counter.toNat + 1 < gumSampleRate then addFlags (e.rsp - 8) 8 e.flags
      else subFlags (BitVec.ofNat 64 (e.counter.toNat + 1)) (BitVec.ofNat 64 gumSampleRate) e.flags := by
  by_cases h : e.counter.toNat + 1 < gumSampleRate
  · rw [e.guardRun_fast h, if_pos h]; rfl
  · rw [e.guardRun_sampled h, if_neg h]; rfl

/-- **The guard is transparent exactly where it happens to recreate the flags it clobbers.** Registers,
    stack and memory are always handed on as the hooked function left them. -/
theorem transparent_iff (e : GuardEntry t) : Transparent e ↔ FlagsSurvive e := by
  have hflags := guardRun_flags e
  unfold Transparent FlagsSurvive
  by_cases h : e.counter.toNat + 1 < gumSampleRate
  · rw [if_pos h] at hflags ⊢
    rw [if_pos h, ← hflags]
    refine ⟨fun ht => ht.flags.symm, fun hf => ?_⟩
    exact ⟨by rw [e.guardRun_pc, if_pos h], guardRun_regs_fast e h, hf.symm, guardRun_memoryKept e⟩
  · rw [if_neg h] at hflags ⊢
    rw [if_neg h, ← hflags]
    refine ⟨fun ht => ht.flags.symm, fun hf => ?_⟩
    exact ⟨by rw [e.guardRun_pc, if_neg h], by rw [guardRun_regs_sampled e h, if_pos rfl],
      guardRun_slot e h, fun r hr => by rw [guardRun_regs_sampled e h, if_neg hr], hf.symm,
      guardRun_memoryKept e⟩

/-- `add rsp, 8` sets the parity flag of a first call that comes in with it clear. -/
theorem guard_not_transparent : ¬ ∀ (t : TrampolineSite) (e : GuardEntry t), Transparent e := by
  intro h
  have hfast : plainEntry.counter.toNat + 1 < gumSampleRate := by decide
  have ht : FastTransparent plainEntry (guardRun plainSite plainEntry) :=
    (if_pos hfast).mp (h plainSite plainEntry)
  have hflags := guardRun_flags plainEntry
  rw [ht.flags, if_pos hfast] at hflags
  have hpf := congrArg Flags.pf hflags
  revert hpf
  decide

end Gum
