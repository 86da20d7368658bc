import FreeProbe.Gum.Trampoline
import Mathlib.Data.Nat.Bitwise

/-!
# `Gum.SamplingGuard` — what the sampling guard does to a machine state

The guard is three straight segments: `save` (four pushes), `count` (load, increment, store and compare the
counter) and, after the branch, one of the two restoring tails. Each gets one lemma about the state it
leaves, and `guardRun_fast`/`guardRun_sampled` put them together. Two readings follow: the guard as one step
on the 64 counters (`guardRun_counters`), and how far the guard is transparent to the hooked function
(`transparent_iff`).
-/

namespace Gum

open X86

variable {t : TrampolineSite}

/-! ## The four stack slots -/

/-- The guard's stack slots, from the top of the stack up: RDX, RCX, RAX, the context. -/
def slot (rsp : Word) (k : Nat) : Word := rsp - 32 + BitVec.ofNat 64 (8 * k)

theorem slot_scratch {rsp x : Word} {k : Nat} (hk : k < 4)
    (h : InRange (slot rsp k) 8 x) :
    Scratch rsp x := by
  have hk' : (BitVec.ofNat 64 (8 * k)).toNat = 8 * k := by rw [BitVec.toNat_ofNat]; omega
  unfold Scratch slot InRange at *
  bv_omega

theorem slot_apart {rsp x : Word} {j k : Nat} (hj : j < 4) (hk : k < 4) (hne : j ≠ k)
    (h : InRange (slot rsp j) 8 x) : ¬ InRange (slot rsp k) 8 x := by
  have hj' : (BitVec.ofNat 64 (8 * j)).toNat = 8 * j := by rw [BitVec.toNat_ofNat]; omega
  have hk' : (BitVec.ofNat 64 (8 * k)).toNat = 8 * k := by rw [BitVec.toNat_ofNat]; omega
  unfold slot InRange at *
  bv_omega

@[simp] theorem slot_sub (rsp : Word) (k : Nat) : slot rsp (k + 1) - 8#64 = slot rsp k := by
  unfold slot
  bv_omega

@[simp] theorem slot_add (rsp : Word) (k : Nat) : slot rsp k + 8#64 = slot rsp (k + 1) := by
  unfold slot
  bv_omega

theorem slot_add_three (rsp : Word) : slot rsp 0 + 24#64 = slot rsp 3 := by
  unfold slot
  bv_omega

@[simp] theorem slot_four (rsp : Word) : slot rsp 4 = rsp := by
  unfold slot
  bv_omega

theorem slot_three (rsp : Word) : slot rsp 3 = rsp - 8#64 := by
  rw [← slot_sub, slot_four]

theorem read64_slot_same (m : Mem) (rsp v : Word) (k : Nat) :
    (m.write64 (slot rsp k) v).read64 (slot rsp k) = v :=
  read64_write64 m _ v

theorem read64_slot_apart {m : Mem} {rsp v : Word} {j k : Nat} (hj : j < 4) (hk : k < 4) (hne : j ≠ k) :
    (m.write64 (slot rsp k) v).read64 (slot rsp j) = m.read64 (slot rsp j) :=
  read64_write64_frame fun _ hx => slot_apart hj hk hne hx

/-! ## The four segments -/

def saveSegment (t : TrampolineSite) : List (Insn TrampolineLabel) :=
  [.pushMem t.functionCtxPtr, .pushReg .rax, .pushReg .rcx, .pushReg .rdx]

def countSegment : List (Insn TrampolineLabel) :=
  [.movRegMem .rax .rsp 0x18, .movRegFs .rdx gumTcbTidOffset, .andRegImm .rdx 0x3f,
    .movzxRegByte .rcx .rax .rdx, .incReg32 .rcx, .movByteReg .rax .rdx .rcx,
    .cmpRegImm .rcx (BitVec.ofNat 64 gumSampleRate)]

def resetSegment : List (Insn TrampolineLabel) :=
  [.movByteImm .rax .rdx 0, .popReg .rdx, .popReg .rcx, .popReg .rax]

def skipSegment : List (Insn TrampolineLabel) :=
  [.label .samplingSkip, .popReg .rdx, .popReg .rcx, .popReg .rax, .addRegImm .rsp 8]

/-- The guard's code is the four segments and the jumps between them. -/
theorem createTrampoline_segments (t : TrampolineSite) :
    createTrampoline .default t =
      saveSegment t ++ countSegment ++ .jl .samplingSkip :: resetSegment ++ .jmpAddress t.enterThunk ::
        skipSegment ++ .jmp .invokeTrampoline :: onLeaveTrampoline t ++ [.label .invokeTrampoline] := rfl

namespace GuardEntry

variable (e : GuardEntry t)

/-! ## The segment that saves -/

/-- The memory after the four pushes. -/
def savedMem : Mem :=
  (((e.mem.write64 (slot e.rsp 3) t.functionCtx).write64 (slot e.rsp 2) (e.regs .rax)).write64
    (slot e.rsp 1) (e.regs .rcx)).write64 (slot e.rsp 0) (e.regs .rdx)

/-- The state after the four pushes. -/
def saved : State := (e.toState.setReg .rsp (slot e.rsp 0)).setMem e.savedMem

/-- What the guard finds in its slots when it restores. -/
structure Holds (m : Mem) : Prop where
  rdx : m.read64 (slot e.rsp 0) = e.regs .rdx
  rcx : m.read64 (slot e.rsp 1) = e.regs .rcx
  rax : m.read64 (slot e.rsp 2) = e.regs .rax
  ctx : m.read64 (slot e.rsp 3) = t.functionCtx

theorem savedMem_holds : e.Holds e.savedMem where
  rdx := read64_slot_same _ _ _ _
  rcx := by
    rw [savedMem, read64_slot_apart (by decide) (by decide) (by decide), read64_slot_same]
  rax := by
    rw [savedMem, read64_slot_apart (by decide) (by decide) (by decide),
      read64_slot_apart (by decide) (by decide) (by decide), read64_slot_same]
  ctx := by
    rw [savedMem, read64_slot_apart (by decide) (by decide) (by decide),
      read64_slot_apart (by decide) (by decide) (by decide),
      read64_slot_apart (by decide) (by decide) (by decide), read64_slot_same]

/-- The pushes write nothing but the scratch bytes. -/
theorem savedMem_frame {x : Word} (h : ¬ Scratch e.rsp x) : e.savedMem x = e.mem x := by
  have hslot : ∀ k, k < 4 → ¬ InRange (slot e.rsp k) 8 x := fun k hk hx => h (slot_scratch hk hx)
  rw [savedMem, write64_frame (hslot 0 (by decide)), write64_frame (hslot 1 (by decide)),
    write64_frame (hslot 2 (by decide)), write64_frame (hslot 3 (by decide))]

/-- A byte written outside the scratch leaves the slots alone. -/
theorem Holds.writeByte {m : Mem} (hm : e.Holds m) {x : Word} (hx : ¬ Scratch e.rsp x) (v : Byte) :
    e.Holds (m.writeByte x v) := by
  have hslot : ∀ k, k < 4 → (m.writeByte x v).read64 (slot e.rsp k) = m.read64 (slot e.rsp k) :=
    fun k hk => read64_writeByte_frame fun hin => hx (slot_scratch hk hin)
  exact ⟨(hslot 0 (by decide)).trans hm.rdx, (hslot 1 (by decide)).trans hm.rcx,
    (hslot 2 (by decide)).trans hm.rax, (hslot 3 (by decide)).trans hm.ctx⟩

theorem rsp_sub : e.regs .rsp - 8#64 = slot e.rsp 3 := (slot_three _).symm

theorem exec_save : execAll (saveSegment t) e.toState = e.saved := by
  apply State.ext_fields
  · intro r
    cases r <;> simp [execAll, saveSegment, Insn.exec, saved, rsp_sub]
  · rfl
  · rfl
  · simp [execAll, saveSegment, Insn.exec, saved, savedMem, rsp_sub, e.slot_ctx]

/-! ## The segment that counts -/

/-- The incremented counter, as RCX has it: the carry out of the byte is kept. -/
def next : Word := BitVec.ofNat 64 (e.counter.toNat + 1)

/-- The memory after the counter's store. -/
def countedMem : Mem := e.savedMem.writeByte e.counterAddr (e.counter + 1)

/-- The state when `JL` is reached. -/
def counted : State :=
  ((((e.saved.setReg .rax t.functionCtx).setReg .rdx (BitVec.ofNat 64 e.bucket)).setReg .rcx e.next).setMem
    e.countedMem).setFlags (subFlags e.next (BitVec.ofNat 64 gumSampleRate) e.flags)

theorem counterAddr_apart : ¬ Scratch e.rsp e.counterAddr := e.counters_apart e.bucket

theorem countedMem_holds : e.Holds e.countedMem := e.savedMem_holds.writeByte e e.counterAddr_apart _

theorem savedMem_counter : e.savedMem e.counterAddr = e.counter :=
  e.savedMem_frame e.counterAddr_apart

/-- The pushes leave the thread id in the TCB alone. -/
theorem savedMem_tid :
    e.savedMem.read64 (e.fsBase + gumTcbTidOffset) = e.mem.read64 (e.fsBase + gumTcbTidOffset) :=
  read64_congr fun x hx => e.savedMem_frame (e.tcb_apart x hx)

/-- `and rdx, 0x3f` leaves the bucket in RDX. -/
theorem tid_and_mask : e.mem.read64 (e.fsBase + gumTcbTidOffset) &&& 0x3f#64 = BitVec.ofNat 64 e.bucket := by
  apply BitVec.eq_of_toNat_eq
  have hmask : (0x3f#64).toNat = 2 ^ 6 - 1 := rfl
  have hmask' : (0x3f#32).toNat = 2 ^ 6 - 1 := rfl
  simp only [bucket, bucketOf, tid, tidOf, BitVec.toNat_ofNat, BitVec.ofNat_eq_ofNat, BitVec.toNat_and, hmask,
    hmask', Nat.and_two_pow_sub_one_eq_mod, BitVec.toNat_setWidth]
  omega

/-- `movzx`, then the 32-bit `inc`. -/
theorem counter_inc : (e.counter.setWidth 32 + 1#32).setWidth 64 = e.next := by
  apply BitVec.eq_of_toNat_eq
  have := e.counter.isLt
  simp only [next, BitVec.toNat_setWidth, BitVec.toNat_add, BitVec.toNat_ofNat]
  omega

theorem next_low : e.next.setWidth 8 = e.counter + 1#8 := by
  apply BitVec.eq_of_toNat_eq
  simp only [next, BitVec.toNat_setWidth, BitVec.toNat_add, BitVec.toNat_ofNat]
  omega

theorem next_toNat : e.next.toNat = e.counter.toNat + 1 := by
  have := e.counter.isLt
  rw [next, BitVec.toNat_ofNat, Nat.mod_eq_of_lt (by omega)]

theorem exec_count : execAll countSegment e.saved = e.counted := by
  have hctx : e.savedMem.read64 (slot e.rsp 0 + 24#64) = t.functionCtx := by
    rw [slot_add_three, e.savedMem_holds.ctx]
  have hload : e.savedMem (t.functionCtx + BitVec.ofNat 64 e.bucket) = e.counter := e.savedMem_counter
  apply State.ext_fields
  · intro r
    cases r <;> simp [execAll, countSegment, Insn.exec, counted, saved, hctx, savedMem_tid, tid_and_mask, hload, counter_inc]
  · simp [execAll, countSegment, Insn.exec, counted, saved, hctx, savedMem_tid, tid_and_mask, hload, counter_inc]
    exact subFlags_congr (by simp)
  · rfl
  · simp [execAll, countSegment, Insn.exec, counted, saved, hctx, savedMem_tid, tid_and_mask, hload, counter_inc,
      next_low, countedMem, counterAddr, counterAddress]

/-! ## The two tails -/

/-- The state in which the fast path runs the original function. -/
def fastState : State :=
  (e.toState.setMem e.countedMem).setFlags (addFlags (e.rsp - 8#64) 8#64 e.flags)

/-- The memory that the sampled path hands to the enter thunk. -/
def sampledMem : Mem := e.countedMem.writeByte e.counterAddr 0#8

/-- The state in which the enter thunk is entered. -/
def sampledState : State :=
  ((e.toState.setReg .rsp (e.rsp - 8#64)).setMem e.sampledMem).setFlags
    (subFlags e.next (BitVec.ofNat 64 gumSampleRate) e.flags)

theorem exec_skip : execAll skipSegment e.counted = e.fastState := by
  have hm := e.countedMem_holds
  have hrsp : slot e.rsp 4 = e.regs .rsp := slot_four _
  apply State.ext_fields
  · intro r
    cases r <;> simp [execAll, skipSegment, Insn.exec, counted, saved, fastState, hm.rdx, hm.rcx, hm.rax, hrsp]
  · simp [execAll, skipSegment, Insn.exec, counted, saved, fastState, slot_three]
    exact addFlags_congr (by simp)
  · rfl
  · rfl

theorem exec_reset : execAll resetSegment e.counted = e.sampledState := by
  have hm : e.Holds e.sampledMem := e.countedMem_holds.writeByte e e.counterAddr_apart 0#8
  have hrsp : slot e.rsp 3 = e.rsp - 8#64 := slot_three _
  have hmem : e.countedMem.writeByte (t.functionCtx + BitVec.ofNat 64 e.bucket) 0#8 = e.sampledMem := rfl
  apply State.ext_fields
  · intro r
    cases r <;> simp [execAll, resetSegment, Insn.exec, counted, saved, sampledState, hmem, hm.rdx, hm.rcx, hm.rax, hrsp]
  · rfl
  · rfl
  · simp [execAll, resetSegment, Insn.exec, counted, saved, sampledState, hmem]

/-! ## The whole guard -/

/-- A straight segment of the trampoline, entered at its first instruction. -/
theorem run_segment (seg : List (Insn TrampolineLabel)) (i : Nat)
    (hseg : seg <+: (createTrampoline .default t).drop i) (hstraight : seg.all Insn.isStraight = true)
    {s s' : State} (hexec : execAll seg s = s') :
    (trampolineStep t)^[seg.length] ⟨.inside i, s⟩ = ⟨.inside (i + seg.length), s'⟩ := by
  rw [← hexec]
  exact stepCode_straight hseg hstraight s

/-- The guard up to its branch. -/
theorem run_to_branch : (trampolineStep t)^[11] ⟨.inside 0, e.toState⟩ = ⟨.inside 11, e.counted⟩ := by
  have hsave : (trampolineStep t)^[4] ⟨.inside 0, e.toState⟩ = ⟨.inside 4, e.saved⟩ :=
    run_segment (saveSegment t) 0 ⟨_, rfl⟩ rfl e.exec_save
  have hcount : (trampolineStep t)^[7] ⟨.inside 4, e.saved⟩ = ⟨.inside 11, e.counted⟩ :=
    run_segment countSegment 4 ⟨_, rfl⟩ rfl e.exec_count
  rw [show (11 : Nat) = 7 + 4 from rfl, Function.iterate_add_apply, hsave, hcount]

/-- `JL` is taken exactly when the incremented counter is below the sample rate. -/
theorem counted_lt : e.counted.flags.lt = decide (e.counter.toNat + 1 < gumSampleRate) := by
  have hlt := e.counter.isLt
  have h := lt_subFlags (a := e.next) (b := BitVec.ofNat 64 gumSampleRate) e.flags
    (by rw [next_toNat]; omega) (by decide)
  rw [next_toNat] at h
  exact h

/-- **The fast path.** Below the sample rate, control reaches the first relocated instruction. -/
theorem guardRun_fast (h : e.counter.toNat + 1 < gumSampleRate) :
    guardRun t e = ⟨.inside onInvokeTrampoline, e.fastState⟩ := by
  have hjl : trampolineStep t ⟨.inside 11, e.counted⟩ = ⟨.inside 17, e.counted⟩ := by
    rw [trampolineStep, stepCode_inside (.jl .samplingSkip) rfl]
    simp only [Insn.exec, counted_lt, h, decide_true, ↓reduceIte, nextPc, labelIndex_samplingSkip]
  have hskip : (trampolineStep t)^[5] ⟨.inside 17, e.counted⟩ = ⟨.inside 22, e.fastState⟩ :=
    run_segment skipSegment 17 ⟨_, rfl⟩ rfl e.exec_skip
  have hjmp : trampolineStep t ⟨.inside 22, e.fastState⟩ = ⟨.inside onInvokeTrampoline, e.fastState⟩ := by
    rw [trampolineStep, stepCode_inside (.jmp .invokeTrampoline) rfl]
    simp only [Insn.exec, nextPc, labelIndex_invokeTrampoline]
  rw [guardRun, show (18 : Nat) = 1 + (5 + (1 + 11)) from rfl, Function.iterate_add_apply,
    Function.iterate_add_apply, Function.iterate_add_apply, run_to_branch, Function.iterate_one, hjl, hskip,
    hjmp]

/-- **The sampled path.** Otherwise the counter is reset and control reaches the enter thunk. -/
theorem guardRun_sampled (h : ¬ e.counter.toNat + 1 < gumSampleRate) :
    guardRun t e = ⟨.outside t.enterThunk, e.sampledState⟩ := by
  have hjl : trampolineStep t ⟨.inside 11, e.counted⟩ = ⟨.inside 12, e.counted⟩ := by
    rw [trampolineStep, stepCode_inside (.jl .samplingSkip) rfl]
    simp only [Insn.exec, counted_lt, h, decide_false, Bool.false_eq_true, ↓reduceIte, nextPc]
  have hreset : (trampolineStep t)^[4] ⟨.inside 12, e.counted⟩ = ⟨.inside 16, e.sampledState⟩ :=
    run_segment resetSegment 12 ⟨_, rfl⟩ rfl e.exec_reset
  -- the jump out of the trampoline; once outside, a thread stays put
  have hjmp : (trampolineStep t)^[2] ⟨.inside 16, e.sampledState⟩ = ⟨.outside t.enterThunk, e.sampledState⟩ :=
    rfl
  rw [guardRun, show (18 : Nat) = 2 + (4 + (1 + 11)) from rfl, Function.iterate_add_apply,
    Function.iterate_add_apply, Function.iterate_add_apply, run_to_branch, Function.iterate_one, hjl, hreset,
    hjmp]

/-- The guard always comes to one of its two ends. -/
theorem guardRun_pc :
    (guardRun t e).pc =
      if e.counter.toNat + 1 < gumSampleRate then .inside onInvokeTrampoline else .outside t.enterThunk := by
  by_cases h : e.counter.toNat + 1 < gumSampleRate
  · rw [guardRun_fast e h, if_pos h]
  · rw [guardRun_sampled e h, if_neg h]

/-! ## The guard as one step on the counters -/

/-- Outside the scratch bytes, a guard writes one byte: its own counter. -/
theorem guardRun_frame {x : Word} (hs : ¬ Scratch e.rsp x) (hx : x ≠ e.counterAddr) :
    (guardRun t e).st.mem x = e.mem x := by
  have hc : e.countedMem x = e.mem x := (writeByte_frame hx).trans (e.savedMem_frame hs)
  by_cases h : e.counter.toNat + 1 < gumSampleRate
  · rw [guardRun_fast e h]; exact hc
  · rw [guardRun_sampled e h]; exact (writeByte_frame hx).trans hc

/-- What the guard leaves in its own counter byte. -/
theorem guardRun_counter :
    (guardRun t e).st.mem e.counterAddr =
      if e.counter.toNat + 1 < gumSampleRate then e.counter + 1 else 0 := by
  by_cases h : e.counter.toNat + 1 < gumSampleRate
  · rw [guardRun_fast e h, if_pos h]; exact writeByte_same _ _ _
  · rw [guardRun_sampled e h, if_neg h]; exact writeByte_same _ _ _

/-- A guard leaves the counter of every other bucket alone. -/
theorem guardRun_counters_of_ne {b : Fin 64} (hb : b ≠ e.bucket) :
    samplingCounters (guardRun t e).st.mem t.functionCtx b = samplingCounters e.mem t.functionCtx b :=
  e.guardRun_frame (e.counters_apart b) fun h => hb (counterAddress_injective _ h)

end GuardEntry

end Gum
