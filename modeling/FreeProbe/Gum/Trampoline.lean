import FreeProbe.Lib.X86

/-!
# `Gum.Trampoline` — the code that `_gum_interceptor_backend_create_trampoline` emits

The trampoline of a hooked function, instruction by instruction in the order of the writer calls, for
x86-64. One writer call is one instruction; the four byte sequences that the sampling guard writes with
`put_u8` are the instructions their bytes encode (`0F B6 0C 10` is `movzx ecx, byte [rax+rdx]`, `FF C1` is
`inc ecx`, `88 0C 10` is `mov [rax+rdx], cl`, `C6 04 10 00` is `mov byte [rax+rdx], 0`). The writer puts a
REX.W prefix on `mov rdx, fs:[..]`, `and rdx`, `cmp rcx` and `add rsp`, so those are 64-bit.

`sampling_counters` is the first field of `GumFunctionContext`, so counter `b` of a context is the byte at
`ctx + b`.
-/

namespace Gum

open X86

/-- The two label ids of the trampoline. -/
inductive TrampolineLabel where
  | samplingSkip
  | invokeTrampoline
deriving DecidableEq, Repr

/-- `GumInterceptorType`. -/
inductive GumInterceptorType where
  | default
  | fast
deriving DecidableEq, Repr

/-- `GUM_SAMPLE_RATE`. -/
def gumSampleRate : Nat := 20

/-- `GUM_TCB_TID_OFFSET`: where glibc keeps the kernel thread id, off the FS base. -/
def gumTcbTidOffset : Word := 0x2d0

/-- Where bucket `b` of a context is counted. -/
def counterAddress (ctx : Word) (b : Fin 64) : Word := ctx + BitVec.ofNat 64 b

/-- The addresses that are fixed when a trampoline is emitted: the context, the slot at the start of the
    code slice that holds its address, and the two thunks. The slot is no part of the context. -/
structure TrampolineSite where
  functionCtx    : Word
  functionCtxPtr : Word
  enterThunk     : Word
  leaveThunk     : Word
  slot_apart     : ∀ b, ¬ InRange functionCtxPtr 8 (counterAddress functionCtx b)

/-- The guard up to the jump into the enter thunk. -/
def samplingGuard : List (Insn TrampolineLabel) :=
  [ .pushReg .rax,
    .pushReg .rcx,
    .pushReg .rdx,
    .movRegMem .rax .rsp 0x18,
    .movRegFs .rdx gumTcbTidOffset,
    .andRegImm .rdx 0x3f,
    .movzxRegByte .rcx .rax .rdx,
    .incReg32 .rcx,
    .movByteReg .rax .rdx .rcx,
    .cmpRegImm .rcx (BitVec.ofNat 64 gumSampleRate),
    .jl .samplingSkip,
    .movByteImm .rax .rdx 0,
    .popReg .rdx,
    .popReg .rcx,
    .popReg .rax ]

/-- The fast path: undo the guard's pushes and the pushed context, then run the original. -/
def samplingSkip : List (Insn TrampolineLabel) :=
  [ .label .samplingSkip,
    .popReg .rdx,
    .popReg .rcx,
    .popReg .rax,
    .addRegImm .rsp 8,
    .jmp .invokeTrampoline ]

def onEnterTrampoline (t : TrampolineSite) : List (Insn TrampolineLabel) :=
  .pushMem t.functionCtxPtr :: samplingGuard ++ .jmpAddress t.enterThunk :: samplingSkip

def onLeaveTrampoline (t : TrampolineSite) : List (Insn TrampolineLabel) :=
  [ .pushMem t.functionCtxPtr, .jmpAddress t.leaveThunk ]

/-- The emitted code up to the first relocated instruction, which stands where the list ends. -/
def createTrampoline (type : GumInterceptorType) (t : TrampolineSite) : List (Insn TrampolineLabel) :=
  match type with
  | .default => onEnterTrampoline t ++ onLeaveTrampoline t ++ [.label .invokeTrampoline]
  | .fast => [.label .invokeTrampoline]

/-- `on_invoke_trampoline`: the index of the code's last, invisible instruction. -/
def onInvokeTrampoline : Nat := 25

theorem labelIndex_invokeTrampoline (t : TrampolineSite) :
    labelIndex (createTrampoline .default t) .invokeTrampoline = onInvokeTrampoline := rfl

theorem labelIndex_samplingSkip (t : TrampolineSite) :
    labelIndex (createTrampoline .default t) .samplingSkip = 17 := rfl

/-! ## Entering the trampoline -/

/-- The thread id a thread's TCB holds. -/
def tidOf (s : State) : BitVec 32 := (s.mem.read64 (s.fsBase + gumTcbTidOffset)).setWidth 32

theorem and_mask_lt (tid : BitVec 32) : (tid &&& 0x3f).toNat < 64 := by
  rw [BitVec.toNat_and]
  exact Nat.lt_of_le_of_lt Nat.and_le_right (by decide)

/-- The bucket of a thread id: `tid & 0x3f`. -/
def bucketOf (tid : BitVec 32) : Fin 64 := ⟨(tid &&& 0x3f).toNat, and_mask_lt tid⟩

/-- Different buckets are counted at different addresses. -/
theorem counterAddress_injective (ctx : Word) : Function.Injective (counterAddress ctx) := by
  intro b c h
  have hb := b.isLt
  have hc := c.isLt
  have h' := congrArg BitVec.toNat (add_left_cancel h)
  simp only [BitVec.toNat_ofNat] at h'
  apply Fin.ext
  omega

/-- `sampling_counters` of a context, as the memory has them. -/
def samplingCounters (m : Mem) (ctx : Word) (b : Fin 64) : Byte := m (counterAddress ctx b)

/-- The stack bytes that the guard's four pushes use, just below RSP. -/
def Scratch (rsp : Word) (a : Word) : Prop := InRange (rsp - 32) 32 a

/-- A machine state at the first instruction of `on_enter_trampoline`: any registers, flags, counters and
    thread id. What the address space promises is carried along: the slot holds the context's address, and
    the free stack below RSP is neither the context's counters nor the TCB. -/
structure GuardEntry (t : TrampolineSite) extends State where
  slot_ctx : mem.read64 t.functionCtxPtr = t.functionCtx
  tcb_apart : ∀ x, InRange (fsBase + gumTcbTidOffset) 8 x → ¬ Scratch (regs .rsp) x
  counters_apart : ∀ b, ¬ Scratch (regs .rsp) (counterAddress t.functionCtx b)

namespace GuardEntry

variable {t : TrampolineSite} (e : GuardEntry t)

def tid : BitVec 32 := tidOf e.toState

def bucket : Fin 64 := bucketOf e.tid

def rsp : Word := e.regs .rsp

/-- The counter of the calling thread's bucket, at entry. -/
def counter : Byte := samplingCounters e.mem t.functionCtx e.bucket

/-- This call's own counter byte. -/
def counterAddr : Word := counterAddress t.functionCtx e.bucket

end GuardEntry

/-- One instruction of the trampoline. -/
def trampolineStep (t : TrampolineSite) : Config → Config := stepCode (createTrampoline .default t)

/-- Where the trampoline has taken a call. -/
def guardRun (t : TrampolineSite) (e : GuardEntry t) : Config := (trampolineStep t)^[18] ⟨.inside 0, e.toState⟩

/-! ## A first call in a fresh process -/

/-- A context, its slot and the thunks at four far-apart addresses. -/
def plainSite : TrampolineSite where
  functionCtx := 0x1000
  functionCtxPtr := 0x2000
  enterThunk := 0x3000
  leaveThunk := 0x4000
  slot_apart := by decide

theorem plain_tcb_apart (x : Word) (hx : InRange (0x5000 + gumTcbTidOffset) 8 x) : ¬ Scratch 0x8000 x := by
  unfold InRange gumTcbTidOffset at hx
  unfold Scratch InRange
  bv_omega

theorem plain_counters_apart (b : Fin 64) : ¬ Scratch 0x8000 (counterAddress 0x1000 b) := by
  have hb := b.isLt
  unfold Scratch InRange counterAddress
  bv_omega

/-- A first call, by the thread with id 0: all counters zero, all status flags clear. -/
def plainEntry : GuardEntry plainSite where
  regs := fun r => if r = .rsp then 0x8000 else 0
  flags := ⟨false, false, false, false, false, false, 0x202⟩
  fsBase := 0x5000
  mem := Mem.write64 (fun _ => 0) 0x2000 0x1000
  slot_ctx := read64_write64 (fun _ => 0) 0x2000 0x1000
  tcb_apart := plain_tcb_apart
  counters_apart := plain_counters_apart

end Gum
