import FreeProbe.Lib.X86Text

/-!
# `Attach.SyscallHook` — the system call hook of the text segment transformer

The hand-written assembly and the page at address zero, instruction by instruction, and the rewriting of the other
segments. `syscall_hooker_cxx` is C++, and calls what the variable `call_hook` holds: what its code does is what the
calling convention promises of it (`CompiledCxx`) wherever that is the default hook, `call_orig_syscall`.
-/

namespace TextSegment

open X86

/-- `NR_syscalls` -/
def nrSyscalls : Nat := 512

/-! ## The assembly -/

/-- `syscall_hooker_asm` gets the number back. -/
def popNumber : List TextInsn := [.popReg .rax, .cmpImm .rax 15]

/-- The frame of `syscall_hooker_asm`, with a stack aligned to 16. -/
def alignFrame : List TextInsn :=
  [ .movMem .rcx .rsp 0,
    .pushReg .rbp,
    .movReg .rbp .rsp,
    .andImm .rsp (-16) ]

/-- Save the system call's arguments on the stack. -/
def saveArgs : List TextInsn :=
  [ .pushReg .rax,
    .pushReg .rdi,
    .pushReg .rsi,
    .pushReg .rdx,
    .pushReg .r10,
    .pushReg .r8,
    .pushReg .r9 ]

/-- Put them where a C function has its arguments; the seventh goes on the stack. -/
def loadArgs : List TextInsn :=
  [ .movMem .rdi .rsp 48,
    .movMem .rsi .rsp 40,
    .movMem .rdx .rsp 32,
    .movMem .rcx .rsp 24,
    .movMem .r8 .rsp 16,
    .movMem .r9 .rsp 8,
    .pushMem .rsp 0 ]

def syscallHookerAsm (handleSigreturn syscallHookerCxx : Word) : List TextInsn :=
  popNumber ++ .je handleSigreturn :: ((alignFrame ++ saveArgs ++ loadArgs) ++ [.call syscallHookerCxx, .leave, .ret])

/-- `call_orig_syscall` up to the label `syscall_addr`, which is also `handle_sigreturn`. -/
def shuffleArgs : List TextInsn :=
  [ .movReg .rax .rdi,
    .movReg .rdi .rsi,
    .movReg .rsi .rdx,
    .movReg .rdx .rcx,
    .movReg .r10 .r8,
    .movReg .r8 .r9,
    .movMem .r9 .rsp 8 ]

def handleSigreturn : List TextInsn := [.syscall, .ret]

/-! ## The rewritten text -/

/-- `rewrite_segment`, for a text that the disassembler takes apart as the processor does. -/
def rewriteSegment (syscallAddr : Word) (text : Text) : Text := fun a =>
  match text a with
  | some (.syscall, next) => if a ≠ syscallAddr then some (.callReg .rax, next) else some (.syscall, next)
  | other => other

/-- `setup_syscall_tracer`: page zero, and the rewriting of everything else. -/
def setupSyscallTracer (hookerAsm syscallAddr : Word) (text : Text) : Text := fun a =>
  if a.toNat < nrSyscalls then some (.nop, a + 1)
  else if a = 512 then some (.pushReg .rax, 513)
  else if a = 513 then some (.movImm .rax hookerAsm, 523)
  else if a = 523 then some (.jmpReg .rax, 525)
  else if a.toNat < 0x1000 then none
  else rewriteSegment syscallAddr text a

/-- The program with the transformer's own code in it, before `setup_syscall_tracer`. -/
structure Image where
  text             : Text
  hookerAsm        : Word
  hookerCxx        : Word
  /-- The address of the variable `call_hook`. -/
  callHook         : Word
  callOrigSyscall  : Word
  syscallAddr      : Word
  hookerAsmEnd     : Word
  callOrigEnd      : Word
  pageZero         : ∀ a, a.toNat < 0x1000 → text a = none
  hookerAsm_code   : CodeAt text hookerAsm (syscallHookerAsm syscallAddr hookerCxx) hookerAsmEnd
  callOrig_code    : CodeAt text callOrigSyscall shuffleArgs syscallAddr
  sigreturn_code   : CodeAt text syscallAddr handleSigreturn callOrigEnd

/-- The text a traced program runs. -/
def Image.traced (image : Image) : Text := setupSyscallTracer image.hookerAsm image.syscallAddr image.text

/-! ## The compiled C++ function -/

/-- The first six arguments of a C function. -/
def argumentRegs : List Reg := [.rdi, .rsi, .rdx, .rcx, .r8, .r9]

/-- The stack a C function may write: `frame` bytes below its return address, that address and its one stack
    argument. -/
def ownStack (rsp : Word) (frame : Nat) (x : Word) : Prop := InRange (rsp - BitVec.ofNat 64 frame) (frame + 16) x

/-- `s'` is where a function entered in `s` calls the next one, with its own seven arguments. -/
structure HandsOver (frame : Nat) (s s' : State) : Prop where
  args  : ∀ r ∈ argumentRegs, s'.regs r = s.regs r
  arg7  : s'.mem.read64 (s'.regs .rsp + 8) = s.mem.read64 (s.regs .rsp + 8)
  depth : ∃ k, k ≤ frame ∧ s'.regs .rsp = s.regs .rsp - BitVec.ofNat 64 k
  mem   : ∀ x, ¬ ownStack (s.regs .rsp) frame x → s'.mem x = s.mem x

/-- What a function entered in `s'` returns with, as far as its caller's stack and registers go. -/
structure Returned (frame : Nat) (s s' r : State) : Prop where
  rsp   : r.regs .rsp = s'.regs .rsp + 8
  saved : ∀ q ∈ calleeSaved, r.regs q = s'.regs q
  mem   : ∀ x, ownStack (s.regs .rsp) frame x → r.mem x = s'.mem x

/-- What a function entered in `s` returns with, when the one that it called last has returned with `r`. -/
structure HandsBack (frame : Nat) (kept : Reg → Prop) (s r r' : State) : Prop where
  rsp   : r'.regs .rsp = s.regs .rsp + 8
  rax   : r'.regs .rax = r.regs .rax
  saved : ∀ q ∈ calleeSaved, r'.regs q = s.regs q
  kept  : ∀ q, kept q → r'.regs q = r.regs q
  mem   : ∀ x, ¬ ownStack (s.regs .rsp) frame x → r'.mem x = r.mem x

/-- **The compiled `syscall_hooker_cxx`**: entered with an aligned stack, and with `hook` in the variable at `callHook`,
    which is not in its stack, it calls the hook with its own arguments and returns what that returns. After the call it
    leaves the registers `kept` alone; a compiler need not promise any. -/
def CompiledCxx (kernel : Kernel) (text : Text) (cxx callHook hook : Word) (frame : Nat) (kept : Reg → Prop) : Prop :=
  ∀ (s : State) (traps : List Trap), (s.regs .rsp + 8).toNat % 16 = 0 → s.mem.read64 callHook = hook →
    (∀ x, InRange callHook 8 x → ¬ ownStack (s.regs .rsp) frame x) →
    ∃ s', Reaches kernel text ⟨cxx, s, traps⟩ ⟨hook, s', traps⟩ ∧ HandsOver frame s s' ∧
      ∀ r traps', Returned frame s s' r →
        ∃ r', Reaches kernel text ⟨s'.mem.read64 (s'.regs .rsp), r, traps'⟩
            ⟨s.mem.read64 (s.regs .rsp), r', traps'⟩ ∧ HandsBack frame kept s r r'

end TextSegment
