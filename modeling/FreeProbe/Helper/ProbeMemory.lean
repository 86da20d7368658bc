import FreeProbe.Lib.Machine
import FreeProbe.Lib.Memory
import Mathlib.Logic.Function.Basic

/-!
# `Helper.ProbeMemory` — `bpftime_probe_read` and `bpftime_probe_write_user`

A probe copies memory under a handler of its own for SIGSEGV, that makes the thread go on after the copy. The handler
of the process is one slot; whether a probe is under way, and which handler it has found, are variables of the thread.
The threads' steps are taken one by one, a copy in one step. `original_sa` of a second probe of a thread is what was
on its stack (`stale`). A handler that hands a fault on is followed through the thread's variables (`callHandler`).

The handlers send the thread to the jump point and leave its other registers, so its stack pointer is that of the
faulting instruction. How the compiler has laid out the frame is a parameter (`Build`): a probe whose epilogue counts
from the stack pointer does not find its return address then.

`memcpy` between valid ranges that overlap is undefined, and has no next step. Between invalid ones it faults as any
other, and what it has written by then (`torn`) is of no account here.
-/

namespace Probe

open Lib Lib.Memory

/-- `sa_sigaction` for SIGSEGV: null, the application's handler, `segv_read_handler` and `segv_write_handler`. -/
inductive Handler where
  | null
  | application
  | segvRead
  | segvWrite
deriving DecidableEq, Repr

inductive Kind where
  | read
  | write
deriving DecidableEq, Repr

def Kind.handler : Kind → Handler
  | .read => .segvRead
  | .write => .segvWrite

def Kind.other : Kind → Kind
  | .read => .write
  | .write => .read

/-- `PROBE_STATUS`. -/
inductive Status where
  | notRunning
  | runningNoError
  | runningError
deriving DecidableEq, Repr

/-- `ORIGIN_HANDLER_EXIST_FLAG`. -/
inductive Exist where
  | notChecked
  | notExist
  | exist
deriving DecidableEq, Repr

/-- The code of a probe, as compiled: its epilogue takes the frame from the frame pointer, or counts from the stack
    pointer; and what is on the stack below the frame while it copies, the return address of a `memcpy` that is called
    or nothing where it stands inline. -/
structure Build where
  framePointer : Kind → Bool
  pushed       : Kind → Nat

/-- The thread-local variables, `status_probe_…`, `exist_…` and `origin_segv_…_handler`. -/
structure Locals where
  status : Kind → Status
  exist  : Kind → Exist
  origin : Kind → Handler

/-- Which addresses can be read and written. -/
structure Access where
  readable : Nat → Bool
  writable : Nat → Bool

structure Request where
  kind : Kind
  dst  : Nat
  src  : Nat
  size : Int
deriving DecidableEq, Repr

/-- Where a thread is: outside of a probe, about to look for the handler, about to install its own (with
    `original_sa`), about to copy, after the copy (with what the source held and what the destination holds), or sent
    there by a handler (with what is still on the stack below the frame). A thread that is gone was in a fault that no
    probe took, or has returned from a probe to nowhere. -/
inductive Phase where
  | outside
  | checking (r : Request)
  | installing (r : Request) (original : Handler)
  | copying (r : Request)
  | copied (r : Request) (loaded stored : List (BitVec 8))
  | jumped (r : Request) (pushed : Nat)
  | gone
deriving DecidableEq, Repr

structure World where
  slot   : Handler
  locals : Nat → Locals
  phase  : Nat → Phase
  bytes  : Nat → BitVec 8

inductive Event where
  | probe (t : Nat) (r : Request)
  | step (t : Nat) (stale : Handler) (torn : List (Option (BitVec 8)))
  /-- The application's own code faults. -/
  | fault (t : Nat)
deriving DecidableEq, Repr

/-- What becomes of a fault: the kernel's default action, the application's handler, the end of a probe's copy, the
    faulting instruction again, an exception that leaves the handler, or handlers that call each other for ever. -/
inductive Outcome where
  | default
  | application
  | jumped (kind : Kind)
  | resumed
  | threw
  | looped
deriving DecidableEq, Repr

inductive Report where
  | quiet
  | returned (r : Request) (code : Int) (moved : Option (List (BitVec 8) × List (BitVec 8)))
  /-- The epilogue takes a wrong return address. -/
  | lost (r : Request)
  | faulted (outcome : Outcome)
  | leaked (outcome : Outcome)
deriving DecidableEq, Repr

def EFAULT : Int := 14

/-- `bpftime_probe_read(dst, size, ptr, …)`. -/
def bpftimeProbeRead (t dst : Nat) (size : Int) (ptr : Nat) : Event := .probe t ⟨.read, dst, ptr, size⟩

/-- `bpftime_probe_write_user(dst, src, len, …)`. -/
def bpftimeProbeWriteUser (t dst src : Nat) (len : Int) : Event := .probe t ⟨.write, dst, src, len⟩

/-! ## The handlers -/

/-- The handler of a probe looks at the thread's variables; `call` is what becomes of a fault that it hands on. -/
def probeHandler (l : Locals) (kind : Kind) (call : Handler → Option Outcome) : Option Outcome :=
  match l.status kind with
  | .notRunning => if l.origin kind ≠ .null then call (l.origin kind) else some .threw
  | .runningNoError => some (.jumped kind)
  | .runningError => some .resumed

def segvReadHandler (l : Locals) (call : Handler → Option Outcome) : Option Outcome := probeHandler l .read call

def segvWriteHandler (l : Locals) (call : Handler → Option Outcome) : Option Outcome := probeHandler l .write call

/-- A handler's call, and the calls that it makes, `fuel` of them at most. -/
def callHandler (l : Locals) : Nat → Handler → Option Outcome
  | 0, _ => none
  | _ + 1, .null => some .default
  | _ + 1, .application => some .application
  | fuel + 1, .segvRead => segvReadHandler l (callHandler l fuel)
  | fuel + 1, .segvWrite => segvWriteHandler l (callHandler l fuel)

/-- The kernel delivers a fault; after three calls the handlers only repeat themselves. -/
def deliver (l : Locals) (slot : Handler) : Outcome := (callHandler l 3 slot).getD .looped

/-! ## The steps -/

def Locals.init : Locals := ⟨fun _ => .notRunning, fun _ => .notChecked, fun _ => .null⟩

def Locals.setStatus (l : Locals) (kind : Kind) (status : Status) : Locals :=
  { l with status := Function.update l.status kind status }

def Request.accessible (access : Access) (r : Request) (i : Nat) : Bool :=
  access.readable (r.src + i) && access.writable (r.dst + i)

/-- The probe is on valid addresses. -/
def Request.Valid (access : Access) (r : Request) : Prop := 0 ≤ r.size ∧ ∀ i < r.size.toNat, r.accessible access i = true

instance (access : Access) (r : Request) : Decidable (r.Valid access) := inferInstanceAs (Decidable (_ ∧ ∀ _ < _, _))

def Request.Overlaps (r : Request) : Prop := r.src < r.dst + r.size.toNat ∧ r.dst < r.src + r.size.toNat

instance (r : Request) : Decidable r.Overlaps := inferInstanceAs (Decidable (_ ∧ _))

/-- The bytes of `torn` that a copy was let to write before it faulted. -/
def Request.tear (access : Access) (r : Request) (torn : List (Option (BitVec 8))) (bytes : Nat → BitVec 8) :
    Nat → BitVec 8 :=
  fun a =>
    if r.dst ≤ a ∧ a < r.dst + r.size.toNat ∧ access.writable a then ((torn[a - r.dst]?).join).getD (bytes a)
    else bytes a

namespace World

/-- No probe has been made. The application has installed a handler or has not. -/
def init (installed : Bool) (bytes : Nat → BitVec 8) : World :=
  ⟨if installed then .application else .null, fun _ => .init, fun _ => .outside, bytes⟩

def setThread (w : World) (t : Nat) (l : Locals) (phase : Phase) : World :=
  { w with locals := Function.update w.locals t l, phase := Function.update w.phase t phase }

/-- Up to `status_probe_… = RUNNING_NO_ERROR`. -/
def startProbe (w : World) (t : Nat) (r : Request) : Report × World :=
  if r.size < 0 then (.returned r (-EFAULT) none, w)
  else (.quiet, w.setThread t ((w.locals t).setStatus r.kind .runningNoError) (.checking r))

/-- `sigaction(SIGSEGV, nullptr, &original_sa)`, if the thread has not yet asked. -/
def check (w : World) (t : Nat) (r : Request) (stale : Handler) : World :=
  let l := w.locals t
  if l.exist r.kind = .notChecked then
    let asked :=
      if w.slot = .null then { l with exist := Function.update l.exist r.kind .notExist }
      else { l with exist := Function.update l.exist r.kind .exist, origin := Function.update l.origin r.kind w.slot }
    w.setThread t asked (.installing r w.slot)
  else w.setThread t l (.installing r stale)

/-- `sigaction(SIGSEGV, &sa, nullptr)`, unless `original_sa` has the handler already. -/
def install (w : World) (t : Nat) (r : Request) (original : Handler) : World :=
  let next := w.setThread t (w.locals t) (.copying r)
  if original ≠ r.kind.handler then { next with slot := r.kind.handler } else next

/-- `memcpy`. -/
def copy (build : Build) (access : Access) (w : World) (t : Nat) (r : Request) (torn : List (Option (BitVec 8))) :
    Option (Report × World) :=
  let l := w.locals t
  if r.Valid access then
    if r.Overlaps then none
    else
      let loaded := load w.bytes r.src r.size.toNat
      let bytes := store w.bytes r.dst loaded
      some (.quiet, { w.setThread t l (.copied r loaded (load bytes r.dst r.size.toNat)) with bytes := bytes })
  else
    let bytes := r.tear access torn w.bytes
    match deliver l w.slot with
    | .jumped kind =>
      -- `*ip` is all that the handler sets
      let next := w.setThread t (l.setStatus kind .runningError) (.jumped r (build.pushed r.kind))
      some (.quiet, { next with bytes := bytes })
    | outcome => some (.leaked outcome, { w.setThread t l .gone with bytes := bytes })

/-- From the jump point on, with `pushed` bytes still on the stack below the frame. -/
def finish (build : Build) (w : World) (t : Nat) (r : Request) (pushed : Nat)
    (moved : Option (List (BitVec 8) × List (BitVec 8))) : Report × World :=
  let ret := if (w.locals t).status r.kind = .runningError then -EFAULT else 0
  let l := (w.locals t).setStatus r.kind .notRunning
  if build.framePointer r.kind ∨ pushed = 0 then (.returned r ret moved, w.setThread t l .outside)
  else (.lost r, w.setThread t l .gone)

/-- A fault in the application's own code. Its handler may let the thread go on. -/
def applicationFault (w : World) (t : Nat) : Report × World :=
  match deliver (w.locals t) w.slot with
  | .application => (.faulted .application, w)
  | outcome => (.faulted outcome, w.setThread t (w.locals t) .gone)

def step (build : Build) (access : Access) (w : World) : Event → Option (Report × World)
  | .probe t r => if w.phase t = .outside then some (w.startProbe t r) else some (.quiet, w)
  | .step t stale torn =>
    match w.phase t with
    | .outside | .gone => some (.quiet, w)
    | .checking r => some (.quiet, w.check t r stale)
    | .installing r original => some (.quiet, w.install t r original)
    | .copying r => w.copy build access t r torn
    | .copied r loaded stored => some (w.finish build t r 0 (some (loaded, stored)))
    | .jumped r pushed => some (w.finish build t r pushed none)
  | .fault t => if w.phase t = .outside then some (w.applicationFault t) else some (.quiet, w)

end World

end Probe
