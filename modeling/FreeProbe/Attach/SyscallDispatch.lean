import FreeProbe.Lib.Machine
import Mathlib.Logic.Function.Basic
import Mathlib.Data.List.Count
import Mathlib.Data.List.Nodup

/-!
# `Attach.SyscallDispatch` — `syscall_trace_attach_impl`

Callbacks are attached to the entry or the exit of one system call or of all of them. A `std::set` of entries is the
list of their ids in the order of the pointers: where a new entry comes in that order is the allocator's choice (`place`).
A dispatch is taken apart where it runs its callbacks and the original system call: a callback may make a system call,
so that the dispatches of a thread form a stack, and may override the result through
`curr_thread_override_return_callback` (`slot`), which names the dispatch whose variables its closure has captured.
An override when no closure is there throws, and nothing catches it: the thread has no next step.
-/

namespace SyscallTrace

open Lib

abbrev Word := BitVec 64

/-- The numbers that the tables have a place for. -/
abbrev SysNr := Fin 512

def NR_exit : SysNr := 60

def NR_exit_group : SysNr := 231

def ATTACH_SYSCALL_TRACE : Nat := 2

def EINVAL : Int := 22

def ENOENT : Int := 2

def ENOTSUP : Int := 95

def INT_MAX : Int := 2147483647

/-- What `syscall_trace_attach_private_data` and `syscall_trace_attach_entry` say of a callback; the number -1 is that
    of a global one. -/
structure AttachEntry where
  sysNr   : Int
  isEnter : Bool
deriving DecidableEq

structure Tables where
  attachEntries : Int → Option AttachEntry
  sysEnter      : Int → List Int
  sysExit       : Int → List Int
  globalEnter   : List Int
  globalExit    : List Int
  nextId        : Int

structure Args where
  arg1 : Word
  arg2 : Word
  arg3 : Word
  arg4 : Word
  arg5 : Word
  arg6 : Word
deriving DecidableEq

/-- `trace_event_raw_sys_enter` and `trace_event_raw_sys_exit`. -/
inductive Context where
  | sysEnter (id : SysNr) (args : Args)
  | sysExit (id : SysNr) (ret : Word)
deriving DecidableEq

/-- Where a dispatch is: in the loops over the enter callbacks, in the original system call, in the loops over the exit
    callbacks, or in the original system call of a number that is not traced. -/
inductive Phase where
  | enter
  | original
  | exit (ret : Word)
  | passed
deriving DecidableEq

/-- A call of `dispatch_syscall`. `depth` is its place on the thread's stack. The last fields are its history: what it
    ran, what its callbacks chose, and whether one of this phase has had a traced system call of its own. -/
structure Dispatch where
  nr          : SysNr
  args        : Args
  depth       : Nat
  phase       : Phase
  running     : Option Int
  todo        : List Int
  isOverrided : Bool
  userRet     : Word
  attached    : Int → Option AttachEntry
  enterRan    : List Int
  exitRan     : List Int
  originals   : List Word
  enterChoice : Option Word
  exitChoice  : Option Word
  nested      : Bool

/-- A dispatch that has returned: what was attached when it began, what it ran, the results of the original system
    calls, and what the callbacks chose. -/
structure Ended where
  nr          : SysNr
  attached    : Int → Option AttachEntry
  enterRan    : List Int
  exitRan     : List Int
  originals   : List Word
  enterChoice : Option Word
  exitChoice  : Option Word
  result      : Word

inductive Event where
  | create (attachType : Nat) (privateData : Option AttachEntry) (place : Nat)
  | detach (id : Int)
  | dispatch (nr : SysNr) (args : Args)
  /-- The next turn of the loop that the innermost dispatch is in. -/
  | next
  /-- The callback that runs calls `bpf_override_return` or `bpf_set_retval`. -/
  | override (value : Word)
  | callbackDone
  | originalDone (ret : Word)
deriving DecidableEq

inductive Report where
  | quiet
  | failed (code : Int)
  | created (id : Int)
  | detached (id : Int)
  | ran (id : Int) (ctx : Context)
  | returned (ended : Ended)

structure World where
  tables : Tables
  slot   : Option Nat
  stack  : List Dispatch

/-! ## The tables -/

namespace Tables

def new : Tables := ⟨fun _ => none, fun _ => [], fun _ => [], [], [], 1⟩

def insertAt (place : Nat) (id : Int) (ids : List Int) : List Int := ids.take place ++ id :: ids.drop place

/-- The table that an entry is in, with a change of it. -/
def modifyTable (s : Tables) (entry : AttachEntry) (f : List Int → List Int) : Tables :=
  if entry.isEnter then
    if entry.sysNr = -1 then { s with globalEnter := f s.globalEnter }
    else { s with sysEnter := Function.update s.sysEnter entry.sysNr (f (s.sysEnter entry.sysNr)) }
  else
    if entry.sysNr = -1 then { s with globalExit := f s.globalExit }
    else { s with sysExit := Function.update s.sysExit entry.sysNr (f (s.sysExit entry.sysNr)) }

/-- `create_attach_with_ebpf_callback`; `next_id++` is undefined at the last `int`. -/
def createAttach (s : Tables) (attachType : Nat) (privateData : Option AttachEntry) (place : Nat) :
    Option (Report × Tables) :=
  if attachType ≠ ATTACH_SYSCALL_TRACE then some (.failed (-ENOTSUP), s)
  else
    match privateData with
    | none => some (.failed (-EINVAL), s)
    | some data =>
      if 512 ≤ data.sysNr ∨ data.sysNr < -1 then some (.failed (-EINVAL), s)
      else if INT_MAX ≤ s.nextId then none
      else
        let id := s.nextId
        let owned := { s with attachEntries := Function.update s.attachEntries id (some data), nextId := id + 1 }
        some (.created id, owned.modifyTable data (insertAt place id))

/-- `detach_by_id`. -/
def detachById (s : Tables) (id : Int) : Report × Tables :=
  match s.attachEntries id with
  | none => (.failed (-ENOENT), s)
  | some entry =>
    let erased := s.modifyTable entry fun ids => ids.erase id
    (.detached id, { erased with attachEntries := Function.update erased.attachEntries id none })

/-- The callbacks that the two loops of a phase go through. -/
def enterCallbacks (s : Tables) (nr : SysNr) : List Int := s.sysEnter nr.val ++ s.globalEnter

def exitCallbacks (s : Tables) (nr : SysNr) : List Int := s.sysExit nr.val ++ s.globalExit

end Tables

/-! ## The dispatches -/

namespace Dispatch

def ended (f : Dispatch) (result : Word) : Ended :=
  ⟨f.nr, f.attached, f.enterRan, f.exitRan, f.originals, f.enterChoice, f.exitChoice, result⟩

/-- The closure that a dispatch puts in the slot. -/
def overrideReturn (f : Dispatch) (value : Word) : Dispatch := { f with isOverrided := true, userRet := value }

/-- What the callback has chosen for its own dispatch. -/
def choose (f : Dispatch) (value : Word) : Dispatch :=
  match f.phase with
  | .enter => { f with enterChoice := some value }
  | _ => { f with exitChoice := some value }

end Dispatch

namespace World

def init : World := ⟨.new, none, []⟩

/-- Whether a system call can be made: by the application, or by the callback that runs. -/
def calling (w : World) : Bool :=
  match w.stack with
  | [] => true
  | f :: _ => f.running.isSome

/-- The caller of a traced system call, if it is a callback, has nested a dispatch in its own. -/
def markNested : List Dispatch → List Dispatch
  | [] => []
  | f :: rest => { f with nested := true } :: rest

/-- The beginning of `dispatch_syscall`. -/
def dispatchSyscall (w : World) (nr : SysNr) (args : Args) : World :=
  let f : Dispatch := ⟨nr, args, w.stack.length, .enter, none, w.tables.enterCallbacks nr, false, 0,
    w.tables.attachEntries, [], [], [], none, none, false⟩
  if nr = NR_exit_group ∨ nr = NR_exit then { w with stack := { f with phase := .passed, todo := [] } :: w.stack }
  else { w with slot := some w.stack.length, stack := f :: markNested w.stack }

/-- The next turn of the loops of the innermost dispatch, or what comes after them. -/
def stepLoop (w : World) (f : Dispatch) (rest : List Dispatch) : Report × World :=
  match f.phase, f.todo with
  | .enter, id :: todo =>
    (.ran id (.sysEnter f.nr f.args),
      { w with stack := { f with running := some id, todo := todo, enterRan := f.enterRan ++ [id] } :: rest })
  | .enter, [] =>
    if f.isOverrided then (.returned (f.ended f.userRet), { w with slot := none, stack := rest })
    else (.quiet, { w with slot := some f.depth, stack := { f with phase := .original, nested := false } :: rest })
  | .exit ret, id :: todo =>
    (.ran id (.sysExit f.nr ret),
      { w with stack := { f with running := some id, todo := todo, exitRan := f.exitRan ++ [id] } :: rest })
  | .exit ret, [] =>
    (.returned (f.ended (if f.isOverrided then f.userRet else ret)), { w with slot := none, stack := rest })
  | _, _ => (.quiet, w)

/-- The original system call has returned. -/
def originalReturn (w : World) (f : Dispatch) (rest : List Dispatch) (ret : Word) : Report × World :=
  match f.phase with
  | .original =>
    (.quiet, { w with stack :=
      { f with phase := .exit ret, todo := w.tables.exitCallbacks f.nr, originals := f.originals ++ [ret] } :: rest })
  | .passed => (.returned ({ f with originals := [ret] }.ended ret), { w with stack := rest })
  | _ => (.quiet, w)

/-- The override of the callback that runs in the innermost dispatch. -/
def setOverride (w : World) (f : Dispatch) (rest : List Dispatch) (value : Word) : Option (Report × World) :=
  match w.slot with
  | none => none
  | some depth =>
    some (.quiet, { w with stack :=
      (f.choose value :: rest).map fun g => if g.depth = depth then g.overrideReturn value else g })

/-- Attaching and detaching are done outside of the dispatches. -/
def step (w : World) : Event → Option (Report × World)
  | .create attachType privateData place =>
    if w.stack = [] then (w.tables.createAttach attachType privateData place).map fun r => (r.1, { w with tables := r.2 })
    else some (.quiet, w)
  | .detach id =>
    if w.stack = [] then some ((w.tables.detachById id).1, { w with tables := (w.tables.detachById id).2 })
    else some (.quiet, w)
  | .dispatch nr args => some (.quiet, if w.calling then w.dispatchSyscall nr args else w)
  | .next =>
    match w.stack with
    | f :: rest => some (if f.running.isSome then (.quiet, w) else w.stepLoop f rest)
    | [] => some (.quiet, w)
  | .override value =>
    match w.stack with
    | f :: rest => if f.running.isSome then w.setOverride f rest value else some (.quiet, w)
    | [] => some (.quiet, w)
  | .callbackDone =>
    match w.stack with
    | f :: rest => some (.quiet, { w with stack := { f with running := none } :: rest })
    | [] => some (.quiet, w)
  | .originalDone ret =>
    match w.stack with
    | f :: rest => some (w.originalReturn f rest ret)
    | [] => some (.quiet, w)

end World

end SyscallTrace
