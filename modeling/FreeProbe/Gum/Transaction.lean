import FreeProbe.Lib.Stacks
import FreeProbe.Gum.Interceptor

/-!
# `Gum.Transaction` — transactions of the interceptor, and what is freed when

An operation changes the registered contexts at once, and leaves the rest to the end of the outermost transaction: the
prologues are patched, and then the tasks of `pending_destroy_tasks` free what no thread uses any more. A task waits for
the usage counter of its context, and is put off to the next transaction when that is not zero. The lock is released
while a task's `notify` runs, so other operations come in between, and the ends of several transactions can be at work.
The other threads run in and out of the trampolines all the time, without the lock.

Memory counts as freed from the moment its task is taken (`released`); `notify` frees it some time after. Only the entry
of a listener that is detached has no task: `gum_function_context_remove_listener` frees it at once (`freedEntries`).
-/

namespace Gum.Transaction

open X86 Lib

/-! ## Tasks -/

/-- What the `notify` of a task does: drop an array of listener entries, known by its number in its context, drop the
    reference that `detach` took, or free the context and its trampolines. -/
inductive DestroyNotify where
  | ptrArrayUnref (entries : Nat)
  | objectUnref (listenerInstance : Word)
  | performDestroy
deriving DecidableEq, Repr

structure DestroyTask where
  ctx : Nat
  notify : DestroyNotify
deriving DecidableEq, Repr

inductive UpdateTaskFunc where
  | activate
  | deactivate
deriving DecidableEq, Repr

structure UpdateTask where
  ctx : Nat
  func : UpdateTaskFunc
deriving DecidableEq, Repr

/-- `GumInterceptorTransaction` -/
structure InterceptorTransaction where
  level : Int
  isDirty : Bool
  pendingDestroyTasks : List DestroyTask
  pendingUpdateTasks : List UpdateTask
deriving DecidableEq, Repr

def transactionInit : InterceptorTransaction := ⟨0, false, [], []⟩

/-- A function context with what a transaction reads of it. `overwrittenPrologue` is what the function began with when
    the trampolines were made; `oldEntries` are the arrays of listener entries before the present one. -/
structure Context extends FunctionContext where
  destroyed : Bool
  activated : Bool
  trampolineUsageCounter : Int
  overwrittenPrologue : Option Nat
  oldEntries : List (List (Option Listener))

namespace Context

/-- The array of listener entries of that number. -/
def entries (ctx : Context) (n : Nat) : List (Option Listener) :=
  (ctx.oldEntries ++ [ctx.listenerEntries]).getD n []

/-- A listener is in an array of entries. -/
def listed (l : Word) (slots : List (Option Listener)) : Prop :=
  ∃ entry, some entry ∈ slots ∧ entry.listenerInstance = l

end Context

/-- A `ListenerEntry`, known by its context, the number of its array there, and its listener. -/
structure EntryRef where
  ctx : Nat
  array : Nat
  listenerInstance : Word
deriving DecidableEq, Repr

/-- Where a thread is in the loop over an array of entries: between two of them, with an entry that it has read from the
    array, or in the listener of an entry, which is in the `state` that the listener gets. -/
inductive EntryUse where
  | idle
  | taken (listenerInstance : Word)
  | running (listenerInstance : Word)
deriving DecidableEq, Repr

namespace EntryUse

def entry : EntryUse → Option Word
  | idle => none
  | taken l | running l => some l

end EntryUse

/-- Where a thread is in the trampolines of a context: on the way to the usage counter, between the counter and the
    listeners, in the loop over an array of entries (a stack entry is left when it is through, or the count is given up),
    below a stack entry, and on the way out of the trampoline's code. -/
inductive Frame where
  | arrived (c : Nat)
  | begun (c : Nat)
  | listening (c entries : Nat) (use : EntryUse) (trap : Bool)
  | trapped (c : Nat)
  | departing (c : Nat)
deriving DecidableEq, Repr

namespace Frame

def ctx : Frame → Nat
  | arrived c | begun c | listening c _ _ _ | trapped c | departing c => c

/-- The frame is in the usage counter. -/
def counted : Frame → Bool
  | begun _ | listening _ _ _ _ | trapped _ => true
  | arrived _ | departing _ => false

/-- Code of the program runs in the frame, which can call. -/
def callsOut : Frame → Bool
  | listening _ _ (.running _) _ | trapped _ => true
  | _ => false

/-- The entry that the thread has in the frame. -/
def holds : Frame → Option EntryRef
  | listening c n use _ => use.entry.map (⟨c, n, ·⟩)
  | _ => none

/-- How often a frame counts for a context. -/
def usage (c : Nat) (fr : Frame) : Int := if fr.counted && fr.ctx == c then 1 else 0

end Frame

/-- The rest of an outermost `transaction_end`, with its copy of the transaction. -/
structure Commit where
  updates : List UpdateTask
  destroys : List DestroyTask
deriving DecidableEq, Repr

/-- The interceptor. `code` is the context whose jump a function begins with. The lock is held by the commit; the
    queues of `notifying` are those of ends that wait for it, after a `notify`. -/
structure State where
  contexts : Nat → Context
  fresh : Nat
  functionByAddress : Word → Option Nat
  code : Word → Option Nat
  currentTransaction : InterceptorTransaction
  committing : Option Commit
  notifying : List (List DestroyTask)
  released : List DestroyTask
  freedEntries : List EntryRef
  threads : Stacks Frame

namespace State

def setContext (s : State) (c : Nat) (ctx : Context) : State :=
  { s with contexts := Function.update s.contexts c ctx }

def freed (s : State) (c : Nat) : Prop := ⟨c, .performDestroy⟩ ∈ s.released

/-- The updates that are still to come. -/
def updates (s : State) : List UpdateTask :=
  (s.committing.elim [] Commit.updates) ++ s.currentTransaction.pendingUpdateTasks

/-- The destroy tasks that have not been taken. -/
def tasks (s : State) : List DestroyTask :=
  (s.committing.elim [] Commit.destroys) ++ (s.notifying.flatten ++ s.currentTransaction.pendingDestroyTasks)

/-! ## Transactions -/

def transactionBegin (s : State) : State :=
  { s with currentTransaction := { s.currentTransaction with level := s.currentTransaction.level + 1 } }

def setDirty (s : State) : State :=
  { s with currentTransaction := { s.currentTransaction with isDirty := true } }

def scheduleDestroy (s : State) (task : DestroyTask) : State :=
  { s with currentTransaction :=
      { s.currentTransaction with pendingDestroyTasks := s.currentTransaction.pendingDestroyTasks ++ [task] } }

def scheduleUpdate (s : State) (update : UpdateTask) : State :=
  { s with currentTransaction :=
      { s.currentTransaction with pendingUpdateTasks := s.currentTransaction.pendingUpdateTasks ++ [update] } }

/-- `gum_interceptor_transaction_end`, up to the updates. -/
def transactionEnd (s : State) : State :=
  let transaction := { s.currentTransaction with level := s.currentTransaction.level - 1 }
  if 0 < transaction.level then { s with currentTransaction := transaction }
  else if !transaction.isDirty then { s with currentTransaction := transaction }
  else if transaction.pendingDestroyTasks = [] ∧ transaction.pendingUpdateTasks = [] then
    { s with currentTransaction := { transaction with isDirty := false } }
  else
    { s with
      currentTransaction := transactionInit
      committing := some ⟨transaction.pendingUpdateTasks, transaction.pendingDestroyTasks⟩ }

/-! ## Operations -/

/-- `gum_function_context_new`, with the trampolines made and the context registered. -/
def register (s : State) (functionAddress : Word) (type : GumInterceptorType) : State :=
  { s with
    contexts := Function.update s.contexts s.fresh
      { functionContextNew functionAddress type with
        destroyed := false, activated := false, trampolineUsageCounter := 0,
        overwrittenPrologue := s.code functionAddress, oldEntries := [] }
    fresh := s.fresh + 1
    functionByAddress := Function.update s.functionByAddress functionAddress (some s.fresh) }

/-- `gum_interceptor_instrument` -/
def instrument (relocatable : Word → Bool) (s : State) (type : GumInterceptorType) (functionAddress : Word) :
    Except GumInstrumentationError (State × Nat) :=
  match s.functionByAddress functionAddress with
  | some c => if (s.contexts c).type ≠ type then .error .wrongType else .ok (s, c)
  | none =>
    if relocatable functionAddress then
      .ok ((s.register functionAddress type).scheduleUpdate ⟨s.fresh, .activate⟩, s.fresh)
    else .error .wrongSignature

/-- `gum_function_context_destroy`, which the table calls for a context that is taken out. -/
def functionContextDestroy (s : State) (c : Nat) : State :=
  let s' := s.setContext c { s.contexts c with destroyed := true }
  let s' := if (s.contexts c).activated then s'.scheduleUpdate ⟨c, .deactivate⟩ else s'
  s'.scheduleDestroy ⟨c, .performDestroy⟩

/-- Take a context out of the table. -/
def remove (s : State) (c : Nat) : State :=
  let s := { s with functionByAddress := Function.update s.functionByAddress (s.contexts c).functionAddress none }
  s.functionContextDestroy c

/-- `gum_function_context_add_listener` -/
def addListener (s : State) (c : Nat) (l : Listener) : State :=
  let ctx := s.contexts c
  (s.setContext c
    { ctx with
      toFunctionContext := ctx.toFunctionContext.addListener l
      oldEntries := ctx.oldEntries ++ [ctx.listenerEntries] })
    |>.scheduleDestroy ⟨c, .ptrArrayUnref ctx.oldEntries.length⟩

/-- `gum_function_context_remove_listener`, which frees the entry of the present array, and the reference that `detach`
    keeps for the threads inside. -/
def removeListener (s : State) (c : Nat) (l : Listener) : State :=
  let ctx := s.contexts c
  let s' := s.setContext c { ctx with toFunctionContext := ctx.toFunctionContext.removeListener l }
  let freed : EntryRef := ⟨c, ctx.oldEntries.length, l.listenerInstance⟩
  scheduleDestroy { s' with freedEntries := s.freedEntries ++ [freed] } ⟨c, .objectUnref l.listenerInstance⟩

def setReplacement (s : State) (c : Nat) (r : Word) : State :=
  s.setContext c
    { s.contexts c with
      toFunctionContext := { (s.contexts c).toFunctionContext with replacementFunction := r } }

/-- The transaction that each operation opens. -/
def openTransaction (s : State) : State := s.transactionBegin.setDirty

/-- `gum_interceptor_attach`, of a resolved address, inside its transaction. -/
def attachInside (relocatable : Word → Bool) (s : State) (functionAddress : Word) (l : Listener) :
    GumAttachReturn × State :=
  match s.instrument relocatable .default functionAddress with
  | .error .wrongSignature => (.wrongSignature, s)
  | .error .wrongType => (.wrongType, s)
  | .ok (s, c) => if (s.contexts c).hasListener l then (.alreadyAttached, s) else (.ok, s.addListener c l)

def attach (relocatable : Word → Bool) (s : State) (functionAddress : Word) (l : Listener) : GumAttachReturn × State :=
  let (ret, s) := s.openTransaction.attachInside relocatable functionAddress l
  (ret, s.transactionEnd)

/-- `gum_interceptor_replace_with_type`, of a resolved address, inside its transaction. -/
def replaceInside (relocatable : Word → Bool) (s : State) (type : GumInterceptorType)
    (functionAddress replacementFunction : Word) : GumReplaceReturn × State :=
  match s.instrument relocatable type functionAddress with
  | .error .wrongSignature => (.wrongSignature, s)
  | .error .wrongType => (.wrongType, s)
  | .ok (s, c) =>
    if (s.contexts c).replacementFunction ≠ 0 then (.alreadyReplaced, s)
    else (.ok, s.setReplacement c replacementFunction)

def replaceWithType (relocatable : Word → Bool) (s : State) (type : GumInterceptorType)
    (functionAddress replacementFunction : Word) : GumReplaceReturn × State :=
  let (ret, s) := s.openTransaction.replaceInside relocatable type functionAddress replacementFunction
  (ret, s.transactionEnd)

/-- `gum_interceptor_revert`, inside its transaction. -/
def revertInside (s : State) (functionAddress : Word) : State :=
  match s.functionByAddress functionAddress with
  | none => s
  | some c =>
    let s := s.setReplacement c 0
    if (s.contexts c).isEmpty then s.remove c else s

def revert (s : State) (functionAddress : Word) : State :=
  (s.openTransaction.revertInside functionAddress).transactionEnd

/-- What `gum_interceptor_detach` does with one context of the table. -/
def detachFrom (l : Listener) (s : State) (c : Nat) : State :=
  if (s.contexts c).hasListener l then
    let s := s.removeListener c l
    if (s.contexts c).isEmpty then s.remove c else s
  else s

/-- `gum_interceptor_detach`, with the contexts of the table in the order of its iterator. -/
def detach (s : State) (l : Listener) (order : List Nat) : State :=
  (order.foldl (detachFrom l) s.openTransaction).transactionEnd

/-- `gum_interceptor_flush` -/
def flush (s : State) : State :=
  if s.currentTransaction.level = 0 then s.transactionBegin.transactionEnd else s

/-- The contexts of the table. -/
def registered (s : State) : List Nat :=
  (List.range s.fresh).filter fun c => s.functionByAddress (s.contexts c).functionAddress == some c

/-! ## The end of a transaction -/

/-- `gum_interceptor_activate` -/
def activate (s : State) (c : Nat) : State :=
  if (s.contexts c).destroyed then s
  else
    { s.setContext c { s.contexts c with activated := true } with
      code := Function.update s.code (s.contexts c).functionAddress (some c) }

/-- `gum_interceptor_deactivate` -/
def deactivate (s : State) (c : Nat) : State :=
  { s.setContext c { s.contexts c with activated := false } with
    code := Function.update s.code (s.contexts c).functionAddress (s.contexts c).overwrittenPrologue }

def runUpdate (s : State) (update : UpdateTask) : State :=
  match update.func with
  | .activate => s.activate update.ctx
  | .deactivate => s.deactivate update.ctx

/-- The first update of a page. -/
def nextUpdate (pageOf : Word → Word) (s : State) (page : Word) (updates : List UpdateTask) : Option UpdateTask :=
  updates.find? fun update => pageOf (s.contexts update.ctx).functionAddress == page

/-- The next update of a page. The pages come in any order: `gum_page_address_compare` cuts the difference off to an
    `int`, so that it orders the pages in no particular way. -/
def update (pageOf : Word → Word) (s : State) (page : Word) : Option State := do
  let commit ← s.committing
  let next ← s.nextUpdate pageOf page commit.updates
  return { s.runUpdate next with committing := some { commit with updates := commit.updates.erase next } }

/-- The next destroy task, once all updates are done: it is taken, and the lock released for its `notify`, or it is put
    off to the next transaction. -/
def destroyTask (s : State) : Option State :=
  match s.committing with
  | some ⟨[], task :: rest⟩ =>
    if (s.contexts task.ctx).trampolineUsageCounter = 0 then
      some { s with committing := none, notifying := s.notifying ++ [rest], released := s.released ++ [task] }
    else some { (s.scheduleDestroy task).setDirty with committing := some ⟨[], rest⟩ }
  | _ => none

/-- An end that is back from a `notify` takes the lock again. -/
def lockAgain (s : State) (i : Nat) : Option State :=
  match s.committing, s.notifying[i]? with
  | none, some rest => some { s with committing := some ⟨[], rest⟩, notifying := s.notifying.eraseIdx i }
  | _, _ => none

def unlock (s : State) : Option State :=
  match s.committing with
  | some ⟨[], []⟩ => some { s with committing := none }
  | _ => none

/-! ## Threads in the trampolines -/

def setUsage (s : State) (c : Nat) (n : Int) : State :=
  s.setContext c { s.contexts c with trampolineUsageCounter := n }

/-- The usage counter is incremented, or decremented. -/
def addUsage (s : State) (c : Nat) (n : Int) : State := s.setUsage c ((s.contexts c).trampolineUsageCounter + n)

def replaceTop (s : State) (t : Nat) (fr : Frame) : State := { s with threads := s.threads.replaceTop t fr }

end State

/-- What a thread does next. Of each entry that is not null it reads whether the interface has the function for the point
    cut, and calls the listener if so (`listener`), or goes on (`skipEntry`); the listener can ask for its function data.
    Two decisions of `begin_invocation` are left open, as they rest on the thread's own state:
    whether it is bypassed, and whether listeners are invoked. So is `will_trap_on_leave`, which it reads while an
    operation may be half through writing. -/
inductive ThreadEvent where
  | call (functionAddress : Word)
  | sampledOut
  | beginInvocation
  | bypass
  | prepare (invokeListeners willTrapOnLeave : Bool)
  | takeEntry (listenerInstance : Word)
  | skipEntry
  | listener
  | functionData
  | listenerReturns
  | proceed
  | endInvocation
  | resume
deriving DecidableEq, Repr

namespace State

/-- Where a frame goes with its count, after the listeners or without them. -/
def settle (s : State) (t c : Nat) (trap : Bool) : State :=
  if trap then s.replaceTop t (.trapped c) else (s.addUsage c (-1)).replaceTop t (.departing c)

/-- One step of a thread. The prologue of a function that was replaced fast leads past the trampolines. -/
def threadStep (s : State) (t : Nat) : ThreadEvent → Option State
  | .call f =>
    if t < s.threads.perThread.length ∧ (s.threads.top t).all Frame.callsOut then
      match s.code f with
      | some c =>
        if (s.contexts c).type = .fast then none else some { s with threads := s.threads.push t (.arrived c) }
      | none => none
    else none
  | .sampledOut =>
    match s.threads.top t with
    | some (.arrived c) => some (s.replaceTop t (.departing c))
    | _ => none
  | .beginInvocation =>
    match s.threads.top t with
    | some (.arrived c) => some ((s.addUsage c 1).replaceTop t (.begun c))
    | _ => none
  | .bypass =>
    match s.threads.top t with
    | some (.begun c) => some ((s.addUsage c (-1)).replaceTop t (.departing c))
    | _ => none
  | .prepare invokeListeners willTrapOnLeave =>
    match s.threads.top t with
    | some (.begun c) =>
      if invokeListeners then
        some (s.replaceTop t (.listening c (s.contexts c).oldEntries.length .idle willTrapOnLeave))
      else some (s.settle t c willTrapOnLeave)
    | _ => none
  | .takeEntry l =>
    match s.threads.top t with
    | some (.listening c n .idle trap) =>
      if ((s.contexts c).entries n).any fun slot => slot.any fun entry => entry.listenerInstance == l then
        some (s.replaceTop t (.listening c n (.taken l) trap))
      else none
    | _ => none
  | .skipEntry =>
    match s.threads.top t with
    | some (.listening c n (.taken _) trap) => some (s.replaceTop t (.listening c n .idle trap))
    | _ => none
  | .listener =>
    match s.threads.top t with
    | some (.listening c n (.taken l) trap) => some (s.replaceTop t (.listening c n (.running l) trap))
    | _ => none
  | .functionData =>
    match s.threads.top t with
    | some (.listening _ _ (.running _) _) => some s
    | _ => none
  | .listenerReturns =>
    match s.threads.top t with
    | some (.listening c n (.running _) trap) => some (s.replaceTop t (.listening c n .idle trap))
    | _ => none
  | .proceed =>
    match s.threads.top t with
    | some (.listening c _ .idle trap) => some (s.settle t c trap)
    | _ => none
  | .endInvocation =>
    match s.threads.top t with
    | some (.trapped c) =>
      some (s.replaceTop t (.listening c (s.contexts c).oldEntries.length .idle false))
    | _ => none
  | .resume =>
    match s.threads.top t with
    | some (.departing _) => some { s with threads := s.threads.pop t }
    | _ => none

end State

/-! ## Runs -/

inductive Event where
  | attach (functionAddress : Word) (l : Listener)
  | replace (type : GumInterceptorType) (functionAddress replacementFunction : Word)
  | revert (functionAddress : Word)
  | detach (l : Listener) (order : List Nat)
  | beginTransaction
  | endTransaction
  | flush
  | update (page : Word)
  | destroyTask
  | lockAgain (i : Nat)
  | unlock
  | spawn
  | thread (t : Nat) (e : ThreadEvent)
deriving DecidableEq

/-- An operation starts with the lock free. -/
def State.locked (s : State) (next : State) : Option State :=
  match s.committing with
  | none => some next
  | some _ => none

def step (relocatable : Word → Bool) (pageOf : Word → Word) (s : State) : Event → Option State
  | .attach f l => s.locked (s.attach relocatable f l).2
  | .replace type f r => s.locked (s.replaceWithType relocatable type f r).2
  | .revert f => s.locked (s.revert f)
  | .detach l order => if order.Perm s.registered then s.locked (s.detach l order) else none
  | .beginTransaction => s.locked s.transactionBegin
  | .endTransaction => s.locked s.transactionEnd
  | .flush => s.locked s.flush
  | .update page => s.update pageOf page
  | .destroyTask => s.destroyTask
  | .lockAgain i => s.lockAgain i
  | .unlock => s.unlock
  | .spawn => some { s with threads := s.threads.spawn }
  | .thread t e => s.threadStep t e

def init : State where
  contexts := fun _ => ⟨functionContextNew 0 .default, false, false, 0, none, []⟩
  fresh := 0
  functionByAddress := fun _ => none
  code := fun _ => none
  currentTransaction := transactionInit
  committing := none
  notifying := []
  released := []
  freedEntries := []
  threads := ⟨[]⟩

end Gum.Transaction
