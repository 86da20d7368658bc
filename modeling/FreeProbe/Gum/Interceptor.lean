import FreeProbe.Lib.Steps
import FreeProbe.Gum.Sampling

/-!
# `Gum.Interceptor` — the interceptor's state and operations

Function contexts live on a heap and are known by their index, because a thread can still be inside a
trampoline of a context that `revert` has taken out of `function_by_address`. No transaction is open when an
operation is called, so the end of the operation's own transaction activates what it instrumented: the
prologue of `f` jumps into the trampoline of `functionByAddress f`, or is intact when there is none.

A call takes two steps when it is sampled. The first ends where `begin_invocation` starts to run listeners,
with the guard set; the second is the rest and picks the next hop. In between, the thread's own calls (out of
a listener) and every step of other threads can happen. `end_invocation` is split in the same way.
-/

namespace Gum

open X86 Lib

/-- A `GumInvocationListener`: its instance, and whether its interface has an `on_leave`. -/
structure Listener where
  listenerInstance : Word
  onLeave : Bool
deriving DecidableEq, Repr

/-- `GumFunctionContext`. A null `replacementFunction` is no replacement. -/
structure FunctionContext where
  functionAddress     : Word
  type                : GumInterceptorType
  samplingCounters    : Counters
  hasOnLeaveListener  : Bool
  listenerEntries     : List (Option Listener)
  replacementFunction : Word

/-- `GumInvocationStackEntry`. -/
structure InvocationStackEntry where
  functionCtx        : Nat
  function           : Word
  callerRetAddr      : Word
  callingReplacement : Bool

/-- Whether a thread is inside `begin_invocation` (with the context and its two local decisions) or inside
    `end_invocation`, with listeners running. -/
inductive ThreadPhase where
  | running
  | entering (c : Nat) (willTrapOnLeave invokeListeners : Bool)
  | leaving
deriving DecidableEq

/-- `InterceptorThreadContext`, and the thread's `gum_interceptor_guard_key`. The stack's top is its head. -/
structure ThreadContext where
  guard       : Bool
  ignoreLevel : Int
  stack       : List InvocationStackEntry
  phase       : ThreadPhase

structure Interceptor where
  contexts          : Nat → FunctionContext
  fresh             : Nat
  functionByAddress : Word → Option Nat
  selectedThreadId  : BitVec 32
  threads           : BitVec 32 → ThreadContext

inductive GumInstrumentationError where
  | wrongSignature
  | wrongType
deriving DecidableEq, Repr

inductive GumReplaceReturn where
  | ok
  | wrongSignature
  | alreadyReplaced
  | wrongType
deriving DecidableEq, Repr

inductive GumAttachReturn where
  | ok
  | wrongSignature
  | alreadyAttached
  | wrongType
deriving DecidableEq, Repr

/-- Where a call goes: the untouched function, the relocated original of a context, or a replacement. A null
    stack entry is written when a replacement appears under a call that pushed none. -/
inductive Hop where
  | functionBody
  | onInvokeTrampoline (c : Nat)
  | replacementFunction (r : Word)
  | crash
deriving DecidableEq, Repr

/-! ## Function contexts -/

/-- `gum_function_context_new` -/
def functionContextNew (functionAddress : Word) (type : GumInterceptorType) : FunctionContext where
  functionAddress := functionAddress
  type := type
  samplingCounters := zeroCounters
  hasOnLeaveListener := false
  listenerEntries := []
  replacementFunction := 0

namespace FunctionContext

def hasListener (ctx : FunctionContext) (l : Listener) : Bool :=
  ctx.listenerEntries.any fun slot => slot.any fun entry => entry.listenerInstance == l.listenerInstance

def isEmpty (ctx : FunctionContext) : Bool :=
  if ctx.replacementFunction ≠ 0 then false else ctx.listenerEntries.all Option.isNone

theorem isEmpty_of_replaced {ctx : FunctionContext} (h : ctx.replacementFunction ≠ 0) : ctx.isEmpty = false :=
  if_pos h

def addListener (ctx : FunctionContext) (l : Listener) : FunctionContext :=
  { ctx with
    listenerEntries := ctx.listenerEntries.filter Option.isSome ++ [some l]
    hasOnLeaveListener := if l.onLeave then true else ctx.hasOnLeaveListener }

/-- Clear the first slot that holds `l`. -/
def clearSlot (l : Listener) : List (Option Listener) → List (Option Listener)
  | [] => []
  | slot :: slots =>
    if slot.any fun entry => entry.listenerInstance == l.listenerInstance then none :: slots
    else slot :: clearSlot l slots

def removeListener (ctx : FunctionContext) (l : Listener) : FunctionContext :=
  let entries := clearSlot l ctx.listenerEntries
  { ctx with
    listenerEntries := entries
    hasOnLeaveListener := entries.any fun slot => slot.any Listener.onLeave }

end FunctionContext

namespace Interceptor

/-! ## Operations -/

def setContext (self : Interceptor) (c : Nat) (ctx : FunctionContext) : Interceptor :=
  { self with contexts := Function.update self.contexts c ctx }

def setThread (self : Interceptor) (t : BitVec 32) (th : ThreadContext) : Interceptor :=
  { self with threads := Function.update self.threads t th }

/-- Put a new context on the heap and register it. -/
def register (self : Interceptor) (functionAddress : Word) (ctx : FunctionContext) : Interceptor :=
  { self with
    contexts := Function.update self.contexts self.fresh ctx
    fresh := self.fresh + 1
    functionByAddress := Function.update self.functionByAddress functionAddress (some self.fresh) }

@[simp] theorem setContext_contexts (self : Interceptor) (c : Nat) (ctx : FunctionContext) :
    (self.setContext c ctx).contexts = Function.update self.contexts c ctx := rfl
@[simp] theorem setContext_functionByAddress (self : Interceptor) (c : Nat) (ctx : FunctionContext) :
    (self.setContext c ctx).functionByAddress = self.functionByAddress := rfl
@[simp] theorem setContext_threads (self : Interceptor) (c : Nat) (ctx : FunctionContext) :
    (self.setContext c ctx).threads = self.threads := rfl
@[simp] theorem setThread_threads (self : Interceptor) (t : BitVec 32) (th : ThreadContext) :
    (self.setThread t th).threads = Function.update self.threads t th := rfl
@[simp] theorem register_contexts (self : Interceptor) (f : Word) (ctx : FunctionContext) :
    (self.register f ctx).contexts = Function.update self.contexts self.fresh ctx := rfl
@[simp] theorem register_functionByAddress (self : Interceptor) (f : Word) (ctx : FunctionContext) :
    (self.register f ctx).functionByAddress = Function.update self.functionByAddress f (some self.fresh) :=
  rfl

/-- `gum_interceptor_instrument`; `relocatable` is whether the backend can create the trampoline. -/
def instrument (relocatable : Word → Bool) (self : Interceptor) (type : GumInterceptorType)
    (functionAddress : Word) : Except GumInstrumentationError (Interceptor × Nat) :=
  match self.functionByAddress functionAddress with
  | some c => if (self.contexts c).type ≠ type then .error .wrongType else .ok (self, c)
  | none =>
    if relocatable functionAddress then
      .ok (self.register functionAddress (functionContextNew functionAddress type), self.fresh)
    else .error .wrongSignature

/-- `gum_interceptor_replace_with_type` -/
def replaceWithType (relocatable : Word → Bool) (self : Interceptor) (type : GumInterceptorType)
    (functionAddress replacementFunction : Word) : GumReplaceReturn × Interceptor :=
  match self.instrument relocatable type functionAddress with
  | .error .wrongSignature => (.wrongSignature, self)
  | .error .wrongType => (.wrongType, self)
  | .ok (self, c) =>
    if (self.contexts c).replacementFunction ≠ 0 then (.alreadyReplaced, self)
    else (.ok, self.setContext c { self.contexts c with replacementFunction := replacementFunction })

/-- `gum_interceptor_revert` -/
def revert (self : Interceptor) (functionAddress : Word) : Interceptor :=
  match self.functionByAddress functionAddress with
  | none => self
  | some c =>
    let ctx := { self.contexts c with replacementFunction := 0 }
    let self := self.setContext c ctx
    if ctx.isEmpty then
      { self with functionByAddress := Function.update self.functionByAddress functionAddress none }
    else self

/-- `gum_interceptor_attach` -/
def attach (relocatable : Word → Bool) (self : Interceptor) (functionAddress : Word) (l : Listener) :
    GumAttachReturn × Interceptor :=
  match self.instrument relocatable .default functionAddress with
  | .error .wrongSignature => (.wrongSignature, self)
  | .error .wrongType => (.wrongType, self)
  | .ok (self, c) =>
    if (self.contexts c).hasListener l then (.alreadyAttached, self)
    else (.ok, self.setContext c ((self.contexts c).addListener l))

/-- The context `c`, registered for `f`, has the listener. -/
def attached (self : Interceptor) (l : Listener) (c : Nat) : Bool :=
  (self.contexts c).hasListener l &&
    (self.functionByAddress (self.contexts c).functionAddress == some c)

/-- `gum_interceptor_detach`: every registered context that has the listener loses it, and is unregistered
    when that leaves it empty. -/
def detach (self : Interceptor) (l : Listener) : Interceptor :=
  let contexts := fun c => if self.attached l c then (self.contexts c).removeListener l else self.contexts c
  { self with
    contexts := contexts
    functionByAddress := fun f => (self.functionByAddress f).bind fun c =>
      if self.attached l c && (contexts c).isEmpty then none else some c }

def ignoreCurrentThread (self : Interceptor) (t : BitVec 32) : Interceptor :=
  self.setThread t { self.threads t with ignoreLevel := (self.threads t).ignoreLevel + 1 }

def unignoreCurrentThread (self : Interceptor) (t : BitVec 32) : Interceptor :=
  self.setThread t { self.threads t with ignoreLevel := (self.threads t).ignoreLevel - 1 }

def maybeUnignoreCurrentThread (self : Interceptor) (t : BitVec 32) : Bool × Interceptor :=
  if (self.threads t).ignoreLevel ≤ 0 then (false, self)
  else (true, self.setThread t { self.threads t with ignoreLevel := (self.threads t).ignoreLevel - 1 })

def ignoreOtherThreads (self : Interceptor) (t : BitVec 32) : Interceptor := { self with selectedThreadId := t }

def unignoreOtherThreads (self : Interceptor) : Interceptor := { self with selectedThreadId := 0 }

/-! ## Calls -/

/-- Whether the listeners are to hear of a call by `t`. -/
def invokeListeners (self : Interceptor) (t : BitVec 32) : Bool :=
  (if self.selectedThreadId ≠ 0 then t == self.selectedThreadId else true)
    && decide ((self.threads t).ignoreLevel ≤ 0)

/-- The topmost invocation runs the replacement of `function`. -/
def callingReplacement (stack : List InvocationStackEntry) (function : Word) : Bool :=
  match stack with
  | [] => false
  | entry :: _ => entry.callingReplacement && entry.function == function

def invocationStackPush (stack : List InvocationStackEntry) (c : Nat) (function callerRetAddr : Word) :
    List InvocationStackEntry := ⟨c, function, callerRetAddr, false⟩ :: stack

/-- `_gum_function_context_begin_invocation`, up to the listeners. A hop is returned by the two bypasses. -/
def beginInvocation (self : Interceptor) (t : BitVec 32) (c : Nat) (callerRetAddr : Word) :
    Interceptor × Option Hop :=
  let ctx := self.contexts c
  let th := self.threads t
  if th.guard then (self, some (.onInvokeTrampoline c))
  else if callingReplacement th.stack ctx.functionAddress then (self, some (.onInvokeTrampoline c))
  else
    let invokeListeners := self.invokeListeners t
    let willTrapOnLeave := decide (ctx.replacementFunction ≠ 0) || (invokeListeners && ctx.hasOnLeaveListener)
    let stack :=
      if willTrapOnLeave then invocationStackPush th.stack c ctx.functionAddress callerRetAddr
      else if invokeListeners then invocationStackPush th.stack c ctx.functionAddress ctx.functionAddress
      else th.stack
    (self.setThread t
      { th with guard := true, stack := stack, phase := .entering c willTrapOnLeave invokeListeners }, none)

/-- Mark the topmost entry as one that calls its replacement. -/
def markCallingReplacement : List InvocationStackEntry → List InvocationStackEntry
  | [] => []
  | entry :: stack => { entry with callingReplacement := true } :: stack

/-- `_gum_function_context_begin_invocation`, from the listeners on. -/
def dispatch (self : Interceptor) (t : BitVec 32) (c : Nat) (willTrapOnLeave invokeListeners : Bool) :
    Interceptor × Hop :=
  let th := self.threads t
  let stack := if !willTrapOnLeave && invokeListeners then th.stack.tail else th.stack
  if (self.contexts c).replacementFunction ≠ 0 then
    let hop :=
      if willTrapOnLeave || invokeListeners then .replacementFunction (self.contexts c).replacementFunction
      else .crash
    -- without a trap the entry that is marked has been popped
    let stack := if willTrapOnLeave then markCallingReplacement stack else stack
    (self.setThread t { th with guard := false, stack := stack, phase := .running }, hop)
  else (self.setThread t { th with guard := false, stack := stack, phase := .running }, .onInvokeTrampoline c)

/-- A call of `functionAddress` by `t`: the prologue, the trampoline's guard, and `begin_invocation`. -/
def call (self : Interceptor) (t : BitVec 32) (functionAddress callerRetAddr : Word) :
    Interceptor × Option Hop :=
  match self.functionByAddress functionAddress with
  | none => (self, some .functionBody)
  | some c =>
    let ctx := self.contexts c
    match ctx.type with
    | .fast => (self, some (.replacementFunction ctx.replacementFunction))
    | .default =>
      let (counters, sampled) := samplingGuardStep ctx.samplingCounters (bucketOf t)
      let self := self.setContext c { ctx with samplingCounters := counters }
      if sampled then self.beginInvocation t c callerRetAddr else (self, some (.onInvokeTrampoline c))

/-- `_gum_function_context_end_invocation`, up to the listeners. -/
def endInvocation (self : Interceptor) (t : BitVec 32) : Interceptor :=
  self.setThread t { self.threads t with guard := true, phase := .leaving }

/-- `_gum_function_context_end_invocation`, from the listeners on. -/
def popInvocation (self : Interceptor) (t : BitVec 32) : Interceptor :=
  self.setThread t
    { self.threads t with guard := false, stack := (self.threads t).stack.tail, phase := .running }

end Interceptor

/-! ## Runs -/

inductive InterceptorEvent where
  | replace (type : GumInterceptorType) (functionAddress replacementFunction : Word) (ret : GumReplaceReturn)
  | revert (functionAddress : Word)
  | attach (functionAddress : Word) (l : Listener) (ret : GumAttachReturn)
  | detach (l : Listener)
  | ignoreCurrentThread (t : BitVec 32)
  | unignoreCurrentThread (t : BitVec 32)
  | maybeUnignoreCurrentThread (t : BitVec 32) (ret : Bool)
  | ignoreOtherThreads (t : BitVec 32)
  | unignoreOtherThreads (t : BitVec 32)
  | call (t : BitVec 32) (functionAddress callerRetAddr : Word) (hop : Option Hop)
  | dispatch (t : BitVec 32) (hop : Hop)
  | leave (t : BitVec 32)
  | resume (t : BitVec 32) (nextHop : Word)
deriving DecidableEq

/-- One step of any thread. A call out of a listener finds its thread in one of the two listener phases, and
    is made like any other. -/
inductive InterceptorStep (relocatable : Word → Bool) :
    Interceptor → InterceptorEvent → Interceptor → Prop where
  | replace (s : Interceptor) (type : GumInterceptorType) (f r : Word) :
      InterceptorStep relocatable s (.replace type f r (s.replaceWithType relocatable type f r).1)
        (s.replaceWithType relocatable type f r).2
  | revert (s : Interceptor) (f : Word) : InterceptorStep relocatable s (.revert f) (s.revert f)
  | attach (s : Interceptor) (f : Word) (l : Listener) :
      InterceptorStep relocatable s (.attach f l (s.attach relocatable f l).1) (s.attach relocatable f l).2
  | detach (s : Interceptor) (l : Listener) : InterceptorStep relocatable s (.detach l) (s.detach l)
  | ignoreCurrentThread (s : Interceptor) (t : BitVec 32) :
      InterceptorStep relocatable s (.ignoreCurrentThread t) (s.ignoreCurrentThread t)
  | unignoreCurrentThread (s : Interceptor) (t : BitVec 32) :
      InterceptorStep relocatable s (.unignoreCurrentThread t) (s.unignoreCurrentThread t)
  | maybeUnignoreCurrentThread (s : Interceptor) (t : BitVec 32) :
      InterceptorStep relocatable s (.maybeUnignoreCurrentThread t (s.maybeUnignoreCurrentThread t).1)
        (s.maybeUnignoreCurrentThread t).2
  | ignoreOtherThreads (s : Interceptor) (t : BitVec 32) :
      InterceptorStep relocatable s (.ignoreOtherThreads t) (s.ignoreOtherThreads t)
  | unignoreOtherThreads (s : Interceptor) (t : BitVec 32) (h : s.selectedThreadId = t) :
      InterceptorStep relocatable s (.unignoreOtherThreads t) s.unignoreOtherThreads
  | call (s : Interceptor) (t : BitVec 32) (f ret : Word) :
      InterceptorStep relocatable s (.call t f ret (s.call t f ret).2) (s.call t f ret).1
  | dispatch (s : Interceptor) (t : BitVec 32) (c : Nat) (willTrapOnLeave invokeListeners : Bool)
      (h : (s.threads t).phase = .entering c willTrapOnLeave invokeListeners) :
      InterceptorStep relocatable s (.dispatch t (s.dispatch t c willTrapOnLeave invokeListeners).2)
        (s.dispatch t c willTrapOnLeave invokeListeners).1
  | leave (s : Interceptor) (t : BitVec 32) (h : (s.threads t).phase = .running)
      (hs : (s.threads t).stack ≠ []) : InterceptorStep relocatable s (.leave t) (s.endInvocation t)
  | resume (s : Interceptor) (t : BitVec 32) (entry : InvocationStackEntry) (stack : List InvocationStackEntry)
      (h : (s.threads t).phase = .leaving) (hs : (s.threads t).stack = entry :: stack) :
      InterceptorStep relocatable s (.resume t entry.callerRetAddr) (s.popInvocation t)

def interceptorSystem (relocatable : Word → Bool) : System Interceptor InterceptorEvent where
  step := InterceptorStep relocatable

/-- A new interceptor: nothing instrumented, every thread at rest. -/
def Interceptor.init : Interceptor where
  contexts := fun _ => functionContextNew 0 .default
  fresh := 0
  functionByAddress := fun _ => none
  selectedThreadId := 0
  threads := fun _ => ⟨false, 0, [], .running⟩

end Gum
