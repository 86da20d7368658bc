import FreeProbe.Gum.Replacement
import Mathlib.Data.List.Forall2

/-!
# `Gum.Invocations` — the invocation stack and the usage counters

Every call that enters `begin_invocation` is followed until it returns: inside `begin_invocation`, then with the
caller's return address or with the `on_leave` trampoline in its place, then inside `end_invocation`. Listeners and
replacements call like any other code, and a thread's latest call is the one that goes on or returns, so its calls are
well nested; the calls of different threads interleave freely, and so do the interceptor's operations.

The invariant (`StackInv`) has three parts: the invocation stack of a thread records its trapped calls, in order; what
`end_invocation` has read is the address its call recorded; and the counter of a context counts the calls that hold it.

`begin_invocation` reads `replacement_function` twice, before its listeners run and after. A call that it does not trap
can so still be sent to a replacement, uncounted (`invocations_miscounted`); where no replacement turns up in between
(`Settled`), the run theorem is `invocations_lawful`.
-/

namespace Gum

open X86 Lib

/-- How far a call is. -/
inductive CallProgress where
  /-- In `begin_invocation`, where the listeners run, with its two local decisions. -/
  | beginning (willTrapOnLeave invokeListeners : Bool)
  /-- On its way, in the original or in a replacement, to return to its caller. -/
  | untracked (replaced : Bool)
  /-- On its way, to return to the `on_leave` trampoline. -/
  | tracked
  /-- In `end_invocation`, with the address to return to. A null entry has none. -/
  | ending (nextHop : Option Word)
deriving DecidableEq, Repr

/-- A call by `thread` that went to the `on_enter` trampoline of a context. -/
structure HookedCall where
  thread        : BitVec 32
  functionCtx   : Nat
  callerRetAddr : Word
  progress      : CallProgress
deriving DecidableEq, Repr

/-- The interceptor, `trampoline_usage_counter` of its contexts, and the calls that have not returned, latest first.
    No thread is 2³¹ calls deep, so the counters do not wrap. -/
structure Invocations where
  interceptor            : Interceptor
  trampolineUsageCounter : Nat → Int
  calls                  : List HookedCall

/-- What a thread does with its calls. -/
inductive InvocationEvent where
  | operate (e : InterceptorEvent)
  | beginInvocation (t : BitVec 32) (c : Nat) (callerRetAddr : Word)
  | dispatch (t : BitVec 32) (c : Nat) (hop : Hop)
  | endInvocation (t : BitVec 32) (c : Nat)
  | resume (t : BitVec 32) (c : Nat) (callerRetAddr : Word) (nextHop : Option Word)
  | returnToCaller (t : BitVec 32) (c : Nat)
deriving DecidableEq

/-- The event is an operation on the interceptor, not a part of a call. -/
def InterceptorEvent.isOperation : InterceptorEvent → Bool
  | .call .. | .dispatch .. | .leave _ | .resume .. => false
  | _ => true

namespace Invocations

/-- No call. -/
def init : Invocations := ⟨.init, fun _ => 0, []⟩

/-- A counter goes up. -/
def countUp (counter : Nat → Int) (c : Nat) : Nat → Int := Function.update counter c (counter c + 1)

/-- And down. -/
def countDown (counter : Nat → Int) (c : Nat) : Nat → Int := Function.update counter c (counter c - 1)

/-- How far a call is after the first part of `begin_invocation`: the two bypasses return a hop. -/
def progressOf (th : ThreadContext) (hop : Option Hop) : CallProgress :=
  match hop, th.phase with
  | none, .entering _ willTrapOnLeave invokeListeners => .beginning willTrapOnLeave invokeListeners
  | _, _ => .untracked false

/-- `_gum_function_context_begin_invocation`, up to the listeners. -/
def beginInvocation (self : Invocations) (t : BitVec 32) (c : Nat) (callerRetAddr : Word) : Invocations :=
  let counted := countUp self.trampolineUsageCounter c
  let begun := self.interceptor.beginInvocation t c callerRetAddr
  { interceptor := begun.1
    trampolineUsageCounter := if begun.2.isSome then countDown counted c else counted
    calls := ⟨t, c, callerRetAddr, progressOf (begun.1.threads t) begun.2⟩ :: self.calls }

/-- `_gum_function_context_begin_invocation`, from the listeners on, for the latest call of `t`. -/
def dispatch (self : Invocations) (t : BitVec 32) (c : Nat) (callerRetAddr : Word)
    (willTrapOnLeave invokeListeners : Bool) (before after : List HookedCall) : Invocations where
  interceptor := (self.interceptor.dispatch t c willTrapOnLeave invokeListeners).1
  trampolineUsageCounter :=
    if willTrapOnLeave then self.trampolineUsageCounter else countDown self.trampolineUsageCounter c
  calls := before ++
    ⟨t, c, callerRetAddr,
      if willTrapOnLeave then .tracked else .untracked ((self.interceptor.contexts c).replacementFunction != 0)⟩ :: after

/-- `_gum_function_context_end_invocation`, up to the listeners. -/
def endInvocation (self : Invocations) (t : BitVec 32) (c : Nat) (callerRetAddr : Word)
    (before after : List HookedCall) : Invocations where
  interceptor := self.interceptor.endInvocation t
  trampolineUsageCounter := self.trampolineUsageCounter
  calls := before ++
    ⟨t, c, callerRetAddr, .ending ((self.interceptor.threads t).stack.head?.map (·.callerRetAddr))⟩ :: after

/-- `_gum_function_context_end_invocation`, from the listeners on. -/
def resume (self : Invocations) (t : BitVec 32) (c : Nat) (before after : List HookedCall) : Invocations where
  interceptor := self.interceptor.popInvocation t
  trampolineUsageCounter := countDown self.trampolineUsageCounter c
  calls := before ++ after

/-- `call` is the latest call of its thread that has not returned. -/
structure Latest (s : Invocations) (call : HookedCall) (before after : List HookedCall) : Prop where
  among : s.calls = before ++ call :: after
  latest : ∀ call' ∈ before, call'.thread ≠ call.thread

end Invocations

/-- One step: an operation of the interceptor, or of a thread whose latest call begins, goes on or returns. A crash
    is no step. -/
inductive InvocationStep (relocatable : Word → Bool) : Invocations → InvocationEvent → Invocations → Prop where
  | operate (s : Invocations) (e : InterceptorEvent) (interceptor : Interceptor) (he : e.isOperation = true)
      (h : InterceptorStep relocatable s.interceptor e interceptor) :
      InvocationStep relocatable s (.operate e) { s with interceptor := interceptor }
  | beginInvocation (s : Invocations) (t : BitVec 32) (c : Nat) (callerRetAddr : Word) :
      InvocationStep relocatable s (.beginInvocation t c callerRetAddr) (s.beginInvocation t c callerRetAddr)
  | dispatch (s : Invocations) (t : BitVec 32) (c : Nat) (callerRetAddr : Word) (w i : Bool)
      (before after : List HookedCall) (h : s.Latest ⟨t, c, callerRetAddr, .beginning w i⟩ before after)
      (hhop : (s.interceptor.dispatch t c w i).2 ≠ .crash) :
      InvocationStep relocatable s (.dispatch t c (s.interceptor.dispatch t c w i).2)
        (s.dispatch t c callerRetAddr w i before after)
  | endInvocation (s : Invocations) (t : BitVec 32) (c : Nat) (callerRetAddr : Word)
      (before after : List HookedCall) (h : s.Latest ⟨t, c, callerRetAddr, .tracked⟩ before after) :
      InvocationStep relocatable s (.endInvocation t c) (s.endInvocation t c callerRetAddr before after)
  | resume (s : Invocations) (t : BitVec 32) (c : Nat) (callerRetAddr : Word) (nextHop : Option Word)
      (before after : List HookedCall) (h : s.Latest ⟨t, c, callerRetAddr, .ending nextHop⟩ before after) :
      InvocationStep relocatable s (.resume t c callerRetAddr nextHop) (s.resume t c before after)
  | returnToCaller (s : Invocations) (t : BitVec 32) (c : Nat) (callerRetAddr : Word) (replaced : Bool)
      (before after : List HookedCall) (h : s.Latest ⟨t, c, callerRetAddr, .untracked replaced⟩ before after) :
      InvocationStep relocatable s (.returnToCaller t c) { s with calls := before ++ after }

/-- The calls of all threads, over the interceptor. -/
def invocationSystem (relocatable : Word → Bool) : System Invocations InvocationEvent where
  step := InvocationStep relocatable

variable {relocatable : Word → Bool} {s s' : Invocations} {t : BitVec 32} {c : Nat} {callerRetAddr : Word}
variable {w i : Bool} {before after : List HookedCall}

/-! ## The invariant -/

/-- The call has an entry on its thread's invocation stack. -/
def HookedCall.onStack (call : HookedCall) : Bool :=
  match call.progress with
  | .beginning willTrapOnLeave invokeListeners => willTrapOnLeave || invokeListeners
  | .untracked _ => false
  | .tracked | .ending _ => true

/-- `begin_invocation` puts the `on_leave` trampoline in the place of the call's return address, and `end_invocation`
    has not popped the call yet. -/
def HookedCall.trapped (call : HookedCall) : Bool :=
  match call.progress with
  | .beginning willTrapOnLeave _ => willTrapOnLeave
  | .untracked _ => false
  | .tracked | .ending _ => true

/-- The call has begun as one that is tracked or replaced, and has not ended. -/
def HookedCall.trackedOrReplaced (call : HookedCall) : Bool :=
  match call.progress with
  | .untracked replaced => replaced
  | _ => call.trapped

/-- The call is still inside `begin_invocation`, which found nothing to track. -/
def HookedCall.announced (call : HookedCall) : Bool :=
  match call.progress with
  | .beginning willTrapOnLeave _ => !willTrapOnLeave
  | _ => false

/-- The number of calls of context `c` with a property. -/
def countCalls (p : HookedCall → Bool) (calls : List HookedCall) (c : Nat) : Nat :=
  calls.countP fun call => p call && call.functionCtx == c

/-- The calls of `t` that have an entry, latest first. -/
def stackedCalls (calls : List HookedCall) (t : BitVec 32) : List HookedCall :=
  calls.filter fun call => call.onStack && call.thread == t

/-- The entry was pushed for the call; a trapped call's return address is in it. -/
structure Records (entry : InvocationStackEntry) (call : HookedCall) : Prop where
  functionCtx : entry.functionCtx = call.functionCtx
  callerRetAddr : call.trapped = true → entry.callerRetAddr = call.callerRetAddr

/-- Each thread's stack has its calls, and each counter their number. -/
structure StackInv (s : Invocations) : Prop where
  records : ∀ t, List.Forall₂ Records (s.interceptor.threads t).stack (stackedCalls s.calls t)
  ended : ∀ call ∈ s.calls, ∀ nextHop, call.progress = .ending nextHop → nextHop = some call.callerRetAddr
  counted : ∀ c, s.trampolineUsageCounter c =
    countCalls HookedCall.trapped s.calls c + countCalls HookedCall.announced s.calls c

/-- Nothing is there. -/
theorem stackInv_init : StackInv .init where
  records := fun _ => List.Forall₂.nil
  ended := fun call hcall => by simp [Invocations.init] at hcall
  counted := fun c => by simp [Invocations.init, countCalls]

/-! ## One call among the others -/

/-- The calls of other threads do not touch a thread's stack. -/
theorem stackedCalls_ne {call : HookedCall} (h : call.thread ≠ t) :
    stackedCalls (before ++ call :: after) t = stackedCalls (before ++ after) t := by
  simp [stackedCalls, h]

/-- Before the latest call of `t` there is none of `t`. -/
theorem stackedCalls_latest {rest : List HookedCall} (h : ∀ call ∈ before, call.thread ≠ t) :
    stackedCalls (before ++ rest) t = stackedCalls rest t := by
  have hnil : stackedCalls before t = [] := by
    refine List.filter_eq_nil_iff.mpr fun call hcall => ?_
    simp [h call hcall]
  unfold stackedCalls at hnil ⊢
  rw [List.filter_append, hnil, List.nil_append]

/-- A call more on a stack. -/
theorem stackedCalls_cons {call : HookedCall} :
    stackedCalls (call :: after) call.thread =
      if call.onStack then call :: stackedCalls after call.thread else stackedCalls after call.thread := by
  simp [stackedCalls, List.filter_cons]

/-- A call more. -/
theorem countCalls_cons (p : HookedCall → Bool) (call : HookedCall) :
    countCalls p (call :: after) c = countCalls p after c + if p call && call.functionCtx == c then 1 else 0 := by
  simp only [countCalls, List.countP_cons]

/-- A call among others. -/
theorem countCalls_among (p : HookedCall → Bool) (call : HookedCall) :
    countCalls p (before ++ call :: after) c =
      countCalls p (before ++ after) c + if p call && call.functionCtx == c then 1 else 0 := by
  simp only [countCalls, List.countP_append, List.countP_cons]
  omega

/-- The calls with one among them. -/
theorem mem_among {call call' : HookedCall} :
    call ∈ before ++ call' :: after ↔ call = call' ∨ call ∈ before ++ after := by
  simp only [List.mem_append, List.mem_cons]
  tauto

/-! ## What a step does to the stacks -/

/-- An operation leaves every invocation stack alone. -/
theorem operation_stack {s s' : Interceptor} {e : InterceptorEvent} (he : e.isOperation = true)
    (h : InterceptorStep relocatable s e s') (t : BitVec 32) : (s'.threads t).stack = (s.threads t).stack := by
  have hlevel : ∀ (t' : BitVec 32) (level : Int),
      ((s.setThread t' { s.threads t' with ignoreLevel := level }).threads t).stack = (s.threads t).stack := by
    intro t' level
    by_cases ht : t = t'
    · subst ht
      simp
    · simp [ht]
  cases h with
  | replace type f r => rw [replace_threads]
  | revert f => rw [revert_threads]
  | attach f l => rw [attach_threads]
  | detach l => rfl
  | ignoreCurrentThread t' => exact hlevel t' _
  | unignoreCurrentThread t' => exact hlevel t' _
  | maybeUnignoreCurrentThread t' =>
      unfold Interceptor.maybeUnignoreCurrentThread
      split
      · rfl
      · exact hlevel t' _
  | ignoreOtherThreads t' => rfl
  | unignoreOtherThreads t' _ => rfl
  | call | dispatch | leave | resume => simp [InterceptorEvent.isOperation] at he

/-- A call that enters the interceptor gets by, or is announced with the stack its two decisions ask for. -/
theorem beginInvocation_cases (s : Interceptor) (t : BitVec 32) (c : Nat) (callerRetAddr : Word) :
    (∃ hop, s.beginInvocation t c callerRetAddr = (s, some hop)) ∨
    ∃ w i th, s.beginInvocation t c callerRetAddr = (s.setThread t th, none) ∧ th.phase = .entering c w i ∧
      th.stack =
        if w then Interceptor.invocationStackPush (s.threads t).stack c (s.contexts c).functionAddress callerRetAddr
        else if i then Interceptor.invocationStackPush (s.threads t).stack c (s.contexts c).functionAddress
          (s.contexts c).functionAddress
        else (s.threads t).stack := by
  unfold Interceptor.beginInvocation
  dsimp only
  split
  · exact .inl ⟨_, rfl⟩
  · split
    · exact .inl ⟨_, rfl⟩
    · exact .inr ⟨_, _, _, rfl, rfl, rfl⟩

/-- What `dispatch` leaves on the stack: an entry that was only there for the listeners is popped. -/
theorem dispatch_stack (s : Interceptor) (t : BitVec 32) (c : Nat) (w i : Bool) :
    ((s.dispatch t c w i).1.threads t).stack = (if !w && i then (s.threads t).stack.tail else (s.threads t).stack) ∨
    (w = true ∧
      ((s.dispatch t c w i).1.threads t).stack = Interceptor.markCallingReplacement (s.threads t).stack) := by
  unfold Interceptor.dispatch
  dsimp only
  split
  · cases w
    · left
      simp
    · right
      simp
  · left
    simp

/-- An entry stays a record of its call while that goes on. -/
theorem Records.goesOn {entry : InvocationStackEntry} {progress progress' : CallProgress}
    (h : Records entry ⟨t, c, callerRetAddr, progress⟩)
    (htrapped : HookedCall.trapped ⟨t, c, callerRetAddr, progress'⟩ = true →
      HookedCall.trapped ⟨t, c, callerRetAddr, progress⟩ = true) : Records entry ⟨t, c, callerRetAddr, progress'⟩ :=
  ⟨h.functionCtx, fun h' => h.callerRetAddr (htrapped h')⟩

/-- A call goes on, and its record stays. -/
theorem records_goesOn {stack : List InvocationStackEntry} {calls : List HookedCall} {progress progress' : CallProgress}
    (h : List.Forall₂ Records stack (⟨t, c, callerRetAddr, progress⟩ :: calls))
    (htrapped : HookedCall.trapped ⟨t, c, callerRetAddr, progress'⟩ = true →
      HookedCall.trapped ⟨t, c, callerRetAddr, progress⟩ = true) :
    List.Forall₂ Records stack (⟨t, c, callerRetAddr, progress'⟩ :: calls) := by
  cases h with
  | cons hentry hrest => exact List.Forall₂.cons (hentry.goesOn htrapped) hrest

/-- A call leaves, and its record with it. -/
theorem records_tail {stack : List InvocationStackEntry} {call : HookedCall} {calls : List HookedCall}
    (h : List.Forall₂ Records stack (call :: calls)) : List.Forall₂ Records stack.tail calls := by
  cases h with
  | cons _ hrest => exact hrest

/-- The mark does not matter to the records. -/
theorem records_markCallingReplacement {stack : List InvocationStackEntry} {calls : List HookedCall}
    (h : List.Forall₂ Records stack calls) :
    List.Forall₂ Records (Interceptor.markCallingReplacement stack) calls := by
  cases h with
  | nil => exact List.Forall₂.nil
  | cons hentry hrest => exact List.Forall₂.cons ⟨hentry.functionCtx, hentry.callerRetAddr⟩ hrest

/-! ## The invariant is kept -/

/-- The records after a step of one thread: the others' are not touched, and the thread's own follow from what they
    were. -/
theorem records_of_latest (hs : StackInv s) {call : HookedCall} (h : s.Latest call before after)
    {interceptor : Interceptor} {calls : List HookedCall}
    (hother : ∀ t', t' ≠ call.thread → (interceptor.threads t').stack = (s.interceptor.threads t').stack ∧
      stackedCalls calls t' = stackedCalls (before ++ after) t')
    (hown : List.Forall₂ Records (s.interceptor.threads call.thread).stack (stackedCalls (call :: after) call.thread) →
      List.Forall₂ Records (interceptor.threads call.thread).stack (stackedCalls calls call.thread)) (t : BitVec 32) :
    List.Forall₂ Records (interceptor.threads t).stack (stackedCalls calls t) := by
  have hrecords := hs.records t
  rw [h.among] at hrecords
  by_cases ht : t = call.thread
  · subst ht
    rw [stackedCalls_latest h.latest] at hrecords
    exact hown hrecords
  · rw [stackedCalls_ne (Ne.symm ht)] at hrecords
    rw [(hother t ht).1, (hother t ht).2]
    exact hrecords

/-- The stacks of other threads stay. -/
theorem dispatch_stack_ne (s : Interceptor) {t t' : BitVec 32} (c : Nat) (w i : Bool) (h : t' ≠ t) :
    ((s.dispatch t c w i).1.threads t').stack = (s.threads t').stack := by
  rw [dispatch_threads_of_ne s c w i h]

/-- A counter goes up or down at its own context only. -/
theorem countUp_eq (counter : Nat → Int) (c c' : Nat) :
    Invocations.countUp counter c c' = counter c' + if c == c' then 1 else 0 := by
  unfold Invocations.countUp
  by_cases h : c' = c
  · subst h
    simp
  · have h' : ¬ c = c' := fun he => h he.symm
    simp [h, h']

/-- The counter of one context. -/
theorem countDown_eq (counter : Nat → Int) (c c' : Nat) :
    Invocations.countDown counter c c' = counter c' - if c == c' then 1 else 0 := by
  unfold Invocations.countDown
  by_cases h : c' = c
  · subst h
    simp
  · have h' : ¬ c = c' := fun he => h he.symm
    simp [h, h']

/-- The two ways into `begin_invocation`, with the counter that each leaves. -/
theorem begun_cases (s : Invocations) (t : BitVec 32) (c : Nat) (callerRetAddr : Word) :
    s.beginInvocation t c callerRetAddr = ⟨s.interceptor,
      Invocations.countDown (Invocations.countUp s.trampolineUsageCounter c) c,
      ⟨t, c, callerRetAddr, .untracked false⟩ :: s.calls⟩ ∨
    ∃ w i th, s.beginInvocation t c callerRetAddr = ⟨s.interceptor.setThread t th,
        Invocations.countUp s.trampolineUsageCounter c, ⟨t, c, callerRetAddr, .beginning w i⟩ :: s.calls⟩ ∧
      th.stack =
        if w then Interceptor.invocationStackPush (s.interceptor.threads t).stack c
          (s.interceptor.contexts c).functionAddress callerRetAddr
        else if i then Interceptor.invocationStackPush (s.interceptor.threads t).stack c
          (s.interceptor.contexts c).functionAddress (s.interceptor.contexts c).functionAddress
        else (s.interceptor.threads t).stack := by
  unfold Invocations.beginInvocation
  rcases beginInvocation_cases s.interceptor t c callerRetAddr with ⟨hop, hbegun⟩ | ⟨w, i, th, hbegun, hphase, hstack⟩
  · left
    rw [hbegun]
    rfl
  · right
    refine ⟨w, i, th, ?_, hstack⟩
    simp only [hbegun, Interceptor.setThread_threads, Function.update_self, Invocations.progressOf, hphase,
      Option.isSome_none, Bool.false_eq_true, if_false]

/-- **`begin_invocation`** counts up. -/
theorem stackInv_beginInvocation (hs : StackInv s) (t : BitVec 32) (c : Nat) (callerRetAddr : Word) :
    StackInv (s.beginInvocation t c callerRetAddr) := by
  rcases begun_cases s t c callerRetAddr with hbegun | ⟨w, i, th, hbegun, hstack⟩
  · -- a bypass takes the counter back, and leaves nothing on the stack
    rw [hbegun]
    refine ⟨fun t' => ?_, fun call hcall nextHop hnext => ?_, fun c' => ?_⟩
    · simpa [stackedCalls, HookedCall.onStack] using hs.records t'
    · rcases List.mem_cons.mp hcall with rfl | hcall
      · cases hnext
      · exact hs.ended call hcall nextHop hnext
    · have hcounted := hs.counted c'
      simp only [countUp_eq, countDown_eq, countCalls_cons, HookedCall.trapped, HookedCall.announced, Bool.false_and]
      simp only [Bool.false_eq_true, if_false]
      omega
  · rw [hbegun]
    refine ⟨fun t' => ?_, fun call hcall nextHop hnext => ?_, fun c' => ?_⟩
    · by_cases ht : t' = t
      · subst ht
        have hrecords := hs.records t'
        simp only [Interceptor.setThread_threads, Function.update_self, hstack]
        cases w <;> cases i <;> simp [stackedCalls, HookedCall.onStack, Interceptor.invocationStackPush] at hrecords ⊢
        · exact hrecords
        · exact ⟨⟨rfl, fun h => by simp [HookedCall.trapped] at h⟩, hrecords⟩
        · exact ⟨⟨rfl, fun _ => rfl⟩, hrecords⟩
        · exact ⟨⟨rfl, fun _ => rfl⟩, hrecords⟩
      · have hsame : (⟨t, c, callerRetAddr, .beginning w i⟩ : HookedCall).thread ≠ t' := Ne.symm ht
        have hrest : stackedCalls (⟨t, c, callerRetAddr, .beginning w i⟩ :: s.calls) t' = stackedCalls s.calls t' := by
          rw [← List.nil_append (_ :: s.calls), stackedCalls_ne hsame, List.nil_append]
        simpa [hrest, ht] using hs.records t'
    · rcases List.mem_cons.mp hcall with rfl | hcall
      · cases hnext
      · exact hs.ended call hcall nextHop hnext
    · have hcounted := hs.counted c'
      simp only [countUp_eq, countCalls_cons, HookedCall.trapped, HookedCall.announced]
      cases w <;> simp <;> omega

/-- The latest call goes on: how far it was does not matter to the others. -/
theorem ended_goesOn (hs : StackInv s) {progress progress' : CallProgress}
    (h : s.Latest ⟨t, c, callerRetAddr, progress⟩ before after)
    (hnew : ∀ nextHop, progress' = .ending nextHop → nextHop = some callerRetAddr) :
    ∀ call ∈ before ++ ⟨t, c, callerRetAddr, progress'⟩ :: after, ∀ nextHop, call.progress = .ending nextHop →
      nextHop = some call.callerRetAddr := by
  intro call hcall nextHop hnext
  rcases mem_among.mp hcall with rfl | hcall
  · exact hnew nextHop hnext
  · refine hs.ended call ?_ nextHop hnext
    rw [h.among]
    exact mem_among.mpr (.inr hcall)

/-- **The dispatch** pushes a record for a call that is to be trapped, and counts down for the others. -/
theorem stackInv_dispatch (hs : StackInv s) (h : s.Latest ⟨t, c, callerRetAddr, .beginning w i⟩ before after) :
    StackInv (s.dispatch t c callerRetAddr w i before after) := by
  unfold Invocations.dispatch
  refine ⟨records_of_latest hs h (fun t' ht => ⟨dispatch_stack_ne _ c w i ht, stackedCalls_ne (Ne.symm ht)⟩) ?_,
    ended_goesOn hs h fun nextHop hnext => ?_, fun c' => ?_⟩
  · intro hrecords
    rw [stackedCalls_latest h.latest, stackedCalls_cons]
    rw [stackedCalls_cons] at hrecords
    cases w with
    | true =>
        have hrecords' : List.Forall₂ Records (s.interceptor.threads t).stack
            (⟨t, c, callerRetAddr, .tracked⟩ :: stackedCalls after t) :=
          records_goesOn (by simpa [HookedCall.onStack] using hrecords) fun _ => rfl
        rcases dispatch_stack s.interceptor t c true i with hstack | ⟨-, hstack⟩
        · rw [hstack]
          simpa [HookedCall.onStack] using hrecords'
        · rw [hstack]
          simpa [HookedCall.onStack] using records_markCallingReplacement hrecords'
    | false =>
        have hstack : ((s.interceptor.dispatch t c false i).1.threads t).stack =
            if i then (s.interceptor.threads t).stack.tail else (s.interceptor.threads t).stack := by
          rcases dispatch_stack s.interceptor t c false i with hstack | ⟨hfalse, -⟩
          · exact hstack
          · cases hfalse
        rw [hstack]
        cases i with
        | true => simpa [HookedCall.onStack] using records_tail (by simpa [HookedCall.onStack] using hrecords)
        | false => simpa [HookedCall.onStack] using hrecords
  · cases w <;> cases hnext
  · have hcounted := hs.counted c'
    rw [h.among] at hcounted
    simp only [countCalls_among, HookedCall.trapped, HookedCall.announced] at hcounted ⊢
    cases w <;> simp [countDown_eq] at hcounted ⊢ <;> omega

/-- **`end_invocation`** pops it. -/
theorem stackInv_endInvocation (hs : StackInv s) (h : s.Latest ⟨t, c, callerRetAddr, .tracked⟩ before after) :
    StackInv (s.endInvocation t c callerRetAddr before after) := by
  have hrecords := hs.records t
  rw [h.among, stackedCalls_latest h.latest, stackedCalls_cons] at hrecords
  simp only [HookedCall.onStack, if_true] at hrecords
  unfold Invocations.endInvocation
  refine ⟨records_of_latest hs h (fun t' ht => ⟨?_, stackedCalls_ne (Ne.symm ht)⟩) ?_,
    ended_goesOn hs h fun nextHop hnext => ?_, fun c' => ?_⟩
  · simp only [Interceptor.endInvocation, Interceptor.setThread_threads, Function.update_of_ne ht]
  · intro _
    rw [stackedCalls_latest h.latest, stackedCalls_cons]
    simp only [Interceptor.endInvocation, Interceptor.setThread_threads, Function.update_self, HookedCall.onStack,
      if_true]
    exact records_goesOn hrecords fun _ => rfl
  · -- the topmost entry is the latest call's
    cases hnext
    revert hrecords
    generalize (s.interceptor.threads t).stack = stack
    intro hrecords
    cases hrecords with
    | cons hentry _ => simp [hentry.callerRetAddr rfl]
  · have hcounted := hs.counted c'
    rw [h.among] at hcounted
    simp only [countCalls_among, HookedCall.trapped, HookedCall.announced] at hcounted ⊢
    exact hcounted

/-- Going on behind it counts down. -/
theorem stackInv_resume (hs : StackInv s) {nextHop : Option Word}
    (h : s.Latest ⟨t, c, callerRetAddr, .ending nextHop⟩ before after) : StackInv (s.resume t c before after) := by
  unfold Invocations.resume
  refine ⟨records_of_latest hs h (fun t' ht => ⟨?_, rfl⟩) ?_, fun call hcall => ?_, fun c' => ?_⟩
  · simp only [Interceptor.popInvocation, Interceptor.setThread_threads, Function.update_of_ne ht]
  · intro hrecords
    rw [stackedCalls_latest h.latest]
    rw [stackedCalls_cons] at hrecords
    simp only [Interceptor.popInvocation, Interceptor.setThread_threads, Function.update_self]
    exact records_tail hrecords
  · refine hs.ended call ?_
    rw [h.among]
    exact mem_among.mpr (.inr hcall)
  · have hcounted := hs.counted c'
    rw [h.among] at hcounted
    simp only [countCalls_among, HookedCall.trapped, HookedCall.announced, Bool.true_and, Bool.false_and] at hcounted
    simp only [countDown_eq, hcounted, Bool.false_eq_true, if_false]
    push_cast
    omega

/-- A call that was not trapped returns. -/
theorem stackInv_returnToCaller (hs : StackInv s) {replaced : Bool}
    (h : s.Latest ⟨t, c, callerRetAddr, .untracked replaced⟩ before after) :
    StackInv { s with calls := before ++ after } := by
  refine ⟨records_of_latest hs h (fun t' ht => ⟨rfl, rfl⟩) ?_, fun call hcall => ?_, fun c' => ?_⟩
  · intro hrecords
    rw [stackedCalls_latest h.latest]
    rw [stackedCalls_cons] at hrecords
    exact hrecords
  · refine hs.ended call ?_
    rw [h.among]
    exact mem_among.mpr (.inr hcall)
  · have hcounted := hs.counted c'
    rw [h.among] at hcounted
    simpa [countCalls_among, HookedCall.trapped, HookedCall.announced] using hcounted

/-- **One step keeps the invariant.** -/
theorem stackInv_step {e : InvocationEvent} (hs : StackInv s) (h : InvocationStep relocatable s e s') :
    StackInv s' := by
  cases h with
  | operate e interceptor he h =>
      refine ⟨fun t => ?_, hs.ended, hs.counted⟩
      rw [operation_stack he h t]
      exact hs.records t
  | beginInvocation t c callerRetAddr => exact stackInv_beginInvocation hs t c callerRetAddr
  | dispatch t c callerRetAddr w i before after h _ => exact stackInv_dispatch hs h
  | endInvocation t c callerRetAddr before after h => exact stackInv_endInvocation hs h
  | resume t c callerRetAddr nextHop before after h => exact stackInv_resume hs h
  | returnToCaller t c callerRetAddr replaced before after h => exact stackInv_returnToCaller hs h

/-! ## Runs -/

/-- An `end_invocation` returns to the address that its call's `begin_invocation` recorded. -/
def InvocationEvent.Returns : InvocationEvent → Prop
  | .resume _ _ callerRetAddr nextHop => nextHop = some callerRetAddr
  | _ => True

/-- **A step returns to the right address.** -/
theorem returns_step {e : InvocationEvent} (hs : StackInv s) (h : InvocationStep relocatable s e s') : e.Returns := by
  cases h with
  | resume t c callerRetAddr nextHop before after h =>
      refine hs.ended ⟨t, c, callerRetAddr, .ending nextHop⟩ ?_ nextHop rfl
      rw [h.among]
      exact mem_among.mpr (.inl rfl)
  | operate | beginInvocation | dispatch | endInvocation | returnToCaller => trivial

/-- **All steps of a run do.** -/
theorem invocations_run {es : List InvocationEvent} (h : Run (invocationSystem relocatable) .init es s) :
    StackInv s ∧ ∀ e ∈ es, e.Returns := by
  refine h.induct (P := fun es s => StackInv s ∧ ∀ e ∈ es, e.Returns) ⟨stackInv_init, by simp⟩ ?_
  intro es s e s' _ hs hstep
  refine ⟨stackInv_step hs.1 hstep, fun e' he' => ?_⟩
  rcases List.mem_append.mp he' with he' | he'
  · exact hs.2 e' he'
  · rw [List.mem_singleton.mp he']
    exact returns_step hs.1 hstep

/-! ## Replacements that turn up in `begin_invocation` -/

/-- A call that `begin_invocation` does not trap finds its function without a replacement when its listeners have run. -/
def Invocations.Settled (s : Invocations) : InvocationEvent → Prop
  | .dispatch t _ _ => ∀ call ∈ s.calls.find? (·.thread == t), call.announced = true →
      (s.interceptor.contexts call.functionCtx).replacementFunction = 0
  | _ => True

instance (s : Invocations) (e : InvocationEvent) : Decidable (s.Settled e) := by
  unfold Invocations.Settled
  split <;> infer_instance

/-- What the events of a run are to have done: each `end_invocation` returned to the address that the matching
    `begin_invocation` recorded; a thread whose calls have all returned has an empty stack; and the counter of a context
    is the number of its tracked or replaced calls that have not ended, and of those that `begin_invocation` is still
    at. -/
structure Invocations.Lawful (s : Invocations) (es : List InvocationEvent) : Prop where
  returns : ∀ e ∈ es, e.Returns
  empty : ∀ t, (∀ call ∈ s.calls, call.thread ≠ t) → (s.interceptor.threads t).stack = []
  counted : ∀ c, s.trampolineUsageCounter c =
    countCalls HookedCall.trackedOrReplaced s.calls c + countCalls HookedCall.announced s.calls c
  counted_begun : ∀ c, (∀ call ∈ s.calls, call.functionCtx = c → call.announced = false) →
    s.trampolineUsageCounter c = countCalls HookedCall.trackedOrReplaced s.calls c

/-- The latest call of a thread. -/
theorem Invocations.Latest.find? {call : HookedCall} (h : s.Latest call before after) :
    s.calls.find? (·.thread == call.thread) = some call := by
  rw [h.among, List.find?_eq_some_iff_append]
  exact ⟨beq_self_eq_true _, before, after, rfl, fun call' hcall' => by simp [h.latest call' hcall']⟩

/-- Every call is trapped if it is tracked or replaced. -/
def AllTrapped (s : Invocations) : Prop := ∀ call ∈ s.calls, call.progress ≠ .untracked true

/-- No call was sent to a replacement. -/
theorem allTrapped_among {calls : List HookedCall} {progress : CallProgress}
    (hall : ∀ call ∈ before ++ after, call.progress ≠ .untracked true) (h : progress ≠ .untracked true)
    (hcalls : calls = before ++ ⟨t, c, callerRetAddr, progress⟩ :: after) :
    ∀ call ∈ calls, call.progress ≠ .untracked true := by
  rintro call hcall
  rw [hcalls] at hcall
  rcases mem_among.mp hcall with rfl | hcall
  · exact h
  · exact hall call hcall

/-- A settled step keeps it so. -/
theorem allTrapped_step {e : InvocationEvent} (hall : AllTrapped s) (hsettled : s.Settled e)
    (h : InvocationStep relocatable s e s') : AllTrapped s' := by
  have hothers : ∀ {call before after}, s.Latest call before after →
      ∀ call' ∈ before ++ after, call'.progress ≠ .untracked true := by
    intro call before after hlatest call' hcall'
    refine hall call' ?_
    rw [hlatest.among]
    exact mem_among.mpr (.inr hcall')
  cases h with
  | operate e interceptor he h => exact hall
  | beginInvocation t c callerRetAddr =>
      have hcalls : ∀ call ∈ [] ++ s.calls, call.progress ≠ .untracked true := hall
      rcases begun_cases s t c callerRetAddr with hbegun | ⟨w, i, th, hbegun, -⟩
      · rw [hbegun]
        exact allTrapped_among hcalls (by simp) rfl
      · rw [hbegun]
        exact allTrapped_among hcalls (by simp) rfl
  | dispatch t c callerRetAddr w i before after h _ =>
      refine allTrapped_among (hothers h) ?_ rfl
      cases w with
      | true => simp
      | false =>
          have hnone := hsettled _ h.find? rfl
          simp [hnone]
  | endInvocation t c callerRetAddr before after h => exact allTrapped_among (hothers h) (by simp) rfl
  | resume t c callerRetAddr nextHop before after h => exact hothers h
  | returnToCaller t c callerRetAddr replaced before after h => exact hothers h

/-- Then the calls counted are those trapped. -/
theorem trackedOrReplaced_eq {call : HookedCall} (h : call.progress ≠ .untracked true) :
    call.trackedOrReplaced = call.trapped := by
  obtain ⟨t, c, callerRetAddr, progress⟩ := call
  cases progress with
  | untracked replaced =>
      cases replaced with
      | true => exact absurd rfl h
      | false => rfl
  | beginning | tracked | ending => rfl

/-- Counting by the same predicate. -/
theorem countCalls_congr {p q : HookedCall → Bool} {calls : List HookedCall} (h : ∀ call ∈ calls, p call = q call)
    (c : Nat) : countCalls p calls c = countCalls q calls c :=
  List.countP_congr fun call hcall => by rw [h call hcall]

/-- **The condition is exact.** A dispatch that is not settled leaves a counter that misses the replaced call. -/
theorem settled_of_counted {e : InvocationEvent} (hs : StackInv s) (h : InvocationStep relocatable s e s')
    (hcounted : ∀ c, s'.trampolineUsageCounter c =
      countCalls HookedCall.trackedOrReplaced s'.calls c + countCalls HookedCall.announced s'.calls c) :
    s.Settled e := by
  have hs' := stackInv_step hs h
  cases h with
  | dispatch t c callerRetAddr w i before after h _ =>
      intro call hcall hannounced
      obtain rfl := Option.some.inj (h.find?.symm.trans hcall)
      obtain rfl : w = false := by simpa [HookedCall.announced] using hannounced
      by_contra hreplaced
      have hbelow := (hs'.counted c).symm.trans (hcounted c)
      simp only [Invocations.dispatch, countCalls_among] at hbelow
      have hothers : countCalls HookedCall.trapped (before ++ after) c ≤
          countCalls HookedCall.trackedOrReplaced (before ++ after) c := by
        refine List.countP_mono_left fun call' _ hcall' => ?_
        obtain ⟨t', c', callerRetAddr', progress⟩ := call'
        cases progress with
        | untracked => simp [HookedCall.trapped] at hcall'
        | beginning | tracked | ending => exact hcall'
      simp only [HookedCall.trapped, HookedCall.trackedOrReplaced, HookedCall.announced, Bool.false_eq_true, if_false,
        beq_self_eq_true, Bool.and_true, bne_iff_ne] at hbelow
      rw [if_pos hreplaced] at hbelow
      omega
  | operate | beginInvocation | endInvocation | resume | returnToCaller => trivial

/-- **The invocation stack.** Every run whose dispatches find no replacement that `begin_invocation` has not counted is
    lawful in every state. -/
theorem invocations_lawful {es : List InvocationEvent}
    (h : Run ((invocationSystem relocatable).restrict Invocations.Settled) .init es s) : s.Lawful es := by
  obtain ⟨hs, hreturns⟩ := invocations_run h.of_restrict
  have hall : AllTrapped s := by
    refine h.invariant (by simp [AllTrapped, Invocations.init]) ?_
    rintro s e s' hall ⟨hsettled, hstep⟩
    exact allTrapped_step hall hsettled hstep
  have hcounted : ∀ c, s.trampolineUsageCounter c =
      countCalls HookedCall.trackedOrReplaced s.calls c + countCalls HookedCall.announced s.calls c := by
    intro c
    rw [countCalls_congr (fun call hcall => trackedOrReplaced_eq (hall call hcall)) c]
    exact hs.counted c
  refine ⟨hreturns, fun t hnone => ?_, hcounted, fun c hbegun => ?_⟩
  · have hstacked : stackedCalls s.calls t = [] := by
      rw [← List.append_nil s.calls, stackedCalls_latest hnone]
      rfl
    have hrecords := hs.records t
    rw [hstacked] at hrecords
    exact List.forall₂_nil_right_iff.mp hrecords
  · have hzero : countCalls HookedCall.announced s.calls c = 0 := by
      refine List.countP_eq_zero.mpr fun call hcall => ?_
      by_cases hc : call.functionCtx = c
      · simp [hbegun call hcall hc]
      · simp [hc]
    rw [hcounted c, hzero]
    simp

/-- Thread 1 calls the replaced function, whose replacement calls the original; both return. -/
def replacementCallsOriginal : List InvocationEvent :=
  [.operate (.replace .default 0x1000 0x2000 .ok), .beginInvocation 1 0 0x3000,
    .dispatch 1 0 (.replacementFunction 0x2000), .beginInvocation 1 0 0x2004, .returnToCaller 1 0, .endInvocation 1 0,
    .resume 1 0 0x3000 (some 0x3000)]

/-- A replacement that calls the original function, to the end. -/
theorem replacementCallsOriginal_run :
    ∃ s, Run ((invocationSystem fun _ => true).restrict Invocations.Settled) .init replacementCallsOriginal s ∧
      s.calls = [] := by
  have hreplaced : Run ((invocationSystem fun _ => true).restrict Invocations.Settled) .init
      [.operate (.replace .default 0x1000 0x2000 .ok)] { Invocations.init with interceptor := plainReplaced } :=
    Run.single ⟨trivial, InvocationStep.operate _ _ _ rfl (InterceptorStep.replace _ _ _ _)⟩
  have hbegun := hreplaced.snoc (e := InvocationEvent.beginInvocation 1 0 0x3000)
    ⟨trivial, InvocationStep.beginInvocation _ 1 0 0x3000⟩
  have hdispatched := hbegun.snoc
    ⟨by decide, InvocationStep.dispatch _ 1 0 0x3000 true true [] [] ⟨rfl, by simp⟩ (by decide)⟩
  have horiginal := hdispatched.snoc (e := InvocationEvent.beginInvocation 1 0 0x2004)
    ⟨trivial, InvocationStep.beginInvocation _ 1 0 0x2004⟩
  have hback := horiginal.snoc (e := InvocationEvent.returnToCaller 1 0)
    ⟨trivial, InvocationStep.returnToCaller _ 1 0 0x2004 false [] [⟨1, 0, 0x3000, .tracked⟩] ⟨rfl, by simp⟩⟩
  have hleaving := hback.snoc (e := InvocationEvent.endInvocation 1 0)
    ⟨trivial, InvocationStep.endInvocation _ 1 0 0x3000 [] [] ⟨rfl, by simp⟩⟩
  have hresumed := hleaving.snoc (e := InvocationEvent.resume 1 0 0x3000 (some 0x3000))
    ⟨trivial, InvocationStep.resume _ 1 0 0x3000 (some 0x3000) [] [] ⟨rfl, by simp⟩⟩
  exact ⟨_, hresumed, rfl⟩

/-- The run theorem, for that run. -/
theorem invocations_lawful_replaced :
    ∃ s : Invocations, s.calls = [] ∧ (s.interceptor.threads 1).stack = [] ∧ s.trampolineUsageCounter 0 = 0 := by
  obtain ⟨s, hrun, hcalls⟩ := replacementCallsOriginal_run
  have hlawful := invocations_lawful hrun
  have hnone : ∀ call ∈ s.calls, call.thread ≠ 1 := by simp [hcalls]
  have hcount := hlawful.counted_begun 0 (by simp [hcalls])
  rw [hcalls] at hcount
  exact ⟨s, hcalls, hlawful.empty 1 hnone, hcount⟩

/-- A function with a listener that has no `on_leave` is replaced while the listener runs: the call goes to the
    replacement, and the counter of its context is zero. -/
theorem invocations_miscounted :
    ¬ ∀ es s, Run (invocationSystem fun _ => true) .init es s → s.Lawful es := by
  intro hall
  have hattached : Run (invocationSystem fun _ => true) .init [.operate (.attach 0x1000 ⟨1, false⟩ .ok)]
      { Invocations.init with interceptor := (Interceptor.init.attach (fun _ => true) 0x1000 ⟨1, false⟩).2 } :=
    Run.single (InvocationStep.operate _ _ _ rfl (InterceptorStep.attach _ _ _))
  have hbegun := hattached.snoc (InvocationStep.beginInvocation _ 1 0 0x3000)
  have hreplaced := hbegun.snoc
    (InvocationStep.operate _ _ _ rfl (InterceptorStep.replace _ .default 0x1000 0x2000))
  have hdispatched := hreplaced.snoc
    (InvocationStep.dispatch _ 1 0 0x3000 false true [] [] ⟨rfl, by simp⟩ (by decide))
  exact absurd ((hall _ _ hdispatched).counted 0) (by decide)

end Gum
