import FreeProbe.Lib.Machine
import Mathlib.Data.BitVec

/-!
# `Attach.NestedRuns` — program runs nested on one thread

The cookie, the CPU context and the override-return callback that a program's helpers see are slots of the thread, and
so are the thread's rights on the protected shared memory. The hooks and `bpftime_prog_exec` set them and clear them,
and none puts back what it found. A helper, a ufunc or a system call that a program makes may enter another hook, whose
programs then run inside the first.

A uretprobe's hook sets no CPU context; an override hook never clears its callback; a uprobe's hook leaves the slot of
the callback as it is, and that of a system call the slot of the CPU context.

The interceptor runs its listeners, so the programs of uprobes and uretprobes, with its guard in a slot of the thread. A
hooked function that is called meanwhile runs without its hooks. The handler of an override runs after the guard is
back, and a system call is dispatched with no look at it: these are the hooks that nest.
-/

namespace NestedRuns

open Lib

/-- The hooks: `uprobe_listener_on_enter`, `uprobe_listener_on_leave`, the override handler of a function, and
`dispatch_syscall`. -/
inductive HookKind where
  | uprobe
  | uretprobe
  | override (function : Nat)
  | syscall
deriving DecidableEq, Repr

/-- A hook the thread is in, with the place on the thread's stack of its CPU context, or of the variables that the
closures of a dispatch refer to. -/
structure Hook where
  kind  : HookKind
  place : Nat
deriving DecidableEq, Repr

/-- An override-return callback: that of a function's hook entry, or a closure of a dispatch. -/
inductive OverrideCallback where
  | hookEntry (function : Nat)
  | dispatch (place : Nat)
deriving DecidableEq, Repr

/-- A hook and, while one of its programs runs, the cookie of the link. -/
structure Activation where
  hook : Hook
  run  : Option (Option (BitVec 64))
deriving DecidableEq, Repr

/-- The hooks whose programs run with the guard of the interceptor held. -/
def HookKind.guarded : HookKind → Bool
  | .uprobe | .uretprobe => true
  | .override _ | .syscall => false

/-- The hooks that the interceptor enters, so those that its guard keeps out. -/
def HookKind.intercepted : HookKind → Bool
  | .uprobe | .uretprobe | .override _ => true
  | .syscall => false

/-- The slots of the thread; `interceptorGuard` says that the interceptor is in its slot, and `writable` is what the
protection key lets the thread do to the shared memory. -/
structure Slots where
  bpfCookie              : Option (BitVec 64)
  gumCpuContext          : Option Nat
  overrideReturnCallback : Option OverrideCallback
  interceptorGuard       : Bool
  writable               : Bool
deriving DecidableEq, Repr

/-- A thread, with the hooks it is in, the innermost first, and the number it has entered. -/
structure Thread where
  slots   : Slots
  stack   : List Activation
  entered : Nat
deriving DecidableEq, Repr

inductive Event where
  | enter (kind : HookKind)
  /-- The callback of a link begins to run its program. -/
  | beginRun (cookie : Option (BitVec 64))
  | endRun
  /-- A dispatch goes on to the original system call and its exit callbacks. -/
  | original
  | leave
deriving DecidableEq, Repr

/-! ## The slots

What the hooks set and reset. No hook remembers what it has found. -/

/-- What a hook sets before its programs run. -/
def Hook.set (hook : Hook) (s : Slots) : Slots :=
  match hook.kind with
  | .uprobe => { s with interceptorGuard := true, gumCpuContext := some hook.place }
  | .uretprobe => { s with interceptorGuard := true }
  | .override function =>
    -- the guard that was taken to push the call is back before the handler runs
    { s with overrideReturnCallback := some (.hookEntry function), gumCpuContext := some hook.place }
  | .syscall => { s with overrideReturnCallback := some (.dispatch hook.place) }

/-- What a hook resets after them. -/
def Hook.reset (hook : Hook) (s : Slots) : Slots :=
  match hook.kind with
  | .uprobe => { s with gumCpuContext := none, interceptorGuard := false }
  | .uretprobe => { s with interceptorGuard := false }
  | .override _ => { s with gumCpuContext := none }
  | .syscall => { s with overrideReturnCallback := none }

variable (mpk : Bool)

/-- `bpftime_protect_disable`; without protection keys it does nothing. -/
def Slots.protectDisable (s : Slots) : Slots := if mpk then { s with writable := true } else s

/-- `bpftime_protect_enable` -/
def Slots.protectEnable (s : Slots) : Slots := if mpk then { s with writable := false } else s

/-- `bpftime_get_attach_cookie` -/
def Slots.getAttachCookie (s : Slots) : BitVec 64 := s.bpfCookie.getD 0

/-! ## The thread

The hooks that it is in, and the events by which it comes to a hook, begins and ends programs, and leaves. -/

namespace Thread

/-- A thread before its first hook; protected memory can be read only. -/
def new : Thread := ⟨⟨none, none, none, false, !mpk⟩, [], 0⟩

/-- A hook is come to outside of any hook, or by the program that runs. -/
def enter (t : Thread) (kind : HookKind) : Option (Unit × Thread) :=
  let hook : Hook := ⟨kind, t.entered⟩
  if ∀ a ∈ t.stack.head?, a.run.isSome then
    -- `goto bypass`: the call goes on to the function
    if kind.intercepted && t.slots.interceptorGuard then some ((), t)
    else some ((), ⟨hook.set t.slots, ⟨hook, none⟩ :: t.stack, t.entered + 1⟩)
  else none

def apply (t : Thread) : Event → Option (Unit × Thread)
  | .enter kind => t.enter kind
  | .beginRun cookie =>
    match t.stack with
    | ⟨hook, none⟩ :: rest =>
      let slots := { t.slots with bpfCookie := cookie }.protectDisable mpk
      some ((), { t with slots := slots, stack := ⟨hook, some cookie⟩ :: rest })
    | _ => none
  | .endRun =>
    match t.stack with
    | ⟨hook, some _⟩ :: rest => some ((), { t with slots := t.slots.protectEnable mpk, stack := ⟨hook, none⟩ :: rest })
    | _ => none
  | .original =>
    match t.stack with
    | ⟨⟨.syscall, place⟩, none⟩ :: _ =>
      -- the slot is reset and set again
      some ((), { t with slots := { t.slots with overrideReturnCallback := some (.dispatch place) } })
    | _ => none
  | .leave =>
    match t.stack with
    | ⟨hook, none⟩ :: rest => some ((), { t with slots := hook.reset t.slots, stack := rest })
    | _ => none

end Thread

/-! ## The law of the runs

A program's helpers should find its own cookie, its own context and its own callback, as long as the program runs. -/

/-- The CPU context of a hook; a system call's dispatch has none. -/
def Hook.cpuContext (hook : Hook) : Option Nat :=
  match hook.kind with
  | .uprobe | .uretprobe | .override _ => some hook.place
  | .syscall => none

/-- The override-return callback of a hook; uprobes and uretprobes have none. -/
def Hook.callback (hook : Hook) : Option OverrideCallback :=
  match hook.kind with
  | .uprobe | .uretprobe => none
  | .override function => some (.hookEntry function)
  | .syscall => some (.dispatch hook.place)

/-- What the helpers of a run see is its own. -/
structure SeesOwn (s : Slots) (hook : Hook) (cookie : Option (BitVec 64)) : Prop where
  cookie   : s.getAttachCookie = cookie.getD 0
  context  : s.gumCpuContext = hook.cpuContext
  callback : s.overrideReturnCallback = hook.callback

/-- **A state of the thread**: the innermost run sees its own, if its program is what runs now; and the memory is
writable as long as a run has not ended. -/
def Thread.Lawful (t : Thread) : Prop :=
  (∀ a ∈ t.stack.head?, ∀ cookie ∈ a.run, SeesOwn t.slots a.hook cookie) ∧
    ((∃ a ∈ t.stack, a.run.isSome) → t.slots.writable)

/-- A program may start in a hook, by the hook that is around it, if one is, and by what is left of a callback. -/
def HookKind.mayRun : HookKind → Option HookKind → Option OverrideCallback → Bool
  | .uprobe, none, callback => callback.isNone
  | .uprobe, some _, _ => false
  | .uretprobe, _, _ => false
  | .override _, _, _ => true
  | .syscall, outer, _ => outer = none ∨ outer = some .syscall

/-- A hook may be left to go on with a program of the hook around it. -/
def HookKind.mayReturn : HookKind → HookKind → Bool
  | .uprobe, outer => outer = .syscall
  | .uretprobe, _ => true
  | .override _, _ => false
  | .syscall, outer => outer = .uprobe

/-- A program may start in the innermost hook. -/
def mayBegin (callback : Option OverrideCallback) : List Activation → Bool
  | ⟨hook, none⟩ :: rest => hook.kind.mayRun (rest.head?.map fun b => b.hook.kind) callback
  | _ => true

/-- The innermost run may end. -/
def mayEnd : List Activation → Bool
  | ⟨_, some _⟩ :: _ :: _ => !mpk
  | _ => true

/-- The innermost hook may be left. -/
def mayLeave : List Activation → Bool
  | ⟨hook, none⟩ :: b :: _ => hook.kind.mayReturn b.hook.kind
  | _ => true

/-- **The condition on an event.** No program of a uretprobe runs. One of a uprobe starts inside no other run, with no
callback left by an override hook; one of a system call inside no other run or inside the run of a system call. A hook
that was entered by a program is left only if it is a uretprobe's, a uprobe's in the run of a system call or a system
call's in the run of a uprobe. In protected memory a run inside another does not end. -/
def Thread.Fits (t : Thread) : Event → Prop
  | .enter _ | .original => True
  | .beginRun _ => mayBegin t.slots.overrideReturnCallback t.stack
  | .endRun => mayEnd mpk t.stack
  | .leave => mayLeave t.stack

instance (t : Thread) : ∀ e, Decidable (t.Fits mpk e)
  | .enter _ | .original => inferInstanceAs (Decidable True)
  | .beginRun _ | .endRun | .leave => inferInstanceAs (Decidable (_ = true))

/-! ## The invariant

In which hooks a program has been left for another hook, and what each of these programs has seen. -/

/-- The CPU context that the hooks have left in the slot. -/
def contextOf : List Activation → Option Nat
  | [] => none
  | a :: rest =>
    match a.hook.kind with
    | .uprobe | .override _ => some a.hook.place
    | .uretprobe | .syscall => contextOf rest

/-- The callback that they have, above what was left before the outermost. -/
def callbackOf (left : Option OverrideCallback) : List Activation → Option OverrideCallback
  | [] => left
  | a :: rest =>
    match a.hook.kind with
    | .override function => some (.hookEntry function)
    | .syscall => some (.dispatch a.hook.place)
    | .uprobe | .uretprobe => callbackOf left rest

/-- Every hook but the innermost is in a run of its own, and what a run sees is its own; the interceptor has entered no
hook inside one that holds its guard. -/
def Settled (left : Option OverrideCallback) : List Activation → Prop
  | [] => True
  | a :: rest =>
    Settled left rest ∧ (∀ b ∈ rest, b.hook.place < a.hook.place) ∧ (∀ b ∈ rest.head?, b.run.isSome) ∧
      (a.hook.kind.intercepted → ∀ b ∈ rest, b.hook.kind.guarded = false) ∧
      (a.run.isSome → contextOf (a :: rest) = a.hook.cpuContext ∧ callbackOf left (a :: rest) = a.hook.callback)

/-- The cookie in the slot is that of the innermost run, while none has started in a hook that may be left for it. -/
def CookieOf (cookie : Option (BitVec 64)) : List Activation → Prop
  | ⟨_, some own⟩ :: _ => cookie = own
  | ⟨hook, none⟩ :: ⟨outer, some own⟩ :: _ => hook.kind.mayReturn outer.kind → cookie = own
  | _ => True

structure Inv (t : Thread) : Prop where
  context  : t.slots.gumCpuContext = contextOf t.stack
  callback : ∃ left, t.slots.overrideReturnCallback = callbackOf left t.stack ∧ Settled left t.stack
  guard    : t.slots.interceptorGuard = t.stack.any fun a => a.hook.kind.guarded
  places   : ∀ a ∈ t.stack, a.hook.place < t.entered
  cookie   : CookieOf t.slots.bpfCookie t.stack
  writable : (∃ a ∈ t.stack, a.run.isSome) ∨ mpk = false → t.slots.writable

theorem inv_new : Inv mpk (.new mpk) where
  context := rfl
  callback := ⟨none, rfl, trivial⟩
  guard := rfl
  places := by
    intro a ha
    cases ha
  cookie := trivial
  writable := by
    rintro (⟨a, ha, -⟩ | hmpk)
    · cases ha
    · show (!mpk) = true
      rw [hmpk]
      rfl

variable {mpk}

/-- The invariant's states are lawful. -/
theorem Inv.lawful {t : Thread} (ht : Inv mpk t) : t.Lawful := by
  refine ⟨fun a ha own hown => ?_, fun hrun => ht.writable (Or.inl hrun)⟩
  obtain ⟨left, hcallback, hsettled⟩ := ht.callback
  have hcontext := ht.context
  have hcookie := ht.cookie
  obtain ⟨hook, run⟩ := a
  cases hown
  obtain ⟨rest, hstack⟩ := List.head?_eq_some_iff.mp ha
  rw [hstack] at hcallback hsettled hcontext hcookie
  obtain ⟨hctx, hcb⟩ := hsettled.2.2.2.2 rfl
  exact ⟨congrArg (Option.getD · 0) hcookie, hcontext.trans hctx, hcallback.trans hcb⟩

end NestedRuns
