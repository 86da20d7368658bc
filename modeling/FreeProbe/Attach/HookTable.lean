import FreeProbe.Lib.Machine
import Mathlib.Data.List.Basic
import Mathlib.Logic.Function.Basic

/-!
# `Attach.HookTable` — `frida_attach_impl`

The attaches of the Frida attach implementation. An internal entry is the hook at one function: a listener, which runs
the uprobes and uretprobes of the function, or a replacement, which runs its override. `attaches` owns the users'
attaches, `internal_attaches` the internal entries, and the two point at each other. An attach is known by its id,
which is given out once, so that a pointer to one that is gone is an id without an attach; an operation that reads
through a pointer to what is gone ends with `none`. The kind of hook is fixed by the attach that created the entry.

A session is the table beside the attaches that its operations returned an id for and did not detach.
-/

namespace Attach

abbrev Addr := BitVec 64

/-- `ATTACH_UPROBE`, `ATTACH_URETPROBE` and `ATTACH_UPROBE_OVERRIDE`. -/
inductive AttachType where
  | uprobe
  | uretprobe
  | uprobeOverride
deriving DecidableEq

/-- What an internal entry installed: `gum_interceptor_attach` of a listener or `gum_interceptor_replace`. -/
inductive Hook where
  | listener
  | replacement
deriving DecidableEq

/-- `frida_attach_entry`, without its callback. -/
structure AttachEntry where
  selfId         : Int
  type           : AttachType
  function       : Addr
  internalAttach : Nat

/-- `frida_internal_attach_entry`. -/
structure InternalEntry where
  function     : Addr
  hook         : Hook
  userAttaches : List Int

structure HookTable where
  attaches         : Int → Option AttachEntry
  internalAttaches : Addr → Option Nat
  /-- The internal entries in memory, and the place of the next one. -/
  internals        : Nat → Option InternalEntry
  fresh            : Nat
  nextId           : Int

inductive HookReturn where
  | returned (code : Int)
  | threw
deriving DecidableEq

def EINVAL : Int := 22

def EEXIST : Int := 17

def ENOENT : Int := 2

def INT_MAX : Int := 2147483647

/-- The hook that the constructor of an internal entry installs. -/
def AttachType.hook : AttachType → Hook
  | .uprobe => .listener
  | .uretprobe => .listener
  | .uprobeOverride => .replacement

namespace HookTable

def new : HookTable := ⟨fun _ => none, fun _ => none, fun _ => none, 0, 1⟩

/-- `get_type` through a pointer. -/
def getType (s : HookTable) (v : Int) : Option AttachType := (s.attaches v).map fun entry => entry.type

/-- `has_override`. -/
def hasOverride (s : HookTable) : List Int → Option Bool
  | [] => some false
  | v :: vs => do if (← s.getType v) = .uprobeOverride then return true else s.hasOverride vs

/-! ## What a hook runs -/

/-- `iterate_uprobe_callbacks` and `iterate_uretprobe_callbacks`: the attaches whose callbacks run. -/
def iterateCallbacks (s : HookTable) (type : AttachType) : List Int → Option (List Int)
  | [] => some []
  | v :: vs => do
    let t ← s.getType v
    let rest ← s.iterateCallbacks type vs
    return if t = type then v :: rest else rest

/-- `run_filter_callback`: the first override, and none when it throws. -/
def runFilterCallback (s : HookTable) : List Int → Option (List Int)
  | [] => some []
  | v :: vs => do if (← s.getType v) = .uprobeOverride then return [v] else s.runFilterCallback vs

/-- The attaches that run when the function is called, on entering and on leaving. -/
def onCall (s : HookTable) (func : Addr) : Option (List Int) := do
  let inner ← s.internals (← s.internalAttaches func)
  match inner.hook with
  | .listener => do
    let entered ← s.iterateCallbacks .uprobe inner.userAttaches
    let left ← s.iterateCallbacks .uretprobe inner.userAttaches
    return entered ++ left
  | .replacement => s.runFilterCallback inner.userAttaches

/-! ## The operations -/

/-- `next_id++` is undefined at the last `int`. -/
def allocateId (s : HookTable) : Option (Int × HookTable) :=
  if s.nextId < INT_MAX then some (s.nextId, { s with nextId := s.nextId + 1 }) else none

/-- The end of `attach_at`: a new attach in the internal entry `p`. -/
def pushAttach (s : HookTable) (p : Nat) (func : Addr) (type : AttachType) : Option (HookReturn × HookTable) := do
  let inner ← s.internals p
  let (id, s) ← s.allocateId
  -- `emplace` leaves an entry that is there
  let attaches := match s.attaches id with
    | some entry => Function.update s.attaches id (some { entry with internalAttach := p })
    | none => Function.update s.attaches id (some ⟨id, type, func, p⟩)
  return (.returned id, { s with
    attaches := attaches
    internals := Function.update s.internals p (some { inner with userAttaches := inner.userAttaches ++ [id] }) })

/-- `attach_at`. `hooked` says whether the hook of a new internal entry could be installed. -/
def attachAt (s : HookTable) (func : Addr) (type : AttachType) (hooked : Bool) : Option (HookReturn × HookTable) :=
  if func = 0 then some (.returned (-EINVAL), s)
  else
    match s.internalAttaches func with
    | none =>
      if hooked then
        pushAttach { s with
          internalAttaches := Function.update s.internalAttaches func (some s.fresh)
          internals := Function.update s.internals s.fresh (some ⟨func, type.hook, []⟩)
          fresh := s.fresh + 1 } s.fresh func type
      else some (.threw, s)
    | some p => do
      let inner ← s.internals p
      if ← s.hasOverride inner.userAttaches then return (.returned (-EEXIST), s) else s.pushAttach p func type

/-- `internal_attaches.erase`. -/
def eraseInternal (s : HookTable) (func : Addr) : HookTable :=
  match s.internalAttaches func with
  | none => s
  | some p => { s with
      internalAttaches := Function.update s.internalAttaches func none
      internals := Function.update s.internals p none }

def detachById (s : HookTable) (id : Int) : Option (HookReturn × HookTable) :=
  match s.attaches id with
  | none => some (.returned 0, s)
  | some entry => do
    let p ← s.internals entry.internalAttach
    let userAttaches := p.userAttaches.filter (· ≠ id)
    let s' := { s with
      attaches := Function.update s.attaches id none
      internals := Function.update s.internals entry.internalAttach (some { p with userAttaches := userAttaches }) }
    return (.returned 0, if userAttaches = [] ∧ p.function ≠ 0 then s'.eraseInternal p.function else s')

/-- The loop of `detach_by_func_addr`. -/
def eraseAttaches (s : HookTable) : List Int → Option HookTable
  | [] => some s
  | v :: vs => do
    let entry ← s.attaches v
    eraseAttaches { s with attaches := Function.update s.attaches entry.selfId none } vs

def detachByFuncAddr (s : HookTable) (func : Addr) : Option (HookReturn × HookTable) :=
  match s.internalAttaches func with
  | none => some (.returned (-ENOENT), s)
  | some p => do
    let inner ← s.internals p
    let s' ← s.eraseAttaches inner.userAttaches
    return (.returned 0, s'.eraseInternal func)

end HookTable

/-! ## Sessions -/

inductive HookOp where
  | attachAt (func : Addr) (type : AttachType) (hooked : Bool)
  | detachById (id : Int)
  | detachByFuncAddr (func : Addr)

def HookTable.apply (s : HookTable) : HookOp → Option (HookReturn × HookTable)
  | .attachAt func type hooked => s.attachAt func type hooked
  | .detachById id => s.detachById id
  | .detachByFuncAddr func => s.detachByFuncAddr func

/-- An attach that its user was given an id for. -/
structure UserAttach where
  id       : Int
  function : Addr
  type     : AttachType
deriving DecidableEq

/-- `live` are the attaches whose `attach_at` returned an id that is not negative, and that were not detached. -/
structure HookSession where
  table : HookTable
  live  : List UserAttach

namespace HookSession

def new : HookSession := ⟨.new, []⟩

def liveAfter (live : List UserAttach) : HookOp → HookReturn → List UserAttach
  | .attachAt func type _, .returned code => if 0 ≤ code then ⟨code, func, type⟩ :: live else live
  | .detachById id, _ => live.filter fun user => user.id ≠ id
  | .detachByFuncAddr func, _ => live.filter fun user => user.function ≠ func
  | _, .threw => live

def apply (s : HookSession) (op : HookOp) : Option (HookReturn × HookSession) := do
  let (ret, table) ← s.table.apply op
  return (ret, ⟨table, liveAfter s.live op ret⟩)

end HookSession

end Attach
