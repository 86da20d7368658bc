import FreeProbe.Lib.Machine
import Mathlib.Data.List.Nodup
import Mathlib.Data.BitVec
import Mathlib.Logic.Function.Basic

/-!
# `Attach.AttachCtx` — `bpf_attach_ctx`, the agent's instances of the handlers

An init goes twice over the table of handlers and instantiates what it finds: a program is loaded, a perf event gets the
private data of its attach implementation, and a link, after its program and its perf event, is attached. Four maps
record what is there. A program's load, the private data and an attachment may fail in any way at any time: what each
of these calls returns is an input, by the handler it is made for and how often it has been made in the pass. The build
is the one without CUDA.
-/

namespace AttachCtx

open Lib

def ENOENT : Int := 2
def ENOTSUP : Int := 95

/-- `bpf_event_type::PERF_TYPE_SOFTWARE` -/
def PERF_TYPE_SOFTWARE : Int := 1

/-! ## The table of handlers -/

inductive Handler where
  | unused
  | prog
  | perfEvent (type : Int)
  | link (progId attachTargetId : Nat)
  /-- A map, or a handler that is in use for epoll or a file. -/
  | other
deriving DecidableEq, Repr

/-- The slots; a link names slots of the table. -/
structure Table where
  slots : List Handler
  named : ∀ progId targetId, Handler.link progId targetId ∈ slots → progId < slots.length ∧ targetId < slots.length

def Table.size (table : Table) : Nat := table.slots.length

def Table.getHandler (table : Table) (id : Nat) : Handler := table.slots.getD id .unused

def Table.isAllocated (table : Table) (id : Nat) : Bool := table.getHandler id ≠ .unused

/-! ## The instances -/

/-- Private data, `false` for a null pointer, and the attach type. -/
structure PerfEvent where
  privData   : Bool
  attachType : Int
deriving DecidableEq, Repr

/-- An attachment: its id, and the attach implementation that gave it out. -/
structure Attachment where
  attachId : Nat
  impl     : Nat
deriving DecidableEq, Repr

/-- The members of the context, and what is outside of it. -/
structure World where
  instantiatedHandlers    : Nat → Bool
  instantiatedProgs       : Nat → Bool
  instantiatedPerfEvents  : Nat → Option PerfEvent
  instantiatedAttachLinks : Nat → Option Attachment
  /-- `next_id` of each attach implementation. -/
  nextId                  : Nat → Nat
  /-- The attachments that have been made and not taken back, with the links that they were made for. -/
  live                    : List (Nat × Attachment)
  /-- How often the call of a handler that may fail has been made in this pass. -/
  attempts                : Nat → Nat
  /-- The last attempt of this init to attach the link has failed. -/
  failed                  : Nat → Bool
  /-- A call for the handler has succeeded, in this pass or before it: what the calls have answered so far, which the
  context itself does not keep. -/
  succeeded               : Nat → Bool

def World.new : World where
  instantiatedHandlers    := fun _ => false
  instantiatedProgs       := fun _ => false
  instantiatedPerfEvents  := fun _ => none
  instantiatedAttachLinks := fun _ => none
  nextId                  := fun _ => 1
  live                    := []
  attempts                := fun _ => 0
  failed                  := fun _ => false
  succeeded               := fun _ => false

/-- What the calls of a pass return: by the handler's id, and the number of earlier calls for it. -/
abbrev Outcomes := Nat → Nat → Int

inductive Op where
  | init (first second : Outcomes)
  /-- `destroy_instantiated_attach_link`; `ret` is what the detachment returns. -/
  | destroy (linkId : Nat) (ret : Int)
  | destroyAll (rets : Nat → Int)

namespace World

/-- A call that may fail. -/
def call (outcomes : Outcomes) (id : Nat) (w : World) : Int × World :=
  let ret := outcomes id (w.attempts id)
  (ret, { w with
    attempts := Function.update w.attempts id (w.attempts id + 1)
    succeeded := if ret < 0 then w.succeeded else Function.update w.succeeded id true })

def instantiateProgHandlerAt (outcomes : Outcomes) (id : Nat) (w : World) : Int × World :=
  let called := { w with instantiatedProgs := Function.update w.instantiatedProgs id true }.call outcomes id
  if called.1 < 0 then called
  else (0, { called.2 with instantiatedHandlers := Function.update w.instantiatedHandlers id true })

variable (impls : Int → Option Nat)

def instantiatePerfEventHandlerAt (outcomes : Outcomes) (id : Nat) (type : Int) (w : World) : Int × World :=
  if type = PERF_TYPE_SOFTWARE then (0, w)
  else if impls type = none then (-ENOENT, w)
  else
    let called := w.call outcomes id
    if called.1 < 0 then called
    else
      (0, { called.2 with
        instantiatedHandlers := Function.update w.instantiatedHandlers id true
        instantiatedPerfEvents := Function.update w.instantiatedPerfEvents id (some ⟨true, type⟩) })

/-- `none` is `std::out_of_range`, or a null pointer that is followed. -/
def instantiateBpfLinkHandlerAt (outcomes : Outcomes) (id progId attachTargetId : Nat) (w : World) : Option (Int × World) :=
  -- `operator[]` inserts what it does not find
  let event := (w.instantiatedPerfEvents attachTargetId).getD ⟨false, 0⟩
  let w := { w with instantiatedPerfEvents := Function.update w.instantiatedPerfEvents attachTargetId (some event) }
  match impls event.attachType with
  | none => some (-ENOTSUP, w)
  | some impl =>
    if w.instantiatedProgs progId ∧ event.privData then
      let called := w.call outcomes id
      if called.1 < 0 then some (called.1, { called.2 with failed := Function.update w.failed id true })
      else
        let attachment : Attachment := ⟨w.nextId impl, impl⟩
        some (0, { called.2 with
          instantiatedHandlers := Function.update w.instantiatedHandlers id true
          instantiatedAttachLinks := Function.update w.instantiatedAttachLinks id (some attachment)
          nextId := Function.update w.nextId impl (w.nextId impl + 1)
          live := (id, attachment) :: w.live
          failed := Function.update w.failed id false })
    else none

variable (table : Table)

/-- `instantiate_handler_at`; the handlers under way are on `stk`, which is as it was when the call succeeds, and the
first argument bounds the depth of the recursion. -/
def instantiateHandlerAt (outcomes : Outcomes) : Nat → Nat → List Nat → World → Option (Int × World)
  | 0, _, _, _ => none
  | depth + 1, id, stk, w =>
    if w.instantiatedHandlers id then some (0, w)
    else if id ∈ stk then some (-1, w)
    else
      match table.getHandler id with
      | .prog => some (w.instantiateProgHandlerAt outcomes id)
      | .perfEvent type => some (w.instantiatePerfEventHandlerAt impls outcomes id type)
      | .link progId attachTargetId => do
        let prog ← instantiateHandlerAt outcomes depth progId (id :: stk) w
        if prog.1 < 0 then return prog
        let target ← instantiateHandlerAt outcomes depth attachTargetId (id :: stk) prog.2
        if target.1 < 0 then return target
        target.2.instantiateBpfLinkHandlerAt impls outcomes id progId attachTargetId
      | .unused | .other => some (0, w)

/-- One pass over the table; what a handler's instantiation returns is logged only. -/
def initPass (outcomes : Outcomes) (w : World) : Option World :=
  (List.range table.size).foldlM (fun w id =>
    if table.isAllocated id then do return (← instantiateHandlerAt impls table outcomes (table.size + 1) id [] w).2
    else some w) { w with attempts := fun _ => 0 }

def initAttachCtxFromHandlers (first second : Outcomes) (w : World) : Option World := do
  let w ← initPass impls table first { w with failed := fun _ => false }
  initPass impls table second w

/-- `detach_by_id` takes an attachment back, if it does not fail. -/
def destroyInstantiatedAttachLink (linkId : Nat) (ret : Int) (w : World) : Int × World :=
  match w.instantiatedAttachLinks linkId with
  | some attachment =>
    if ret < 0 then (ret, w)
    else
      (0, { w with
        instantiatedAttachLinks := Function.update w.instantiatedAttachLinks linkId none
        live := w.live.filter fun l => l.2 ≠ attachment })
  | none => (-ENOENT, w)

/-- `destroy_all_attach_links`, over the keys of the map in order. -/
def destroyLinks (rets : Nat → Int) : List Nat → World → Int × World
  | [], w => (0, w)
  | k :: ks, w =>
    let result := w.destroyInstantiatedAttachLink k (rets k)
    if result.1 < 0 then result else destroyLinks rets ks result.2

def destroyAllAttachLinks (rets : Nat → Int) (w : World) : Int × World :=
  destroyLinks rets ((List.range table.size).filter fun k => (w.instantiatedAttachLinks k).isSome) w

def apply (w : World) : Op → Option (Int × World)
  | .init first second => do return (0, ← w.initAttachCtxFromHandlers impls table first second)
  | .destroy linkId ret => some (w.destroyInstantiatedAttachLink linkId ret)
  | .destroyAll rets => some (w.destroyAllAttachLinks table rets)

end World

/-! ## The links after a call -/

variable (impls : Int → Option Nat) (table : Table)

/-- `instantiated_attach_links` holds exactly the live attachments, and none is there twice. -/
def World.LinksAreLive (w : World) : Prop :=
  w.live.Nodup ∧ ∀ id attachment, (id, attachment) ∈ w.live ↔ w.instantiatedAttachLinks id = some attachment

/-- The live attachments of a link. -/
def World.liveOf (w : World) (id : Nat) : List (Nat × Attachment) := w.live.filter fun l => l.1 = id

/-- A perf event that an attach implementation is there for. -/
def Attachable : Handler → Bool
  | .perfEvent type => type ≠ PERF_TYPE_SOFTWARE ∧ impls type ≠ none
  | _ => false

/-- A handler can be instantiated, by what the calls for it answer: one has succeeded, or the first call that a pass of
this init makes for it would. -/
def World.Instantiable (first second : Outcomes) (w : World) (id : Nat) : Prop :=
  w.succeeded id ∨ 0 ≤ first id 0 ∨ 0 ≤ second id 0

/-- The link names a program and a perf event that can be attached to, and both can be instantiated. -/
def World.Ready (first second : Outcomes) (w : World) (progId attachTargetId : Nat) : Prop :=
  table.getHandler progId = .prog ∧ w.Instantiable first second progId ∧
    Attachable impls (table.getHandler attachTargetId) ∧ w.Instantiable first second attachTargetId

/-- **After an init** each link whose program and perf event could be instantiated has one live attachment, or none
where the last attempt to attach it has failed. -/
def World.Attached (first second : Outcomes) (w : World) : Prop :=
  ∀ id progId attachTargetId, table.getHandler id = .link progId attachTargetId →
    w.Ready impls table first second progId attachTargetId →
    (w.liveOf id).length = 1 ∨ (w.liveOf id).length = 0 ∧ w.failed id

/-- The instantiation of a handler can succeed. -/
def MayInstantiate : Handler → Bool
  | .perfEvent type => type = PERF_TYPE_SOFTWARE ∨ impls type ≠ none
  | .link progId attachTargetId => table.getHandler progId = .prog ∧ Attachable impls (table.getHandler attachTargetId)
  | _ => true

/-- **The condition on the table.** A link whose target can be attached to names a program, or what cannot be
instantiated; no implementation is registered for the attach type 0, or every link names a target that can be attached
to, or something that cannot be instantiated. -/
def Table.Fits : Prop :=
  ∀ progId attachTargetId, Handler.link progId attachTargetId ∈ table.slots →
    if Attachable impls (table.getHandler attachTargetId) then
      table.getHandler progId = .prog ∨ MayInstantiate impls table (table.getHandler progId) = false
    else
      impls 0 = none ∨ MayInstantiate impls table (table.getHandler progId) = false ∨
        MayInstantiate impls table (table.getHandler attachTargetId) = false

/-- A program or a perf event. -/
def Handler.Simple (handler : Handler) : Prop := handler = .prog ∨ ∃ type, handler = .perfEvent type

/-- What fails for a program or a perf event does not succeed when it is tried again. -/
def Steady (outcomes : Outcomes) : Prop :=
  ∀ id, (table.getHandler id).Simple → outcomes id 0 < 0 → ∀ n, outcomes id n < 0

/-- Every link that counts as instantiated has its attachment. -/
def World.Linked (w : World) : Prop :=
  ∀ id progId attachTargetId, table.getHandler id = .link progId attachTargetId → w.instantiatedHandlers id →
    (w.instantiatedAttachLinks id).isSome

/-- **The condition on a call.** At an init no link that was attached has been destroyed; and what fails for a program or
a perf event in the second pass does not succeed when it is tried again in that pass. -/
def World.Fits (w : World) : Op → Prop
  | .init _ second => w.Linked table ∧ Steady table second
  | _ => True

end AttachCtx
