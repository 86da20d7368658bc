import FreeProbe.Lib.Machine
import Mathlib.Data.List.Basic

/-!
# `Attach.OverrideRace` — the override handler under concurrent calls

`__bpftime_frida_attach_manager__override_handler`, run by any number of threads that call one function with an
override. The hook entry of the function has one flag and one return value for all of them, while the callback that
sets them is found through a variable of the thread. A thread's call takes the steps of the handler one by one, and
the threads' steps come in any order; a step that is not the thread's next one does nothing.

What a filter chose is the value of its last `bpftime_set_retval`, and a call whose filter chose none is to run the
original function. The reference (`ownApply`) keeps what a filter chose with its call; the handler gives the results of
the reference as long as no step of one call reaches into the decision of another (`override_own`).
-/

namespace Attach

abbrev Value := BitVec 64

/-- What the calls of one function share. -/
structure HookEntry where
  isOverrided : Bool
  userRet     : Value

/-- Where a thread is in the handler, with what its filter has chosen so far. -/
inductive CallPhase where
  | outside
  /-- The flag was reset, and the filter runs. -/
  | filtering (chosen : Option Value)
  /-- In the callback of `bpftime_set_retval`: the flag is set, the value is not. -/
  | setting (value : Value)
  /-- The flag was read. -/
  | decided (overrided : Bool) (chosen : Option Value)
deriving DecidableEq

inductive CallStep where
  | reset
  | setFlag (value : Value)
  | setValue
  | readFlag
  | finish

inductive Returned where
  | value (v : Value)
  | original
deriving DecidableEq

/-- A thread's next step: how its call returned, if it did, and the entry and the phase after it. -/
def HookEntry.handle (entry : HookEntry) : CallStep → CallPhase → Option (Option Returned × HookEntry × CallPhase)
  | .reset, .outside => some (none, { entry with isOverrided := false }, .filtering none)
  | .setFlag v, .filtering _ => some (none, { entry with isOverrided := true }, .setting v)
  | .setValue, .setting v => some (none, { entry with userRet := v }, .filtering (some v))
  | .readFlag, .filtering chosen => some (none, entry, .decided entry.isOverrided chosen)
  | .finish, .decided overrided _ =>
    some (some (if overrided then .value entry.userRet else .original), entry, .outside)
  | _, _ => none

structure OverrideWorld where
  entry : HookEntry
  calls : List CallPhase

namespace OverrideWorld

/-- Before the first call of any of `threads` threads. -/
def new (threads : Nat) : OverrideWorld := ⟨⟨false, 0⟩, List.replicate threads .outside⟩

def apply (w : OverrideWorld) : Nat × CallStep → Option (Option Returned × OverrideWorld)
  | (t, step) =>
    match w.calls[t]?.bind (w.entry.handle step) with
    | none => some (none, w)
    | some (ret, entry, phase) => some (ret, ⟨entry, w.calls.set t phase⟩)

end OverrideWorld

/-! ## Calls with a decision of their own -/

/-- Where a call is, with the decision kept in the call. -/
inductive OwnCall where
  | outside
  | filtering (chosen : Option Value)
  | setting (value : Value)
  | decided (chosen : Option Value)
deriving DecidableEq

/-- A call's next step where nothing is shared: it returns what its own filter chose, and runs the original if that chose
    nothing. -/
def OwnCall.step : CallStep → OwnCall → Option (Option Returned × OwnCall)
  | .reset, .outside => some (none, .filtering none)
  | .setFlag v, .filtering _ => some (none, .setting v)
  | .setValue, .setting v => some (none, .filtering (some v))
  | .readFlag, .filtering chosen => some (none, .decided chosen)
  | .finish, .decided (some v) => some (some (.value v), .outside)
  | .finish, .decided none => some (some .original, .outside)
  | _, _ => none

/-- The calls of any number of threads, one step of one of them. -/
def ownApply (calls : List OwnCall) : Nat × CallStep → Option Returned × List OwnCall
  | (t, step) =>
    match calls[t]?.bind (OwnCall.step step) with
    | none => (none, calls)
    | some (ret, call) => (ret, calls.set t call)

/-- What the calls of `threads` threads return, step by step. -/
def ownResults (threads : Nat) (steps : List (Nat × CallStep)) : List (Option Returned) :=
  (Lib.runRef ownApply (List.replicate threads .outside) steps).1

/-- What a call has decided, without what it has read. -/
def CallPhase.own : CallPhase → OwnCall
  | .outside => .outside
  | .filtering chosen => .filtering chosen
  | .setting value => .setting value
  | .decided _ chosen => .decided chosen

/-! ## Calls that stay apart -/

/-- The condition under which a step of one call leaves the decision of another. -/
def Spares : CallStep → CallPhase → CallPhase → Prop
  -- the other has not set the flag, or has read it
  | .reset, .outside, .filtering chosen => chosen = none
  | .reset, .outside, .setting _ => False
  -- the other has set the flag too, or has read it
  | .setFlag _, .filtering _, other => other ≠ .filtering none
  -- the other has chosen the same value, or has read its own
  | .setValue, .setting v, .filtering (some v') => v' = v
  | .setValue, .setting v, .decided true (some v') => v' = v
  | _, _, _ => True

instance : ∀ step own other, Decidable (Spares step own other) := by
  intro step own other
  unfold Spares
  split <;> infer_instance

def OverrideWorld.Apart (w : OverrideWorld) : Nat × CallStep → Prop
  | (t, step) => ∀ u < w.calls.length, u ≠ t → ∀ own ∈ w.calls[t]?, ∀ other ∈ w.calls[u]?, Spares step own other

instance (w : OverrideWorld) (action : Nat × CallStep) : Decidable (w.Apart action) :=
  inferInstanceAs (Decidable (∀ u < w.calls.length, u ≠ action.1 → ∀ own ∈ w.calls[action.1]?,
    ∀ other ∈ w.calls[u]?, Spares action.2 own other))

/-- What the entry is for a call: its own decision, as far as it goes. -/
def Agrees (entry : HookEntry) : CallPhase → Prop
  | .outside => True
  | .filtering none => entry.isOverrided = false
  | .filtering (some v) => entry.isOverrided = true ∧ entry.userRet = v
  | .setting _ => entry.isOverrided = true
  | .decided true chosen => chosen = some entry.userRet
  | .decided false chosen => chosen = none

section Steps

variable {entry entry' : HookEntry} {step : CallStep} {own own' other : CallPhase} {ret : Option Returned}

/-- A step that is not the call's next one is not its next one on its own either. -/
theorem handle_none (hstep : entry.handle step own = none) : OwnCall.step step own.own = none := by
  cases step <;> cases own <;> first | rfl | cases hstep

/-- **The caller's own step**: it is the reference's, and leaves the caller's decision in the entry. -/
theorem handle_own (h : Agrees entry own) (hstep : entry.handle step own = some (ret, entry', own')) :
    Agrees entry' own' ∧ OwnCall.step step own.own = some (ret, own'.own) := by
  cases step with
  | reset =>
      cases own with
      | outside =>
          cases hstep
          exact ⟨rfl, rfl⟩
      | filtering | setting | decided => cases hstep
  | setFlag v =>
      cases own with
      | filtering chosen =>
          cases hstep
          exact ⟨rfl, rfl⟩
      | outside | setting | decided => cases hstep
  | setValue =>
      cases own with
      | setting v =>
          cases hstep
          exact ⟨⟨h, rfl⟩, rfl⟩
      | outside | filtering | decided => cases hstep
  | readFlag =>
      cases own with
      | filtering chosen =>
          cases hstep
          refine ⟨?_, rfl⟩
          cases chosen with
          | none =>
              rw [show entry.isOverrided = false from h]
              exact rfl
          | some v =>
              rw [show entry.isOverrided = true from h.1]
              exact congrArg some h.2.symm
      | outside | setting | decided => cases hstep
  | finish =>
      cases own with
      | decided overrided chosen =>
          cases hstep
          refine ⟨trivial, ?_⟩
          -- what was read is what the own filter chose
          cases overrided with
          | true =>
              obtain rfl : chosen = some entry.userRet := h
              rfl
          | false =>
              obtain rfl : chosen = none := h
              rfl
      | outside | filtering | setting => cases hstep

/-- The decision of another call, after a step that spares it. -/
theorem handle_other (h : Agrees entry other) (hstep : entry.handle step own = some (ret, entry', own'))
    (hspares : Spares step own other) : Agrees entry' other := by
  cases step with
  | reset =>
      cases own with
      | outside =>
          cases hstep
          cases other with
          | outside => trivial
          | filtering chosen =>
              obtain rfl : chosen = none := hspares
              exact rfl
          | setting v => exact absurd hspares id
          | decided overrided chosen => cases overrided <;> exact h
      | filtering | setting | decided => cases hstep
  | setFlag v =>
      cases own with
      | filtering chosen =>
          cases hstep
          cases other with
          | outside => trivial
          | filtering chosen' =>
              cases chosen' with
              | none => exact absurd rfl hspares
              | some v' => exact ⟨rfl, h.2⟩
          | setting v' => exact rfl
          | decided overrided chosen' => cases overrided <;> exact h
      | outside | setting | decided => cases hstep
  | setValue =>
      cases own with
      | setting v =>
          cases hstep
          cases other with
          | outside => trivial
          | filtering chosen =>
              cases chosen with
              | none => exact h
              | some v' => exact ⟨h.1, Eq.symm hspares⟩
          | setting v' => exact h
          | decided overrided chosen =>
              cases overrided with
              | false => exact h
              | true =>
                  obtain rfl : chosen = some entry.userRet := h
                  exact congrArg some hspares
      | outside | filtering | decided => cases hstep
  | readFlag =>
      cases own with
      | filtering chosen =>
          cases hstep
          exact h
      | outside | setting | decided => cases hstep
  | finish =>
      cases own with
      | decided overrided chosen =>
          cases hstep
          exact h
      | outside | filtering | setting => cases hstep

end Steps

/-- The invariant: the entry is as every call left it. -/
def OverrideWorld.AllAgree (w : OverrideWorld) : Prop := ∀ phase ∈ w.calls, Agrees w.entry phase

/-- The world and the calls on their own: each decision is in the entry, and each call where it is on its own. -/
def OverrideWorld.Matches (w : OverrideWorld) (calls : List OwnCall) : Prop :=
  w.AllAgree ∧ calls = w.calls.map CallPhase.own

/-- **A step that stays apart** does what it does on its own. -/
theorem apply_matches (w : OverrideWorld) (calls : List OwnCall) (action : Nat × CallStep) (h : w.Matches calls)
    (hapart : w.Apart action) :
    ∃ w', w.apply action = some ((ownApply calls action).1, w') ∧ w'.Matches (ownApply calls action).2 := by
  obtain ⟨hagree, rfl⟩ := h
  obtain ⟨t, step⟩ := action
  unfold OverrideWorld.apply ownApply
  dsimp only
  rw [List.getElem?_map]
  cases hcall : w.calls[t]? with
  | none => exact ⟨w, rfl, hagree, rfl⟩
  | some own =>
      simp only [Option.map_some, Option.bind_some]
      cases hstep : w.entry.handle step own with
      | none =>
          rw [handle_none hstep]
          exact ⟨w, rfl, hagree, rfl⟩
      | some next =>
          obtain ⟨ret, entry', own'⟩ := next
          obtain ⟨hown, hret⟩ := handle_own (hagree own (List.mem_of_getElem? hcall)) hstep
          rw [hret]
          refine ⟨_, rfl, ?_, List.map_set.symm⟩
          intro phase hphase
          obtain ⟨u, hu⟩ := List.mem_iff_getElem?.mp hphase
          by_cases hut : u = t
          · rw [hut, List.getElem?_set_self (List.getElem?_eq_some_iff.mp hcall).1, Option.some_inj] at hu
            rw [← hu]
            exact hown
          · rw [List.getElem?_set_ne (Ne.symm hut)] at hu
            have hspares := hapart u (List.getElem?_eq_some_iff.mp hu).1 hut own hcall phase hu
            exact handle_other (hagree phase (List.mem_of_getElem? hu)) hstep hspares

/-- **Decisions do not cross calls** in every interleaving whose steps stay apart: every call goes on, and returns or runs
    the original, as it does on its own. -/
theorem override_own (threads : Nat) (steps : List (Nat × CallStep))
    (hsteps : Lib.AllSteps OverrideWorld.apply OverrideWorld.Apart (.new threads) steps) :
    ∃ w, Lib.runAll OverrideWorld.apply (.new threads) steps = some (ownResults threads steps, w) := by
  have hnew : (OverrideWorld.new threads).Matches (List.replicate threads .outside) := by
    refine ⟨fun phase hphase => ?_, by rw [OverrideWorld.new, List.map_replicate, CallPhase.own]⟩
    obtain rfl := List.eq_of_mem_replicate hphase
    trivial
  obtain ⟨w, hrun, -⟩ := Lib.runAll_refines_of_allSteps apply_matches hnew hsteps
  exact ⟨w, hrun⟩

/-- Two calls, the second of which begins before the first has read its value: the first returns 5, the second runs the
    original. -/
theorem override_own_overlapping :
    ∃ w, Lib.runAll OverrideWorld.apply (.new 2)
        [(0, .reset), (0, .setFlag 5), (0, .setValue), (0, .readFlag), (1, .reset), (0, .finish), (1, .readFlag),
          (1, .finish)] =
      some ([none, none, none, none, none, some (.value 5), none, some .original], w) :=
  override_own 2 _ (by decide)

/-- The first call's filter chooses 5, the second one's nothing; both have reset the flag before. -/
def crossing : List (Nat × CallStep) :=
  [(0, .reset), (1, .reset), (0, .setFlag 5), (0, .setValue), (1, .readFlag), (1, .finish)]

/-- A call whose filter chose nothing returns what the other call's filter chose. -/
theorem override_crosses :
    ¬ ∀ threads steps,
      ∃ w, Lib.runAll OverrideWorld.apply (.new threads) steps = some (ownResults threads steps, w) := by
  intro hall
  obtain ⟨w, hrun⟩ := hall 2 crossing
  have hresults : (Lib.runAll OverrideWorld.apply (.new 2) crossing).map Prod.fst = some (ownResults 2 crossing) :=
    congrArg (Option.map Prod.fst) hrun
  exact absurd hresults (by decide)

end Attach
