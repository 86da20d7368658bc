import FreeProbe.Attach.SyscallDispatch

/-!
# `Attach.SyscallCallbacks` — what a dispatch runs, and whose result an override decides

The four callback tables hold what the owner map says (`Tables.Lawful`), so each loop runs each callback once. The slot
of the override hook is the innermost dispatch's until a callback makes a traced system call: the dispatch of that call
clears the slot and does not put back what was there, and the caller's later override finds no closure. `Fits` says that
a step does not do this; `dispatch_lawful_iff` is about all runs.
-/

namespace SyscallTrace

open Lib

/-! ## Lawful dispatches

Four tables and an owner map name the callbacks. A dispatch should run those that are attached for its number and side,
once each, and make the system call unless one of them has chosen the result. -/

/-- The table for the callbacks of a kind. -/
def Tables.table (s : Tables) (entry : AttachEntry) : List Int :=
  if entry.isEnter then if entry.sysNr = -1 then s.globalEnter else s.sysEnter entry.sysNr
  else if entry.sysNr = -1 then s.globalExit else s.sysExit entry.sysNr

/-- The tables hold the attached callbacks, each in its own table, once; nothing refers to one that is gone. -/
structure Tables.Lawful (s : Tables) : Prop where
  refers : ∀ entry id, id ∈ s.table entry ↔ s.attachEntries id = some entry
  once   : ∀ entry, (s.table entry).Nodup

/-- An attached callback is one for the enter (or exit) of the number. -/
def Wanted (attached : Int → Option AttachEntry) (nr : SysNr) (isEnter : Bool) (id : Int) : Prop :=
  attached id = some ⟨nr.val, isEnter⟩ ∨ attached id = some ⟨-1, isEnter⟩

/-- The callbacks that were run are those wanted, each once. -/
def RanOnce (attached : Int → Option AttachEntry) (nr : SysNr) (isEnter : Bool) (ran : List Int) : Prop :=
  ran.Nodup ∧ ∀ id, id ∈ ran ↔ Wanted attached nr isEnter id

/-- **A dispatch.** It runs every enter callback once and then, unless one of them chose the result, the original system
    call and every exit callback once; the result is what its own callbacks chose, if any did. -/
def Ended.Lawful (e : Ended) : Prop :=
  RanOnce e.attached e.nr true e.enterRan ∧
    match e.enterChoice with
    | some value => e.originals = [] ∧ e.exitRan = [] ∧ e.result = value
    | none => ∃ ret, e.originals = [ret] ∧ RanOnce e.attached e.nr false e.exitRan ∧ e.result = e.exitChoice.getD ret

/-- What a report says of a dispatch that is over. A dispatch of `exit` runs no callbacks, and is left out. -/
def Report.Lawful : Report → Prop
  | .returned e => e.nr ≠ NR_exit_group → e.nr ≠ NR_exit → e.Lawful
  | _ => True

/-- After a callback is detached it is not run. -/
def NeverAgain (r r' : Report) : Prop := ∀ id, r = .detached id → ∀ ctx, r' ≠ .ran id ctx

/-- The tables are lawful behind the run, and every dispatch of it is; a callback that is detached is not run again. -/
def RunLawful (events : List Event) : Prop :=
  ∃ reports w, runAll World.step .init events = some (reports, w) ∧ w.tables.Lawful ∧ (∀ r ∈ reports, r.Lawful) ∧
    reports.Pairwise NeverAgain

/-! ## The condition -/

/-- `create_attach_with_ebpf_callback` accepts the request. -/
def Accepts (attachType : Nat) : Option AttachEntry → Prop
  | none => False
  | some data => attachType = ATTACH_SYSCALL_TRACE ∧ -1 ≤ data.sysNr ∧ data.sysNr < 512

instance (attachType : Nat) : ∀ privateData, Decidable (Accepts attachType privateData)
  | none => inferInstanceAs (Decidable False)
  | some _ => inferInstanceAs (Decidable (_ ∧ _ ∧ _))

/-- **The condition on a step.** A callback that overrides the result makes no traced system call in the same phase of
    its dispatch before it, nor does another callback of that phase; and the ids do not run out. -/
def World.Fits (w : World) : Event → Prop
  | .create attachType privateData _ => w.stack = [] → Accepts attachType privateData → w.tables.nextId < INT_MAX
  | .override _ => ∀ f ∈ w.stack.head?, f.running.isSome → f.nested = false
  | _ => True

instance (w : World) : ∀ e, Decidable (w.Fits e)
  | .create _ _ _ => inferInstanceAs (Decidable (_ → _ → _))
  | .override _ => inferInstanceAs (Decidable (∀ f ∈ w.stack.head?, _ → _))
  | .detach _ | .dispatch _ _ | .next | .callbackDone | .originalDone _ => inferInstanceAs (Decidable True)

/-! ## The tables

Attaching and detaching change the owner map and one table, so that what the loops iterate over is what is attached. -/

variable {s : Tables} {entry entry' : AttachEntry} {id : Int}

/-- The table of one syscall and side is changed, and no other. -/
theorem table_modifyTable (f : List Int → List Int) :
    (s.modifyTable entry f).table entry' = if entry' = entry then f (s.table entry) else s.table entry' := by
  obtain ⟨nr, isEnter⟩ := entry
  obtain ⟨nr', isEnter'⟩ := entry'
  unfold Tables.modifyTable Tables.table
  cases isEnter <;> cases isEnter' <;> by_cases h : nr = -1 <;> by_cases h' : nr' = -1 <;>
    simp [h, h', Function.update_apply, eq_comm (a := (-1 : Int))]

/-- The entries are not. -/
@[simp] theorem modifyTable_attachEntries (f : List Int → List Int) :
    (s.modifyTable entry f).attachEntries = s.attachEntries := by
  unfold Tables.modifyTable
  split <;> split <;> rfl

/-- Nor is the next id. -/
@[simp] theorem modifyTable_nextId (f : List Int → List Int) : (s.modifyTable entry f).nextId = s.nextId := by
  unfold Tables.modifyTable
  split <;> split <;> rfl

/-- Wherever the hash set puts a new id, the ids are those that were there and the new one. -/
theorem insertAt_perm (place : Nat) (id : Int) (ids : List Int) : (Tables.insertAt place id ids).Perm (id :: ids) := by
  have h : (Tables.insertAt place id ids).Perm (id :: (ids.take place ++ ids.drop place)) := List.perm_middle
  rwa [List.take_append_drop] at h

/-- The tables are lawful, and every id was given out. -/
structure TablesInv (s : Tables) : Prop where
  lawful : s.Lawful
  below  : ∀ id entry, s.attachEntries id = some entry → id < s.nextId

/-- The tables start empty. -/
theorem tablesInv_new : TablesInv .new := by
  have htable : ∀ entry, Tables.new.table entry = [] := by
    intro entry
    unfold Tables.table
    split <;> split <;> rfl
  refine ⟨⟨fun entry id => ?_, fun entry => ?_⟩, fun id entry h => by simp [Tables.new] at h⟩
  · rw [htable]
    simp [Tables.new]
  · rw [htable]
    exact List.nodup_nil

/-- The owner map with a new entry in it, the tables as before. -/
def Tables.own (s : Tables) (entry : AttachEntry) : Tables :=
  { s with attachEntries := Function.update s.attachEntries s.nextId (some entry), nextId := s.nextId + 1 }

theorem tablesInv_attach (hs : TablesInv s) (entry : AttachEntry) (place : Nat) :
    TablesInv ((s.own entry).modifyTable entry (Tables.insertAt place s.nextId)) := by
  have hnew : ∀ entry', s.attachEntries s.nextId ≠ some entry' := fun entry' h =>
    absurd (hs.below _ _ h) (Int.lt_irrefl _)
  have htable : ∀ entry', (s.own entry).table entry' = s.table entry' := fun _ => rfl
  refine ⟨⟨fun entry' id => ?_, fun entry' => ?_⟩, fun id entry' h => ?_⟩
  · rw [table_modifyTable, modifyTable_attachEntries, htable, htable]
    show _ ↔ Function.update s.attachEntries s.nextId (some entry) id = some entry'
    -- the new id is in the table of its entry only; the others are where they were
    by_cases hid : id = s.nextId
    · subst hid
      rw [Function.update_self]
      by_cases he : entry' = entry
      · rw [if_pos he, (insertAt_perm ..).mem_iff]
        simp [he]
      · rw [if_neg he, hs.lawful.refers]
        simp [hnew, Ne.symm he]
    · rw [Function.update_of_ne hid, ← hs.lawful.refers]
      split
      · next he =>
          rw [(insertAt_perm ..).mem_iff, List.mem_cons, he]
          simp [hid]
      · exact Iff.rfl
  · rw [table_modifyTable, htable, htable]
    split
    · rw [(insertAt_perm ..).nodup_iff, List.nodup_cons, hs.lawful.refers]
      exact ⟨hnew _, hs.lawful.once _⟩
    · exact hs.lawful.once _
  · rw [modifyTable_attachEntries] at h
    rw [modifyTable_nextId]
    show id < s.nextId + 1
    by_cases hid : id = s.nextId
    · omega
    · have hold : Function.update s.attachEntries s.nextId (some entry) id = some entry' := h
      rw [Function.update_of_ne hid] at hold
      have := hs.below id entry' hold
      omega

/-- The tables without an entry. -/
def Tables.drop (s : Tables) (id : Int) (entry : AttachEntry) : Tables :=
  let erased := s.modifyTable entry fun ids => ids.erase id
  { erased with attachEntries := Function.update erased.attachEntries id none }

theorem tablesInv_drop (hs : TablesInv s) (hid : s.attachEntries id = some entry) : TablesInv (s.drop id entry) := by
  have htable : ∀ entry', (s.drop id entry).table entry' =
      if entry' = entry then (s.table entry).erase id else s.table entry' := fun _ => table_modifyTable _
  have hentries : (s.drop id entry).attachEntries = Function.update s.attachEntries id none := by
    unfold Tables.drop
    dsimp only
    rw [modifyTable_attachEntries]
  refine ⟨⟨fun entry' id' => ?_, fun entry' => ?_⟩, fun id' entry' h => ?_⟩
  · rw [htable, hentries]
    -- the id that goes was once in its table
    by_cases hid' : id' = id
    · subst hid'
      rw [Function.update_self]
      split
      · simp [(hs.lawful.once entry).not_mem_erase]
      · next he =>
          rw [hs.lawful.refers, hid]
          simp [Ne.symm he]
    · rw [Function.update_of_ne hid', ← hs.lawful.refers]
      split
      · next he => rw [List.mem_erase_of_ne hid', he]
      · exact Iff.rfl
  · rw [htable]
    split
    · exact (hs.lawful.once _).erase _
    · exact hs.lawful.once _
  · rw [hentries] at h
    have hnext : (s.drop id entry).nextId = s.nextId := modifyTable_nextId _
    rw [hnext]
    by_cases hid' : id' = id
    · rw [hid', Function.update_self] at h
      cases h
    · rw [Function.update_of_ne hid'] at h
      exact hs.below id' entry' h

/-- The callbacks of an enter phase, or of an exit phase, are those wanted. -/
theorem ranOnce_callbacks (hs : s.Lawful) (nr : SysNr) (isEnter : Bool) :
    RanOnce s.attachEntries nr isEnter (s.table ⟨nr.val, isEnter⟩ ++ s.table ⟨-1, isEnter⟩) := by
  constructor
  · refine List.nodup_append.mpr ⟨hs.once _, hs.once _, fun a ha b hb hab => ?_⟩
    subst hab
    have h := (hs.refers _ _).mp ha
    rw [(hs.refers _ _).mp hb] at h
    simp only [Option.some.injEq, AttachEntry.mk.injEq, and_true] at h
    omega
  · intro id
    rw [List.mem_append, hs.refers, hs.refers]
    exact Iff.rfl

/-- The callbacks of a syscall, by side. -/
theorem table_nr (nr : SysNr) (isEnter : Bool) :
    s.table ⟨nr.val, isEnter⟩ = if isEnter then s.sysEnter nr.val else s.sysExit nr.val := by
  have h : ((nr.val : Nat) : Int) ≠ -1 := by omega
  unfold Tables.table
  simp [h]

/-- The enter callbacks of lawful tables are the entries of the syscall, each once. -/
theorem ranOnce_enter (hs : s.Lawful) (nr : SysNr) : RanOnce s.attachEntries nr true (s.enterCallbacks nr) := by
  have h := ranOnce_callbacks hs nr true
  rwa [table_nr] at h

/-- And so are the exit callbacks. -/
theorem ranOnce_exit (hs : s.Lawful) (nr : SysNr) : RanOnce s.attachEntries nr false (s.exitCallbacks nr) := by
  have h := ranOnce_callbacks hs nr false
  rwa [table_nr] at h

/-! ## The dispatches on the stack

A callback may make a system call that is traced again. Each dispatch on the stack has done what its phase says; the
slot for the override is that of the innermost, unless a dispatch has come and gone inside. -/

/-- What the variables of a dispatch say its callbacks chose. -/
def Dispatch.overridden (f : Dispatch) : Option Word := if f.isOverrided then some f.userRet else none

/-- What a dispatch has done by now. -/
def PhaseInv (s : Tables) (f : Dispatch) : Prop :=
  match f.phase with
  | .enter => f.enterRan ++ f.todo = s.enterCallbacks f.nr ∧ f.originals = [] ∧ f.exitRan = [] ∧ f.exitChoice = none ∧
      f.overridden = f.enterChoice
  | .original => f.enterRan = s.enterCallbacks f.nr ∧ f.originals = [] ∧ f.exitRan = [] ∧ f.running = none ∧
      f.enterChoice = none ∧ f.exitChoice = none ∧ f.overridden = none
  | .exit ret => f.enterRan = s.enterCallbacks f.nr ∧ f.originals = [ret] ∧ f.exitRan ++ f.todo = s.exitCallbacks f.nr ∧
      f.enterChoice = none ∧ f.overridden = f.exitChoice
  | .passed => (f.nr = NR_exit_group ∨ f.nr = NR_exit) ∧ f.running = none

/-- The caller of a traced system call is a callback that has nested a dispatch. -/
def CalledFrom (f : Dispatch) (rest : List Dispatch) : Prop :=
  f.phase ≠ .passed → ∀ g ∈ rest.head?, g.nested = true ∧ g.phase ≠ .passed

/-- Each dispatch on the stack is where its phase says, and was called from a callback of the one below. -/
def StackInv (s : Tables) : List Dispatch → Prop
  | [] => True
  | f :: rest => f.depth = rest.length ∧ f.attached = s.attachEntries ∧ PhaseInv s f ∧ CalledFrom f rest ∧ StackInv s rest

/-- Whose closure is in the slot. -/
def slotOf : List Dispatch → Option Nat
  | [] => none
  | f :: rest => if f.phase = .passed then slotOf rest else if f.nested then none else some f.depth

/-- Tables, stack and the thread's slot for the override agree. -/
structure WorldInv (w : World) : Prop where
  tables : TablesInv w.tables
  stack  : StackInv w.tables w.stack
  slot   : w.slot = slotOf w.stack

/-- No dispatch is under way. -/
theorem worldInv_init : WorldInv .init := ⟨tablesInv_new, trivial, rfl⟩

variable {w : World} {f : Dispatch} {rest : List Dispatch}

/-- The dispatches below are less deep. -/
theorem depth_lt {s : Tables} : ∀ {stack : List Dispatch}, StackInv s stack → ∀ g ∈ stack, g.depth < stack.length
  | [], _, g, hg => by simp at hg
  | f :: rest, ⟨hdepth, _, _, _, hrest⟩, g, hg => by
      rw [List.length_cons]
      rcases List.mem_cons.mp hg with rfl | hg
      · omega
      · have := depth_lt hrest g hg
        omega

/-- After a traced dispatch the slot is empty, as its caller's history has it. -/
theorem slotOf_caller (hcalled : CalledFrom f rest) (htraced : f.phase ≠ .passed) : slotOf rest = none := by
  cases rest with
  | nil => rfl
  | cons g rest =>
      obtain ⟨hnested, hphase⟩ := hcalled htraced g rfl
      simp [slotOf, hnested, hphase]

/-- The caller of a traced system call, marked. -/
theorem stackInv_markNested {s : Tables} {stack : List Dispatch} (hs : StackInv s stack) :
    StackInv s (World.markNested stack) ∧ (World.markNested stack).length = stack.length := by
  cases stack with
  | nil => exact ⟨trivial, rfl⟩
  | cons f rest => exact ⟨⟨hs.1, hs.2.1, hs.2.2.1, hs.2.2.2.1, hs.2.2.2.2⟩, rfl⟩

/-- A callback runs in a traced dispatch. -/
theorem traced_of_running {s : Tables} (hphase : PhaseInv s f) (hrunning : f.running.isSome) : f.phase ≠ .passed := by
  intro h
  simp only [PhaseInv, h] at hphase
  simp [hphase.2] at hrunning

theorem worldInv_dispatch (hw : WorldInv w) (hcalling : w.calling = true) (nr : SysNr) (args : Args) :
    WorldInv (w.dispatchSyscall nr args) := by
  unfold World.dispatchSyscall
  dsimp only
  -- `exit` and `exit_group` go to the original at once, past all callbacks
  by_cases hnr : nr = NR_exit_group ∨ nr = NR_exit
  · rw [if_pos hnr]
    refine ⟨hw.tables, ⟨rfl, rfl, ⟨hnr, rfl⟩, fun h => absurd rfl h, hw.stack⟩, ?_⟩
    rw [hw.slot]
    rfl
  · rw [if_neg hnr]
    obtain ⟨hmarked, hlength⟩ := stackInv_markNested hw.stack
    refine ⟨hw.tables, ⟨hlength.symm, rfl, ⟨by simp, rfl, rfl, rfl, rfl⟩, fun _ g hg => ?_, hmarked⟩, rfl⟩
    cases hstack : w.stack with
    | nil =>
        rw [hstack] at hg
        simp [World.markNested] at hg
    | cons f rest =>
        rw [hstack] at hg
        simp only [World.markNested, List.head?_cons, Option.mem_def, Option.some.injEq] at hg
        subst hg
        have hs := hw.stack
        rw [hstack] at hs
        simp only [World.calling, hstack] at hcalling
        exact ⟨rfl, traced_of_running hs.2.2.1 hcalling⟩

/-- The innermost dispatch takes a step that leaves it on the stack. -/
theorem worldInv_top {f' : Dispatch} {slot : Option Nat} (hw : WorldInv w) (hstack : w.stack = f :: rest)
    (hdepth : f'.depth = f.depth) (hattached : f'.attached = f.attached) (hphase : PhaseInv w.tables f')
    (htraced : f'.phase ≠ .passed → f.phase ≠ .passed) (hslot : slot = slotOf (f' :: rest)) :
    WorldInv { w with slot := slot, stack := f' :: rest } := by
  have hs := hw.stack
  rw [hstack] at hs
  exact ⟨hw.tables, ⟨hdepth.trans hs.1, hattached.trans hs.2.1, hphase, fun h => hs.2.2.2.1 (htraced h), hs.2.2.2.2⟩, hslot⟩

/-- A traced dispatch returns. -/
theorem worldInv_pop (hw : WorldInv w) (hstack : w.stack = f :: rest) (htraced : f.phase ≠ .passed) :
    WorldInv { w with slot := none, stack := rest } := by
  have hs := hw.stack
  rw [hstack] at hs
  exact ⟨hw.tables, hs.2.2.2.2, (slotOf_caller hs.2.2.2.1 htraced).symm⟩

/-- The slot is that of the dispatch at the top, if it is not nested. -/
theorem slotOf_top (htraced : f.phase ≠ .passed) : slotOf (f :: rest) = if f.nested then none else some f.depth :=
  if_neg htraced

/-- The next turn of the innermost dispatch's loops. -/
theorem worldInv_stepLoop (hw : WorldInv w) (hstack : w.stack = f :: rest) (hidle : f.running = none) :
    WorldInv (w.stepLoop f rest).2 ∧ (w.stepLoop f rest).1.Lawful := by
  have hs := hw.stack
  have hslot := hw.slot
  rw [hstack] at hs hslot
  obtain ⟨hdepth, hattached, hphase, hcalled, hrest⟩ := hs
  -- the callbacks that the loops go through
  have henterOnce : RanOnce f.attached f.nr true (w.tables.enterCallbacks f.nr) := by
    rw [hattached]
    exact ranOnce_enter hw.tables.lawful f.nr
  have hexitOnce : RanOnce f.attached f.nr false (w.tables.exitCallbacks f.nr) := by
    rw [hattached]
    exact ranOnce_exit hw.tables.lawful f.nr
  unfold World.stepLoop
  split
  · -- an enter callback
    next id todo hp htodo =>
      simp only [PhaseInv, hp, htodo] at hphase
      obtain ⟨hran, horiginals, hexit, hchoice, hover⟩ := hphase
      refine ⟨worldInv_top hw hstack rfl rfl ?_ (fun h => h) ?_, trivial⟩
      · simp only [PhaseInv, hp]
        exact ⟨by rw [List.append_assoc]; exact hran, horiginals, hexit, hchoice, hover⟩
      · rw [hslot, slotOf_top (by simp [hp]), slotOf_top (by simp [hp])]
  · -- the end of the enter callbacks
    next hp htodo =>
      simp only [PhaseInv, hp, htodo, List.append_nil] at hphase
      obtain ⟨hran, horiginals, hexit, hchoice, hover⟩ := hphase
      by_cases ho : f.isOverrided = true
      · rw [if_pos ho]
        rw [← hran] at henterOnce
        refine ⟨worldInv_pop hw hstack (by simp [hp]), fun _ _ => ⟨henterOnce, ?_⟩⟩
        simp only [Dispatch.overridden, if_pos ho] at hover
        simp only [Dispatch.ended, ← hover]
        exact ⟨horiginals, hexit, trivial⟩
      · rw [if_neg ho]
        simp only [Dispatch.overridden, if_neg ho] at hover
        refine ⟨worldInv_top hw hstack rfl rfl ?_ (fun _ => by simp [hp]) (by simp [slotOf]), trivial⟩
        exact ⟨hran, horiginals, hexit, hidle, hover.symm, hchoice, if_neg ho⟩
  · -- an exit callback
    next ret id todo hp htodo =>
      simp only [PhaseInv, hp, htodo] at hphase
      obtain ⟨hran, horiginals, hexit, hchoice, hover⟩ := hphase
      refine ⟨worldInv_top hw hstack rfl rfl ?_ (fun h => h) ?_, trivial⟩
      · simp only [PhaseInv, hp]
        exact ⟨hran, horiginals, by rw [List.append_assoc]; exact hexit, hchoice, hover⟩
      · rw [hslot, slotOf_top (by simp [hp]), slotOf_top (by simp [hp])]
  · -- the end of the exit callbacks
    next ret hp htodo =>
      simp only [PhaseInv, hp, htodo, List.append_nil] at hphase
      obtain ⟨hran, horiginals, hexit, hchoice, hover⟩ := hphase
      rw [← hran] at henterOnce
      rw [← hexit] at hexitOnce
      refine ⟨worldInv_pop hw hstack (by simp [hp]), fun _ _ => ⟨henterOnce, ?_⟩⟩
      simp only [Dispatch.ended, hchoice]
      refine ⟨ret, horiginals, hexitOnce, ?_⟩
      rw [← hover, Dispatch.overridden]
      split <;> rfl
  · exact ⟨hw, trivial⟩

theorem worldInv_originalReturn (hw : WorldInv w) (hstack : w.stack = f :: rest) (ret : Word) :
    WorldInv (w.originalReturn f rest ret).2 ∧ (w.originalReturn f rest ret).1.Lawful := by
  have hs := hw.stack
  have hslot := hw.slot
  rw [hstack] at hs hslot
  -- the original was called after the enter callbacks, or for a syscall that is passed on
  obtain ⟨-, -, hphase, -, hrest⟩ := hs
  unfold World.originalReturn
  split
  · next hp =>
      simp only [PhaseInv, hp] at hphase
      obtain ⟨hran, horiginals, hexit, -, hchoice, hchoice', hover⟩ := hphase
      refine ⟨worldInv_top hw hstack rfl rfl ?_ (fun _ => by simp [hp]) ?_, trivial⟩
      · refine ⟨hran, by rw [horiginals]; rfl, by rw [hexit]; rfl, hchoice, ?_⟩
        rw [hchoice']
        exact hover
      · rw [hslot, slotOf_top (by simp [hp]), slotOf_top (by simp)]
  · next hp =>
      simp only [PhaseInv, hp] at hphase
      refine ⟨⟨hw.tables, hrest, ?_⟩, fun hgroup hexit => ?_⟩
      · rw [hslot, slotOf, if_pos hp]
      · rcases hphase.1 with h | h
        · exact absurd h hgroup
        · exact absurd h hexit
  · exact ⟨hw, trivial⟩

/-- A callback's return. -/
theorem worldInv_callbackDone (hw : WorldInv w) (hstack : w.stack = f :: rest) :
    WorldInv { w with stack := { f with running := none } :: rest } := by
  have hs := hw.stack
  have hslot := hw.slot
  rw [hstack] at hs hslot
  -- only `running` changes
  have htop : ∀ f' : Dispatch, f' = { f with running := none } → PhaseInv w.tables f' →
      WorldInv { w with stack := f' :: rest } := by
    rintro f' rfl hphase
    exact worldInv_top hw hstack rfl rfl hphase (fun h => h) hslot
  refine htop _ rfl ?_
  have hphase := hs.2.2.1
  unfold PhaseInv at hphase ⊢
  split at hphase
  · next hp =>
      simp only [hp]
      exact hphase
  · next hp =>
      simp only [hp]
      obtain ⟨hran, horiginals, hexit, -, hchoices⟩ := hphase
      exact ⟨hran, horiginals, hexit, trivial, hchoices⟩
  · next hp =>
      simp only [hp]
      exact hphase
  · next hp =>
      simp only [hp]
      exact ⟨hphase.1, trivial⟩

/-- The choice of a callback, made through its own dispatch's closure. -/
theorem phaseInv_override {s : Tables} (hphase : PhaseInv s f) (hrunning : f.running.isSome) (value : Word) :
    PhaseInv s ((f.choose value).overrideReturn value) := by
  unfold PhaseInv at hphase ⊢
  unfold Dispatch.choose
  split at hphase
  · next hp =>
      obtain ⟨hran, horiginals, hexit, hchoice, -⟩ := hphase
      simp only [hp, Dispatch.overrideReturn]
      exact ⟨hran, horiginals, hexit, hchoice, rfl⟩
  · simp [hphase.2.2.2.1] at hrunning
  · next hp =>
      obtain ⟨hran, horiginals, hexit, hchoice, -⟩ := hphase
      simp only [hp, Dispatch.overrideReturn]
      exact ⟨hran, horiginals, hexit, hchoice, rfl⟩
  · simp [hphase.2] at hrunning

/-- The value that a callback sets changes only what the dispatch returns. -/
theorem choose_fields (f : Dispatch) (value : Word) :
    (f.choose value).depth = f.depth ∧ (f.choose value).attached = f.attached ∧ (f.choose value).phase = f.phase ∧
      (f.choose value).nested = f.nested := by
  unfold Dispatch.choose
  split <;> exact ⟨rfl, rfl, rfl, rfl⟩

/-- The closure in the slot is that of the callback's own dispatch. -/
theorem worldInv_override (hw : WorldInv w) (hstack : w.stack = f :: rest) (hrunning : f.running.isSome)
    (hnested : f.nested = false) (value : Word) :
    ∃ w', w.setOverride f rest value = some (.quiet, w') ∧ WorldInv w' := by
  have hs := hw.stack
  have hslot := hw.slot
  rw [hstack] at hs hslot
  have htraced := traced_of_running hs.2.2.1 hrunning
  rw [slotOf_top htraced, hnested, if_neg Bool.false_ne_true] at hslot
  obtain ⟨hdepth, hattached, hphase, hnest⟩ := choose_fields f value
  -- the dispatches below have other depths
  have hothers : rest.map (fun g => if g.depth = f.depth then g.overrideReturn value else g) = rest := by
    refine (List.map_congr_left fun g hg => ?_).trans (List.map_id rest)
    have hlt := depth_lt hs.2.2.2.2 g hg
    rw [← hs.1] at hlt
    exact if_neg (Nat.ne_of_lt hlt)
  have hset : w.setOverride f rest value =
      some (.quiet, { w with stack := (f.choose value).overrideReturn value :: rest }) := by
    unfold World.setOverride
    rw [hslot]
    simp only [List.map_cons, hothers, if_pos hdepth]
  refine ⟨_, hset, ?_⟩
  refine worldInv_top hw hstack hdepth hattached (phaseInv_override hs.2.2.1 hrunning value) (fun _ => htraced) ?_
  rw [slotOf_top (f := (f.choose value).overrideReturn value) (by rw [← hphase] at htraced; exact htraced)]
  show w.slot = if (f.choose value).nested = true then none else some (f.choose value).depth
  rw [hnest, hnested, hdepth, hslot]
  rfl

/-- An override after a nested dispatch finds no closure. -/
theorem setOverride_nested (hw : WorldInv w) (hstack : w.stack = f :: rest) (hrunning : f.running.isSome)
    (hnested : f.nested = true) (value : Word) : w.setOverride f rest value = none := by
  have hs := hw.stack
  have hslot := hw.slot
  rw [hstack] at hs hslot
  rw [slotOf_top (traced_of_running hs.2.2.1 hrunning), if_pos hnested] at hslot
  unfold World.setOverride
  rw [hslot]

/-! ## Steps

A step is an attach, a detach, or one of the innermost dispatch. -/

/-- `create_attach_with_ebpf_callback` of a wrong type or without data. -/
theorem createAttach_refused {attachType : Nat} {privateData : Option AttachEntry} (place : Nat)
    (h : ¬ Accepts attachType privateData) :
    ∃ code, s.createAttach attachType privateData place = some (.failed code, s) := by
  unfold Tables.createAttach
  split
  · exact ⟨_, rfl⟩
  · next htype =>
      cases privateData with
      | none => exact ⟨_, rfl⟩
      | some data =>
          have hnr : 512 ≤ data.sysNr ∨ data.sysNr < -1 := by
            by_contra hcon
            exact h ⟨not_not.mp htype, by omega, by omega⟩
          exact ⟨_, if_pos hnr⟩

/-- It takes the next id, up to the largest `int`. -/
theorem createAttach_accepted {attachType : Nat} {data : AttachEntry} (place : Nat) (h : Accepts attachType (some data)) :
    s.createAttach attachType (some data) place = if INT_MAX ≤ s.nextId then none
      else some (.created s.nextId, (s.own data).modifyTable data (Tables.insertAt place s.nextId)) := by
  obtain ⟨htype, hlow, hhigh⟩ := h
  have hnr : ¬ (512 ≤ data.sysNr ∨ data.sysNr < -1) := by omega
  exact (if_neg (not_not.mpr htype)).trans (if_neg hnr)

/-- The tables are changed between two syscalls. -/
theorem worldInv_tables {tables : Tables} (hw : WorldInv w) (hstack : w.stack = []) (ht : TablesInv tables) :
    WorldInv { w with tables := tables } := by
  have hslot := hw.slot
  refine ⟨ht, ?_, hslot⟩
  rw [hstack]
  trivial

/-- `detach_by_id` of an id that is attached or not. -/
theorem detachById_cases (s : Tables) (id : Int) :
    (s.attachEntries id = none ∧ s.detachById id = (.failed (-ENOENT), s)) ∨
    ∃ entry, s.attachEntries id = some entry ∧ s.detachById id = (.detached id, s.drop id entry) := by
  unfold Tables.detachById
  cases h : s.attachEntries id with
  | none => exact .inl ⟨rfl, rfl⟩
  | some entry => exact .inr ⟨entry, rfl, rfl⟩

/-- **One step** that meets the condition. -/
theorem worldInv_step (hw : WorldInv w) {e : Event} (hfits : w.Fits e) :
    ∃ report w', w.step e = some (report, w') ∧ WorldInv w' ∧ report.Lawful := by
  cases e with
  | create attachType privateData place =>
      simp only [World.step]
      split
      · next hstack =>
          by_cases haccepts : Accepts attachType privateData
          · cases privateData with
            | none => exact haccepts.elim
            | some data =>
                have hid : ¬ INT_MAX ≤ w.tables.nextId := by
                  have := hfits hstack haccepts
                  omega
                rw [createAttach_accepted place haccepts, if_neg hid]
                exact ⟨_, _, rfl, worldInv_tables hw hstack (tablesInv_attach hw.tables data place), trivial⟩
          · obtain ⟨code, hcreate⟩ := createAttach_refused place haccepts
            rw [hcreate]
            exact ⟨_, _, rfl, hw, trivial⟩
      · exact ⟨_, _, rfl, hw, trivial⟩
  | detach id =>
      simp only [World.step]
      split
      · next hstack =>
          rcases detachById_cases w.tables id with ⟨-, hdetach⟩ | ⟨entry, hentry, hdetach⟩
          · rw [hdetach]
            exact ⟨_, _, rfl, hw, trivial⟩
          · rw [hdetach]
            exact ⟨_, _, rfl, worldInv_tables hw hstack (tablesInv_drop hw.tables hentry), trivial⟩
      · exact ⟨_, _, rfl, hw, trivial⟩
  | dispatch nr args =>
      refine ⟨_, _, rfl, ?_, trivial⟩
      by_cases hcalling : w.calling = true
      · rw [if_pos hcalling]
        exact worldInv_dispatch hw hcalling nr args
      · rw [if_neg hcalling]
        exact hw
  | next =>
      simp only [World.step]
      cases hstack : w.stack with
      | nil => exact ⟨_, _, rfl, hw, trivial⟩
      | cons f rest =>
          dsimp only
          by_cases hrunning : f.running.isSome = true
          · rw [if_pos hrunning]
            exact ⟨_, _, rfl, hw, trivial⟩
          · rw [if_neg hrunning]
            obtain ⟨hnext, hlawful⟩ := worldInv_stepLoop hw hstack (by simpa using hrunning)
            exact ⟨_, _, rfl, hnext, hlawful⟩
  | override value =>
      simp only [World.step]
      cases hstack : w.stack with
      | nil => exact ⟨_, _, rfl, hw, trivial⟩
      | cons f rest =>
          dsimp only
          by_cases hrunning : f.running.isSome = true
          · rw [if_pos hrunning]
            have hnested : f.nested = false := hfits f (by rw [hstack]; rfl) hrunning
            obtain ⟨w', hset, hw'⟩ := worldInv_override hw hstack hrunning hnested value
            exact ⟨_, _, hset, hw', trivial⟩
          · rw [if_neg hrunning]
            exact ⟨_, _, rfl, hw, trivial⟩
  | callbackDone =>
      simp only [World.step]
      cases hstack : w.stack with
      | nil => exact ⟨_, _, rfl, hw, trivial⟩
      | cons f rest => exact ⟨_, _, rfl, worldInv_callbackDone hw hstack, trivial⟩
  | originalDone ret =>
      simp only [World.step]
      cases hstack : w.stack with
      | nil => exact ⟨_, _, rfl, hw, trivial⟩
      | cons f rest =>
          obtain ⟨hnext, hlawful⟩ := worldInv_originalReturn hw hstack ret
          exact ⟨_, _, rfl, hnext, hlawful⟩

/-- A step that does not meet the condition throws, or is undefined. -/
theorem step_stuck (hw : WorldInv w) {e : Event} (hnot : ¬ w.Fits e) : w.step e = none := by
  cases e with
  | create attachType privateData place =>
      simp only [World.Fits, Classical.not_imp] at hnot
      obtain ⟨hstack, haccepts, hid⟩ := hnot
      simp only [World.step, if_pos hstack]
      cases privateData with
      | none => exact haccepts.elim
      | some data =>
          rw [createAttach_accepted place haccepts, if_pos (by omega)]
          rfl
  | override value =>
      simp only [World.Fits] at hnot
      push Not at hnot
      obtain ⟨f, hf, hrunning, hnested⟩ := hnot
      simp only [World.step]
      cases hstack : w.stack with
      | nil => simp [hstack] at hf
      | cons g rest =>
          simp only [hstack, List.head?_cons, Option.mem_def, Option.some.injEq] at hf
          subst hf
          dsimp only
          rw [if_pos hrunning]
          exact setOverride_nested hw hstack hrunning (by simpa using hnested) value
  | detach _ | dispatch _ _ | next | callbackDone | originalDone _ => exact absurd trivial hnot

/-- A step that is not stuck keeps the invariant. -/
theorem worldInv_next (hw : WorldInv w) {e : Event} {next : Report × World} (hstep : w.step e = some next) :
    WorldInv next.2 := by
  by_cases hfits : w.Fits e
  · obtain ⟨report, w', h, hw', -⟩ := worldInv_step hw hfits
    rw [hstep] at h
    cases h
    exact hw'
  · rw [step_stuck hw hfits] at hstep
    cases hstep

/-! ## Detached callbacks

An id is given once. What was detached is in no table, and no loop that began earlier comes to it again. -/

/-- What a step can do to the tables. -/
inductive TablesStep (s : Tables) : Report → Tables → Prop
  | same (report : Report) (hdetached : ∀ id, report ≠ .detached id)
      (hran : ∀ id ctx, report = .ran id ctx → ∃ entry, s.attachEntries id = some entry) : TablesStep s report s
  | created (data : AttachEntry) (place : Nat) :
      TablesStep s (.created s.nextId) ((s.own data).modifyTable data (Tables.insertAt place s.nextId))
  | detached (id : Int) (entry : AttachEntry) (hentry : s.attachEntries id = some entry) :
      TablesStep s (.detached id) (s.drop id entry)

theorem tablesStep_quiet (s : Tables) : TablesStep s .quiet s :=
  .same _ (fun _ h => nomatch h) fun _ _ h => nomatch h

theorem tablesStep_returned (s : Tables) (e : Ended) : TablesStep s (.returned e) s :=
  .same _ (fun _ h => nomatch h) fun _ _ h => nomatch h

theorem tablesStep_failed (s : Tables) (code : Int) : TablesStep s (.failed code) s :=
  .same _ (fun _ h => nomatch h) fun _ _ h => nomatch h

/-- A callback that is run is attached. -/
theorem tablesStep_ran {nr : SysNr} {isEnter : Bool} {ids : List Int} (honce : RanOnce s.attachEntries nr isEnter ids)
    (hid : id ∈ ids) (ctx : Context) : TablesStep s (.ran id ctx) s := by
  refine .same _ (fun _ h => nomatch h) fun id' ctx' h => ?_
  cases h
  rcases (honce.2 id).mp hid with h | h
  · exact ⟨_, h⟩
  · exact ⟨_, h⟩

theorem tablesStep_stepLoop (hw : WorldInv w) (hstack : w.stack = f :: rest) :
    TablesStep w.tables (w.stepLoop f rest).1 (w.stepLoop f rest).2.tables := by
  have hphase := hw.stack
  rw [hstack] at hphase
  replace hphase := hphase.2.2.1
  unfold World.stepLoop
  split
  · next id todo hp htodo =>
      simp only [PhaseInv, hp, htodo] at hphase
      refine tablesStep_ran (ranOnce_enter hw.tables.lawful f.nr) ?_ _
      rw [← hphase.1]
      simp
  · split
    · exact tablesStep_returned _ _
    · exact tablesStep_quiet _
  · next ret id todo hp htodo =>
      simp only [PhaseInv, hp, htodo] at hphase
      refine tablesStep_ran (ranOnce_exit hw.tables.lawful f.nr) ?_ _
      rw [← hphase.2.2.1]
      simp
  · exact tablesStep_returned _ _
  · exact tablesStep_quiet _

theorem tablesStep_create {attachType : Nat} {privateData : Option AttachEntry} {place : Nat} {next : Report × Tables}
    (hcreate : s.createAttach attachType privateData place = some next) : TablesStep s next.1 next.2 := by
  by_cases haccepts : Accepts attachType privateData
  · cases privateData with
    | none => exact haccepts.elim
    | some data =>
        rw [createAttach_accepted place haccepts] at hcreate
        split at hcreate
        · cases hcreate
        · cases hcreate
          exact .created data place
  · obtain ⟨code, hrefused⟩ := createAttach_refused (s := s) place haccepts
    rw [hrefused] at hcreate
    cases hcreate
    exact tablesStep_failed _ _

theorem step_tables (hw : WorldInv w) {e : Event} {next : Report × World} (hstep : w.step e = some next) :
    TablesStep w.tables next.1 next.2.tables := by
  cases e with
  | create attachType privateData place =>
      simp only [World.step] at hstep
      split at hstep
      · obtain ⟨created, hcreate, rfl⟩ := Option.map_eq_some_iff.mp hstep
        exact tablesStep_create hcreate
      · cases hstep
        exact tablesStep_quiet _
  | detach id =>
      simp only [World.step] at hstep
      split at hstep
      · rcases detachById_cases w.tables id with ⟨-, hdetach⟩ | ⟨entry, hentry, hdetach⟩
        · rw [hdetach] at hstep
          cases hstep
          exact tablesStep_failed _ _
        · rw [hdetach] at hstep
          cases hstep
          exact .detached id entry hentry
      · cases hstep
        exact tablesStep_quiet _
  | dispatch nr args =>
      cases hstep
      dsimp only
      split
      · unfold World.dispatchSyscall
        dsimp only
        split
        · exact tablesStep_quiet _
        · exact tablesStep_quiet _
      · exact tablesStep_quiet _
  | next =>
      simp only [World.step] at hstep
      cases hstack : w.stack with
      | nil =>
          rw [hstack] at hstep
          cases hstep
          exact tablesStep_quiet _
      | cons f rest =>
          rw [hstack] at hstep
          dsimp only at hstep
          split at hstep
          · cases hstep
            exact tablesStep_quiet _
          · cases hstep
            exact tablesStep_stepLoop hw hstack
  | override value =>
      simp only [World.step, World.setOverride] at hstep
      split at hstep
      · split at hstep
        · split at hstep
          · cases hstep
          · cases hstep
            exact tablesStep_quiet _
        · cases hstep
          exact tablesStep_quiet _
      · cases hstep
        exact tablesStep_quiet _
  | callbackDone =>
      simp only [World.step] at hstep
      split at hstep <;> cases hstep <;> exact tablesStep_quiet _
  | originalDone ret =>
      simp only [World.step, World.originalReturn] at hstep
      split at hstep
      · split at hstep <;> cases hstep
        · exact tablesStep_quiet _
        · exact tablesStep_returned _ _
        · exact tablesStep_quiet _
      · cases hstep
        exact tablesStep_quiet _

/-- The id was given out, and what it named is gone. -/
def Gone (id : Int) (s : Tables) : Prop := id < s.nextId ∧ s.attachEntries id = none

/-- After a detach the callback is gone. -/
theorem gone_of_detached {report : Report} {s' : Tables} (hs : TablesInv s) (hstep : TablesStep s report s')
    (hreport : report = .detached id) : Gone id s' := by
  cases hstep with
  | same _ hdetached => exact absurd hreport (hdetached id)
  | created data place => cases hreport
  | detached id' entry hentry =>
      cases hreport
      have hnext : (s.drop id entry).nextId = s.nextId := modifyTable_nextId _
      refine ⟨?_, Function.update_self ..⟩
      rw [hnext]
      exact hs.below id entry hentry

/-- What is gone stays so, and is not run. -/
theorem gone_step {report : Report} {s' : Tables} (hgone : Gone id s) (hstep : TablesStep s report s') :
    Gone id s' ∧ ∀ ctx, report ≠ .ran id ctx := by
  obtain ⟨hlt, hnone⟩ := hgone
  cases hstep with
  | same _ _ hran =>
      refine ⟨⟨hlt, hnone⟩, fun ctx h => ?_⟩
      obtain ⟨entry, hentry⟩ := hran id ctx h
      rw [hnone] at hentry
      cases hentry
  | created data place =>
      refine ⟨⟨?_, ?_⟩, fun ctx h => nomatch h⟩
      · rw [modifyTable_nextId]
        show id < s.nextId + 1
        omega
      · rw [modifyTable_attachEntries]
        show Function.update s.attachEntries s.nextId (some data) id = none
        rw [Function.update_of_ne (by omega), hnone]
  | detached id' entry hentry =>
      have hnext : (s.drop id' entry).nextId = s.nextId := modifyTable_nextId _
      refine ⟨⟨by rw [hnext]; exact hlt, ?_⟩, fun ctx h => nomatch h⟩
      show Function.update (s.modifyTable entry _).attachEntries id' none id = none
      rw [modifyTable_attachEntries, Function.update_apply]
      split
      · rfl
      · exact hnone

/-! ## Runs

The condition is exact: where a step does not meet it, the dispatch it belongs to ends without the result that its
callback chose. -/

/-- **The dispatches of a run are lawful exactly if its steps meet the condition.** -/
theorem dispatch_lawful_iff (events : List Event) : RunLawful events ↔ AllSteps World.step World.Fits .init events := by
  constructor
  · rintro ⟨reports, w, hrun, -⟩
    refine allSteps_of_run (I := WorldInv) (Q := fun _ => True) (fun w e hw _ next hnext => worldInv_next hw hnext) ?_
      worldInv_init hrun fun _ _ => trivial
    intro w e hw hnot next hnext
    rw [Option.mem_def, step_stuck hw hnot] at hnext
    cases hnext
  · intro hfits
    obtain ⟨reports, w, hrun, hw, hreports⟩ := runAll_invariant (Q := Report.Lawful)
      (fun w e hw hfits => worldInv_step hw hfits) worldInv_init hfits
    refine ⟨reports, w, hrun, hw.tables.lawful, hreports, ?_⟩
    refine runAll_pairwise (D := fun r w => ∀ id, r = .detached id → Gone id w.tables) (I := WorldInv)
      (fun w e next hw hstep => worldInv_next hw hstep) ?_ ?_ worldInv_init hrun
    · exact fun w e next hw hstep id hreport => gone_of_detached hw.tables (step_tables hw hstep) hreport
    · intro r w e next hw hgone hstep
      exact ⟨fun id hr => (gone_step (hgone id hr) (step_tables hw hstep)).1,
        fun id hr => (gone_step (hgone id hr) (step_tables hw hstep)).2⟩

/-- A callback of one system call makes another, which has no callback, and then overrides the result. -/
theorem dispatch_not_lawful : ¬ ∀ events, RunLawful events := by
  intro h
  obtain ⟨reports, w, hrun, -⟩ := h [.create 2 (some ⟨0, true⟩) 0, .dispatch 0 ⟨0, 0, 0, 0, 0, 0⟩, .next,
    .dispatch 1 ⟨0, 0, 0, 0, 0, 0⟩, .next, .originalDone 0, .next, .override 7]
  have hnone : (runAll World.step .init [.create 2 (some ⟨0, true⟩) 0, .dispatch 0 ⟨0, 0, 0, 0, 0, 0⟩, .next,
      .dispatch 1 ⟨0, 0, 0, 0, 0, 0⟩, .next, .originalDone 0, .next, .override 7]).isSome = false := by
    decide
  rw [hrun] at hnone
  cases hnone

end SyscallTrace
