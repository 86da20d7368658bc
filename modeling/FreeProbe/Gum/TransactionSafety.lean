import FreeProbe.Gum.TransactionEntries

/-!
# `Gum.TransactionSafety` — nothing that is freed is used again

The usage counter of a context is the number of frames that count, so a task that finds it at zero frees what no counted
frame holds. Three things escape the counter: a thread in the trampolines of a context that is destroyed, before or after
it is counted; a second task of such a context, which reads the counter in freed memory; and a function that is
instrumented while the jump of an old context still stands in its prologue. A fourth thing is freed without a task: the
entry of a listener that is detached, which a thread may just have read from the array.

Where none of the four happens, no step of any thread touches freed memory or fails an assertion (`transaction_safe`).
Where the first three do not, exactly the registered functions are redirected when no update is to come
(`redirected_iff_registered`), and a flush with nobody inside frees what was destroyed (`flush_frees`).
-/

namespace Gum.Transaction

open X86 Lib

namespace State

/-- The contexts that a step reads or writes, or whose trampolines it runs. -/
def touched (pageOf : Word → Word) (s : State) : Event → List Nat
  | .attach f _ | .replace _ f _ | .revert f => (s.functionByAddress f).toList
  | .detach _ order => order
  | .update page => ((s.committing.bind fun commit => s.nextUpdate pageOf page commit.updates).map UpdateTask.ctx).toList
  | .destroyTask => ((s.committing.bind fun commit => commit.destroys.head?).map DestroyTask.ctx).toList
  | .thread _ (.call f) => (s.code f).toList
  | .thread t _ => ((s.threads.top t).map Frame.ctx).toList
  | _ => []

/-- The assertions of a step hold. -/
def Asserts (pageOf : Word → Word) (s : State) : Event → Prop
  | .revert f => ∀ c ∈ s.functionByAddress f, (s.contexts c).destroyed = false
  | .detach _ order => ∀ c ∈ order, (s.contexts c).destroyed = false
  | .update page => ∀ commit ∈ s.committing, ∀ update ∈ s.nextUpdate pageOf page commit.updates,
      match update.func with
      | .activate => (s.contexts update.ctx).destroyed = true ∨ (s.contexts update.ctx).activated = false
      | .deactivate => (s.contexts update.ctx).activated = true
  | _ => True

/-- The entry that a step reads: for the function of the point cut, or for the function data. -/
def readsEntry (s : State) : Event → Option EntryRef
  | .thread t .skipEntry | .thread t .listener | .thread t .functionData => (s.threads.top t).bind Frame.holds
  | _ => none

/-- The array that a step reads a slot of. -/
def readsArray (s : State) : Event → Option (Nat × Nat)
  | .thread t (.takeEntry _) =>
    match s.threads.top t with
    | some (.listening c n _ _) => some (c, n)
    | _ => none
  | _ => none

/-- The array has not been freed. -/
def HasArray (s : State) (c n : Nat) : Prop := ⟨c, .ptrArrayUnref n⟩ ∉ s.released

/-- The entry has been freed neither alone nor with its array. -/
def HasEntry (s : State) (r : EntryRef) : Prop := r ∉ s.freedEntries ∧ s.HasArray r.ctx r.array

/-- A listener that is called is still attached, or has a reference that is not dropped yet. -/
def Alive (s : State) : Event → Prop
  | .thread t .listener => ∀ c n l trap, s.threads.top t = some (.listening c n (.taken l) trap) →
      Context.listed l (s.contexts c).listenerEntries ∨ ⟨c, .objectUnref l⟩ ∈ s.tasks
  | _ => True

/-- Nothing is freed twice: no task again, no entry with its array that was freed before, and no entry that `detach` frees
    again. -/
def FreesOnce (s : State) : Event → Prop
  | .destroyTask => ∀ commit ∈ s.committing, ∀ task ∈ commit.destroys.head?,
      ((∀ l, task.notify ≠ .objectUnref l) → task ∉ s.released) ∧
        ∀ n, task.notify = .ptrArrayUnref n → ∀ l, Context.listed l ((s.contexts task.ctx).entries n) →
          ⟨task.ctx, n, l⟩ ∉ s.freedEntries
  | .detach l order => ∀ c ∈ order, (s.contexts c).hasListener l →
      ⟨c, (s.contexts c).oldEntries.length, l.listenerInstance⟩ ∉ s.freedEntries
  | _ => True

/-- The step is safe to take. -/
structure Safe (pageOf : Word → Word) (s : State) (e : Event) : Prop where
  touched : ∀ c ∈ s.touched pageOf e, ¬ s.freed c
  asserts : s.Asserts pageOf e
  entry : ∀ r ∈ s.readsEntry e, s.HasEntry r
  array : ∀ place ∈ s.readsArray e, s.HasArray place.1 place.2
  alive : s.Alive e
  freesOnce : s.FreesOnce e

end State

/-- The interceptor, where nothing escapes the usage counters. -/
def system (relocatable : Word → Bool) (pageOf : Word → Word) : System State Event where
  step s e s' := step relocatable pageOf s e = some s' ∧ ¬ s.Hazard e

/-- And where no listener is detached while a thread has its entry. -/
def carefulSystem (relocatable : Word → Bool) (pageOf : Word → Word) : System State Event where
  step s e s' := (system relocatable pageOf).step s e s' ∧ ¬ s.Dangling e

/-! ## Runs -/

/-- At the start there is nothing. -/
theorem inv_init : Inv init where
  patched := by
    constructor <;> simp [init, State.updates, transactionInit]
  queued := by
    constructor <;> simp [init, State.tasks, State.freed, transactionInit]
  readers := by
    constructor <;> simp [init, Stacks.frames]

/-- And nothing to do. -/
theorem tidy_init : Tidy init := ⟨fun _ => ⟨rfl, rfl⟩, fun _ => rfl⟩

variable {relocatable : Word → Bool} {pageOf : Word → Word}

namespace State

/-- A transaction that is begun in another. -/
theorem tidy_level {s : State} (h : Tidy s) {level : Int} (hle : s.currentTransaction.level ≤ level) :
    Tidy { s with currentTransaction := { s.currentTransaction with level := level } } :=
  ⟨h.clean, fun hnonpos => h.settled (Int.le_trans hle hnonpos)⟩

end State

/-- **One step.** A step without a hazard keeps the invariant. -/
theorem inv_step {s s' : State} {e : Event} (h : Inv s ∧ Tidy s) (hstep : (system relocatable pageOf).step s e s') :
    Inv s' ∧ Tidy s' := by
  obtain ⟨hi, ht⟩ := h
  obtain ⟨hstep, hsafe⟩ := hstep
  -- by the event: an operation in its transaction, a part of a commit, or a thread
  cases e with
  | attach f l =>
      obtain ⟨hfree, rfl⟩ := State.locked_some hstep
      exact State.inv_opened_end
        (State.opened_attachInside (State.opened_openTransaction hi hfree) l fun hbad => hsafe hbad)
  | replace type f r =>
      obtain ⟨hfree, rfl⟩ := State.locked_some hstep
      exact State.inv_opened_end
        (State.opened_replaceInside (State.opened_openTransaction hi hfree) type r fun hbad => hsafe hbad)
  | revert f =>
      obtain ⟨hfree, rfl⟩ := State.locked_some hstep
      exact State.inv_opened_end (State.opened_revertInside (State.opened_openTransaction hi hfree) f)
  | detach l order =>
      simp only [step] at hstep
      split at hstep
      case isFalse => cases hstep
      rename_i horder
      obtain ⟨hfree, rfl⟩ := State.locked_some hstep
      exact State.inv_opened_end (State.opened_detachLoop (State.opened_openTransaction hi hfree)
        (horder.nodup_iff.mpr s.nodup_registered) fun c hc => State.mem_registered (horder.mem_iff.mp hc))
  | beginTransaction =>
      obtain ⟨-, rfl⟩ := State.locked_some hstep
      exact ⟨State.inv_transactionBegin hi, State.tidy_level ht (by omega)⟩
  | endTransaction =>
      obtain ⟨hfree, rfl⟩ := State.locked_some hstep
      exact ⟨State.inv_transactionEnd hi hfree, State.tidy_transactionEnd ht.clean⟩
  | flush =>
      obtain ⟨hfree, rfl⟩ := State.locked_some hstep
      unfold State.flush
      split
      · exact ⟨State.inv_transactionEnd (State.inv_transactionBegin hi) hfree, State.tidy_transactionEnd ht.clean⟩
      · exact ⟨hi, ht⟩
  | update page =>
      refine ⟨State.inv_update hi hstep, ?_⟩
      obtain ⟨commit, hcommit, hstep⟩ := Option.bind_eq_some_iff.mp hstep
      obtain ⟨next, -, hstep⟩ := Option.bind_eq_some_iff.mp hstep
      cases hstep
      have hsame : (s.runUpdate next).currentTransaction = s.currentTransaction := by
        unfold State.runUpdate State.activate
        split
        · split <;> rfl
        · rfl
      constructor
      · simp only [hsame]
        exact ht.clean
      · simp only [hsame]
        exact ht.settled
  | destroyTask =>
      refine ⟨State.inv_destroyTask hi hstep hsafe, ?_⟩
      simp only [step, State.destroyTask] at hstep
      split at hstep
      case h_2 => cases hstep
      split at hstep <;> cases hstep
      · exact ⟨ht.clean, ht.settled⟩
      · exact ⟨fun hdirty => Bool.noConfusion hdirty, ht.settled⟩
  | lockAgain i =>
      refine ⟨State.inv_lockAgain hi hstep, ?_⟩
      simp only [step, State.lockAgain] at hstep
      split at hstep <;> cases hstep
      exact ⟨ht.clean, ht.settled⟩
  | unlock =>
      refine ⟨State.inv_unlock hi hstep, ?_⟩
      simp only [step, State.unlock] at hstep
      split at hstep <;> cases hstep
      exact ⟨ht.clean, ht.settled⟩
  | spawn =>
      cases hstep
      have hmoved : Moved s { s with threads := s.threads.spawn } [] [] :=
        ⟨⟨s.threads.frames, .refl _, by rw [List.nil_append, Stacks.frames_spawn]⟩,
          fun c => ⟨_, rfl, rfl⟩, by simp, rfl⟩
      exact ⟨hmoved.inv hi, ht.clean, ht.settled⟩
  | thread t e =>
      obtain ⟨old, new, hmoved⟩ := State.threadStep_moved hstep
      refine ⟨hmoved.inv hi, ?_⟩
      constructor
      · rw [hmoved.currentTransaction]
        exact ht.clean
      · rw [hmoved.currentTransaction]
        exact ht.settled

/-- **Every run** without a hazard keeps it. -/
theorem inv_run {es : List Event} {s : State} (h : Run (system relocatable pageOf) init es s) : Inv s ∧ Tidy s :=
  h.invariant ⟨inv_init, tidy_init⟩ fun _ _ _ hs hstep => inv_step hs hstep

/-- **Every careful run** keeps the invariant of the entries as well. -/
theorem careful_run {es : List Event} {s : State} (h : Run (carefulSystem relocatable pageOf) init es s) :
    (Inv s ∧ Tidy s) ∧ Entries s := by
  refine h.invariant (I := fun s => (Inv s ∧ Tidy s) ∧ Entries s) ⟨⟨inv_init, tidy_init⟩, entries_init⟩ ?_
  rintro s e s' ⟨hi, he⟩ ⟨hstep, hsafe⟩
  exact ⟨inv_step hi hstep, entries_step hi.1 he hstep.1 hsafe⟩

/-- A step that is no hazard. -/
def checkedStep (relocatable : Word → Bool) (pageOf : Word → Word) (s : State) (e : Event) : Option State :=
  if s.Hazard e then none else step relocatable pageOf s e

/-- A step that is not dangling either. -/
def carefulStep (relocatable : Word → Bool) (pageOf : Word → Word) (s : State) (e : Event) : Option State :=
  if s.Dangling e then none else checkedStep relocatable pageOf s e

/-- A step that was computed is one. -/
theorem checkedStep_some {s s' : State} {e : Event} (h : checkedStep relocatable pageOf s e = some s') :
    (system relocatable pageOf).step s e s' := by
  unfold checkedStep at h
  split at h
  · cases h
  · rename_i hsafe
    exact ⟨h, hsafe⟩

/-- The same without hazards. -/
theorem carefulStep_some {s s' : State} {e : Event} (h : carefulStep relocatable pageOf s e = some s') :
    (carefulSystem relocatable pageOf).step s e s' := by
  unfold carefulStep at h
  split at h
  · cases h
  · rename_i hsafe
    exact ⟨checkedStep_some h, hsafe⟩

/-- Steps that are taken one after another are a run. -/
theorem run_of_foldlM {S : System State Event} {next : State → Event → Option State}
    (hnext : ∀ {s s' e}, next s e = some s' → S.step s e s') {es : List Event} {s s' : State}
    (h : es.foldlM next s = some s') : Run S s es s' := by
  induction es generalizing s with
  | nil =>
      obtain rfl := Option.some.inj h
      exact .nil
  | cons e es ih =>
      rw [List.foldlM_cons] at h
      obtain ⟨after, hstep, hrest⟩ := Option.bind_eq_some_iff.mp h
      exact (Run.single (hnext hstep)).append (ih hrest)

/-- None of them a hazard. -/
theorem run_of_steps {es : List Event} {s s' : State} (h : es.foldlM (checkedStep relocatable pageOf) s = some s') :
    Run (system relocatable pageOf) s es s' := run_of_foldlM checkedStep_some h

/-- And for a list of events. -/
theorem run_of_carefulSteps {es : List Event} {s s' : State}
    (h : es.foldlM (carefulStep relocatable pageOf) s = some s') : Run (carefulSystem relocatable pageOf) s es s' :=
  run_of_foldlM carefulStep_some h

/-! ## Safety -/

namespace Inv

variable {s s' : State} {e : Event}

/-- No step touches a context that is freed. -/
theorem touched_not_freed (h : Inv s) (hstep : step relocatable pageOf s e = some s') :
    ∀ c ∈ s.touched pageOf e, ¬ s.freed c := by
  intro c hc
  cases e with
  | attach f l => exact h.registered_not_freed (Option.mem_toList.mp hc)
  | replace type f r => exact h.registered_not_freed (Option.mem_toList.mp hc)
  | revert f => exact h.registered_not_freed (Option.mem_toList.mp hc)
  | detach l order =>
      simp only [step] at hstep
      split at hstep
      case isFalse => cases hstep
      rename_i horder
      exact h.registered_not_freed (State.mem_registered (horder.mem_iff.mp hc))
  | update page =>
      obtain ⟨next, hnext, rfl⟩ := Option.map_eq_some_iff.mp (Option.mem_toList.mp hc)
      obtain ⟨commit, hcommit, hnext⟩ := Option.bind_eq_some_iff.mp hnext
      intro hfreed
      refine h.freed_no_update hfreed next ?_ rfl
      simp only [State.updates, hcommit]
      exact List.mem_append_left _ (State.nextUpdate_mem hnext)
  | destroyTask =>
      obtain ⟨task, htask, rfl⟩ := Option.map_eq_some_iff.mp (Option.mem_toList.mp hc)
      obtain ⟨commit, hcommit, hhead⟩ := Option.bind_eq_some_iff.mp htask
      intro hfreed
      refine h.queued.freed hfreed task ?_ rfl
      simp only [State.tasks, hcommit]
      exact List.mem_append_left _ (List.mem_of_head? hhead)
  | beginTransaction | endTransaction | flush | lockAgain i | unlock | spawn => cases hc
  | thread t e =>
      cases e with
      | call f => exact fun hfreed => h.freed_not_code hfreed f (Option.mem_toList.mp hc)
      | sampledOut | beginInvocation | bypass | prepare invokeListeners willTrapOnLeave | takeEntry l | skipEntry
      | listener | functionData | listenerReturns | proceed | endInvocation | resume =>
          obtain ⟨fr, hfr, rfl⟩ := Option.map_eq_some_iff.mp (Option.mem_toList.mp hc)
          exact h.frame_not_freed (Stacks.mem_of_top hfr)

/-- The assertions of the code hold. -/
theorem asserts (h : Inv s) (hstep : step relocatable pageOf s e = some s') : s.Asserts pageOf e := by
  cases e with
  | revert f => exact fun c hc => (h.patched.registered hc).2.2
  | detach l order =>
      simp only [step] at hstep
      split at hstep
      case isFalse => cases hstep
      rename_i horder
      exact fun c hc => (h.patched.registered (State.mem_registered (horder.mem_iff.mp hc))).2.2
  | update page =>
      intro commit hcommit update hupdate
      have hmem : update ∈ s.updates := by
        simp only [State.updates, Option.mem_def.mp hcommit]
        exact List.mem_append_left _ (State.nextUpdate_mem hupdate)
      obtain ⟨c, func⟩ := update
      cases func with
      | activate => exact .inr (h.patched.activating hmem).2.1
      | deactivate =>
          have hcount := h.patched.deactivateOnce c
          by_contra hoff
          rw [if_neg fun hboth => hoff hboth.2] at hcount
          exact List.count_eq_zero.mp hcount hmem
  | attach f l | replace type f r | beginTransaction | endTransaction | flush | destroyTask | lockAgain i | unlock
  | spawn | thread t e => trivial

/-- A frame in the loop over an array has the array. -/
theorem hasArray (h : Inv s) {c n : Nat} {use : EntryUse} {trap : Bool}
    (hmem : .listening c n use trap ∈ s.threads.frames) : s.HasArray c n := (h.readers.entries hmem).2

/-- The entry that a thread reads is there. -/
theorem entry (h : Inv s) (he : Entries s) : ∀ r ∈ s.readsEntry e, s.HasEntry r := by
  intro r hr
  have hheld : ∀ {t : Nat}, (s.threads.top t).bind Frame.holds = some r → s.HasEntry r := by
    intro t hbind
    obtain ⟨fr, htop, hholds⟩ := Option.bind_eq_some_iff.mp hbind
    have hmem := Stacks.mem_of_top htop
    refine ⟨he.held fr hmem r hholds, ?_⟩
    cases fr with
    | listening c n use trap =>
        obtain ⟨l, -, rfl⟩ := Option.map_eq_some_iff.mp hholds
        exact h.hasArray hmem
    | arrived c | begun c | trapped c | departing c => cases hholds
  cases e with
  | thread t e =>
      cases e with
      | skipEntry | listener | functionData => exact hheld hr
      | call f | sampledOut | beginInvocation | bypass | prepare invokeListeners willTrapOnLeave | takeEntry l
      | listenerReturns | proceed | endInvocation | resume => cases hr
  | attach f l | replace type f r | revert f | detach l order | beginTransaction | endTransaction | flush
  | update page | destroyTask | lockAgain i | unlock | spawn => cases hr

/-- And so is the array. -/
theorem array (h : Inv s) : ∀ place ∈ s.readsArray e, s.HasArray place.1 place.2 := by
  intro place hplace
  cases e with
  | thread t e =>
      cases e with
      | takeEntry l =>
          simp only [State.readsArray] at hplace
          split at hplace
          · next htop =>
              obtain rfl := Option.some.inj hplace
              exact h.hasArray (Stacks.mem_of_top htop)
          · cases hplace
      | call f | sampledOut | beginInvocation | bypass | prepare invokeListeners willTrapOnLeave | skipEntry | listener
      | functionData | listenerReturns | proceed | endInvocation | resume => cases hplace
  | attach f l | replace type f r | revert f | detach l order | beginTransaction | endTransaction | flush
  | update page | destroyTask | lockAgain i | unlock | spawn => cases hplace

/-- And the listener. -/
theorem alive (h : Inv s) : s.Alive e := by
  cases e with
  | thread t e =>
      cases e with
      | listener => exact fun c n l trap htop => h.readers.listeners (Stacks.mem_of_top htop) l (.inr rfl)
      | call f | sampledOut | beginInvocation | bypass | prepare invokeListeners willTrapOnLeave | takeEntry l
      | skipEntry | functionData | listenerReturns | proceed | endInvocation | resume => trivial
  | attach f l | replace type f r | revert f | detach l order | beginTransaction | endTransaction | flush
  | update page | destroyTask | lockAgain i | unlock | spawn => trivial

/-- Nothing is freed twice. -/
theorem freesOnce (h : Inv s) (he : Entries s) : s.FreesOnce e := by
  cases e with
  | destroyTask =>
      refine fun commit hcommit task htask => ⟨fun hkind hreleased => ?_, fun n _ l hlisted hfreed =>
        (he.unlisted _ hfreed).2.2 hlisted⟩
      have hmem : task ∈ s.tasks := by
        simp only [State.tasks, Option.mem_def.mp hcommit]
        exact List.mem_append_left _ (List.mem_of_head? htask)
      have htwo : 2 ≤ (s.tasks ++ s.released).count task := by
        rw [List.count_append]
        have hone := List.count_pos_iff.mpr hmem
        have hone' := List.count_pos_iff.mpr hreleased
        omega
      obtain ⟨c, notify⟩ := task
      cases notify with
      | ptrArrayUnref n =>
          rw [h.queued.entriesOnce c n] at htwo
          split at htwo <;> omega
      | objectUnref l => exact hkind l rfl
      | performDestroy =>
          rw [h.queued.destroyOnce c] at htwo
          split at htwo <;> omega
  | detach l order =>
      intro c _ hlistener hfreed
      refine (he.unlisted _ hfreed).2.2 ?_
      rw [Context.entries, List.getD_eq_getElem?_getD, List.getElem?_concat_length, Option.getD_some, listed_iff]
      exact hasListener_iff.mp hlistener
  | attach f l | replace type f r | revert f | beginTransaction | endTransaction | flush | update page | lockAgain i
  | unlock | spawn | thread t e => trivial

end Inv

/-- **Nothing that is freed is used again.** In every interleaving of the operations, the ends of their transactions and
    the threads in the trampolines, as long as nothing escapes the usage counters and no listener is detached while a
    thread has its entry, the next step of anyone touches no context or trampoline that is freed, meets its assertions,
    reads no array or entry that is freed, calls only listeners that are attached or still have the reference taken for
    the threads inside, and frees nothing twice. -/
theorem transaction_safe {es : List Event} {s s' : State} {e : Event}
    (h : Run (carefulSystem relocatable pageOf) init es s) (hstep : step relocatable pageOf s e = some s') :
    s.Safe pageOf e := by
  obtain ⟨⟨hinv, -⟩, he⟩ := careful_run h
  exact ⟨hinv.touched_not_freed hstep, hinv.asserts hstep, hinv.entry he, hinv.array, hinv.alive, hinv.freesOnce he⟩

/-- A thread that goes through an array of two operations ago calls a listener that has been detached since. -/
theorem transaction_safe_detached :
    ∃ s s', Run (carefulSystem (fun _ => true) fun _ => 0) init
        [.attach 16 ⟨1, true⟩, .update 0, .destroyTask, .lockAgain 0, .unlock, .spawn, .thread 0 (.call 16),
          .thread 0 .beginInvocation, .thread 0 (.prepare true false), .attach 16 ⟨2, false⟩, .destroyTask, .unlock,
          .detach ⟨1, true⟩ [0], .destroyTask, .destroyTask, .unlock, .thread 0 (.takeEntry 1)] s ∧
      step (fun _ => true) (fun _ => 0) s (.thread 0 .listener) = some s' ∧
      s.Safe (fun _ => 0) (.thread 0 .listener) :=
  have hrun := @run_of_carefulSteps (fun _ => true) (fun _ => 0)
    [.attach 16 ⟨1, true⟩, .update 0, .destroyTask, .lockAgain 0, .unlock, .spawn, .thread 0 (.call 16),
      .thread 0 .beginInvocation, .thread 0 (.prepare true false), .attach 16 ⟨2, false⟩, .destroyTask, .unlock,
      .detach ⟨1, true⟩ [0], .destroyTask, .destroyTask, .unlock, .thread 0 (.takeEntry 1)] init _ rfl
  ⟨_, _, hrun, rfl, transaction_safe hrun (e := .thread 0 .listener) rfl⟩

-- A thread that has read the entry of a listener, and the listener is detached before the thread goes on.
example : (([.attach 16 ⟨1, true⟩, .update 0, .destroyTask, .lockAgain 0, .unlock, .spawn, .thread 0 (.call 16),
    .thread 0 .beginInvocation, .thread 0 (.prepare true false), .thread 0 (.takeEntry 1), .detach ⟨1, true⟩ [0]] :
      List Event).foldlM (step (fun _ => true) fun _ => 0) init).any
    (fun s => ∃ r ∈ s.readsEntry (.thread 0 .listener), r ∈ s.freedEntries) = true := by
  decide +kernel

-- A thread that has followed the jump, and is not counted yet when the context is freed.
example : (([.attach 16 ⟨1, true⟩, .update 0, .destroyTask, .lockAgain 0, .unlock, .spawn, .thread 0 (.call 16),
    .detach ⟨1, true⟩ [0], .update 0, .destroyTask, .lockAgain 0, .destroyTask] : List Event).foldlM
      (step (fun _ => true) fun _ => 0) init).any
    (fun s => ∃ c ∈ s.touched (fun _ => 0) (.thread 0 .beginInvocation), ⟨c, .performDestroy⟩ ∈ s.released) = true := by
  decide +kernel

-- A thread that leaves between the two tasks of a context: the first is put off, the second frees the context.
example : (([.attach 16 ⟨1, true⟩, .update 0, .destroyTask, .lockAgain 0, .unlock, .spawn, .thread 0 (.call 16),
    .thread 0 .beginInvocation, .detach ⟨1, true⟩ [0], .update 0, .destroyTask, .thread 0 .bypass, .thread 0 .resume,
    .destroyTask, .lockAgain 0, .unlock, .flush] : List Event).foldlM (step (fun _ => true) fun _ => 0) init).any
    (fun s => ∃ c ∈ s.touched (fun _ => 0) .destroyTask, ⟨c, .performDestroy⟩ ∈ s.released) = true := by
  decide +kernel

-- A function that is detached and attached again in one explicit transaction keeps the old jump as its prologue.
example : (([.attach 16 ⟨1, true⟩, .update 0, .destroyTask, .lockAgain 0, .unlock, .beginTransaction,
    .detach ⟨1, true⟩ [0], .attach 16 ⟨1, true⟩, .endTransaction, .update 0, .update 0, .destroyTask, .lockAgain 0,
    .destroyTask, .lockAgain 0, .destroyTask, .lockAgain 0, .unlock, .detach ⟨1, true⟩ [1], .update 0, .destroyTask,
    .lockAgain 0, .destroyTask, .lockAgain 0, .unlock, .spawn] : List Event).foldlM
      (step (fun _ => true) fun _ => 0) init).any
    (fun s => ∃ c ∈ s.touched (fun _ => 0) (.thread 0 (.call 16)), ⟨c, .performDestroy⟩ ∈ s.released) = true := by
  decide +kernel

/-- With no update to come, the functions redirected are those of the table. -/
theorem Inv.redirected_iff {s : State} (h : Inv s) (hdone : s.updates = []) (f : Word) (c : Nat) :
    s.code f = some c ↔ s.functionByAddress f = some c := by
  constructor
  · intro hcode
    obtain ⟨hc, hactive, haddress⟩ := (h.patched.code f c).mp hcode
    have hlive : (s.contexts c).destroyed = false := by
      by_contra hnot
      have hone := h.patched.deactivateOnce c
      rw [if_pos ⟨by simpa using hnot, hactive⟩, hdone] at hone
      cases hone
    exact haddress ▸ h.patched.inTable hc hlive
  · intro htable
    obtain ⟨hc, haddress, hlive⟩ := h.patched.registered htable
    refine (h.patched.code f c).mpr ⟨hc, ?_, haddress⟩
    by_contra hoff
    have hmem := h.patched.notYet hc hlive (by simpa using hoff)
    rw [hdone] at hmem
    cases hmem

/-- **Redirected means registered.** Outside of explicit transactions, whenever no end is about to patch code, exactly
    the functions of the table are redirected, each by the jump of its own context (into the trampolines, or for a fast
    replacement to the replacement), and all others begin as they did before they were instrumented. -/
theorem redirected_iff_registered {es : List Event} {s : State} (h : Run (system relocatable pageOf) init es s)
    (hlevel : s.currentTransaction.level ≤ 0) (hdone : ∀ commit ∈ s.committing, commit.updates = []) (f : Word)
    (c : Nat) : s.code f = some c ↔ s.functionByAddress f = some c := by
  obtain ⟨hinv, htidy⟩ := inv_run h
  refine hinv.redirected_iff ?_ f c
  rw [State.updates, htidy.settled hlevel, List.append_nil]
  cases hcommit : s.committing with
  | none => rfl
  | some commit => exact hdone commit hcommit

/-- Two functions instrumented in one explicit transaction, and one of them reverted in it. -/
theorem redirected_iff_registered_two :
    ∃ s, Run (system (fun _ => true) fun _ => 0) init
        [.beginTransaction, .replace .fast 16 7, .attach 32 ⟨1, true⟩, .revert 16, .endTransaction, .update 0, .update 0]
        s ∧ ∀ f c, s.code f = some c ↔ s.functionByAddress f = some c :=
  have hrun := @run_of_steps (fun _ => true) (fun _ => 0)
    [.beginTransaction, .replace .fast 16 7, .attach 32 ⟨1, true⟩, .revert 16, .endTransaction, .update 0,
      .update 0] init _ rfl
  ⟨_, hrun, redirected_iff_registered hrun (Int.le_refl 0) fun commit hcommit => by cases hcommit; rfl⟩

/-! ## Flushing -/

/-- The end of a transaction with nobody in the trampolines takes one task after another. -/
def takeAll (n : Nat) : List Event := (List.replicate n [.destroyTask, .lockAgain 0]).flatten

/-- A flush with no thread inside runs all tasks. -/
theorem takeAll_step {s : State} {destroys : List DestroyTask} (hcommit : s.committing = some ⟨[], destroys⟩)
    (hquiet : s.notifying = []) (hidle : ∀ c, (s.contexts c).trampolineUsageCounter = 0) :
    (takeAll destroys.length).foldlM (step relocatable pageOf) s =
      some { s with committing := some ⟨[], []⟩, released := s.released ++ destroys } := by
  induction destroys generalizing s with
  | nil =>
      rw [List.append_nil, ← hcommit]
      rfl
  | cons task rest ih =>
      -- one task is taken, and the lock again
      let s' : State := { s with committing := some ⟨[], rest⟩, released := s.released ++ [task] }
      have htake : [Event.destroyTask, .lockAgain 0].foldlM (step relocatable pageOf) s = some s' := by
        have hpop : s.destroyTask =
            some { s with committing := none, notifying := [rest], released := s.released ++ [task] } := by
          simp only [State.destroyTask, hcommit, hidle task.ctx, if_true, hquiet, List.nil_append]
        simp only [List.foldlM_cons, List.foldlM_nil, step, hpop, Option.bind_eq_bind, Option.bind_some,
          State.lockAgain, List.getElem?_cons_zero, List.eraseIdx_zero, List.tail_cons, Option.pure_def, s', hquiet]
      have hrest := ih (s := s') rfl hquiet hidle
      rw [List.length_cons, takeAll, List.replicate_succ, List.flatten_cons, List.foldlM_append, htake,
        Option.bind_eq_bind, Option.bind_some, ← takeAll, hrest]
      simp only [s', List.append_assoc, List.singleton_append]

/-- **A flush frees what was destroyed.** With no transaction open, no end at work and nobody in the trampolines, the
    tasks that are left are all taken, one after another, and then the contexts that are freed are those that were
    destroyed, and the arrays of listener entries those that were replaced, each of them once. -/
theorem flush_frees {es : List Event} {s : State} (h : Run (system relocatable pageOf) init es s)
    (hlevel : s.currentTransaction.level = 0) (hfree : s.committing = none) (hquiet : s.notifying = [])
    (hidle : ∀ c, (s.contexts c).trampolineUsageCounter = 0) :
    ∃ s', (.flush :: takeAll s.currentTransaction.pendingDestroyTasks.length).foldlM (step relocatable pageOf) s =
        some s' ∧ s'.tasks = [] ∧ s'.contexts = s.contexts ∧ (s'.committing = none ∨ s'.committing = some ⟨[], []⟩) ∧
      (∀ c, s'.released.count ⟨c, .performDestroy⟩ = if (s.contexts c).destroyed = true then 1 else 0) ∧
      ∀ c n, s'.released.count ⟨c, .ptrArrayUnref n⟩ = if n < (s.contexts c).oldEntries.length then 1 else 0 := by
  obtain ⟨hinv, htidy⟩ := inv_run h
  have hupdates : s.currentTransaction.pendingUpdateTasks = [] := htidy.settled (by omega)
  have htasks : s.tasks = s.currentTransaction.pendingDestroyTasks := by simp [State.tasks, hfree, hquiet]
  have hdestroyed := hinv.queued.destroyOnce
  have hentries := hinv.queued.entriesOnce
  rw [htasks] at hdestroyed hentries
  have hflush : step relocatable pageOf s .flush = some s.transactionBegin.transactionEnd := by
    simp [step, State.locked, hfree, State.flush, hlevel]
  -- the level goes up and down again
  have hend : s.transactionBegin.transactionEnd =
      if !s.currentTransaction.isDirty then s
      else if s.currentTransaction.pendingDestroyTasks = [] then
        { s with currentTransaction := { s.currentTransaction with isDirty := false } }
      else { s with
        currentTransaction := transactionInit
        committing := some ⟨s.currentTransaction.pendingUpdateTasks, s.currentTransaction.pendingDestroyTasks⟩ } := by
    simp only [State.transactionEnd, State.transactionBegin, Int.add_sub_cancel, and_iff_left hupdates]
    rw [if_neg (by omega)]
  cases hqueue : s.currentTransaction.pendingDestroyTasks with
  | nil =>
      rw [hqueue] at hdestroyed hentries hend htasks
      refine ⟨_, by simpa [takeAll] using hflush, ?_⟩
      rw [hend]
      split
      · exact ⟨htasks, rfl, .inl hfree, hdestroyed, hentries⟩
      · rw [if_pos rfl]
        exact ⟨htasks, rfl, .inl hfree, hdestroyed, hentries⟩
  | cons task rest =>
      have hdirty : s.currentTransaction.isDirty = true := by
        by_contra hnot
        have hempty := (htidy.clean (by simpa using hnot)).1
        rw [hqueue] at hempty
        cases hempty
      rw [hdirty, hqueue, Bool.not_true, if_neg Bool.false_ne_true, if_neg (List.cons_ne_nil _ _), hupdates] at hend
      rw [hqueue] at hdestroyed hentries
      have hrun := @takeAll_step relocatable pageOf s.transactionBegin.transactionEnd (task :: rest) (by rw [hend])
        (by rw [hend]; exact hquiet) (by rw [hend]; exact hidle)
      refine ⟨_, Eq.trans (by rw [List.foldlM_cons, hflush]; rfl) hrun, ?_⟩
      rw [hend]
      refine ⟨by simp [State.tasks, hquiet, transactionInit], rfl, .inr rfl, fun c => ?_, fun c n => ?_⟩
      · rw [← hdestroyed c]
        exact List.perm_append_comm.count_eq _
      · rw [← hentries c n]
        exact List.perm_append_comm.count_eq _

/-- A context that was detached while a thread was inside. -/
theorem flush_frees_detached :
    ∃ s s', Run (system (fun _ => true) fun _ => 0) init
        [.attach 16 ⟨1, true⟩, .update 0, .destroyTask, .lockAgain 0, .unlock, .spawn, .thread 0 (.call 16),
          .thread 0 .beginInvocation, .detach ⟨1, true⟩ [0], .update 0, .destroyTask, .destroyTask, .unlock,
          .thread 0 (.prepare false false), .thread 0 .resume] s ∧
      (.flush :: takeAll s.currentTransaction.pendingDestroyTasks.length).foldlM
        (step (fun _ => true) fun _ => 0) s = some s' ∧ s'.tasks = [] ∧ s'.released.count ⟨0, .performDestroy⟩ = 1 := by
  have hchecked : (([.attach 16 ⟨1, true⟩, .update 0, .destroyTask, .lockAgain 0, .unlock, .spawn, .thread 0 (.call 16),
      .thread 0 .beginInvocation, .detach ⟨1, true⟩ [0], .update 0, .destroyTask, .destroyTask, .unlock,
      .thread 0 (.prepare false false), .thread 0 .resume] : List Event).foldlM
        (checkedStep (fun _ => true) fun _ => 0) init).any
      (fun s => s.currentTransaction.level = 0 ∧ s.committing = none ∧ s.notifying = [] ∧
        s.threads.frames = [] ∧ (s.contexts 0).destroyed = true) = true := by
    decide +kernel
  obtain ⟨s, hs, hchecks⟩ := (Option.any_eq_true ..).mp hchecked
  obtain ⟨hlevel, hfree, hquiet, hframes, hdestroyed⟩ := of_decide_eq_true hchecks
  have hrun := run_of_steps hs
  have hidle : ∀ c, (s.contexts c).trampolineUsageCounter = 0 := by
    intro c
    rw [(inv_run hrun).1.readers.counter c, hframes]
    rfl
  obtain ⟨s', hflush, htasks, -, -, hcount, -⟩ := flush_frees hrun hlevel hfree hquiet hidle
  refine ⟨s, s', hrun, hflush, htasks, ?_⟩
  rw [hcount 0, if_pos hdestroyed]

end Gum.Transaction
