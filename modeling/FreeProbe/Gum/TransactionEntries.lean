import FreeProbe.Gum.TransactionInv

/-!
# `Gum.TransactionEntries` — the listener entries that are freed at once

The entries of an array are freed with the array, by a task that waits for the usage counter. Only `detach` frees an entry
at once, and clears its slot. A thread that has read the entry from the slot before, and has not come back from the
listener, then reads freed memory (`State.Dangling`). Where that never happens no thread has a freed entry
(`Entries.held`), since the array that a thread reads has no slot for one any more (`Entries.unlisted`).
-/

namespace Gum.Transaction

open X86 Lib

namespace State

/-- A listener is detached while a thread has its entry of the present array. -/
def Dangling (s : State) : Event → Prop
  | .detach l order => ∃ c ∈ order, ∃ fr ∈ s.threads.frames,
      fr.holds = some ⟨c, (s.contexts c).oldEntries.length, l.listenerInstance⟩
  | _ => False

instance (s : State) (e : Event) : Decidable (s.Dangling e) := by
  unfold Dangling
  split <;> infer_instance

end State

/-! ## The listeners of an array

An array of listener entries has a place for each of its listeners, and places that are free again. -/

/-- The listeners of an array, slot by slot. -/
def instances (slots : List (Option Listener)) : List Word := slots.filterMap (Option.map Listener.listenerInstance)

/-- The array lists a listener when one of its slots has it. -/
theorem listed_iff {l : Word} {slots : List (Option Listener)} : Context.listed l slots ↔ l ∈ instances slots := by
  simp only [Context.listed, instances, List.mem_filterMap, Option.map_eq_some_iff]
  constructor
  · rintro ⟨entry, hmem, heq⟩
    exact ⟨some entry, hmem, entry, rfl, heq⟩
  · rintro ⟨_, hmem, entry, rfl, heq⟩
    exact ⟨entry, hmem, heq⟩

/-- `gum_function_context_has_listener` looks through the slots. -/
theorem hasListener_iff {ctx : FunctionContext} {l : Listener} :
    ctx.hasListener l = true ↔ l.listenerInstance ∈ instances ctx.listenerEntries := by
  simp only [FunctionContext.hasListener, instances, List.any_eq_true, List.mem_filterMap, Option.any_eq_true,
    Option.map_eq_some_iff, beq_iff_eq]

/-- Clearing the slot of a listener takes it out. -/
theorem instances_clearSlot (l : Listener) (slots : List (Option Listener)) :
    instances (FunctionContext.clearSlot l slots) = (instances slots).erase l.listenerInstance := by
  induction slots with
  | nil => rfl
  | cons slot slots ih =>
      unfold instances at ih ⊢
      rw [FunctionContext.clearSlot]
      -- only the first slot of the listener is cleared
      cases slot with
      | none =>
          rw [if_neg (by simp), List.filterMap_cons_none rfl, List.filterMap_cons_none rfl]
          exact ih
      | some entry =>
          have hcons : ∀ slots : List (Option Listener),
              (some entry :: slots).filterMap (Option.map Listener.listenerInstance) =
                entry.listenerInstance :: slots.filterMap (Option.map Listener.listenerInstance) := fun _ => rfl
          rw [hcons, List.erase_cons]
          by_cases heq : entry.listenerInstance = l.listenerInstance
          · rw [if_pos (by simpa using heq), if_pos (by simpa using heq), List.filterMap_cons_none rfl]
          · rw [if_neg (by simpa using heq), if_neg (by simpa using heq), hcons, ih]

/-- Adding a listener drops the empty slots. -/
theorem instances_addListener (l : Listener) (slots : List (Option Listener)) :
    instances (slots.filter Option.isSome ++ [some l]) = instances slots ++ [l.listenerInstance] := by
  have hfilter : instances (slots.filter Option.isSome) = instances slots := by
    induction slots with
    | nil => rfl
    | cons slot slots ih =>
        cases slot with
        | none => exact ih
        | some entry => exact congrArg (entry.listenerInstance :: ·) ih
  rw [← hfilter, instances, instances, List.filterMap_append]
  rfl

/-! ## The invariant

An entry that was freed is in no slot any more, so that no thread can come to hold it. The condition is that none held
it already. -/

/-- A freed entry has no slot, an array has at most one slot for a listener, and no thread has a freed entry. -/
structure Entries (s : State) : Prop where
  unlisted : ∀ r ∈ s.freedEntries, r.ctx < s.fresh ∧ r.array ≤ (s.contexts r.ctx).oldEntries.length ∧
    ¬ Context.listed r.listenerInstance ((s.contexts r.ctx).entries r.array)
  unique : ∀ {c}, c < s.fresh → (instances (s.contexts c).listenerEntries).Nodup
  held : ∀ fr ∈ s.threads.frames, ∀ r, fr.holds = some r → r ∉ s.freedEntries

/-- At the start there is nothing. -/
theorem entries_init : Entries init where
  unlisted := fun _ hr => absurd hr List.not_mem_nil
  unique := fun hc => absurd hc (Nat.not_lt_zero _)
  held := fun _ hfr => absurd hfr List.not_mem_nil

/-- What changes no array of entries, but for new contexts without any. -/
structure SameEntries (s s' : State) : Prop where
  fresh : s.fresh ≤ s'.fresh
  old : ∀ {c}, c < s.fresh → (s'.contexts c).listenerEntries = (s.contexts c).listenerEntries ∧
    (s'.contexts c).oldEntries = (s.contexts c).oldEntries
  born : ∀ {c}, s.fresh ≤ c → c < s'.fresh → (s'.contexts c).listenerEntries = []
  freedEntries : s'.freedEntries = s.freedEntries
  frames : s'.threads.frames = s.threads.frames

namespace SameEntries

variable {s s' s'' : State}

/-- A step that touches none of the four fields. -/
theorem of_eq (hcontexts : s'.contexts = s.contexts) (hfresh : s'.fresh = s.fresh)
    (hfreed : s'.freedEntries = s.freedEntries) (hthreads : s'.threads = s.threads) : SameEntries s s' where
  fresh := Nat.le_of_eq hfresh.symm
  old := fun _ => by rw [hcontexts]; exact ⟨rfl, rfl⟩
  born := fun hle hlt => absurd (hfresh ▸ hlt) (Nat.not_lt.mpr hle)
  freedEntries := hfreed
  frames := by rw [hthreads]

/-- No step. -/
theorem refl (s : State) : SameEntries s s := of_eq rfl rfl rfl rfl

/-- One step after another. -/
theorem trans (h : SameEntries s s') (h' : SameEntries s' s'') : SameEntries s s'' where
  fresh := Nat.le_trans h.fresh h'.fresh
  old := fun hc => by
    obtain ⟨hlist, hold⟩ := h'.old (Nat.lt_of_lt_of_le hc h.fresh)
    exact ⟨hlist.trans (h.old hc).1, hold.trans (h.old hc).2⟩
  born := fun {c} hle hlt => by
    by_cases hc : c < s'.fresh
    · exact (h'.old hc).1.trans (h.born hle hc)
    · exact h'.born (Nat.not_lt.mp hc) hlt
  freedEntries := h'.freedEntries.trans h.freedEntries
  frames := h'.frames.trans h.frames

/-- An old context has the arrays that it had. -/
theorem entries_eq (h : SameEntries s s') {c : Nat} (hc : c < s.fresh) (n : Nat) :
    (s'.contexts c).entries n = (s.contexts c).entries n := by
  rw [Context.entries, Context.entries, (h.old hc).1, (h.old hc).2]

/-- It keeps the invariant. -/
theorem entries (h : SameEntries s s') (he : Entries s) : Entries s' where
  unlisted := by
    intro r hr
    rw [h.freedEntries] at hr
    obtain ⟨hc, hle, hnot⟩ := he.unlisted r hr
    rw [h.entries_eq hc, (h.old hc).2]
    exact ⟨Nat.lt_of_lt_of_le hc h.fresh, hle, hnot⟩
  unique := by
    intro c hc
    by_cases hold : c < s.fresh
    · rw [(h.old hold).1]
      exact he.unique hold
    · rw [h.born (Nat.not_lt.mp hold) hc]
      exact List.nodup_nil
  held := by
    rw [h.frames, h.freedEntries]
    exact he.held

end SameEntries

namespace State

variable {relocatable : Word → Bool} {pageOf : Word → Word} {s s' : State} {c : Nat} {l : Listener}

/-! ## Steps that leave the arrays alone

Most steps change contexts, threads or tasks only. -/

/-- What is set in a context beside its arrays. -/
theorem sameEntries_setContext {ctx : Context} (hlist : ctx.listenerEntries = (s.contexts c).listenerEntries)
    (hold : ctx.oldEntries = (s.contexts c).oldEntries) : SameEntries s (s.setContext c ctx) where
  fresh := Nat.le_refl _
  old := fun {c'} _ => by
    by_cases hc : c' = c
    · have hself : (s.setContext c ctx).contexts c = ctx := Function.update_self ..
      rw [hc, hself]
      exact ⟨hlist, hold⟩
    · have hother : (s.setContext c ctx).contexts c' = s.contexts c' := Function.update_of_ne hc ..
      rw [hother]
      exact ⟨rfl, rfl⟩
  born := fun hle hlt => absurd hlt (Nat.not_lt.mpr hle)
  freedEntries := rfl
  frames := rfl

/-- Opening a transaction changes no array. -/
theorem sameEntries_openTransaction (s : State) : SameEntries s s.openTransaction := .of_eq rfl rfl rfl rfl

/-- Nor does ending one. -/
theorem sameEntries_transactionEnd (s : State) : SameEntries s s.transactionEnd := by
  unfold transactionEnd
  dsimp only
  split
  · exact .of_eq rfl rfl rfl rfl
  split
  · exact .of_eq rfl rfl rfl rfl
  split
  · exact .of_eq rfl rfl rfl rfl
  · exact .of_eq rfl rfl rfl rfl

/-- Nor does setting a replacement. -/
theorem sameEntries_setReplacement (s : State) (c : Nat) (r : Word) : SameEntries s (s.setReplacement c r) :=
  sameEntries_setContext rfl rfl

/-- Nor does removing the context from the table: its arrays go with the context, when the tasks run. -/
theorem sameEntries_remove (s : State) (c : Nat) : SameEntries s (s.remove c) := by
  obtain ⟨scheduled, hremove⟩ := removed_remove s c
  refine { fresh := Nat.le_of_eq hremove.fresh.symm, old := fun {c'} _ => ?_,
           born := fun hle hlt => absurd (hremove.fresh ▸ hlt) (Nat.not_lt.mpr hle), freedEntries := ?_,
           frames := congrArg Stacks.frames hremove.threads }
  · by_cases hc : c' = c
    · rw [hc, hremove.self]
      exact ⟨rfl, rfl⟩
    · rw [hremove.others hc]
      exact ⟨rfl, rfl⟩
  · unfold remove functionContextDestroy
    dsimp only
    split
    · rfl
    · rfl

/-- The trampolines of a new context have no listeners yet. -/
theorem sameEntries_register (s : State) (f : Word) (type : GumInterceptorType) :
    SameEntries s ((s.register f type).scheduleUpdate ⟨s.fresh, .activate⟩) where
  fresh := Nat.le_succ _
  old := fun {c'} hc => by
    change (Function.update s.contexts s.fresh _ c').listenerEntries = _ ∧
      (Function.update s.contexts s.fresh _ c').oldEntries = _
    rw [Function.update_of_ne (Nat.ne_of_lt hc)]
    exact ⟨rfl, rfl⟩
  born := fun {c'} hle hlt => by
    obtain rfl : c' = s.fresh := Nat.le_antisymm (Nat.lt_succ_iff.mp hlt) hle
    change (Function.update s.contexts s.fresh _ s.fresh).listenerEntries = _
    rw [Function.update_self]
    rfl
  freedEntries := rfl
  frames := rfl

/-- A function that is instrumented has the arrays it had, or an empty one. -/
theorem sameEntries_instrument {type : GumInterceptorType} {f : Word} (hp : Patched s)
    (h : s.instrument relocatable type f = .ok (s', c)) : SameEntries s s' ∧ c < s'.fresh := by
  unfold instrument at h
  split at h
  · next c' hc' =>
      split at h
      · cases h
      · cases h
        exact ⟨.refl s, (hp.registered hc').1⟩
  · split at h
    · cases h
      exact ⟨sameEntries_register s f type, Nat.lt_succ_self _⟩
    · cases h

/-- `gum_interceptor_replace` makes no entry. -/
theorem sameEntries_replaceInside {type : GumInterceptorType} {f r : Word} (hp : Patched s) :
    SameEntries s (s.replaceInside relocatable type f r).2 := by
  unfold replaceInside
  split
  · exact .refl s
  · exact .refl s
  · next s' c hc =>
      have hsame := (sameEntries_instrument hp hc).1
      split
      · exact hsame
      · exact hsame.trans (sameEntries_setReplacement s' c r)

/-- `gum_interceptor_revert` takes none away. -/
theorem sameEntries_revertInside (s : State) (f : Word) : SameEntries s (s.revertInside f) := by
  unfold revertInside
  split
  · exact .refl s
  · next c _ =>
      have hset := sameEntries_setReplacement s c 0
      dsimp only
      split
      · exact hset.trans (sameEntries_remove _ c)
      · exact hset

/-- Patching the code of a function changes no array. -/
theorem sameEntries_update {page : Word} (h : s.update pageOf page = some s') : SameEntries s s' := by
  obtain ⟨commit, -, h⟩ := Option.bind_eq_some_iff.mp h
  obtain ⟨next, -, h⟩ := Option.bind_eq_some_iff.mp h
  cases h
  -- an update is about the code and the flag of its context
  have hframe : (s.runUpdate next).fresh = s.fresh ∧ (s.runUpdate next).freedEntries = s.freedEntries ∧
      (s.runUpdate next).threads = s.threads := by
    unfold runUpdate activate deactivate
    split
    · split <;> exact ⟨rfl, rfl, rfl⟩
    · exact ⟨rfl, rfl, rfl⟩
  obtain ⟨hfresh, hfreed, hthreads⟩ := hframe
  refine { fresh := Nat.le_of_eq hfresh.symm, old := fun {c} _ => ?_,
           born := fun hle hlt => absurd (show _ < s.fresh from hfresh ▸ hlt) (Nat.not_lt.mpr hle), freedEntries := hfreed,
           frames := congrArg Stacks.frames hthreads }
  obtain ⟨activated, hctx⟩ := runUpdate_contexts s next c
  change ((s.runUpdate next).contexts c).listenerEntries = _ ∧ ((s.runUpdate next).contexts c).oldEntries = _
  rw [hctx]
  exact ⟨rfl, rfl⟩

/-- Destroying what a task is for changes no array of a context that is left. -/
theorem sameEntries_destroyTask (h : s.destroyTask = some s') : SameEntries s s' := by
  unfold destroyTask at h
  split at h
  case h_2 => cases h
  split at h
  · cases h
    exact .of_eq rfl rfl rfl rfl
  · cases h
    exact .of_eq rfl rfl rfl rfl

/-! ## Listeners that come and go

A listener that is added may need a larger array, and the old one is freed by the flush; one that is removed leaves its
place empty. -/

/-- **A listener is added.** The array of before stays as it was, under its number. -/
theorem entries_addListener (h : Entries s) (hnot : (s.contexts c).hasListener l = false) :
    Entries (s.addListener c l) := by
  -- the entry goes into a new array of this context, and the old one waits to be freed
  have hself : (s.addListener c l).contexts c =
      { s.contexts c with
        toFunctionContext := (s.contexts c).toFunctionContext.addListener l
        oldEntries := (s.contexts c).oldEntries ++ [(s.contexts c).listenerEntries] } := Function.update_self ..
  have hother : ∀ {c'}, c' ≠ c → (s.addListener c l).contexts c' = s.contexts c' :=
    fun hc' => Function.update_of_ne hc' ..
  constructor
  · intro r hr
    obtain ⟨hlt, hle, hunlisted⟩ := h.unlisted r hr
    refine ⟨hlt, ?_⟩
    by_cases hc : r.ctx = c
    · rw [hc] at hle hunlisted ⊢
      rw [hself, List.length_append, List.length_singleton]
      refine ⟨Nat.le_succ_of_le hle, ?_⟩
      rw [Context.entries, List.getD_eq_getElem?_getD, List.getElem?_append_left (by simp; omega)]
      exact hunlisted
    · rw [hother hc]
      exact ⟨hle, hunlisted⟩
  · intro c' hc'
    by_cases hc : c' = c
    · subst hc
      rw [hself]
      change (instances ((s.contexts c').listenerEntries.filter Option.isSome ++ [some l])).Nodup
      rw [instances_addListener, List.nodup_append]
      refine ⟨h.unique hc', List.nodup_singleton _, ?_⟩
      intro l' hl' l'' hl'' heq
      rw [List.mem_singleton.mp hl''] at heq
      rw [heq, ← hasListener_iff, hnot] at hl'
      cases hl'
    · rw [hother hc]
      exact h.unique hc'
  · exact h.held

/-- **A listener is removed**, where no thread has its entry: the slot of the freed entry is cleared. -/
theorem entries_removeListener (h : Entries s) (hc : c < s.fresh)
    (hno : ∀ fr ∈ s.threads.frames, fr.holds ≠ some ⟨c, (s.contexts c).oldEntries.length, l.listenerInstance⟩) :
    Entries (s.removeListener c l) := by
  have hself : (s.removeListener c l).contexts c =
      { s.contexts c with toFunctionContext := (s.contexts c).toFunctionContext.removeListener l } :=
    Function.update_self ..
  have hother : ∀ {c'}, c' ≠ c → (s.removeListener c l).contexts c' = s.contexts c' :=
    fun hc' => Function.update_of_ne hc' ..
  -- the slot of the listener is cleared in the array that is there
  have hcleared : instances ((s.contexts c).toFunctionContext.removeListener l).listenerEntries =
      (instances (s.contexts c).listenerEntries).erase l.listenerInstance := instances_clearSlot l _
  -- and its entry is freed at once
  have hfreed : (s.removeListener c l).freedEntries =
      s.freedEntries ++ [⟨c, (s.contexts c).oldEntries.length, l.listenerInstance⟩] := rfl
  constructor
  · intro r hr
    rw [hfreed] at hr
    rcases List.mem_append.mp hr with hr | hr
    · obtain ⟨hlt, hle, hunlisted⟩ := h.unlisted r hr
      refine ⟨hlt, ?_⟩
      by_cases hctx : r.ctx = c
      · rw [hctx] at hle hunlisted ⊢
        rw [hself]
        refine ⟨hle, fun hlisted => hunlisted ?_⟩
        rw [Context.entries, List.getD_eq_getElem?_getD] at hlisted ⊢
        rcases Nat.lt_or_eq_of_le hle with hlt' | heq
        · rwa [List.getElem?_append_left hlt'] at hlisted ⊢
        · rw [heq, List.getElem?_concat_length, Option.getD_some] at hlisted ⊢
          rw [listed_iff, hcleared] at hlisted
          exact listed_iff.mpr (List.mem_of_mem_erase hlisted)
      · rw [hother hctx]
        exact ⟨hle, hunlisted⟩
    · obtain rfl := List.mem_singleton.mp hr
      rw [hself]
      refine ⟨hc, Nat.le_refl _, fun hlisted => ?_⟩
      rw [Context.entries, List.getD_eq_getElem?_getD, List.getElem?_concat_length, Option.getD_some, listed_iff,
        hcleared] at hlisted
      exact (h.unique hc).not_mem_erase hlisted
  · intro c' hc'
    by_cases heq : c' = c
    · subst heq
      rw [hself]
      change (instances ((s.contexts c').toFunctionContext.removeListener l).listenerEntries).Nodup
      rw [hcleared]
      exact (h.unique hc').erase _
    · rw [hother heq]
      exact h.unique hc'
  · intro fr hfr r hr hmem
    rw [hfreed] at hmem
    rcases List.mem_append.mp hmem with hmem | hmem
    · exact h.held fr hfr r hr hmem
    · rw [List.mem_singleton.mp hmem] at hr
      exact hno fr hfr hr

/-- `gum_interceptor_attach` of a listener that is not there yet. -/
theorem entries_attachInside {f : Word} (hp : Patched s) (h : Entries s) : Entries (s.attachInside relocatable f l).2 := by
  unfold attachInside
  split
  · exact h
  · exact h
  · next s' c hc =>
      have hsame := ((sameEntries_instrument hp hc).1).entries h
      split
      · exact hsame
      · next hnot => exact entries_addListener hsame (Bool.eq_false_iff.mpr hnot)

/-- What the loop of `detach` leaves alone. -/
theorem detachFrom_frame (l : Listener) (s : State) (c : Nat) : (detachFrom l s c).threads = s.threads ∧
    (detachFrom l s c).fresh = s.fresh ∧
    ∀ c', ((detachFrom l s c).contexts c').oldEntries = (s.contexts c').oldEntries := by
  have hlisted : ∀ c', ((s.removeListener c l).contexts c').oldEntries = (s.contexts c').oldEntries := by
    intro c'
    -- the context that loses the listener, and the others
    by_cases hc : c' = c
    · have hself : (s.removeListener c l).contexts c =
          { s.contexts c with toFunctionContext := (s.contexts c).toFunctionContext.removeListener l } :=
        Function.update_self ..
      rw [hc, hself]
    · exact congrArg Context.oldEntries (Function.update_of_ne hc ..)
  unfold detachFrom
  split
  · dsimp only
    split
    · obtain ⟨scheduled, hremove⟩ := removed_remove (s.removeListener c l) c
      refine ⟨hremove.threads, hremove.fresh, fun c' => (hlisted c').symm ▸ ?_⟩
      by_cases hc : c' = c
      · rw [hc, hremove.self]
      · rw [hremove.others hc]
    · exact ⟨rfl, rfl, hlisted⟩
  · exact ⟨rfl, rfl, fun _ => rfl⟩

/-- One context of the loop in `gum_interceptor_detach`. -/
theorem entries_detachFrom (h : Entries s) (hc : c < s.fresh)
    (hno : ∀ fr ∈ s.threads.frames, fr.holds ≠ some ⟨c, (s.contexts c).oldEntries.length, l.listenerInstance⟩) :
    Entries (detachFrom l s c) := by
  unfold detachFrom
  split
  · have hremoved := entries_removeListener h hc hno
    dsimp only
    split
    · exact (sameEntries_remove _ c).entries hremoved
    · exact hremoved
  · exact h

/-- The whole loop, in whichever order the table gives the contexts. -/
theorem entries_detachLoop {order : List Nat} (h : Entries s) (hfresh : ∀ c ∈ order, c < s.fresh)
    (hno : ∀ c ∈ order, ∀ fr ∈ s.threads.frames,
      fr.holds ≠ some ⟨c, (s.contexts c).oldEntries.length, l.listenerInstance⟩) :
    Entries (order.foldl (detachFrom l) s) := by
  induction order generalizing s with
  | nil => exact h
  | cons c order ih =>
      obtain ⟨hthreads, hsize, hold⟩ := detachFrom_frame l s c
      refine ih (entries_detachFrom h (hfresh c List.mem_cons_self) (hno c List.mem_cons_self)) ?_ ?_
      · intro c' hc'
        rw [hsize]
        exact hfresh c' (List.mem_cons_of_mem _ hc')
      · intro c' hc'
        rw [hthreads, hold]
        exact hno c' (List.mem_cons_of_mem _ hc')

end State

/-! ## Steps of threads

A thread in `begin_invocation` holds the array that it has read. -/

/-- **A step of a thread**: an entry that it has is one that it had, or has a slot. -/
theorem Moved.entries {s s' : State} {old new : List Frame} (h : Moved s s' old new) (he : Entries s) : Entries s' := by
  have hsame : s'.freedEntries = s.freedEntries := by rw [h.rest]
  -- a thread counts in a context, and leaves its arrays alone
  have hlists : ∀ c, (s'.contexts c).listenerEntries = (s.contexts c).listenerEntries ∧
      (s'.contexts c).oldEntries = (s.contexts c).oldEntries := by
    intro c
    obtain ⟨n, hn, -⟩ := h.contexts c
    rw [hn]
    exact ⟨rfl, rfl⟩
  constructor
  · intro r hmem
    rw [hsame] at hmem
    rw [h.fresh, Context.entries, (hlists r.ctx).1, (hlists r.ctx).2]
    exact he.unlisted r hmem
  · intro c hc
    rw [h.fresh] at hc
    rw [(hlists c).1]
    exact he.unique hc
  · intro fr hfr r hholds
    rw [hsame]
    rcases h.mem hfr with hmem | hmem
    · exact he.held fr hmem r hholds
    cases fr with
    | listening c n use trap =>
        obtain ⟨l, hl, rfl⟩ := Option.map_eq_some_iff.mp hholds
        rcases (h.from_old _ hmem).2 with ⟨-, rfl⟩ | ⟨before, hbefore, hfrom⟩
        · cases hl
        · rcases hfrom l hl with hlisted | hbefore'
          · exact fun hfreed => (he.unlisted _ hfreed).2.2 hlisted
          · refine he.held _ (h.mem_old hbefore) _ ?_
            rw [Frame.holds, hbefore', Option.map_some]
    | arrived c | begun c | trapped c | departing c => cases hholds

/-! ## Runs -/

variable {relocatable : Word → Bool} {pageOf : Word → Word}

/-- **One step** that frees no entry which a thread has. -/
theorem entries_step {s s' : State} {e : Event} (hi : Inv s) (he : Entries s)
    (hstep : step relocatable pageOf s e = some s') (hsafe : ¬ s.Dangling e) : Entries s' := by
  -- by the event; what is not an attach or a detach keeps all entries
  cases e with
  | attach f l =>
      obtain ⟨-, rfl⟩ := State.locked_some hstep
      have hopen := State.sameEntries_openTransaction s
      exact (State.sameEntries_transactionEnd _).entries
        (State.entries_attachInside (State.inv_openTransaction hi).patched (hopen.entries he))
  | replace type f r =>
      obtain ⟨-, rfl⟩ := State.locked_some hstep
      have hopen := State.sameEntries_openTransaction s
      exact ((hopen.trans (State.sameEntries_replaceInside (State.inv_openTransaction hi).patched)).trans
        (State.sameEntries_transactionEnd _)).entries he
  | revert f =>
      obtain ⟨-, rfl⟩ := State.locked_some hstep
      have hopen := State.sameEntries_openTransaction s
      exact ((hopen.trans (State.sameEntries_revertInside _ f)).trans (State.sameEntries_transactionEnd _)).entries he
  | detach l order =>
      simp only [step] at hstep
      split at hstep
      case isFalse => cases hstep
      rename_i horder
      obtain ⟨-, rfl⟩ := State.locked_some hstep
      refine (State.sameEntries_transactionEnd _).entries
        (State.entries_detachLoop ((State.sameEntries_openTransaction s).entries he) ?_ ?_)
      · intro c hc
        exact (hi.patched.registered (State.mem_registered (horder.mem_iff.mp hc))).1
      · intro c hc fr hfr hholds
        exact hsafe ⟨c, hc, fr, hfr, hholds⟩
  | beginTransaction =>
      obtain ⟨-, rfl⟩ := State.locked_some hstep
      refine SameEntries.entries ?_ he
      exact .of_eq rfl rfl rfl rfl
  | endTransaction =>
      obtain ⟨-, rfl⟩ := State.locked_some hstep
      exact (State.sameEntries_transactionEnd s).entries he
  | flush =>
      obtain ⟨-, rfl⟩ := State.locked_some hstep
      unfold State.flush
      split
      · have hbegin : SameEntries s s.transactionBegin := .of_eq rfl rfl rfl rfl
        exact (hbegin.trans (State.sameEntries_transactionEnd _)).entries he
      · exact he
  | update page => exact (State.sameEntries_update hstep).entries he
  | destroyTask => exact (State.sameEntries_destroyTask hstep).entries he
  | lockAgain i =>
      simp only [step, State.lockAgain] at hstep
      split at hstep <;> cases hstep
      refine SameEntries.entries ?_ he
      exact .of_eq rfl rfl rfl rfl
  | unlock =>
      simp only [step, State.unlock] at hstep
      split at hstep <;> cases hstep
      refine SameEntries.entries ?_ he
      exact .of_eq rfl rfl rfl rfl
  | spawn =>
      cases hstep
      refine SameEntries.entries ?_ he
      exact { fresh := Nat.le_refl _, old := fun _ => ⟨rfl, rfl⟩, born := fun hle hlt => absurd hlt (Nat.not_lt.mpr hle),
              freedEntries := rfl, frames := Stacks.frames_spawn _ }
  | thread t e =>
      obtain ⟨old, new, hmoved⟩ := State.threadStep_moved hstep
      exact hmoved.entries he

end Gum.Transaction
