import FreeProbe.Helper.ProbeMemory

/-!
# `Helper.ProbeFault` — where a fault ends

The handler of SIGSEGV is one for all threads, and each thread keeps the handler that it has found: only a thread that
probed before any other has found the application's. `Takes` and `Reaches` say when the handlers, one calling the other
through the thread's variables, come to the end of the probe's copy and to the application's handler; `probe_lawful_iff`
is about all runs of any number of threads.
-/

namespace Probe

open Lib Lib.Memory

/-! ## The law of the reports

What a probe should do: all of the range is copied, or an error is returned and nothing outside of the buffer has
changed. -/

/-- What becomes of a fault before the first probe. -/
def originalOutcome (installed : Bool) : Outcome := if installed then .application else .default

/-- A probe on valid addresses returns 0 and has copied the bytes, one on invalid addresses returns `-EFAULT`; a fault of
    the application's own reaches the handler that it had installed. -/
def Report.Lawful (access : Access) (installed : Bool) : Report → Prop
  | .quiet => True
  | .returned r code moved =>
    if r.Valid access then code = 0 ∧ ∃ bytes, moved = some (bytes, bytes) ∧ bytes.length = r.size.toNat
    else code = -EFAULT
  | .faulted outcome => outcome = originalOutcome installed
  | .lost _ | .leaked _ => False

/-- A run whose probes and faults all end so. -/
def RunLawful (build : Build) (access : Access) (installed : Bool) (bytes : Nat → BitVec 8) (events : List Event) :
    Prop :=
  ∃ reports w, runAll (World.step build access) (.init installed bytes) events = some (reports, w) ∧
    ∀ report ∈ reports, report.Lawful access installed

/-! ## The condition

Which accesses fault, which handlers are installed and which thread faults decide what comes of a probe. -/

/-- A fault in a probe's copy comes to the probe's own handler, at once or through the other one. -/
def Takes (l : Locals) (slot : Handler) (kind : Kind) : Prop :=
  slot = kind.handler ∨ slot = kind.other.handler ∧ l.origin kind.other = kind.handler

/-- The thread has found the application's handler with the probe whose handler is called first, or with the other one,
    which that one has found. -/
def Found (l : Locals) (kind : Kind) : Prop :=
  l.origin kind = .application ∨ l.origin kind = kind.other.handler ∧ l.origin kind.other = .application

/-- A fault outside of a probe comes to what was there before the first probe. -/
def Reaches (l : Locals) (slot : Handler) : Prop :=
  match slot with
  | .null => True
  | .application => True
  | .segvRead => Found l .read
  | .segvWrite => Found l .write

/-- A copy between valid addresses has ranges that do not overlap, and the fault of another comes to the probe's
    handler; a probe that was sent to its jump point finds its frame there. -/
def CopyFits (build : Build) (access : Access) (l : Locals) (slot : Handler) : Phase → Prop
  | .copying r => if r.Valid access then ¬ r.Overlaps else Takes l slot r.kind
  | .jumped r pushed => build.framePointer r.kind ∨ pushed = 0
  | _ => True

/-- **The condition on a step.** -/
def World.Fits (build : Build) (access : Access) (w : World) : Event → Prop
  | .probe _ _ => True
  | .step t _ _ => CopyFits build access (w.locals t) w.slot (w.phase t)
  | .fault t => w.phase t = .outside → Reaches (w.locals t) w.slot

instance (l : Locals) (slot : Handler) (kind : Kind) : Decidable (Takes l slot kind) :=
  inferInstanceAs (Decidable (_ ∨ _ ∧ _))

instance (l : Locals) (kind : Kind) : Decidable (Found l kind) := inferInstanceAs (Decidable (_ ∨ _ ∧ _))

instance (l : Locals) : ∀ slot, Decidable (Reaches l slot)
  | .null | .application => inferInstanceAs (Decidable True)
  | .segvRead | .segvWrite => inferInstanceAs (Decidable (Found ..))

instance (build : Build) (access : Access) (l : Locals) (slot : Handler) :
    ∀ phase, Decidable (CopyFits build access l slot phase)
  | .copying r => inferInstanceAs (Decidable (if r.Valid access then ¬ r.Overlaps else Takes l slot r.kind))
  | .jumped _ _ => inferInstanceAs (Decidable (_ ∨ _))
  | .outside | .checking _ | .installing _ _ | .copied _ _ _ | .gone => inferInstanceAs (Decidable True)

instance (build : Build) (access : Access) (w : World) : ∀ e, Decidable (w.Fits build access e)
  | .probe _ _ => inferInstanceAs (Decidable True)
  | .step _ _ _ => inferInstanceAs (Decidable (CopyFits ..))
  | .fault _ => inferInstanceAs (Decidable (_ → _))

/-! ## The handlers

A fault is handled by what is installed, which is ours, that of the program, or one put in front of ours. -/

variable {access : Access} {installed : Bool} {l : Locals} {slot : Handler}

/-- The handler of a probe runs its own check, and passes on what is not its own. -/
theorem callHandler_probe (fuel : Nat) (kind : Kind) :
    callHandler l (fuel + 1) kind.handler = probeHandler l kind (callHandler l fuel) := by
  cases kind <;> rfl

/-- A handler of a probe that is not under way hands the fault on to the handler that it has found. -/
theorem callHandler_idle {kind : Kind} (hidle : l.status kind = .notRunning) (fuel : Nat) :
    callHandler l (fuel + 1) kind.handler =
      if l.origin kind ≠ .null then callHandler l fuel (l.origin kind) else some .threw := by
  rw [callHandler_probe, probeHandler, hidle]

/-- The handlers there are. -/
theorem Handler.cases_kind (h : Handler) (kind : Kind) :
    h = .null ∨ h = .application ∨ h = kind.handler ∨ h = kind.other.handler := by
  cases h <;> cases kind <;> simp [Kind.handler, Kind.other]

/-- A probe's handler is one. -/
theorem Kind.handler_ne_null (kind : Kind) : kind.handler ≠ .null := by cases kind <;> simp [Kind.handler]

/-- And not the application's. -/
theorem Kind.handler_ne_application (kind : Kind) : kind.handler ≠ .application := by
  cases kind <;> simp [Kind.handler]

/-- The two probes have one each. -/
theorem Kind.handler_other_ne (kind : Kind) : kind.other.handler ≠ kind.handler := by
  cases kind <;> simp [Kind.handler, Kind.other]

/-- **A fault in a copy** ends the copy exactly if it comes to the probe's own handler. -/
theorem deliver_probing (slot : Handler) {kind : Kind} (hrunning : l.status kind = .runningNoError)
    (hother : l.status kind.other = .notRunning) :
    (Takes l slot kind → deliver l slot = .jumped kind) ∧
      (¬ Takes l slot kind → ∀ kind', deliver l slot ≠ .jumped kind') := by
  -- the handler of the probe that runs jumps
  have hown : ∀ fuel, callHandler l (fuel + 1) kind.handler = some (.jumped kind) := by
    intro fuel
    rw [callHandler_probe, probeHandler, hrunning]
  unfold deliver
  rcases Handler.cases_kind slot kind with rfl | rfl | rfl | rfl
  · refine ⟨fun h => ?_, fun _ kind' h => by simp [callHandler] at h⟩
    rcases h with h | ⟨h, -⟩
    · exact absurd h.symm kind.handler_ne_null
    · exact absurd h.symm kind.other.handler_ne_null
  · refine ⟨fun h => ?_, fun _ kind' h => by simp [callHandler] at h⟩
    rcases h with h | ⟨h, -⟩
    · exact absurd h.symm kind.handler_ne_application
    · exact absurd h.symm kind.other.handler_ne_application
  · rw [hown]
    exact ⟨fun _ => rfl, fun h => absurd (.inl rfl) h⟩
  · have htakes : Takes l kind.other.handler kind ↔ l.origin kind.other = kind.handler := by
      refine ⟨fun h => ?_, fun h => .inr ⟨rfl, h⟩⟩
      rcases h with h | ⟨-, h⟩
      · exact absurd h kind.handler_other_ne
      · exact h
    rw [htakes, callHandler_idle hother]
    rcases Handler.cases_kind (l.origin kind.other) kind with h | h | h | h
    · simp [h, Ne.symm kind.handler_ne_null]
    · simp [h, callHandler, Ne.symm kind.handler_ne_application]
    · rw [h, if_pos kind.handler_ne_null, hown]
      simp
    · rw [h, if_pos kind.other.handler_ne_null, callHandler_idle hother, h, if_pos kind.other.handler_ne_null,
        callHandler_idle hother, h, if_pos kind.other.handler_ne_null]
      simp [callHandler, kind.handler_other_ne]

/-- **A fault outside of a probe**, when a probe's handler is installed. -/
theorem deliver_found (hidle : ∀ kind, l.status kind = .notRunning) (kind : Kind) :
    (Found l kind → deliver l kind.handler = .application) ∧
      (¬ Found l kind → deliver l kind.handler ≠ .application ∧ deliver l kind.handler ≠ .default) := by
  unfold deliver Found
  rw [callHandler_idle (hidle kind)]
  rcases Handler.cases_kind (l.origin kind) kind with h | h | h | h
  · simp [h, Ne.symm kind.other.handler_ne_null]
  · simp [h, callHandler]
  · -- it has found itself
    have hloop : callHandler l 2 kind.handler = none := by
      rw [callHandler_idle (hidle kind), h, if_pos kind.handler_ne_null, callHandler_idle (hidle kind), h,
        if_pos kind.handler_ne_null]
      rfl
    rw [h, if_pos kind.handler_ne_null, hloop]
    simp [kind.handler_ne_application, Ne.symm kind.handler_other_ne]
  · rw [h, if_pos kind.other.handler_ne_null, callHandler_idle (hidle kind.other)]
    rcases Handler.cases_kind (l.origin kind.other) kind with h' | h' | h' | h'
    · simp [h', kind.other.handler_ne_application]
    · simp [h', callHandler]
    · -- the two handlers call each other
      rw [h', if_pos kind.handler_ne_null, callHandler_idle (hidle kind), h, if_pos kind.other.handler_ne_null]
      simp [callHandler, kind.handler_ne_application, kind.other.handler_ne_application]
    · rw [h', if_pos kind.other.handler_ne_null, callHandler_idle (hidle kind.other), h',
        if_pos kind.other.handler_ne_null]
      simp [callHandler, kind.other.handler_ne_application]

/-- What `looped` means: handlers that do not come to an end in three calls never do. -/
theorem callHandler_loops {h : Handler} (hnone : callHandler l 3 h = none) (n : Nat) : callHandler l n h = none := by
  -- the handler that is called next does not come to an end in three calls either
  have hnext : ∀ kind, callHandler l 3 kind.handler = none → l.status kind = .notRunning ∧ l.origin kind ≠ .null ∧
      callHandler l 3 (l.origin kind) = none := by
    intro kind hnone
    have hidle : l.status kind = .notRunning := by
      rw [callHandler_probe, probeHandler] at hnone
      split at hnone
      · assumption
      · cases hnone
      · cases hnone
    rw [callHandler_idle hidle] at hnone
    split at hnone
    · next hnull =>
        refine ⟨hidle, hnull, ?_⟩
        rcases Handler.cases_kind (l.origin kind) kind with h | h | h | h
        · exact absurd h hnull
        · simp [h, callHandler] at hnone
        · rw [h, callHandler_idle hidle, if_pos hnull, h]
          rwa [h] at hnone
        · rw [h] at hnone ⊢
          rw [callHandler_probe, probeHandler] at hnone ⊢
          split at hnone
          · split at hnone
            · next hother hnull' =>
                simp only [if_pos hnull']
                rcases Handler.cases_kind (l.origin kind.other) kind with h' | h' | h' | h'
                · exact absurd h' hnull'
                · simp [h', callHandler] at hnone
                · rw [h', callHandler_idle hidle, if_pos hnull, h, callHandler_idle hother, if_pos hnull', h']
                  rfl
                · rw [h', callHandler_idle hother, if_pos hnull', h', callHandler_idle hother, if_pos hnull']
                  rfl
            · cases hnone
          · cases hnone
          · cases hnone
    · cases hnone
  induction n generalizing h with
  | zero => rfl
  | succ n ih =>
      rcases Handler.cases_kind h .read with rfl | rfl | rfl | rfl
      · cases hnone
      · cases hnone
      · obtain ⟨hidle, hnull, hnone⟩ := hnext .read hnone
        rw [callHandler_idle hidle, if_pos hnull]
        exact ih hnone
      · obtain ⟨hidle, hnull, hnone⟩ := hnext .write hnone
        rw [show Kind.read.other = .write from rfl, callHandler_idle hidle, if_pos hnull]
        exact ih hnone

/-! ## The invariant

The variables of each thread say where it is in its probe, and the slot of the signal has what was there at first or a
probe's handler. -/

/-- The status of a kind of probe, by where the thread is. -/
def Phase.status (kind : Kind) : Phase → Status
  | .checking r | .installing r _ | .copying r | .copied r _ _ => if r.kind = kind then .runningNoError else .notRunning
  | .jumped r _ => if r.kind = kind then .runningError else .notRunning
  | .outside | .gone => .notRunning

/-- What the thread's place says of its copy. -/
def Phase.Lawful (access : Access) : Phase → Prop
  | .copied r loaded stored => r.Valid access ∧ stored = loaded ∧ loaded.length = r.size.toNat
  | .jumped r _ => ¬ r.Valid access
  | .checking r | .installing r _ | .copying r => 0 ≤ r.size
  | .outside | .gone => True

/-- Where a thread is in its probe, and what its thread-locals say of that. -/
structure ThreadInv (access : Access) (installed : Bool) (l : Locals) (phase : Phase) : Prop where
  status : phase ≠ .gone → ∀ kind, l.status kind = phase.status kind
  origin : ∀ kind, l.origin kind = .application → installed = true
  lawful : phase.Lawful access

/-- The slot has what was there at first, or the handler of a probe. -/
def SlotInv (installed : Bool) (slot : Handler) : Prop :=
  slot = (if installed then .application else .null) ∨ ∃ kind : Kind, slot = kind.handler

/-- All threads, and the handler that is installed. -/
structure WorldInv (access : Access) (installed : Bool) (w : World) : Prop where
  slot    : SlotInv installed w.slot
  threads : ∀ t, ThreadInv access installed (w.locals t) (w.phase t)

/-- No thread is in a probe. -/
theorem worldInv_init (access : Access) (installed : Bool) (bytes : Nat → BitVec 8) :
    WorldInv access installed (.init installed bytes) := by
  refine ⟨.inl rfl, fun t => ⟨fun _ _ => rfl, fun kind h => ?_, trivial⟩⟩
  simp [World.init, Locals.init] at h

variable {w : World}

/-- A step of one thread. -/
theorem worldInv_setThread (hw : WorldInv access installed w) {t : Nat} {phase : Phase}
    (ht : ThreadInv access installed l phase) : WorldInv access installed (w.setThread t l phase) := by
  refine ⟨hw.slot, fun t' => ?_⟩
  show ThreadInv access installed (Function.update w.locals t l t') (Function.update w.phase t phase t')
  by_cases h : t' = t
  · rw [h, Function.update_self, Function.update_self]
    exact ht
  · rw [Function.update_of_ne h, Function.update_of_ne h]
    exact hw.threads t'

/-- The status of one kind changes. -/
theorem setStatus_status (kind kind' : Kind) (status : Status) :
    (l.setStatus kind status).status kind' = if kind' = kind then status else l.status kind' :=
  Function.update_apply ..

/-- The status of a probe is set, the other kind's probe is not under way. -/
theorem status_setStatus {r : Request} {status : Status} (hother : ∀ kind, kind ≠ r.kind → l.status kind = .notRunning)
    (kind : Kind) : (l.setStatus r.kind status).status kind = if r.kind = kind then status else .notRunning := by
  rw [setStatus_status]
  by_cases h : kind = r.kind
  · rw [if_pos h, if_pos h.symm]
  · rw [if_neg h, if_neg (Ne.symm h), hother kind h]

/-- **A probe starts**: one with a length of zero or a null pointer is over at once. -/
theorem worldInv_startProbe (hw : WorldInv access installed w) {t : Nat} (ht : w.phase t = .outside) (r : Request) :
    WorldInv access installed (w.startProbe t r).2 ∧ (w.startProbe t r).1.Lawful access installed := by
  unfold World.startProbe
  split
  · next hsize =>
      refine ⟨hw, ?_⟩
      show if r.Valid access then _ else _
      rw [if_neg fun h : r.Valid access => absurd h.1 (by omega)]
  · next hsize =>
      have hthread := hw.threads t
      rw [ht] at hthread
      refine ⟨worldInv_setThread hw ⟨fun _ kind => ?_, hthread.origin, ?_⟩, trivial⟩
      · exact status_setStatus (fun kind' _ => hthread.status (by simp) kind') kind
      · show 0 ≤ r.size
        omega

/-- It reads the handler that is installed. -/
theorem worldInv_check (hw : WorldInv access installed w) {t : Nat} {r : Request} (ht : w.phase t = .checking r)
    (stale : Handler) : WorldInv access installed (w.check t r stale) := by
  have hthread := hw.threads t
  rw [ht] at hthread
  have hstatus := hthread.status (by simp)
  unfold World.check
  dsimp only
  split
  · split
    · exact worldInv_setThread hw ⟨fun _ => hstatus, hthread.origin, hthread.lawful⟩
    · refine worldInv_setThread hw ⟨fun _ => hstatus, fun kind h => ?_, hthread.lawful⟩
      dsimp only at h
      rw [Function.update_apply] at h
      split at h
      · -- the application's handler was there, so it was there at first
        rcases hw.slot with hslot | ⟨kind', hslot⟩
        · rw [hslot] at h
          split at h
          · assumption
          · cases h
        · rw [hslot] at h
          exact absurd h kind'.handler_ne_application
      · exact hthread.origin kind h
  · exact worldInv_setThread hw ⟨fun _ => hstatus, hthread.origin, hthread.lawful⟩

/-- And installs its own. -/
theorem worldInv_install (hw : WorldInv access installed w) {t : Nat} {r : Request} {original : Handler}
    (ht : w.phase t = .installing r original) : WorldInv access installed (w.install t r original) := by
  have hthread := hw.threads t
  rw [ht] at hthread
  have hnext : WorldInv access installed (w.setThread t (w.locals t) (.copying r)) :=
    worldInv_setThread hw ⟨fun _ => hthread.status (by simp), hthread.origin, hthread.lawful⟩
  unfold World.install
  dsimp only
  split
  · exact ⟨.inr ⟨r.kind, rfl⟩, hnext.threads⟩
  · exact hnext

/-- What the end of a probe does. -/
theorem worldInv_finish (build : Build) (hw : WorldInv access installed w) {t : Nat} {r : Request} {pushed : Nat}
    {moved : Option (List (BitVec 8) × List (BitVec 8))}
    (ht : (∃ loaded stored, w.phase t = .copied r loaded stored ∧ moved = some (loaded, stored)) ∨
      w.phase t = .jumped r pushed ∧ moved = none) :
    WorldInv access installed (w.finish build t r pushed moved).2 ∧
      ((w.finish build t r pushed moved).1.Lawful access installed ↔ build.framePointer r.kind ∨ pushed = 0) := by
  have hthread := hw.threads t
  -- the status is put back
  have hidle : ∀ kind, ((w.locals t).setStatus r.kind .notRunning).status kind = .notRunning := by
    intro kind
    rw [status_setStatus]
    · split <;> rfl
    · intro kind' hkind
      rcases ht with ⟨loaded, stored, ht, -⟩ | ⟨ht, -⟩
      · rw [ht] at hthread
        rw [hthread.status (by simp) kind', Phase.status, if_neg (Ne.symm hkind)]
      · rw [ht] at hthread
        rw [hthread.status (by simp) kind', Phase.status, if_neg (Ne.symm hkind)]
  unfold World.finish
  dsimp only
  split
  · next hframe =>
      refine ⟨worldInv_setThread hw ⟨fun _ kind => hidle kind, hthread.origin, trivial⟩, iff_of_true ?_ hframe⟩
      rcases ht with ⟨loaded, stored, ht, rfl⟩ | ⟨ht, rfl⟩
      · rw [ht] at hthread
        obtain ⟨hvalid, hstored, hlength⟩ := hthread.lawful
        have hstatus : (w.locals t).status r.kind = .runningNoError := by
          rw [hthread.status (by simp), Phase.status, if_pos rfl]
        show if r.Valid access then _ else _
        rw [if_pos hvalid, hstatus, hstored]
        exact ⟨rfl, loaded, rfl, hlength⟩
      · rw [ht] at hthread
        have hstatus : (w.locals t).status r.kind = .runningError := by
          rw [hthread.status (by simp), Phase.status, if_pos rfl]
        show if r.Valid access then _ else _
        rw [if_neg hthread.lawful, hstatus]
        rfl
  · next hframe =>
      exact ⟨worldInv_setThread hw ⟨fun h => absurd rfl h, hthread.origin, trivial⟩, iff_of_false not_false hframe⟩

/-- What a copy does, if it is not undefined. -/
theorem worldInv_copy (build : Build) (hw : WorldInv access installed w) {t : Nat} {r : Request}
    (ht : w.phase t = .copying r) (hdefined : ¬ (r.Valid access ∧ r.Overlaps)) (torn : List (Option (BitVec 8))) :
    ∃ report w', w.copy build access t r torn = some (report, w') ∧ WorldInv access installed w' ∧
      (report.Lawful access installed ↔ CopyFits build access (w.locals t) w.slot (.copying r)) := by
  have hthread := hw.threads t
  rw [ht] at hthread
  have hstatus := hthread.status (by simp)
  have hrunning : (w.locals t).status r.kind = .runningNoError := by
    rw [hstatus, Phase.status, if_pos rfl]
  have hother : (w.locals t).status r.kind.other = .notRunning := by
    rw [hstatus, Phase.status, if_neg]
    cases r.kind <;> simp [Kind.other]
  -- the bytes play no part in the invariant
  have hbytes : ∀ {w' : World} (bytes : Nat → BitVec 8), WorldInv access installed w' →
      WorldInv access installed { w' with bytes := bytes } := fun _ h => ⟨h.slot, h.threads⟩
  obtain ⟨htakes, hleaks⟩ := deliver_probing w.slot hrunning hother
  unfold World.copy CopyFits
  dsimp only
  by_cases hvalid : r.Valid access
  · have hoverlaps : ¬ r.Overlaps := fun h => hdefined ⟨hvalid, h⟩
    rw [if_pos hvalid, if_pos hvalid, if_neg hoverlaps]
    have hlength : (load w.bytes r.src r.size.toNat).length = r.size.toNat := length_load
    have hstored : load (store w.bytes r.dst (load w.bytes r.src r.size.toNat)) r.dst r.size.toNat =
        load w.bytes r.src r.size.toNat := by
      have hall : ∀ xs : List (BitVec 8), xs.length = r.size.toNat →
          load (store w.bytes r.dst xs) r.dst r.size.toNat = xs := by
        intro xs hxs
        rw [← hxs]
        exact load_store
      exact hall _ hlength
    refine ⟨_, _, rfl, hbytes _ (worldInv_setThread hw ⟨fun _ => hstatus, hthread.origin, hvalid, hstored, hlength⟩), ?_⟩
    exact iff_of_true trivial hoverlaps
  · rw [if_neg hvalid, if_neg hvalid]
    by_cases h : Takes (w.locals t) w.slot r.kind
    · rw [htakes h]
      refine ⟨_, _, rfl, hbytes _ (worldInv_setThread hw ⟨fun _ kind => ?_, hthread.origin, hvalid⟩), ?_⟩
      · refine (setStatus_status ..).trans ?_
        rw [hstatus]
        simp only [Phase.status, eq_comm (a := kind)]
        split <;> rfl
      · exact iff_of_true trivial h
    · have hleak := hleaks h
      have hgone : WorldInv access installed (w.setThread t (w.locals t) .gone) :=
        worldInv_setThread hw ⟨fun h => absurd rfl h, hthread.origin, trivial⟩
      cases hdeliver : deliver (w.locals t) w.slot with
      | jumped kind => exact absurd hdeliver (hleak kind)
      | default | application | resumed | threw | looped =>
          exact ⟨_, _, rfl, hbytes _ hgone, iff_of_false not_false h⟩

/-- What a fault of the application's own does. -/
theorem worldInv_applicationFault (hw : WorldInv access installed w) {t : Nat} (ht : w.phase t = .outside) :
    WorldInv access installed (w.applicationFault t).2 ∧
      ((w.applicationFault t).1.Lawful access installed ↔ Reaches (w.locals t) w.slot) := by
  have hthread := hw.threads t
  rw [ht] at hthread
  have hidle : ∀ kind, (w.locals t).status kind = .notRunning := hthread.status (by simp)
  have hgone : WorldInv access installed (w.setThread t (w.locals t) .gone) :=
    worldInv_setThread hw ⟨fun h => absurd rfl h, hthread.origin, trivial⟩
  -- the outcome is that of the first handler exactly if the handlers reach it
  have hreach : deliver (w.locals t) w.slot = originalOutcome installed ↔ Reaches (w.locals t) w.slot := by
    rcases hw.slot with hslot | ⟨kind, hslot⟩
    · rw [hslot]
      cases installed
      · exact ⟨fun _ => trivial, fun _ => rfl⟩
      · exact ⟨fun _ => trivial, fun _ => rfl⟩
    · rw [hslot]
      obtain ⟨hfound, hlost⟩ := deliver_found hidle kind
      have hreaches : Reaches (w.locals t) kind.handler ↔ Found (w.locals t) kind := by
        cases kind <;> exact Iff.rfl
      rw [hreaches]
      constructor
      · intro h
        by_contra hnot
        obtain ⟨happ, hdef⟩ := hlost hnot
        unfold originalOutcome at h
        split at h
        · exact happ h
        · exact hdef h
      · intro h
        have hinstalled : installed = true := by
          rcases h with h | ⟨-, h⟩
          · exact hthread.origin _ h
          · exact hthread.origin _ h
        rw [hfound h, hinstalled]
        rfl
  unfold World.applicationFault
  cases hdeliver : deliver (w.locals t) w.slot with
  | application =>
      rw [hdeliver] at hreach
      exact ⟨hw, hreach⟩
  | default | jumped kind | resumed | threw | looped =>
      rw [hdeliver] at hreach
      exact ⟨hgone, hreach⟩

/-! ## Runs -/

/-- The copy of an event is one that `memcpy` leaves undefined. -/
def World.Undefined (access : Access) (w : World) : Event → Prop
  | .step t _ _ => ∃ r, w.phase t = .copying r ∧ r.Valid access ∧ r.Overlaps
  | .probe _ _ | .fault _ => False

/-- **One step.** Its report is lawful exactly if it meets the condition. -/
theorem worldInv_step (build : Build) (hw : WorldInv access installed w) (e : Event)
    (hdefined : ¬ w.Undefined access e) :
    ∃ report w', w.step build access e = some (report, w') ∧ WorldInv access installed w' ∧
      (report.Lawful access installed ↔ w.Fits build access e) := by
  -- by the event, and for a thread by its phase
  cases e with
  | probe t r =>
      simp only [World.step]
      split
      · next ht =>
          obtain ⟨hnext, hlawful⟩ := worldInv_startProbe hw ht r
          exact ⟨_, _, rfl, hnext, fun _ => trivial, fun _ => hlawful⟩
      · exact ⟨_, _, rfl, hw, fun _ => trivial, fun _ => trivial⟩
  | step t stale torn =>
      simp only [World.step, World.Fits]
      cases ht : w.phase t with
      | outside => exact ⟨_, _, rfl, hw, fun _ => trivial, fun _ => trivial⟩
      | gone => exact ⟨_, _, rfl, hw, fun _ => trivial, fun _ => trivial⟩
      | checking r => exact ⟨_, _, rfl, worldInv_check hw ht stale, fun _ => trivial, fun _ => trivial⟩
      | installing r original => exact ⟨_, _, rfl, worldInv_install hw ht, fun _ => trivial, fun _ => trivial⟩
      | copying r => exact worldInv_copy build hw ht (fun h => hdefined ⟨r, ht, h⟩) torn
      | copied r loaded stored =>
          have hcopied : (∃ loaded' stored', w.phase t = .copied r loaded' stored' ∧
              some (loaded, stored) = some (loaded', stored')) ∨ w.phase t = .jumped r 0 ∧ some (loaded, stored) = none :=
            .inl ⟨loaded, stored, ht, rfl⟩
          obtain ⟨hnext, hlawful⟩ := worldInv_finish build hw hcopied
          exact ⟨_, _, rfl, hnext, fun _ => trivial, fun _ => hlawful.mpr (.inr rfl)⟩
      | jumped r pushed =>
          obtain ⟨hnext, hlawful⟩ := worldInv_finish build hw (.inr ⟨ht, rfl⟩)
          exact ⟨_, _, rfl, hnext, hlawful⟩
  | fault t =>
      simp only [World.step, World.Fits]
      split
      · next ht =>
          obtain ⟨hnext, hlawful⟩ := worldInv_applicationFault hw ht
          exact ⟨_, _, rfl, hnext, hlawful.trans ⟨fun h _ => h, fun h => h ht⟩⟩
      · next ht => exact ⟨_, _, rfl, hw, fun _ h => absurd h ht, fun _ => trivial⟩

/-- An undefined copy has no next step. -/
theorem step_undefined (build : Build) {e : Event} (h : w.Undefined access e) : w.step build access e = none := by
  match e, h with
  | .step t stale torn, ⟨r, ht, hvalid, hoverlaps⟩ =>
      simp only [World.step, ht, World.copy, if_pos hvalid, if_pos hoverlaps]

/-- What fits is defined. -/
theorem not_undefined_of_fits {build : Build} {e : Event} (h : w.Fits build access e) : ¬ w.Undefined access e := by
  intro hundefined
  match e, hundefined with
  | .step t stale torn, ⟨r, ht, hvalid, hoverlaps⟩ =>
      simp only [World.Fits, ht, CopyFits, if_pos hvalid] at h
      exact h hoverlaps

/-- **The probes and faults of a run end well exactly if its steps meet the condition.** -/
theorem probe_lawful_iff (build : Build) (access : Access) (installed : Bool) (bytes : Nat → BitVec 8)
    (events : List Event) :
    RunLawful build access installed bytes events ↔
      AllSteps (World.step build access) (World.Fits build access) (.init installed bytes) events := by
  constructor
  · rintro ⟨reports, w, hrun, hlawful⟩
    refine allSteps_of_run (I := WorldInv access installed) (fun w e hw hfit next hnext => ?_) (fun w e hw hnot next hnext => ?_)
      (worldInv_init access installed bytes) hrun hlawful
    · obtain ⟨report, w', hstep, hnext', -⟩ := worldInv_step build hw e (not_undefined_of_fits hfit)
      rw [Option.mem_def, hstep] at hnext
      cases hnext
      exact hnext'
    · by_cases hdefined : w.Undefined access e
      · rw [Option.mem_def, step_undefined build hdefined] at hnext
        cases hnext
      · obtain ⟨report, w', hstep, -, hlawful⟩ := worldInv_step build hw e hdefined
        rw [Option.mem_def, hstep] at hnext
        cases hnext
        exact fun h => hnot (hlawful.mp h)
  · intro hall
    obtain ⟨reports, w, hrun, -, hlawful⟩ := runAll_invariant (Q := Report.Lawful access installed)
      (fun w e hw hfit => by
        obtain ⟨report, w', hstep, hnext, hlawful⟩ := worldInv_step build hw e (not_undefined_of_fits hfit)
        exact ⟨report, w', hstep, hnext, hlawful.mpr hfit⟩)
      (worldInv_init access installed bytes) hall
    exact ⟨reports, w, hrun, hlawful⟩

/-- A probe of sixteen bytes from null to null returns `-EFAULT`, where the epilogue takes the frame pointer. -/
example :
    (runAll (World.step ⟨fun _ => true, fun _ => 8⟩ ⟨fun _ => false, fun _ => false⟩) (.init false fun _ => 0)
      [bpftimeProbeRead 1 0 16 0, .step 1 .null [], .step 1 .null [], .step 1 .null [], .step 1 .null []]).map
        (fun out => decide (.returned ⟨.read, 0, 0, 16⟩ (-EFAULT) none ∈ out.1)) = some true := by
  decide

/-- One thread reads a byte with a probe; another, which has made none, faults in the application's own code. -/
theorem probe_not_lawful : ¬ ∀ build access installed bytes events, RunLawful build access installed bytes events := by
  intro h
  obtain ⟨reports, w, hrun, hlawful⟩ := h ⟨fun _ => true, fun _ => 8⟩ ⟨fun _ => true, fun _ => true⟩ true (fun _ => 0)
    [bpftimeProbeRead 1 8 1 0, .step 1 .null [], .step 1 .null [], .step 1 .null [], .step 1 .null [], .fault 2]
  have hreports :
      (runAll (World.step ⟨fun _ => true, fun _ => 8⟩ ⟨fun _ => true, fun _ => true⟩) (.init true fun _ => 0)
        [bpftimeProbeRead 1 8 1 0, .step 1 .null [], .step 1 .null [], .step 1 .null [], .step 1 .null [], .fault 2]).map
          (fun out => decide (.faulted .threw ∈ out.1)) = some true := by
    decide
  rw [hrun] at hreports
  simp only [Option.map_some, Option.some.injEq, decide_eq_true_eq] at hreports
  have hthrew : Outcome.threw = originalOutcome true := hlawful _ hreports
  cases hthrew

end Probe
