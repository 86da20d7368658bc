import FreeProbe.Handler.Manager
import FreeProbe.Lib.Machine

/-!
# `Handler.TableRange` — indices of the handler table

`set_handler` looks whether a slot is allocated, which an fd outside of the table is not, and then assigns to it. The
range is left to the callers: the `is_…_fd` functions and `clear_id_at` check it, the functions that add a handler do
not, and `open_fake_fd` may fail or return an fd behind the table.
-/

namespace Handler

variable {shm shm' : Shm} {fd r : Int} {handler : HandlerVariant}

/-- The fds of an operation, the ones it asks for included. -/
def fdsOf : ShmOp → List Int
  | .addBpfProg fd fake _ _ _ | .addBpfMap _ fd fake _ _ | .addUprobe fd fake _ _ _ _ _
  | .addUprobeOverride fd fake _ _ _ _ | .addTracepoint fd fake _ _ => [Shm.fdOrFake fd fake]
  | .dupBpfMap _ oldfd newfd fake => [oldfd, Shm.fdOrFake newfd fake]
  | .addKprobe fd fake _ _ _ _ | .addSoftwarePerfEvent fd fake _ _ _ => [fd.getD fake]
  | .addCustomPerfEvent fake _ _ | .epollCreate fake | .addMemfdHandler fake _ _ => [fake]
  | .addBpfProgAttachTarget perfFd bpfFd _ fake | .attachPerfToBpf perfFd bpfFd _ fake => [perfFd, bpfFd, fake]
  | .addBpfLink fd fake progFd targetFd => [Shm.fdOrFake fd fake, progFd, targetFd]
  | .setEnabled fd _ | .closeFd fd => [fd]

/-- A negative result, or none. -/
def Failed (ret : Option Int) : Prop := ∀ r ∈ ret, r < 0

/-- An operation fails and leaves the table and the segment. -/
def FailsUnchanged (shm : Shm) (op : ShmOp) : Prop := ∃ ret, shm.step op = .ok (ret, shm) ∧ Failed ret

/-- **An operation stays in the table**: it indexes it in range only, and with an fd that is out of range it fails and
    changes nothing. -/
def StaysInTable (shm : Shm) (op : ShmOp) : Prop :=
  shm.step op ≠ .error .outOfRange ∧ ((∃ fd ∈ fdsOf op, ¬ shm.InRange fd) → FailsUnchanged shm op)

/-- The condition on an operation and the table before it. -/
def FdsFit (shm : Shm) : ShmOp → Prop
  | .addBpfProg fd fake _ _ _ | .addBpfMap _ fd fake _ _ | .addUprobe fd fake _ _ _ _ _
  | .addUprobeOverride fd fake _ _ _ _ | .addTracepoint fd fake _ _ => shm.InRange (Shm.fdOrFake fd fake)
  | .addKprobe fd fake _ _ _ _ | .addSoftwarePerfEvent fd fake _ _ _ => shm.InRange (fd.getD fake)
  | .epollCreate fake | .addMemfdHandler fake _ _ => shm.InRange fake
  -- a fake fd that failed is looked at
  | .addCustomPerfEvent fake _ _ => fake < 0 ∨ shm.InRange fake
  | .attachPerfToBpf perfFd bpfFd _ fake =>
    shm.isPerfFd perfFd = true → shm.isProgFd bpfFd = true → fake < 0 ∨ shm.InRange fake
  | .addBpfProgAttachTarget perfFd bpfFd _ fake =>
    shm.isProgFd bpfFd = true → fake < 0 ∨ shm.InRange fake ∧ shm.InRange perfFd
  | .addBpfLink fd fake progFd targetFd =>
    shm.isProgFd progFd = true → shm.InRange (Shm.fdOrFake fd fake) ∧
      (shm.slot (Shm.fdOrFake fd fake) = .unused → shm.InRange targetFd)
  | .dupBpfMap _ oldfd newfd fake => shm.isMapFd oldfd = true → shm.InRange (Shm.fdOrFake newfd fake)
  | .setEnabled _ _ | .closeFd _ => True

/-! ## What stays in the table

A function stays in the table if every index that it uses does. Most use their fd only after a test of its slot's kind,
which includes the range. -/

/-- What has been computed is passed on. -/
theorem ok_bind {α β : Type} {a : α} {f : α → Except Fault β} : (Except.ok a >>= f) = f a := rfl

/-- A computation in two parts leaves the table in neither or in one of them. -/
theorem bind_inTable {α β : Type} {x : Except Fault α} {f : α → Except Fault β} (hx : x ≠ .error .outOfRange)
    (hf : ∀ a, x = .ok a → f a ≠ .error .outOfRange) : (x >>= f) ≠ .error .outOfRange := by
  cases x with
  | error e => exact fun h => hx (by cases h; rfl)
  | ok a => exact hf a rfl

/-- `map_free` works on a handler, not on the table. -/
theorem mapFree_inTable {config : BuildConfig} {map : MapHandler} {segment : Segment} :
    map.mapFree config segment ≠ .error .outOfRange := by
  unfold MapHandler.mapFree
  split
  · simp
  split
  · simp
  split
  · simp
  split <;> simp

/-- `set_handler` with an fd in range. -/
theorem setHandler_inTable (h : shm.InRange fd) : shm.setHandler fd handler ≠ .error .outOfRange := by
  by_cases hall : shm.isAllocated fd = true
  · rw [Shm.setHandler_allocated hall]
    simp
  by_cases hne : handler = .unused
  · unfold Shm.setHandler
    rw [if_neg hall, if_pos hne]
    simp
  · rw [Shm.setHandler_free hne h (Shm.free_of_not_isAllocated hall h)]
    simp

/-- `set_handler` with a map, at an fd of the table. -/
theorem setMap_inTable {env : CreateEnv} {map : MapHandler} (h : shm.InRange fd) :
    shm.setMap env fd map ≠ .error .outOfRange := by
  by_cases hall : shm.isAllocated fd = true
  · rw [Shm.setMap_allocated hall]
    simp
  have hfree := Shm.free_of_not_isAllocated hall h
  cases himpl : map.mapImplPtr with
  | some impl =>
      rw [Shm.setMap_shared himpl h hfree]
      simp
  | none =>
      rw [Shm.setMap_new himpl h hfree]
      simp

/-- `set_handler` indexes the table by the fd. -/
theorem setHandler_inTable_iff (hne : handler ≠ .unused) :
    shm.setHandler fd handler ≠ .error .outOfRange ↔ shm.InRange fd := by
  refine ⟨fun h => ?_, setHandler_inTable⟩
  by_contra hin
  exact h (Shm.setHandler_outOfRange hne hin)

/-- `clear_id_at` looks at the range itself. -/
theorem clearIdAt_inTable : shm.clearIdAt fd ≠ .error .outOfRange := by
  unfold Shm.clearIdAt
  split
  swap
  · simp
  rename_i hin
  -- clearing other slots keeps the length, so the fd is in range still
  have hput : ∀ shm' : Shm, shm'.handlers.length = shm.handlers.length →
      shm'.putHandler fd .unused ≠ .error .outOfRange := by
    intro shm' hlen
    have hin' : shm'.InRange fd := by
      unfold Shm.InRange Shm.size at *
      rwa [hlen]
    rw [Shm.putHandler_eq hin']
    simp
  -- `map_free` may fail, though not for the range
  cases hslot : shm.slot fd with
  | map map =>
      cases hfree : map.mapFree shm.config shm.segment with
      | error e =>
          intro heq
          have heq : (Except.error e : Except Fault Shm) = .error .outOfRange := by
            simp only [hfree] at heq
            exact heq
          cases heq
          exact mapFree_inTable hfree
      | ok segment =>
          intro heq
          simp only [hfree] at heq
          exact hput ⟨shm.config, shm.handlers, segment⟩ rfl heq
  | perfEvent perf => exact hput (shm.clearLinks _) (List.length_map _)
  | prog prog => exact hput (shm.clearLinks _) (List.length_map _)
  | _ => exact hput shm rfl

/-- `clear_id_at` keeps the size of the table. -/
theorem inRange_clearIdAt (h : shm.clearIdAt fd = .ok shm') : shm'.InRange r ↔ shm.InRange r := by
  rcases Shm.clearIdAt_ok h with ⟨-, rfl⟩ | ⟨-, hhandlers⟩
  · rfl
  · unfold Shm.InRange Shm.size
    rw [hhandlers, Shm.length_cleared]

/-- A slot that is cleared by its handler is one of the table. -/
theorem clearUsed_inTable : shm.clearUsed fd handler ≠ .error .outOfRange := by
  unfold Shm.clearUsed
  split
  · exact clearIdAt_inTable
  · simp

/-- And the size stays. -/
theorem inRange_clearUsed (h : shm.clearUsed fd handler = .ok shm') : shm'.InRange r ↔ shm.InRange r := by
  unfold Shm.clearUsed at h
  split at h
  · exact inRange_clearIdAt h
  · cases h
    rfl

/-- `get_handler` does not check its fd. -/
theorem getHandler_outOfRange (h : ¬ shm.InRange fd) : shm.getHandler fd = .error .outOfRange := if_neg h

/-- The clearing before an fd is set reads its slot. -/
theorem clearedFor_outOfRange (h : ¬ shm.InRange fd) : shm.clearedFor fd = .error .outOfRange := by
  unfold Shm.clearedFor
  rw [getHandler_outOfRange h]
  rfl

/-- In range it goes through. -/
theorem clearedFor_inTable (h : shm.InRange fd) : shm.clearedFor fd ≠ .error .outOfRange := by
  unfold Shm.clearedFor
  rw [Shm.getHandler_eq h, ok_bind]
  exact clearUsed_inTable

/-- And keeps the size. -/
theorem inRange_clearedFor (h : shm.clearedFor fd = .ok shm') : shm'.InRange r ↔ shm.InRange r := by
  obtain ⟨old, -, hclear⟩ := Shm.bind_ok h
  exact inRange_clearUsed hclear

/-- `add_bpf_map` indexes the table by the fd, or by the fake one for a negative fd. -/
theorem addBpfMap_inTable_iff {env : CreateEnv} {fake : Int} {name : CStr} {attr : MapAttr} :
    shm.addBpfMap env fd fake name attr ≠ .error .outOfRange ↔ shm.InRange (Shm.fdOrFake fd fake) := by
  unfold Shm.addBpfMap
  dsimp only
  constructor
  · intro h
    by_contra hin
    rw [clearedFor_outOfRange hin] at h
    exact h rfl
  · intro hin
    refine bind_inTable (clearedFor_inTable hin) fun shm₁ hclear => ?_
    exact setMap_inTable ((inRange_clearedFor hclear).mpr hin)

theorem dupBpfMap_inTable_iff {env : CreateEnv} {oldfd newfd fake : Int} (hold : shm.isMapFd oldfd = true) :
    shm.dupBpfMap env oldfd newfd fake ≠ .error .outOfRange ↔ shm.InRange (Shm.fdOrFake newfd fake) := by
  -- the old fd is checked by `is_map_fd`
  have hinOld : shm.InRange oldfd := by
    unfold Shm.isMapFd at hold
    simpa using (Bool.and_eq_true_iff.mp hold).1
  unfold Shm.dupBpfMap
  rw [hold, if_neg (by decide), Shm.getHandler_eq hinOld, ok_bind]
  dsimp only
  constructor
  · intro h
    by_contra hin
    rw [clearedFor_outOfRange hin] at h
    exact h rfl
  · intro hin
    refine bind_inTable (clearedFor_inTable hin) fun shm₁ hclear => ?_
    have hin₁ := (inRange_clearedFor hclear).mpr hin
    cases shm.slot oldfd with
    | map map =>
        dsimp only
        split
        · simp
        split
        · split
          · simp
          · exact setMap_inTable hin₁
        · exact setMap_inTable hin₁
    | _ => simp

/-! ## One operation

Each operation of the segment, by the functions that it calls. -/

/-- A step leaves the table where its function does. -/
theorem step_inTable_iff {op : ShmOp} {result : Except Fault (Int × Shm)} (hstep : shm.step op = Shm.step.ret result) :
    shm.step op ≠ .error .outOfRange ↔ result ≠ .error .outOfRange := by
  rw [hstep]
  cases result with
  | error e => exact not_congr ⟨fun h => by cases h; rfl, fun h => by cases h; rfl⟩
  | ok result => exact iff_of_true (by simp [Shm.step.ret, Except.map]) (by simp)

/-- The same for the functions that make maps. -/
theorem stepMap_inTable_iff {op : ShmOp} {result : Except Fault (CreateResult × Shm)}
    (hstep : shm.step op = Shm.step.retMap result) : shm.step op ≠ .error .outOfRange ↔ result ≠ .error .outOfRange := by
  rw [hstep]
  cases result with
  | error e => exact not_congr ⟨fun h => by cases h; rfl, fun h => by cases h; rfl⟩
  | ok result => exact iff_of_true (by simp [Shm.step.retMap, Except.map]) (by simp)

/-- With every fd in range, the first half is all. -/
theorem staysInTable_of_fds {op : ShmOp} (hfds : ∀ fd ∈ fdsOf op, shm.InRange fd)
    (hstep : shm.step op ≠ .error .outOfRange) : StaysInTable shm op :=
  ⟨hstep, fun ⟨fd, hfd, hnot⟩ => absurd (hfds fd hfd) hnot⟩

/-- An operation that fails and changes nothing is in the table whatever its fds are. -/
theorem staysInTable_of_fails {op : ShmOp} (h : FailsUnchanged shm op) : StaysInTable shm op := by
  obtain ⟨ret, hstep, hfailed⟩ := h
  refine ⟨?_, fun _ => ⟨ret, hstep, hfailed⟩⟩
  rw [hstep]
  simp

/-- A step that returns an error before it does anything. -/
theorem fails_of_ret {op : ShmOp} {result : Except Fault (Int × Shm)} (hstep : shm.step op = Shm.step.ret result)
    (hresult : result = .ok (r, shm)) (hr : r < 0) : FailsUnchanged shm op := by
  refine ⟨some r, ?_, fun r' hr' => ?_⟩
  · rw [hstep, hresult]
    rfl
  · cases hr'
    exact hr

/-- The operations that only set a handler, of one fd. -/
theorem setHandler_staysInTable_iff {op : ShmOp} (hstep : shm.step op = Shm.step.ret (shm.setHandler fd handler))
    (hne : handler ≠ .unused) (hfds : fdsOf op = [fd]) : StaysInTable shm op ↔ shm.InRange fd := by
  constructor
  · intro h
    exact (setHandler_inTable_iff hne).mp ((step_inTable_iff hstep).mp h.1)
  · intro hin
    refine staysInTable_of_fds (fun fd' hfd' => ?_) ((step_inTable_iff hstep).mpr (setHandler_inTable hin))
    rw [hfds, List.mem_singleton] at hfd'
    rwa [hfd']

/-- A result of `set_handler`, and the fd that is returned in any case. -/
theorem setHandler_then_inTable_iff {β : Type} {f : Int × Shm → β} (hne : handler ≠ .unused) :
    (shm.setHandler fd handler >>= fun result => pure (f result)) ≠ .error .outOfRange ↔ shm.InRange fd := by
  rw [← setHandler_inTable_iff hne]
  cases shm.setHandler fd handler with
  | error e => exact not_congr ⟨fun h => by cases h; rfl, fun h => by cases h; rfl⟩
  | ok result => exact iff_of_true (fun h => by cases h) (fun h => by cases h)

/-- `add_bpf_prog_attach_target` with both fds checked. -/
theorem addBpfProgAttachTarget_step {perfFd bpfFd : Int} {cookie : Option (BitVec 64)} {fake : Int}
    (hprog : shm.isProgFd bpfFd = true) (hfake : ¬ fake < 0) :
    shm.addBpfProgAttachTarget perfFd bpfFd cookie fake =
      (shm.setHandler fake (.link ⟨bpfFd, perfFd, cookie⟩) >>= fun result => pure (fake, result.2)) := by
  unfold Shm.addBpfProgAttachTarget
  rw [hprog, if_neg (by decide), if_neg hfake]

/-- `is_prog_fd` checks the range. -/
theorem inRange_of_isProgFd (h : shm.isProgFd fd = true) : shm.InRange fd :=
  of_decide_eq_true (Bool.and_eq_true_iff.mp h).1

/-- So does `is_perf_fd`. -/
theorem inRange_of_isPerfFd (h : shm.isPerfFd fd = true) : shm.InRange fd :=
  of_decide_eq_true (Bool.and_eq_true_iff.mp h).1

/-- And `is_map_fd`. -/
theorem inRange_of_isMapFd (h : shm.isMapFd fd = true) : shm.InRange fd :=
  of_decide_eq_true (Bool.and_eq_true_iff.mp h).1

section Attach

variable {perfFd bpfFd fake : Int} {cookie : Option (BitVec 64)}

/-- `add_bpf_prog_attach_target` in an operation of the same fds. -/
theorem attach_staysInTable_iff {op : ShmOp}
    (hstep : shm.step op = Shm.step.ret (shm.addBpfProgAttachTarget perfFd bpfFd cookie fake))
    (hfds : fdsOf op = [perfFd, bpfFd, fake]) :
    StaysInTable shm op ↔ (shm.isProgFd bpfFd = true → fake < 0 ∨ shm.InRange fake ∧ shm.InRange perfFd) := by
  by_cases hprog : shm.isProgFd bpfFd = true
  swap
  · refine iff_of_true (staysInTable_of_fails (fails_of_ret (r := -1) hstep ?_ (by decide))) fun h => absurd h hprog
    unfold Shm.addBpfProgAttachTarget
    rw [Bool.eq_false_iff.mpr hprog, if_pos (by decide)]
  by_cases hfake : fake < 0
  · refine iff_of_true (staysInTable_of_fails (fails_of_ret (r := -Shm.ENOSPC) hstep ?_ (by decide))) fun _ => .inl hfake
    unfold Shm.addBpfProgAttachTarget
    rw [hprog, if_neg (by decide), if_pos hfake]
  have hadd : shm.addBpfProgAttachTarget perfFd bpfFd cookie fake = _ := addBpfProgAttachTarget_step hprog hfake
  have hlink : (HandlerVariant.link ⟨bpfFd, perfFd, cookie⟩) ≠ .unused := by simp
  constructor
  · intro h _
    right
    have hin : shm.InRange fake := by
      have hsafe := (step_inTable_iff hstep).mp h.1
      rw [hadd] at hsafe
      exact (setHandler_then_inTable_iff hlink).mp hsafe
    refine ⟨hin, ?_⟩
    -- the fd that is returned does not say that anything failed
    by_contra hperf
    obtain ⟨ret, hret, hfailed⟩ := h.2 ⟨perfFd, by rw [hfds]; simp, hperf⟩
    rw [hstep, hadd] at hret
    cases hset : shm.setHandler fake (.link ⟨bpfFd, perfFd, cookie⟩) with
    | error e =>
        rw [hset] at hret
        cases hret
    | ok result =>
        rw [hset] at hret
        have hsome : some fake = ret := (Prod.mk.inj (Except.ok.inj hret)).1
        exact hfake (hfailed fake hsome.symm)
  · intro h
    obtain ⟨hin, hperf⟩ := (h hprog).resolve_left hfake
    refine staysInTable_of_fds (fun fd hfd => ?_) ((step_inTable_iff hstep).mpr ?_)
    · rw [hfds] at hfd
      simp only [List.mem_cons, List.not_mem_nil, or_false] at hfd
      rcases hfd with rfl | rfl | rfl
      · exact hperf
      · exact inRange_of_isProgFd hprog
      · exact hin
    · rw [hadd]
      exact (setHandler_then_inTable_iff hlink).mpr hin

end Attach

/-- The fds of an attach are checked; the fake fd that it stores under is not. -/
theorem attachPerfToBpf_staysInTable_iff {perfFd bpfFd fake : Int} {cookie : Option (BitVec 64)} :
    StaysInTable shm (.attachPerfToBpf perfFd bpfFd cookie fake) ↔
      FdsFit shm (.attachPerfToBpf perfFd bpfFd cookie fake) := by
  by_cases hperf : shm.isPerfFd perfFd = true
  · have hstep : shm.step (.attachPerfToBpf perfFd bpfFd cookie fake) =
        Shm.step.ret (shm.addBpfProgAttachTarget perfFd bpfFd cookie fake) := by
      show Shm.step.ret (shm.attachPerfToBpf perfFd bpfFd cookie fake) = _
      unfold Shm.attachPerfToBpf
      rw [hperf, if_neg (by decide)]
    rw [attach_staysInTable_iff hstep rfl]
    have hin := inRange_of_isPerfFd hperf
    constructor
    · intro h _ hprog
      exact (h hprog).imp_right And.left
    · intro h hprog
      exact (h hperf hprog).imp_right fun hfake => ⟨hfake, hin⟩
  · refine iff_of_true (staysInTable_of_fails (fails_of_ret (r := -1) rfl ?_ (by decide))) fun h => absurd h hperf
    unfold Shm.attachPerfToBpf
    rw [Bool.eq_false_iff.mpr hperf, if_pos (by decide)]

/-- A custom perf event is stored at the fake fd. -/
theorem addCustomPerfEvent_staysInTable_iff {fake : Int} {type : BitVec 32} {attachArgument : CStr} :
    StaysInTable shm (.addCustomPerfEvent fake type attachArgument) ↔ fake < 0 ∨ shm.InRange fake := by
  by_cases hfake : fake < 0
  · refine iff_of_true (staysInTable_of_fails (fails_of_ret (r := fake) rfl ?_ hfake)) (.inl hfake)
    unfold Shm.addCustomPerfEvent
    rw [if_pos hfake]
  have hadd : shm.addCustomPerfEvent fake type attachArgument =
      (shm.setHandler fake (.perfEvent ⟨type, false, .custom attachArgument⟩) >>= fun result =>
        pure (fake, result.2)) := by
    unfold Shm.addCustomPerfEvent
    rw [if_neg hfake]
  have hiff : shm.addCustomPerfEvent fake type attachArgument ≠ .error .outOfRange ↔ shm.InRange fake := by
    rw [hadd]
    exact setHandler_then_inTable_iff (by simp)
  constructor
  · intro h
    exact .inr (hiff.mp ((step_inTable_iff rfl).mp h.1))
  · intro h
    have hin := h.resolve_left hfake
    refine staysInTable_of_fds (fun fd hfd => ?_) ((step_inTable_iff rfl).mpr (hiff.mpr hin))
    rw [List.mem_singleton.mp hfd]
    exact hin

/-- A link has an fd of its own, or a fake one. -/
theorem addBpfLink_staysInTable_iff {fake progFd targetFd : Int} :
    StaysInTable shm (.addBpfLink fd fake progFd targetFd) ↔ FdsFit shm (.addBpfLink fd fake progFd targetFd) := by
  have hne : HandlerVariant.link ⟨progFd, targetFd, none⟩ ≠ .unused := by simp
  by_cases hprog : shm.isProgFd progFd = true
  swap
  · refine iff_of_true (staysInTable_of_fails (fails_of_ret (r := -1) rfl ?_ (by decide))) fun h => absurd h hprog
    unfold Shm.addBpfLink
    rw [Bool.eq_false_iff.mpr hprog, if_pos (by decide)]
  have hadd : shm.addBpfLink fd fake progFd targetFd =
      shm.setHandler (Shm.fdOrFake fd fake) (.link ⟨progFd, targetFd, none⟩) := by
    unfold Shm.addBpfLink
    rw [hprog, if_neg (by decide)]
  have hstep : shm.step (.addBpfLink fd fake progFd targetFd) =
      Shm.step.ret (shm.setHandler (Shm.fdOrFake fd fake) (.link ⟨progFd, targetFd, none⟩)) := by
    rw [← hadd]
    rfl
  constructor
  · intro h _
    have hin := (setHandler_inTable_iff hne).mp ((step_inTable_iff hstep).mp h.1)
    refine ⟨hin, fun hfree => ?_⟩
    -- the link is made
    by_contra htarget
    obtain ⟨ret, hret, hfailed⟩ := h.2 ⟨targetFd, by simp [fdsOf], htarget⟩
    rw [hstep, Shm.setHandler_free hne hin hfree] at hret
    have hsome : some (Shm.fdOrFake fd fake) = ret := (Prod.mk.inj (Except.ok.inj hret)).1
    exact absurd hin.1 (Int.not_le.mpr (hfailed _ hsome.symm))
  · intro h
    obtain ⟨hin, htarget⟩ := h hprog
    by_cases hfree : shm.slot (Shm.fdOrFake fd fake) = .unused
    · refine staysInTable_of_fds (fun fd' hfd' => ?_) ((step_inTable_iff hstep).mpr (setHandler_inTable hin))
      simp only [fdsOf, List.mem_cons, List.not_mem_nil, or_false] at hfd'
      rcases hfd' with rfl | rfl | rfl
      · exact hin
      · exact inRange_of_isProgFd hprog
      · exact htarget hfree
    · refine staysInTable_of_fails (fails_of_ret (r := -Shm.EEXIST) hstep ?_ (by decide))
      exact Shm.setHandler_allocated (Shm.isAllocated_iff.mpr ⟨hin, hfree⟩)

/-- An epoll instance is stored at the fake fd. -/
theorem epollCreate_staysInTable_iff {fake : Int} : StaysInTable shm (.epollCreate fake) ↔ shm.InRange fake := by
  by_cases hall : shm.isAllocated fake = true
  · refine iff_of_true (staysInTable_of_fails (fails_of_ret (r := -1) rfl ?_ (by decide))) (Shm.isAllocated_iff.mp hall).1
    unfold Shm.epollCreate
    rw [if_pos hall]
  · have hstep : shm.step (.epollCreate fake) = Shm.step.ret (shm.setHandler fake .epoll) := by
      show Shm.step.ret (shm.epollCreate fake) = _
      unfold Shm.epollCreate
      rw [if_neg hall]
    exact setHandler_staysInTable_iff hstep (by simp) rfl

/-- A duplicate is stored at the new fd, where the old one is a map. -/
theorem dupBpfMap_staysInTable_iff {env : CreateEnv} {oldfd newfd fake : Int} :
    StaysInTable shm (.dupBpfMap env oldfd newfd fake) ↔ FdsFit shm (.dupBpfMap env oldfd newfd fake) := by
  by_cases hmap : shm.isMapFd oldfd = true
  swap
  · have hdup : shm.dupBpfMap env oldfd newfd fake = .ok (.returned (-1), shm) := by
      unfold Shm.dupBpfMap
      rw [Bool.eq_false_iff.mpr hmap, if_pos (by decide)]
    -- an old fd without a map is refused
    have hfails : FailsUnchanged shm (.dupBpfMap env oldfd newfd fake) := by
      refine ⟨some (-1), ?_, fun r hr => ?_⟩
      · show Shm.step.retMap (shm.dupBpfMap env oldfd newfd fake) = _
        rw [hdup]
        rfl
      · cases hr
        decide
    exact iff_of_true (staysInTable_of_fails hfails) fun h => absurd h hmap
  constructor
  · intro h _
    exact (dupBpfMap_inTable_iff hmap).mp ((stepMap_inTable_iff rfl).mp h.1)
  · intro h
    have hin := h hmap
    refine staysInTable_of_fds (fun fd hfd => ?_) ((stepMap_inTable_iff rfl).mpr ((dupBpfMap_inTable_iff hmap).mpr hin))
    simp only [fdsOf, List.mem_cons, List.not_mem_nil, or_false] at hfd
    rcases hfd with rfl | rfl
    · exact inRange_of_isMapFd hmap
    · exact hin

/-- A map is stored at its fd. -/
theorem addBpfMap_staysInTable_iff {env : CreateEnv} {fake : Int} {name : CStr} {attr : MapAttr} :
    StaysInTable shm (.addBpfMap env fd fake name attr) ↔ shm.InRange (Shm.fdOrFake fd fake) := by
  constructor
  · intro h
    exact addBpfMap_inTable_iff.mp ((stepMap_inTable_iff rfl).mp h.1)
  · intro hin
    refine staysInTable_of_fds (fun fd' hfd' => ?_) ((stepMap_inTable_iff rfl).mpr (addBpfMap_inTable_iff.mpr hin))
    rw [List.mem_singleton.mp hfd']
    exact hin

/-- `perf_event_enable` and `perf_event_disable` look at the range. -/
theorem setEnabled_staysInTable {enabled : Bool} : StaysInTable shm (.setEnabled fd enabled) := by
  by_cases hperf : shm.isPerfFd fd = true
  · have hin := inRange_of_isPerfFd hperf
    refine staysInTable_of_fds (fun fd' hfd' => ?_) ((step_inTable_iff rfl).mpr ?_)
    · rw [List.mem_singleton.mp hfd']
      exact hin
    · unfold Shm.setEnabled
      rw [hperf, if_neg (by decide)]
      split
      · rw [Shm.putHandler_eq hin, ok_bind]
        intro h
        cases h
      · simp
  · refine staysInTable_of_fails (fails_of_ret (r := -1) rfl ?_ (by decide))
    unfold Shm.setEnabled
    rw [Bool.eq_false_iff.mpr hperf, if_pos (by decide)]

/-- `close_fd` checks the range. -/
theorem closeFd_staysInTable : StaysInTable shm (.closeFd fd) := by
  by_cases hin : shm.InRange fd
  · refine staysInTable_of_fds (fun fd' hfd' => ?_) ?_
    · rw [List.mem_singleton.mp hfd']
      exact hin
    · show (shm.clearIdAt fd).map _ ≠ _
      cases hclear : shm.clearIdAt fd with
      | error e =>
          intro h
          cases h
          exact clearIdAt_inTable hclear
      | ok shm' => simp [Except.map]
  · refine staysInTable_of_fails ⟨none, ?_, fun r hr => by cases hr⟩
    show (shm.clearIdAt fd).map _ = _
    unfold Shm.clearIdAt
    rw [if_neg hin]
    rfl

/-- **An operation stays in the table exactly when its fds fit.** -/
theorem staysInTable_iff (shm : Shm) (op : ShmOp) : StaysInTable shm op ↔ FdsFit shm op := by
  cases op with
  | addBpfMap env fd fake name attr => exact addBpfMap_staysInTable_iff
  | dupBpfMap env oldfd newfd fake => exact dupBpfMap_staysInTable_iff
  | addCustomPerfEvent fake type attachArgument => exact addCustomPerfEvent_staysInTable_iff
  | addBpfProgAttachTarget perfFd bpfFd cookie fake => exact attach_staysInTable_iff rfl rfl
  | attachPerfToBpf perfFd bpfFd cookie fake => exact attachPerfToBpf_staysInTable_iff
  | addBpfLink fd fake progFd targetFd => exact addBpfLink_staysInTable_iff
  | epollCreate fake => exact epollCreate_staysInTable_iff
  | setEnabled fd enabled => exact iff_of_true setEnabled_staysInTable trivial
  | closeFd fd => exact iff_of_true closeFd_staysInTable trivial
  | addBpfProg fd fake insns name memory => exact setHandler_staysInTable_iff rfl (by simp) rfl
  | addUprobe fd fake pid name offset retprobe refCtrOff => exact setHandler_staysInTable_iff rfl (by simp) rfl
  | addUprobeOverride fd fake pid name offset isReplace => exact setHandler_staysInTable_iff rfl (by simp) rfl
  | addKprobe fd fake funcName addr retprobe refCtrOff => exact setHandler_staysInTable_iff rfl (by simp) rfl
  | addTracepoint fd fake pid tracepointId => exact setHandler_staysInTable_iff rfl (by simp) rfl
  | addSoftwarePerfEvent fd fake cpu sampleType config => exact setHandler_staysInTable_iff rfl (by simp) rfl
  | addMemfdHandler fake name flags => exact setHandler_staysInTable_iff rfl (by simp) rfl

/-! ## Runs -/

/-- **A run stays in the table** exactly when the fds of every operation fit the table it finds. -/
theorem shm_staysInTable_iff (config : BuildConfig) (maxFdCount : Nat) (ops : List ShmOp) :
    Lib.AllSteps Shm.apply StaysInTable (Shm.new config maxFdCount) ops ↔
      Lib.AllSteps Shm.apply FdsFit (Shm.new config maxFdCount) ops :=
  Lib.allSteps_congr staysInTable_iff _ ops

/-- A uprobe where no fake fd is to be had. -/
theorem shm_leaves_table :
    ¬ Lib.AllSteps Shm.apply StaysInTable (Shm.new ⟨true, false⟩ 8) [.addUprobe (-1) (-1) 0 [] 0 false 0] := by
  rintro ⟨⟨hstep, -⟩, -⟩
  exact hstep rfl

end Handler
