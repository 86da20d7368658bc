import FreeProbe.Handler.Manager
import FreeProbe.Lib.Machine

/-!
# `Handler.Links` — the links of the handler table

A link has the ids of a program and of a perf event. Whatever frees or overwrites a slot clears the links to it, and
whatever makes a link looks at its program; `add_bpf_link` and `add_bpf_prog_attach_target` do not look at its
target. No link dangles along a run exactly when each of these two, where it makes a link, gets a perf event.
-/

namespace Handler

variable {shm shm' : Shm} {fd r : Int} {handler : HandlerVariant}

/-- **No link dangles**: its ends name a program and a perf event. -/
def NoDangling (shm : Shm) : Prop :=
  ∀ (i : Nat) (link : LinkHandler), shm.handlers[i]? = some (.link link) →
    shm.isProgFd link.progId = true ∧ shm.isPerfFd link.attachTargetId = true

/-- A slot that `set_handler` takes. -/
def Free (shm : Shm) (fd : Int) : Prop := shm.InRange fd ∧ shm.slot fd = .unused

/-- The condition on an operation and the table before it: a link that it makes has a perf event as its target. -/
def TargetsPerf (shm : Shm) : ShmOp → Prop
  | .addBpfLink fd fake progFd targetFd =>
    shm.isProgFd progFd = true → Free shm (Shm.fdOrFake fd fake) → shm.isPerfFd targetFd = true
  | .addBpfProgAttachTarget perfFd bpfFd _ fake =>
    shm.isProgFd bpfFd = true → Free shm fake → shm.isPerfFd perfFd = true
  | _ => True

/-! ## The ends of a link

A link dangles when one of its fds has no handler of the kind. So it is enough to follow what becomes of programs and
perf events. -/

/-- A program fd has a program in its slot. -/
theorem isProgFd_iff : shm.isProgFd fd = true ↔ ∃ (n : Nat) (prog : ProgHandler), fd = n ∧
    shm.handlers[n]? = some (.prog prog) := by
  unfold Shm.isProgFd
  rw [Bool.and_eq_true, decide_eq_true_iff, Shm.inRange_iff]
  constructor
  · rintro ⟨⟨n, rfl, hn⟩, hprog⟩
    cases hslot : shm.slot n with
    | prog prog => exact ⟨n, prog, rfl, by rw [Shm.getElem_slot hn, hslot]⟩
    | _ => rw [hslot] at hprog; cases hprog
  · rintro ⟨n, prog, rfl, hget⟩
    obtain ⟨hn, -⟩ := List.getElem?_eq_some_iff.mp hget
    rw [Shm.getElem_slot hn] at hget
    exact ⟨⟨n, rfl, hn⟩, by rw [Option.some.inj hget]; rfl⟩

/-- A perf fd has a perf event. -/
theorem isPerfFd_iff : shm.isPerfFd fd = true ↔ ∃ (n : Nat) (perf : PerfEventHandler), fd = n ∧
    shm.handlers[n]? = some (.perfEvent perf) := by
  unfold Shm.isPerfFd
  rw [Bool.and_eq_true, decide_eq_true_iff, Shm.inRange_iff]
  constructor
  · rintro ⟨⟨n, rfl, hn⟩, hperf⟩
    cases hslot : shm.slot n with
    | perfEvent perf => exact ⟨n, perf, rfl, by rw [Shm.getElem_slot hn, hslot]⟩
    | _ => rw [hslot] at hperf; cases hperf
  · rintro ⟨n, perf, rfl, hget⟩
    obtain ⟨hn, -⟩ := List.getElem?_eq_some_iff.mp hget
    rw [Shm.getElem_slot hn] at hget
    exact ⟨⟨n, rfl, hn⟩, by rw [Option.some.inj hget]; rfl⟩

/-- Both depend on the handlers only. -/
theorem isProgFd_congr (h : shm'.handlers = shm.handlers) : shm'.isProgFd fd = shm.isProgFd fd := by
  rw [Bool.eq_iff_iff, isProgFd_iff, isProgFd_iff, h]

/-- The same for perf events. -/
theorem isPerfFd_congr (h : shm'.handlers = shm.handlers) : shm'.isPerfFd fd = shm.isPerfFd fd := by
  rw [Bool.eq_iff_iff, isPerfFd_iff, isPerfFd_iff, h]

/-- What a step has to leave of the programs and of the perf events. -/
theorem NoDangling.mono (h : NoDangling shm)
    (hlink : ∀ (i : Nat) link, shm'.handlers[i]? = some (.link link) → shm.handlers[i]? = some (.link link) ∧
      (∀ n : Nat, link.progId = n → ∀ prog, shm.handlers[n]? = some (.prog prog) → shm'.isProgFd n = true) ∧
      (∀ n : Nat, link.attachTargetId = n → ∀ perf, shm.handlers[n]? = some (.perfEvent perf) →
        shm'.isPerfFd n = true)) : NoDangling shm' := by
  intro i link hget
  obtain ⟨hold, hprogs, hperfs⟩ := hlink i link hget
  obtain ⟨hprog, hperf⟩ := h i link hold
  obtain ⟨n, prog, hn, hgetProg⟩ := isProgFd_iff.mp hprog
  obtain ⟨m, perf, hm, hgetPerf⟩ := isPerfFd_iff.mp hperf
  rw [hn, hm]
  exact ⟨hprogs n hn prog hgetProg, hperfs m hm perf hgetPerf⟩

/-- Whether a link dangles depends on the handlers only. -/
theorem NoDangling.congr (h : NoDangling shm) (heq : shm'.handlers = shm.handlers) : NoDangling shm' := by
  intro i link hget
  rw [isProgFd_congr heq, isPerfFd_congr heq]
  exact h i link (heq ▸ hget)

/-! ## One step of the table

A slot that is filled was free, or its handler has gone before, with the links to it. -/

/-- Programs and perf events stay where a free slot is taken. -/
theorem isProgFd_set {n : Nat} (hfree : shm.handlers[n]? = some .unused) (hset : shm'.handlers = shm.handlers.set n handler)
    (h : shm.isProgFd fd = true) : shm'.isProgFd fd = true := by
  obtain ⟨m, prog, rfl, hget⟩ := isProgFd_iff.mp h
  refine isProgFd_iff.mpr ⟨m, prog, rfl, ?_⟩
  have hne : n ≠ m := by
    rintro rfl
    rw [hfree] at hget
    cases hget
  rw [hset, List.getElem?_set_ne hne]
  exact hget

/-- Filling a free slot takes no perf event away. -/
theorem isPerfFd_set {n : Nat} (hfree : shm.handlers[n]? = some .unused) (hset : shm'.handlers = shm.handlers.set n handler)
    (h : shm.isPerfFd fd = true) : shm'.isPerfFd fd = true := by
  obtain ⟨m, perf, rfl, hget⟩ := isPerfFd_iff.mp h
  refine isPerfFd_iff.mpr ⟨m, perf, rfl, ?_⟩
  have hne : n ≠ m := by
    rintro rfl
    rw [hfree] at hget
    cases hget
  rw [hset, List.getElem?_set_ne hne]
  exact hget

/-- Taking a free slot, with a link only where its ends are there. -/
theorem noDangling_set {n : Nat} (h : NoDangling shm) (hfree : shm.handlers[n]? = some .unused)
    (hset : shm'.handlers = shm.handlers.set n handler)
    (hends : ∀ link, handler = .link link → shm.isProgFd link.progId = true ∧ shm.isPerfFd link.attachTargetId = true) :
    NoDangling shm' := by
  intro i link hget
  have hold : shm.isProgFd link.progId = true ∧ shm.isPerfFd link.attachTargetId = true := by
    rw [hset] at hget
    by_cases hni : n = i
    · subst hni
      obtain ⟨hn, -⟩ := List.getElem?_eq_some_iff.mp hfree
      rw [List.getElem?_set_self hn] at hget
      exact hends link (Option.some.inj hget)
    · rw [List.getElem?_set_ne hni] at hget
      exact h i link hget
  exact ⟨isProgFd_set hfree hset hold.1, isPerfFd_set hfree hset hold.2⟩

/-- `set_handler` keeps the ends of the links that are there; a link that comes needs its own. -/
theorem noDangling_setHandler (h : NoDangling shm) (hset : shm.setHandler fd handler = .ok (r, shm'))
    (hends : ∀ link, handler = .link link → Free shm fd →
      shm.isProgFd link.progId = true ∧ shm.isPerfFd link.attachTargetId = true) : NoDangling shm' := by
  rcases Shm.setHandler_ok hset with rfl | ⟨n, rfl, hfree, hhandlers⟩
  · exact h
  refine noDangling_set h hfree hhandlers fun link hlink => ?_
  obtain ⟨hn, -⟩ := List.getElem?_eq_some_iff.mp hfree
  have hslot : shm.slot n = .unused := by
    rw [Shm.getElem_slot hn] at hfree
    exact Option.some.inj hfree
  exact hends link hlink ⟨Shm.inRange_iff.mpr ⟨n, rfl, hn⟩, hslot⟩

/-- A map is no link, however its `map_init` ends. -/
theorem noDangling_setMap (h : NoDangling shm) {env : CreateEnv} {map : MapHandler} {result : CreateResult}
    (hset : shm.setMap env fd map = .ok (result, shm')) : NoDangling shm' := by
  rcases Shm.setMap_ok hset with rfl | ⟨n, rfl, hfree, map', hhandlers⟩
  · exact h
  · exact noDangling_set h hfree hhandlers fun link hlink => by cases hlink

/-- **Clearing a slot** clears the links to it. -/
theorem noDangling_clearIdAt (h : NoDangling shm) (hclear : shm.clearIdAt fd = .ok shm') : NoDangling shm' := by
  rcases Shm.clearIdAt_ok hclear with ⟨-, rfl⟩ | ⟨hin, hhandlers⟩
  · exact h
  refine h.mono fun i link hget => ?_
  rw [hhandlers] at hget
  -- a link that is left has neither of its ends at the fd: the others were cleared along with it
  obtain ⟨hold, htarget, hprog⟩ := Shm.cleared_link hin hget
  refine ⟨hold, fun n hn prog hgetProg => ?_, fun n hn perf hgetPerf => ?_⟩
  · have hne : (n : Int) ≠ fd := by
      rintro rfl
      obtain ⟨hlt, -⟩ := List.getElem?_eq_some_iff.mp hgetProg
      rw [Shm.getElem_slot hlt] at hgetProg
      exact hprog (by rw [Option.some.inj hgetProg]; rfl) hn
    refine isProgFd_iff.mpr ⟨n, prog, rfl, ?_⟩
    rw [hhandlers]
    exact Shm.cleared_other hne hgetProg (fun link => by simp) hin
  · have hne : (n : Int) ≠ fd := by
      rintro rfl
      obtain ⟨hlt, -⟩ := List.getElem?_eq_some_iff.mp hgetPerf
      rw [Shm.getElem_slot hlt] at hgetPerf
      exact htarget (by rw [Option.some.inj hgetPerf]; rfl) hn
    refine isPerfFd_iff.mpr ⟨n, perf, rfl, ?_⟩
    rw [hhandlers]
    exact Shm.cleared_other hne hgetPerf (fun link => by simp) hin

/-- Clearing a slot that is in use. -/
theorem noDangling_clearUsed (h : NoDangling shm) (hclear : shm.clearUsed fd handler = .ok shm') :
    NoDangling shm' := by
  unfold Shm.clearUsed at hclear
  split at hclear
  · exact noDangling_clearIdAt h hclear
  · cases hclear
    exact h

/-- The clearing before an fd is set. -/
theorem noDangling_clearedFor (h : NoDangling shm) (hclear : shm.clearedFor fd = .ok shm') : NoDangling shm' := by
  obtain ⟨old, -, hclear⟩ := Shm.bind_ok hclear
  exact noDangling_clearUsed h hclear

/-- `add_bpf_map` makes no link. -/
theorem noDangling_addBpfMap (h : NoDangling shm) {env : CreateEnv} {fake : Int} {name : CStr} {attr : MapAttr}
    {result : CreateResult} (hadd : shm.addBpfMap env fd fake name attr = .ok (result, shm')) : NoDangling shm' := by
  unfold Shm.addBpfMap at hadd
  obtain ⟨shm₁, hclear, hset⟩ := Shm.bind_ok hadd
  exact noDangling_setMap (noDangling_clearedFor h hclear) hset

/-- Nor does `dup_bpf_map`. -/
theorem noDangling_dupBpfMap (h : NoDangling shm) {env : CreateEnv} {oldfd newfd fake : Int} {result : CreateResult}
    (hdup : shm.dupBpfMap env oldfd newfd fake = .ok (result, shm')) : NoDangling shm' := by
  unfold Shm.dupBpfMap at hdup
  split at hdup
  · cases hdup
    exact h
  obtain ⟨handler, -, hdup⟩ := Shm.bind_ok hdup
  obtain ⟨shm₁, hclear, hdup⟩ := Shm.bind_ok hdup
  have h₁ := noDangling_clearedFor h hclear
  cases handler with
  | map map =>
      dsimp only at hdup
      split at hdup
      · cases hdup
      split at hdup
      · split at hdup
        · cases hdup
        · refine noDangling_setMap ?_ hdup
          exact h₁.congr rfl
      · exact noDangling_setMap h₁ hdup
  | _ => cases hdup

/-- Enabling and disabling leave the table's kinds. -/
theorem noDangling_setEnabled (h : NoDangling shm) {enabled : Bool} (hset : shm.setEnabled fd enabled = .ok (r, shm')) :
    NoDangling shm' := by
  unfold Shm.setEnabled at hset
  split at hset
  · cases hset
    exact h
  rename_i hperf
  -- the event stays a perf event, enabled or not
  obtain ⟨n, perf, rfl, hget⟩ := isPerfFd_iff.mp (by simpa using hperf)
  obtain ⟨hn, -⟩ := List.getElem?_eq_some_iff.mp hget
  have hslot : shm.slot n = .perfEvent perf := by
    rw [Shm.getElem_slot hn] at hget
    exact Option.some.inj hget
  rw [hslot] at hset
  obtain ⟨shm₁, hput, hset⟩ := Shm.bind_ok hset
  rw [Shm.putHandler_eq (Shm.inRange_iff.mpr ⟨n, rfl, hn⟩)] at hput
  cases hput
  cases hset
  refine h.mono fun i link hlink => ?_
  dsimp only at hlink
  rw [Int.toNat_natCast] at hlink
  have hni : n ≠ i := by
    rintro rfl
    rw [List.getElem?_set_self hn] at hlink
    cases hlink
  rw [List.getElem?_set_ne hni] at hlink
  refine ⟨hlink, fun m _ prog hgetProg => ?_, fun m _ perf' hgetPerf => ?_⟩
  · have hnm : n ≠ m := by
      rintro rfl
      rw [hget] at hgetProg
      cases hgetProg
    refine isProgFd_iff.mpr ⟨m, prog, rfl, ?_⟩
    dsimp only
    rw [Int.toNat_natCast, List.getElem?_set_ne hnm]
    exact hgetProg
  · refine isPerfFd_iff.mpr ?_
    dsimp only
    rw [Int.toNat_natCast]
    by_cases hnm : n = m
    · subst hnm
      exact ⟨n, _, rfl, List.getElem?_set_self hn⟩
    · exact ⟨m, perf', rfl, by rw [List.getElem?_set_ne hnm]; exact hgetPerf⟩

/-! ## The operations that make links

Two operations make links. Both look whether the first fd is a program, and neither whether the second is a perf event.
-/

section MakesLink

variable {link : LinkHandler}

/-- A link in a free slot. -/
theorem setHandler_link (hfree : Free shm fd) :
    shm.setHandler fd (.link link) = .ok (fd, { shm with handlers := shm.handlers.set fd.toNat (.link link) }) :=
  Shm.setHandler_free (by simp) hfree.1 hfree.2

/-- It dangles unless its target is a perf event. -/
theorem target_of_noDangling (hfree : Free shm fd)
    (h : NoDangling { shm with handlers := shm.handlers.set fd.toNat (.link link) }) :
    shm.isPerfFd link.attachTargetId = true := by
  obtain ⟨n, rfl, hn⟩ := Shm.inRange_iff.mp hfree.1
  obtain ⟨-, hperf⟩ := h n link (List.getElem?_set_self hn)
  obtain ⟨m, perf, hm, hget⟩ := isPerfFd_iff.mp hperf
  refine isPerfFd_iff.mpr ⟨m, perf, hm, ?_⟩
  dsimp only at hget
  rw [Int.toNat_natCast] at hget
  have hnm : n ≠ m := by
    rintro rfl
    rw [List.getElem?_set_self hn] at hget
    cases hget
  rwa [List.getElem?_set_ne hnm] at hget

end MakesLink

/-- What an operation leaves has no dangling link. -/
def KeepsLinks (shm : Shm) (op : ShmOp) : Prop := ∀ next ∈ shm.apply op, NoDangling next.2

/-- A step keeps the links where its function does. -/
theorem keepsLinks_of_ret {op : ShmOp} {result : Except Fault (Int × Shm)} (hstep : shm.step op = Shm.step.ret result)
    (h : ∀ r shm', result = .ok (r, shm') → NoDangling shm') : KeepsLinks shm op := by
  intro next hnext
  rw [Shm.mem_apply, hstep] at hnext
  obtain ⟨r, hresult, -⟩ := Shm.ret_ok hnext
  exact h r next.2 hresult

/-- The same for the functions that make maps. -/
theorem keepsLinks_of_retMap {op : ShmOp} {result : Except Fault (CreateResult × Shm)}
    (hstep : shm.step op = Shm.step.retMap result) (h : ∀ r shm', result = .ok (r, shm') → NoDangling shm') :
    KeepsLinks shm op := by
  intro next hnext
  rw [Shm.mem_apply, hstep] at hnext
  obtain ⟨r, hresult, -⟩ := Shm.retMap_ok hnext
  exact h r next.2 hresult

/-- Operations that set a handler of another kind. -/
theorem keepsLinks_setHandler (h : NoDangling shm) {op : ShmOp} (hlink : ∀ link, handler ≠ .link link)
    (hstep : shm.step op = Shm.step.ret (shm.setHandler fd handler)) : KeepsLinks shm op :=
  keepsLinks_of_ret hstep fun _ _ hset => noDangling_setHandler h hset fun link heq => absurd heq (hlink link)

/-- `add_bpf_prog_attach_target` checks the program, and not the target. -/
theorem addBpfProgAttachTarget_iff (h : NoDangling shm) {perfFd bpfFd : Int} {cookie : Option (BitVec 64)} {fake : Int} :
    (∀ r shm', shm.addBpfProgAttachTarget perfFd bpfFd cookie fake = .ok (r, shm') → NoDangling shm') ↔
      (shm.isProgFd bpfFd = true → Free shm fake → shm.isPerfFd perfFd = true) := by
  unfold Shm.addBpfProgAttachTarget
  constructor
  · intro hkeeps hprog hfree
    -- with a free slot the link is stored
    have hset := hkeeps fake { shm with handlers := shm.handlers.set fake.toNat (.link ⟨bpfFd, perfFd, cookie⟩) } (by
      rw [hprog, if_neg (by decide), if_neg (Int.not_lt.mpr hfree.1.1), setHandler_link hfree]
      rfl)
    exact target_of_noDangling hfree hset
  · intro htarget r shm' hadd
    split at hadd
    · cases hadd
      exact h
    rename_i hprog
    have hprog : shm.isProgFd bpfFd = true := by simpa using hprog
    split at hadd
    · cases hadd
      exact h
    obtain ⟨⟨r', shm₁⟩, hset, hadd⟩ := Shm.bind_ok hadd
    cases hadd
    refine noDangling_setHandler h hset fun link heq hfree => ?_
    cases heq
    exact ⟨hprog, htarget hprog hfree⟩

/-- Nor does `add_bpf_link`. -/
theorem addBpfLink_iff (h : NoDangling shm) {fake progFd targetFd : Int} :
    (∀ r shm', shm.addBpfLink fd fake progFd targetFd = .ok (r, shm') → NoDangling shm') ↔
      (shm.isProgFd progFd = true → Free shm (Shm.fdOrFake fd fake) → shm.isPerfFd targetFd = true) := by
  unfold Shm.addBpfLink
  constructor
  · intro hkeeps hprog hfree
    have hset := hkeeps (Shm.fdOrFake fd fake)
      { shm with handlers := shm.handlers.set (Shm.fdOrFake fd fake).toNat (.link ⟨progFd, targetFd, none⟩) } (by
        rw [hprog, if_neg (by decide), setHandler_link hfree])
    exact target_of_noDangling hfree hset
  · intro htarget r shm' hadd
    split at hadd
    · cases hadd
      exact h
    rename_i hprog
    have hprog : shm.isProgFd progFd = true := by simpa using hprog
    refine noDangling_setHandler h hadd fun link heq hfree => ?_
    cases heq
    exact ⟨hprog, htarget hprog hfree⟩

/-- **An operation leaves no dangling link exactly when it meets the condition**, where there was none. -/
theorem keepsLinks_iff (h : NoDangling shm) (op : ShmOp) : KeepsLinks shm op ↔ TargetsPerf shm op := by
  -- only the two operations that make links can leave one without its target
  cases op with
  | addBpfProgAttachTarget perfFd bpfFd cookie fake =>
      rw [TargetsPerf, ← addBpfProgAttachTarget_iff h]
      constructor
      · intro hkeeps r shm' hadd
        exact hkeeps (some r, shm') (Shm.mem_apply.mpr (by show Shm.step.ret _ = _; rw [hadd]; rfl))
      · exact keepsLinks_of_ret rfl
  | addBpfLink fd fake progFd targetFd =>
      refine Iff.trans ?_ (addBpfLink_iff h)
      constructor
      · intro hkeeps r shm' hadd
        exact hkeeps (some r, shm') (Shm.mem_apply.mpr (by show Shm.step.ret _ = _; rw [hadd]; rfl))
      · exact keepsLinks_of_ret rfl
  | addBpfMap env fd fake name attr =>
      exact iff_of_true (keepsLinks_of_retMap rfl fun _ _ => noDangling_addBpfMap h) trivial
  | dupBpfMap env oldfd newfd fake =>
      exact iff_of_true (keepsLinks_of_retMap rfl fun _ _ => noDangling_dupBpfMap h) trivial
  | setEnabled fd enabled => exact iff_of_true (keepsLinks_of_ret rfl fun _ _ => noDangling_setEnabled h) trivial
  | attachPerfToBpf perfFd bpfFd cookie fake =>
      refine iff_of_true (keepsLinks_of_ret rfl fun r shm' hattach => ?_) trivial
      unfold Shm.attachPerfToBpf at hattach
      split at hattach
      · cases hattach
        exact h
      · rename_i hperf
        exact (addBpfProgAttachTarget_iff h).mpr (fun _ _ => by simpa using hperf) r shm' hattach
  | addCustomPerfEvent fake type attachArgument =>
      refine iff_of_true (keepsLinks_of_ret rfl fun r shm' hadd => ?_) trivial
      unfold Shm.addCustomPerfEvent at hadd
      split at hadd
      · cases hadd
        exact h
      · obtain ⟨⟨r', shm₁⟩, hset, hadd⟩ := Shm.bind_ok hadd
        cases hadd
        exact noDangling_setHandler h hset fun link heq => by cases heq
  | epollCreate fake =>
      refine iff_of_true (keepsLinks_of_ret rfl fun r shm' hadd => ?_) trivial
      unfold Shm.epollCreate at hadd
      split at hadd
      · cases hadd
        exact h
      · exact noDangling_setHandler h hadd fun link heq => by cases heq
  | closeFd fd =>
      refine iff_of_true (fun next hnext => ?_) trivial
      have hclose : (shm.closeFd fd).map (fun shm => (none, shm)) = .ok next := Shm.mem_apply.mp hnext
      cases hclear : shm.closeFd fd with
      | error e =>
          rw [hclear] at hclose
          cases hclose
      | ok shm' =>
          rw [hclear] at hclose
          cases hclose
          exact noDangling_clearIdAt h hclear
  | addBpfProg fd fake insns name memory =>
      exact iff_of_true (keepsLinks_setHandler h (fun link heq => by cases heq) rfl) trivial
  | addUprobe fd fake pid name offset retprobe refCtrOff =>
      exact iff_of_true (keepsLinks_setHandler h (fun link heq => by cases heq) rfl) trivial
  | addUprobeOverride fd fake pid name offset isReplace =>
      exact iff_of_true (keepsLinks_setHandler h (fun link heq => by cases heq) rfl) trivial
  | addKprobe fd fake funcName addr retprobe refCtrOff =>
      exact iff_of_true (keepsLinks_setHandler h (fun link heq => by cases heq) rfl) trivial
  | addTracepoint fd fake pid tracepointId =>
      exact iff_of_true (keepsLinks_setHandler h (fun link heq => by cases heq) rfl) trivial
  | addSoftwarePerfEvent fd fake cpu sampleType config =>
      exact iff_of_true (keepsLinks_setHandler h (fun link heq => by cases heq) rfl) trivial
  | addMemfdHandler fake name flags =>
      exact iff_of_true (keepsLinks_setHandler h (fun link heq => by cases heq) rfl) trivial

/-! ## Runs -/

/-- A new table has no links. -/
theorem noDangling_new (config : BuildConfig) (maxFdCount : Nat) : NoDangling (Shm.new config maxFdCount) := by
  intro i link hget
  have hmem := List.mem_of_getElem? hget
  cases List.eq_of_mem_replicate hmem

/-- **No link dangles** after any operation of a run exactly when every operation meets the condition on targets. -/
theorem links_noDangling_iff (config : BuildConfig) (maxFdCount : Nat) (ops : List ShmOp) :
    Lib.AllSteps Shm.apply KeepsLinks (Shm.new config maxFdCount) ops ↔
      Lib.AllSteps Shm.apply TargetsPerf (Shm.new config maxFdCount) ops := by
  have hkeeps : ∀ shm op, NoDangling shm → TargetsPerf shm op → ∀ next ∈ shm.apply op, NoDangling next.2 :=
    fun shm op h hop => (keepsLinks_iff h op).mpr hop
  exact Lib.allSteps_iff_of_invariant (fun _ op h => keepsLinks_iff h op) hkeeps (noDangling_new config maxFdCount) ops

/-- A link to an fd without a perf event. -/
theorem links_dangle :
    ¬ Lib.AllSteps Shm.apply KeepsLinks (Shm.new ⟨true, false⟩ 8)
      [.addBpfProg 3 (-1) [] [] 0, .addBpfLink 4 (-1) 3 5] := by
  rintro ⟨-, hafter⟩
  obtain ⟨hlink, -⟩ := hafter _ rfl
  obtain ⟨-, hperf⟩ := hlink _ rfl 4 ⟨3, 5, none⟩ rfl
  exact absurd hperf (by decide)

end Handler
