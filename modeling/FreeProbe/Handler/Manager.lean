import FreeProbe.Handler.MapInit
import FreeProbe.Vm.Ebpf

/-!
# `Handler.Manager` — `bpftime_shm` and its `handler_manager`

The table of handlers under the file descriptors. An operation that indexes the table outside of it or reads an object
that is gone ends in a `Fault`; one whose `map_init` throws does not return, and leaves the table as it is then. The fd
that `open_fake_fd` returns (−1 when it fails) is an argument of the operations that may ask for one.
-/

namespace Handler

/-! ## The handlers -/

/-- `bpf_link_handler` -/
structure LinkHandler where
  progId         : Int
  attachTargetId : Int
  attachCookie   : Option (BitVec 64)
deriving DecidableEq

/-- `bpf_prog_handler` -/
structure ProgHandler where
  type  : BitVec 32
  insns : List Vm.EbpfInst
  name  : CStr
deriving DecidableEq

/-- `perf_event_data_variant`, a software event with what it is created with. -/
inductive PerfEventData where
  | uprobe (offset : BitVec 64) (pid : BitVec 32) (refCtrOff : BitVec 64) (moduleName : CStr)
  | tracepoint (pid : BitVec 32) (tracepointId : BitVec 32)
  | software (cpu : BitVec 32) (config : BitVec 64) (sampleType : BitVec 32)
  | custom (attachArgument : CStr)
  | kprobe (funcName : CStr) (addr : BitVec 64) (refCtrOff : BitVec 64)
deriving DecidableEq

/-- `bpf_perf_event_handler` -/
structure PerfEventHandler where
  type    : BitVec 32
  enabled : Bool
  data    : PerfEventData
deriving DecidableEq

/-- `handler_variant` -/
inductive HandlerVariant where
  | unused
  | map (handler : MapHandler)
  | link (handler : LinkHandler)
  | prog (handler : ProgHandler)
  | perfEvent (handler : PerfEventHandler)
  | epoll
  | memfd (name : CStr) (flags : BitVec 32)
deriving DecidableEq

/-- `std::holds_alternative` -/
def HandlerVariant.isMap : HandlerVariant → Bool
  | .map _ => true
  | _ => false

/-- A program. -/
def HandlerVariant.isProg : HandlerVariant → Bool
  | .prog _ => true
  | _ => false

/-- A perf event. -/
def HandlerVariant.isPerfEvent : HandlerVariant → Bool
  | .perfEvent _ => true
  | _ => false

-- the types of perf events, the kernel's and bpftime's own
def PERF_TYPE_SOFTWARE : BitVec 32 := 1
def PERF_TYPE_TRACEPOINT : BitVec 32 := 2
def BPF_TYPE_UPROBE : BitVec 32 := 6
def BPF_TYPE_URETPROBE : BitVec 32 := 7
def BPF_TYPE_KPROBE : BitVec 32 := 8
def BPF_TYPE_KRETPROBE : BitVec 32 := 9
def BPF_TYPE_UPROBE_OVERRIDE : BitVec 32 := 1008
def BPF_TYPE_UREPLACE : BitVec 32 := 1009

/-- How an operation with a map ends: it returns, or the `map_init` that it has called throws. -/
inductive CreateResult where
  | returned (fd : Int)
  | threw
deriving DecidableEq

/-- The fd, if the creation did not throw. -/
def CreateResult.fd? : CreateResult → Option Int
  | .returned fd => some fd
  | .threw => none

/-! ## `handler_manager` -/

/-- `handler_manager` in the shared memory: the handlers by fd, and the segment that they point into. -/
structure Shm where
  config   : BuildConfig
  handlers : List HandlerVariant
  segment  : Segment

namespace Shm

/-- A new shared memory. -/
def new (config : BuildConfig) (maxFdCount : Nat) : Shm := ⟨config, List.replicate maxFdCount .unused, .empty⟩

/-- `size` -/
def size (shm : Shm) : Nat := shm.handlers.length

/-- An index that is inside the table. -/
def InRange (shm : Shm) (fd : Int) : Prop := 0 ≤ fd ∧ fd < shm.size

instance (shm : Shm) (fd : Int) : Decidable (shm.InRange fd) := inferInstanceAs (Decidable (_ ∧ _))

/-- The handler at an index of the table. -/
def slot (shm : Shm) (fd : Int) : HandlerVariant := shm.handlers.getD fd.toNat .unused

/-- `handlers[fd]` -/
def getHandler (shm : Shm) (fd : Int) : Except Fault HandlerVariant :=
  if shm.InRange fd then .ok (shm.slot fd) else .error .outOfRange

/-- `handlers[fd] = handler` -/
def putHandler (shm : Shm) (fd : Int) (handler : HandlerVariant) : Except Fault Shm :=
  if shm.InRange fd then .ok { shm with handlers := shm.handlers.set fd.toNat handler } else .error .outOfRange

/-- `is_allocated` -/
def isAllocated (shm : Shm) (fd : Int) : Bool := shm.InRange fd ∧ shm.slot fd ≠ .unused

-- what the operations return, negated
def EEXIST : Int := 17
def ENOTSUP : Int := 95
def ENOSPC : Int := 28

/-- `set_handler` of a handler that is not of a map. -/
def setHandler (shm : Shm) (fd : Int) (handler : HandlerVariant) : Except Fault (Int × Shm) :=
  if shm.isAllocated fd then .ok (-EEXIST, shm)
  else if handler = .unused then .ok (-ENOTSUP, shm)
  else do
    let shm ← shm.putHandler fd handler
    return (fd, shm)

/-- `set_handler` of a map. What it leaves is there even when `map_init` throws. -/
def setMap (env : CreateEnv) (shm : Shm) (fd : Int) (map : MapHandler) : Except Fault (CreateResult × Shm) :=
  if shm.isAllocated fd then .ok (.returned (-EEXIST), shm)
  else do
    let placed ← shm.putHandler fd (.map map)
    if map.mapImplPtr.isSome then return (.returned fd, placed)
    else
      let out := map.mapInit env shm.config shm.segment
      let shm ← { placed with segment := out.segment }.putHandler fd (.map out.handler)
      -- the number that `map_init` returns is not looked at
      return (if out.ret.isSome then .returned fd else .threw, shm)

/-- The loop of `clear_id_at` over the links to a handler that goes: the call it makes for a link empties its slot. -/
def clearLinks (shm : Shm) (toFd : LinkHandler → Bool) : Shm :=
  { shm with handlers := shm.handlers.map fun handler =>
      match handler with
      | .link link => if toFd link then .unused else .link link
      | handler => handler }

/-- `clear_id_at`: with a program or a perf event go the links to it, and with a map what `map_free` destroys. -/
def clearIdAt (shm : Shm) (fd : Int) : Except Fault Shm :=
  if shm.InRange fd then do
    let shm ← match shm.slot fd with
      | .map map => do
        let segment ← map.mapFree shm.config shm.segment
        pure { shm with segment := segment }
      | .perfEvent _ => pure (shm.clearLinks fun link => link.attachTargetId == fd)
      | .prog _ => pure (shm.clearLinks fun link => link.progId == fd)
      | _ => pure shm
    shm.putHandler fd .unused
  else .ok shm

/-- A handler that is there is destroyed before another takes its slot. -/
def clearUsed (shm : Shm) (fd : Int) (old : HandlerVariant) : Except Fault Shm :=
  if old ≠ .unused then shm.clearIdAt fd else .ok shm

/-! ## `bpftime_shm` -/

/-- `is_map_fd` -/
def isMapFd (shm : Shm) (fd : Int) : Bool := shm.InRange fd && (shm.slot fd).isMap

/-- `is_prog_fd` -/
def isProgFd (shm : Shm) (fd : Int) : Bool := shm.InRange fd && (shm.slot fd).isProg

/-- `is_perf_fd` -/
def isPerfFd (shm : Shm) (fd : Int) : Bool := shm.InRange fd && (shm.slot fd).isPerfEvent

/-- The map object that an fd names. -/
def objectAt (shm : Shm) (fd : Int) : Option Nat :=
  if shm.InRange fd then
    match shm.slot fd with
    | .map map => map.mapImplPtr
    | _ => none
  else none

/-- `if (fd < 0) fd = open_fake_fd();` -/
def fdOrFake (fd fake : Int) : Int := if fd < 0 then fake else fd

/-- `prog_type` is not stored: `type` has what the memory had. -/
def addBpfProg (shm : Shm) (fd fake : Int) (insns : List Vm.EbpfInst) (name : CStr) (memory : BitVec 32) :
    Except Fault (Int × Shm) :=
  shm.setHandler (fdOrFake fd fake) (.prog ⟨memory, insns, name⟩)

/-- The table when the handler that was at the fd is gone. -/
def clearedFor (shm : Shm) (fd : Int) : Except Fault Shm := do
  let old ← shm.getHandler fd
  shm.clearUsed fd old

/-- `bpftime_maps_create` -/
def addBpfMap (env : CreateEnv) (shm : Shm) (fd fake : Int) (name : CStr) (attr : MapAttr) :
    Except Fault (CreateResult × Shm) := do
  let fd := fdOrFake fd fake
  let shm ← shm.clearedFor fd
  setMap env shm fd (.new name attr)

/-- `dup_bpf_map` clears the new fd before it copies the handler. -/
def dupBpfMap (env : CreateEnv) (shm : Shm) (oldfd newfd fake : Int) : Except Fault (CreateResult × Shm) :=
  if !shm.isMapFd oldfd then .ok (.returned (-1), shm)
  else do
    let newfd := fdOrFake newfd fake
    let handler ← shm.getHandler oldfd
    let shm ← shm.clearedFor newfd
    -- `handler` is a reference into the table
    match handler with
    | .map map =>
      if newfd = oldfd then .error .dangling
      else
        match map.mapImplPtr, map.mapRefcntPtr with
        | some impl, some cell =>
          match shm.segment.refcnts cell with
          | none => .error .dangling
          | some count =>
            let dup : MapHandler := ⟨map.attr, map.name, some impl, some cell⟩
            setMap env { shm with segment := shm.segment.setRefcnt cell (some (count + 1)) } newfd dup
        | _, _ => setMap env shm newfd (.new (cstr "dup_" ++ map.name) map.attr)
    | _ => .error .dangling

/-- `add_uprobe` -/
def addUprobe (shm : Shm) (fd fake : Int) (pid : BitVec 32) (name : CStr) (offset : BitVec 64) (retprobe : Bool)
    (refCtrOff : BitVec 64) : Except Fault (Int × Shm) :=
  let type := if retprobe then BPF_TYPE_URETPROBE else BPF_TYPE_UPROBE
  shm.setHandler (fdOrFake fd fake) (.perfEvent ⟨type, false, .uprobe offset pid refCtrOff name⟩)

/-- `add_uprobe_override` -/
def addUprobeOverride (shm : Shm) (fd fake : Int) (pid : BitVec 32) (name : CStr) (offset : BitVec 64)
    (isReplace : Bool) : Except Fault (Int × Shm) :=
  let type := if isReplace then BPF_TYPE_UREPLACE else BPF_TYPE_UPROBE_OVERRIDE
  shm.setHandler (fdOrFake fd fake) (.perfEvent ⟨type, true, .uprobe offset pid 0 name⟩)

/-- `add_kprobe` -/
def addKprobe (shm : Shm) (fd : Option Int) (fake : Int) (funcName : CStr) (addr : BitVec 64) (retprobe : Bool)
    (refCtrOff : BitVec 64) : Except Fault (Int × Shm) :=
  let type := if retprobe then BPF_TYPE_KRETPROBE else BPF_TYPE_KPROBE
  shm.setHandler (fd.getD fake) (.perfEvent ⟨type, false, .kprobe funcName addr refCtrOff⟩)

/-- `add_tracepoint` -/
def addTracepoint (shm : Shm) (fd fake : Int) (pid tracepointId : BitVec 32) : Except Fault (Int × Shm) :=
  shm.setHandler (fdOrFake fd fake) (.perfEvent ⟨PERF_TYPE_TRACEPOINT, false, .tracepoint pid tracepointId⟩)

/-- Both overloads: without an fd it takes a fake one. -/
def addSoftwarePerfEvent (shm : Shm) (fd : Option Int) (fake : Int) (cpu sampleType : BitVec 32) (config : BitVec 64) :
    Except Fault (Int × Shm) :=
  shm.setHandler (fd.getD fake) (.perfEvent ⟨PERF_TYPE_SOFTWARE, false, .software cpu config sampleType⟩)

/-- `add_custom_perf_event` -/
def addCustomPerfEvent (shm : Shm) (fake : Int) (type : BitVec 32) (attachArgument : CStr) :
    Except Fault (Int × Shm) :=
  if fake < 0 then .ok (fake, shm)
  else do
    let (_, shm) ← shm.setHandler fake (.perfEvent ⟨type, false, .custom attachArgument⟩)
    return (fake, shm)

/-- `add_bpf_prog_attach_target` checks the program only. -/
def addBpfProgAttachTarget (shm : Shm) (perfFd bpfFd : Int) (cookie : Option (BitVec 64)) (fake : Int) :
    Except Fault (Int × Shm) :=
  if !shm.isProgFd bpfFd then .ok (-1, shm)
  else if fake < 0 then .ok (-ENOSPC, shm)
  else do
    let (_, shm) ← shm.setHandler fake (.link ⟨bpfFd, perfFd, cookie⟩)
    return (fake, shm)

/-- `attach_perf_to_bpf` checks both. -/
def attachPerfToBpf (shm : Shm) (perfFd bpfFd : Int) (cookie : Option (BitVec 64)) (fake : Int) :
    Except Fault (Int × Shm) :=
  if !shm.isPerfFd perfFd then .ok (-1, shm) else shm.addBpfProgAttachTarget perfFd bpfFd cookie fake

/-- `add_bpf_link` -/
def addBpfLink (shm : Shm) (fd fake : Int) (progFd targetFd : Int) : Except Fault (Int × Shm) :=
  if !shm.isProgFd progFd then .ok (-1, shm)
  else shm.setHandler (fdOrFake fd fake) (.link ⟨progFd, targetFd, none⟩)

/-- `epoll_create` -/
def epollCreate (shm : Shm) (fake : Int) : Except Fault (Int × Shm) :=
  if shm.isAllocated fake then .ok (-1, shm) else shm.setHandler fake .epoll

/-- `add_memfd_handler` -/
def addMemfdHandler (shm : Shm) (fake : Int) (name : CStr) (flags : BitVec 32) : Except Fault (Int × Shm) :=
  shm.setHandler fake (.memfd name flags)

/-- `perf_event_enable` and `perf_event_disable`. -/
def setEnabled (shm : Shm) (fd : Int) (enabled : Bool) : Except Fault (Int × Shm) :=
  if !shm.isPerfFd fd then .ok (-1, shm)
  else
    match shm.slot fd with
    | .perfEvent handler => do
      let shm ← shm.putHandler fd (.perfEvent { handler with enabled := enabled })
      return (0, shm)
    | _ => .ok (-1, shm)

/-- `close_fd` -/
def closeFd (shm : Shm) (fd : Int) : Except Fault Shm := shm.clearIdAt fd

end Shm

/-! ## Operations -/

/-- The operations on the shared memory. -/
inductive ShmOp where
  | addBpfProg (fd fake : Int) (insns : List Vm.EbpfInst) (name : CStr) (memory : BitVec 32)
  | addBpfMap (env : CreateEnv) (fd fake : Int) (name : CStr) (attr : MapAttr)
  | dupBpfMap (env : CreateEnv) (oldfd newfd fake : Int)
  | addUprobe (fd fake : Int) (pid : BitVec 32) (name : CStr) (offset : BitVec 64) (retprobe : Bool)
      (refCtrOff : BitVec 64)
  | addUprobeOverride (fd fake : Int) (pid : BitVec 32) (name : CStr) (offset : BitVec 64) (isReplace : Bool)
  | addKprobe (fd : Option Int) (fake : Int) (funcName : CStr) (addr : BitVec 64) (retprobe : Bool)
      (refCtrOff : BitVec 64)
  | addTracepoint (fd fake : Int) (pid tracepointId : BitVec 32)
  | addSoftwarePerfEvent (fd : Option Int) (fake : Int) (cpu sampleType : BitVec 32) (config : BitVec 64)
  | addCustomPerfEvent (fake : Int) (type : BitVec 32) (attachArgument : CStr)
  | addBpfProgAttachTarget (perfFd bpfFd : Int) (cookie : Option (BitVec 64)) (fake : Int)
  | attachPerfToBpf (perfFd bpfFd : Int) (cookie : Option (BitVec 64)) (fake : Int)
  | addBpfLink (fd fake : Int) (progFd targetFd : Int)
  | epollCreate (fake : Int)
  | addMemfdHandler (fake : Int) (name : CStr) (flags : BitVec 32)
  | setEnabled (fd : Int) (enabled : Bool)
  | closeFd (fd : Int)

namespace Shm

/-- An operation; `close_fd` returns nothing, and neither does an operation whose `map_init` throws. -/
def step (shm : Shm) : ShmOp → Except Fault (Option Int × Shm)
  | .addBpfProg fd fake insns name memory => ret (shm.addBpfProg fd fake insns name memory)
  | .addBpfMap env fd fake name attr => retMap (shm.addBpfMap env fd fake name attr)
  | .dupBpfMap env oldfd newfd fake => retMap (shm.dupBpfMap env oldfd newfd fake)
  | .addUprobe fd fake pid name offset retprobe refCtrOff =>
    ret (shm.addUprobe fd fake pid name offset retprobe refCtrOff)
  | .addUprobeOverride fd fake pid name offset isReplace =>
    ret (shm.addUprobeOverride fd fake pid name offset isReplace)
  | .addKprobe fd fake funcName addr retprobe refCtrOff => ret (shm.addKprobe fd fake funcName addr retprobe refCtrOff)
  | .addTracepoint fd fake pid tracepointId => ret (shm.addTracepoint fd fake pid tracepointId)
  | .addSoftwarePerfEvent fd fake cpu sampleType config => ret (shm.addSoftwarePerfEvent fd fake cpu sampleType config)
  | .addCustomPerfEvent fake type attachArgument => ret (shm.addCustomPerfEvent fake type attachArgument)
  | .addBpfProgAttachTarget perfFd bpfFd cookie fake => ret (shm.addBpfProgAttachTarget perfFd bpfFd cookie fake)
  | .attachPerfToBpf perfFd bpfFd cookie fake => ret (shm.attachPerfToBpf perfFd bpfFd cookie fake)
  | .addBpfLink fd fake progFd targetFd => ret (shm.addBpfLink fd fake progFd targetFd)
  | .epollCreate fake => ret (shm.epollCreate fake)
  | .addMemfdHandler fake name flags => ret (shm.addMemfdHandler fake name flags)
  | .setEnabled fd enabled => ret (shm.setEnabled fd enabled)
  | .closeFd fd => (shm.closeFd fd).map fun shm => (none, shm)
where
  ret (result : Except Fault (Int × Shm)) : Except Fault (Option Int × Shm) :=
    result.map fun (r, shm) => (some r, shm)
  retMap (result : Except Fault (CreateResult × Shm)) : Except Fault (Option Int × Shm) :=
    result.map fun (r, shm) => (r.fd?, shm)

/-- An operation as the step of a machine, which a fault stops. -/
def apply (shm : Shm) (op : ShmOp) : Option (Option Int × Shm) := (shm.step op).toOption

end Shm

/-! ## Slots -/

namespace Shm

variable {shm shm' : Shm} {fd r : Int} {handler : HandlerVariant}

/-- An index in range is a slot of the list. -/
theorem inRange_iff : shm.InRange fd ↔ ∃ n : Nat, fd = n ∧ n < shm.handlers.length := by
  constructor
  · rintro ⟨hpos, hlt⟩
    exact ⟨fd.toNat, (Int.toNat_of_nonneg hpos).symm, by unfold size at hlt; omega⟩
  · rintro ⟨n, rfl, hlt⟩
    exact ⟨Int.natCast_nonneg n, Int.ofNat_lt.mpr hlt⟩

/-- The entry of a slot. -/
theorem getElem_slot {n : Nat} (h : n < shm.handlers.length) : shm.handlers[n]? = some (shm.slot n) := by
  show shm.handlers[n]? = some (shm.handlers.getD n .unused)
  rw [List.getD_eq_getElem?_getD, List.getElem?_eq_getElem h]
  rfl

/-- `get_handler` in range. -/
theorem getHandler_eq (h : shm.InRange fd) : shm.getHandler fd = .ok (shm.slot fd) := if_pos h

/-- Setting a slot in range. -/
theorem putHandler_eq (h : shm.InRange fd) :
    shm.putHandler fd handler = .ok { shm with handlers := shm.handlers.set fd.toNat handler } := if_pos h

/-- A slot that is used. -/
theorem isAllocated_iff : shm.isAllocated fd = true ↔ shm.InRange fd ∧ shm.slot fd ≠ .unused := decide_eq_true_iff

/-- No slot, none used. -/
theorem isAllocated_of_not_inRange (h : ¬ shm.InRange fd) : shm.isAllocated fd = false :=
  decide_eq_false fun hall => h hall.1

/-! ### `set_handler` -/

/-- `set_handler` on a slot that is used. -/
theorem setHandler_allocated (h : shm.isAllocated fd = true) : shm.setHandler fd handler = .ok (-EEXIST, shm) := by
  unfold setHandler
  rw [if_pos h]

/-- Outside of the table the assignment goes outside of it. -/
theorem setHandler_outOfRange (hne : handler ≠ .unused) (h : ¬ shm.InRange fd) :
    shm.setHandler fd handler = .error .outOfRange := by
  unfold setHandler putHandler
  rw [isAllocated_of_not_inRange h, if_neg Bool.false_ne_true, if_neg hne, if_neg h]
  rfl

/-- On one that is free. -/
theorem setHandler_free (hne : handler ≠ .unused) (h : shm.InRange fd) (hfree : shm.slot fd = .unused) :
    shm.setHandler fd handler = .ok (fd, { shm with handlers := shm.handlers.set fd.toNat handler }) := by
  have hnot : ¬ shm.isAllocated fd = true := fun hall => (isAllocated_iff.mp hall).2 hfree
  unfold setHandler
  rw [if_neg hnot, if_neg hne, putHandler_eq h]
  rfl

/-- A slot of the table is allocated or free. -/
theorem free_of_not_isAllocated (hall : ¬ shm.isAllocated fd = true) (hin : shm.InRange fd) : shm.slot fd = .unused := by
  by_contra hused
  exact hall (isAllocated_iff.mpr ⟨hin, hused⟩)

/-- `set_handler` without a fault: nothing, or a free slot taken. -/
theorem setHandler_ok (h : shm.setHandler fd handler = .ok (r, shm')) :
    shm' = shm ∨ ∃ n : Nat, fd = n ∧ shm.handlers[n]? = some .unused ∧ shm'.handlers = shm.handlers.set n handler := by
  by_cases hall : shm.isAllocated fd = true
  · rw [setHandler_allocated hall] at h
    cases h
    exact .inl rfl
  by_cases hne : handler = .unused
  · unfold setHandler at h
    rw [if_neg hall, if_pos hne] at h
    cases h
    exact .inl rfl
  by_cases hin : shm.InRange fd
  swap
  · rw [setHandler_outOfRange hne hin] at h
    cases h
  have hfree := free_of_not_isAllocated hall hin
  obtain ⟨n, rfl, hn⟩ := inRange_iff.mp hin
  rw [setHandler_free hne hin hfree] at h
  cases h
  exact .inr ⟨n, rfl, by rw [getElem_slot hn, hfree], rfl⟩

/-! ### `set_handler` of a map -/

section SetMap

variable {env : CreateEnv} {map : MapHandler} {result : CreateResult}

/-- The same with a map. -/
theorem setMap_allocated (h : shm.isAllocated fd = true) : setMap env shm fd map = .ok (.returned (-EEXIST), shm) := by
  unfold setMap
  rw [if_pos h]

/-- Out of the table. -/
theorem setMap_outOfRange (h : ¬ shm.InRange fd) : setMap env shm fd map = .error .outOfRange := by
  unfold setMap putHandler
  rw [isAllocated_of_not_inRange h, if_neg Bool.false_ne_true, if_neg h]
  rfl

/-- A map that shares its object. -/
theorem setMap_shared {impl : Nat} (himpl : map.mapImplPtr = some impl) (h : shm.InRange fd) (hfree : shm.slot fd = .unused) :
    setMap env shm fd map = .ok (.returned fd, { shm with handlers := shm.handlers.set fd.toNat (.map map) }) := by
  have hnot : ¬ shm.isAllocated fd = true := fun hall => (isAllocated_iff.mp hall).2 hfree
  unfold setMap
  rw [if_neg hnot, putHandler_eq h]
  show (if map.mapImplPtr.isSome = true then _ else _) = _
  rw [himpl]
  rfl

/-- A map that is initialised: it is in the slot, however `map_init` ended. -/
theorem setMap_new (himpl : map.mapImplPtr = none) (h : shm.InRange fd) (hfree : shm.slot fd = .unused) :
    setMap env shm fd map = .ok (if (map.mapInit env shm.config shm.segment).ret.isSome then .returned fd else .threw,
      ⟨shm.config, shm.handlers.set fd.toNat (.map (map.mapInit env shm.config shm.segment).handler),
        (map.mapInit env shm.config shm.segment).segment⟩) := by
  have hnot : ¬ shm.isAllocated fd = true := fun hall => (isAllocated_iff.mp hall).2 hfree
  have hin : Shm.InRange ⟨shm.config, shm.handlers.set fd.toNat (.map map),
      (map.mapInit env shm.config shm.segment).segment⟩ fd := by
    unfold InRange size at *
    rw [List.length_set]
    exact h
  unfold setMap
  rw [if_neg hnot, putHandler_eq h]
  show (if map.mapImplPtr.isSome = true then _ else do
    let shm ← Shm.putHandler ⟨shm.config, shm.handlers.set fd.toNat (.map map), _⟩ fd (.map _)
    return (_, shm)) = _
  rw [himpl, if_neg (by decide), putHandler_eq hin, List.set_set]
  rfl

/-- `set_handler` of a map without a fault: nothing, or a free slot taken by a map. -/
theorem setMap_ok (h : setMap env shm fd map = .ok (result, shm')) :
    shm' = shm ∨ ∃ n : Nat, fd = n ∧ shm.handlers[n]? = some .unused ∧ ∃ map', shm'.handlers = shm.handlers.set n (.map map') := by
  by_cases hall : shm.isAllocated fd = true
  · rw [setMap_allocated hall] at h
    cases h
    exact .inl rfl
  by_cases hin : shm.InRange fd
  swap
  · rw [setMap_outOfRange hin] at h
    cases h
  have hfree := free_of_not_isAllocated hall hin
  obtain ⟨n, rfl, hn⟩ := inRange_iff.mp hin
  refine .inr ⟨n, rfl, by rw [getElem_slot hn, hfree], ?_⟩
  cases himpl : map.mapImplPtr with
  | some impl =>
      rw [setMap_shared himpl hin hfree] at h
      cases h
      exact ⟨map, rfl⟩
  | none =>
      rw [setMap_new himpl hin hfree] at h
      cases h
      exact ⟨_, rfl⟩

end SetMap

/-! ### `clear_id_at` -/

/-- What is left of the handlers when the one at `fd` goes. -/
def cleared (shm : Shm) (fd : Int) : List HandlerVariant :=
  (match shm.slot fd with
    | .perfEvent _ => (shm.clearLinks fun link => link.attachTargetId == fd).handlers
    | .prog _ => (shm.clearLinks fun link => link.progId == fd).handlers
    | _ => shm.handlers).set fd.toNat .unused

/-- Taking links away keeps the size. -/
theorem clearLinks_inRange {toFd : LinkHandler → Bool} : (shm.clearLinks toFd).InRange fd ↔ shm.InRange fd := by
  unfold InRange size clearLinks
  rw [List.length_map]

/-- What `clear_id_at` leaves of the handlers. -/
theorem clearIdAt_ok (h : shm.clearIdAt fd = .ok shm') :
    (¬ shm.InRange fd ∧ shm' = shm) ∨ (shm.InRange fd ∧ shm'.handlers = shm.cleared fd) := by
  unfold clearIdAt at h
  by_cases hin : shm.InRange fd
  swap
  · rw [if_neg hin] at h
    cases h
    exact .inl ⟨hin, rfl⟩
  rw [if_pos hin] at h
  refine .inr ⟨hin, ?_⟩
  unfold cleared
  cases hslot : shm.slot fd with
  | map map =>
      rw [hslot] at h
      cases hfree : map.mapFree shm.config shm.segment with
      | error e =>
          simp only [hfree] at h
          cases h
      | ok segment =>
          simp only [hfree] at h
          have hput : Shm.putHandler ⟨shm.config, shm.handlers, segment⟩ fd .unused = .ok shm' := h
          rw [putHandler_eq (by exact hin)] at hput
          cases hput
          rfl
  | perfEvent perf =>
      rw [hslot] at h
      have hput : (shm.clearLinks fun link => link.attachTargetId == fd).putHandler fd .unused = .ok shm' := h
      rw [putHandler_eq (clearLinks_inRange.mpr hin)] at hput
      cases hput
      rfl
  | prog prog =>
      rw [hslot] at h
      have hput : (shm.clearLinks fun link => link.progId == fd).putHandler fd .unused = .ok shm' := h
      rw [putHandler_eq (clearLinks_inRange.mpr hin)] at hput
      cases hput
      rfl
  | _ =>
      rw [hslot] at h
      have hput : shm.putHandler fd .unused = .ok shm' := h
      rw [putHandler_eq hin] at hput
      cases hput
      rfl

/-- The links to the fd are gone, and the rest is there. -/
theorem getElem_clearLinks {toFd : LinkHandler → Bool} {i : Nat} :
    (shm.clearLinks toFd).handlers[i]? = shm.handlers[i]?.map fun handler =>
      match handler with
      | .link link => if toFd link then .unused else .link link
      | handler => handler := by
  unfold clearLinks
  rw [List.getElem?_map]

/-- A link that is left is one that was there, whose ends are not the handler that went. -/
theorem cleared_link {i : Nat} {link : LinkHandler} (hin : shm.InRange fd) (h : (shm.cleared fd)[i]? = some (.link link)) :
    shm.handlers[i]? = some (.link link) ∧ ((shm.slot fd).isPerfEvent = true → link.attachTargetId ≠ fd) ∧
      ((shm.slot fd).isProg = true → link.progId ≠ fd) := by
  obtain ⟨n, rfl, hn⟩ := inRange_iff.mp hin
  unfold cleared at h
  have hni : n ≠ i := by
    rintro rfl
    rw [Int.toNat_natCast, List.getElem?_set_self'] at h
    obtain ⟨handler, -, heq⟩ := Option.map_eq_some_iff.mp h
    cases (show HandlerVariant.unused = .link link from heq)
  rw [Int.toNat_natCast, List.getElem?_set_ne hni] at h
  -- the link went through the loop
  have hthrough : ∀ toFd : LinkHandler → Bool, (shm.clearLinks toFd).handlers[i]? = some (.link link) →
      shm.handlers[i]? = some (.link link) ∧ toFd link = false := by
    intro toFd hlink
    rw [getElem_clearLinks] at hlink
    obtain ⟨handler, hget, heq⟩ := Option.map_eq_some_iff.mp hlink
    cases handler with
    | link link' =>
        simp only at heq
        split at heq
        · cases heq
        · rename_i hto
          cases heq
          exact ⟨hget, Bool.eq_false_iff.mpr hto⟩
    | _ => cases heq
  cases hslot : shm.slot n with
  | perfEvent perf =>
      rw [hslot] at h
      obtain ⟨hget, hto⟩ := hthrough _ h
      exact ⟨hget, fun _ heq => by simp [heq] at hto, fun hprog => by cases hprog⟩
  | prog prog =>
      rw [hslot] at h
      obtain ⟨hget, hto⟩ := hthrough _ h
      exact ⟨hget, fun hperf => (by cases hperf), fun _ heq => by simp [heq] at hto⟩
  | _ =>
      rw [hslot] at h
      exact ⟨h, fun hperf => (by cases hperf), fun hprog => by cases hprog⟩

/-- A handler that is not a link stays in its slot. -/
theorem cleared_other {i : Nat} (hne : (i : Int) ≠ fd) (h : shm.handlers[i]? = some handler)
    (hlink : ∀ link, handler ≠ .link link) (hin : shm.InRange fd) : (shm.cleared fd)[i]? = some handler := by
  obtain ⟨n, rfl, hn⟩ := inRange_iff.mp hin
  have hni : n ≠ i := fun heq => hne (by rw [heq])
  have hthrough : ∀ toFd : LinkHandler → Bool, (shm.clearLinks toFd).handlers[i]? = some handler := by
    intro toFd
    rw [getElem_clearLinks, h]
    cases handler with
    | link link => exact absurd rfl (hlink link)
    | _ => rfl
  unfold cleared
  rw [Int.toNat_natCast, List.getElem?_set_ne hni]
  cases shm.slot n with
  | perfEvent perf => exact hthrough _
  | prog prog => exact hthrough _
  | _ => exact h

/-- The size of what is left. -/
theorem length_cleared : (shm.cleared fd).length = shm.handlers.length := by
  unfold cleared clearLinks
  rw [List.length_set]
  cases shm.slot fd <;> simp

/-! ### Operations -/

/-- A step that does not fault. -/
theorem mem_apply {op : ShmOp} {next : Option Int × Shm} : next ∈ shm.apply op ↔ shm.step op = .ok next := by
  unfold apply
  cases shm.step op with
  | error e => exact ⟨fun h => (by cases h), fun h => (by cases h)⟩
  | ok result =>
      show some result = some next ↔ _
      rw [Option.some_inj, Except.ok.injEq]

/-- What a step returned. -/
theorem ret_ok {result : Except Fault (Int × Shm)} {next : Option Int × Shm} (h : step.ret result = .ok next) :
    ∃ r, result = .ok (r, next.2) ∧ next.1 = some r := by
  cases result with
  | error e => cases h
  | ok result =>
      obtain ⟨r, shm'⟩ := result
      cases h
      exact ⟨r, rfl, rfl⟩

/-- The same with a map. -/
theorem retMap_ok {result : Except Fault (CreateResult × Shm)} {next : Option Int × Shm} (h : step.retMap result = .ok next) :
    ∃ r, result = .ok (r, next.2) ∧ next.1 = r.fd? := by
  cases result with
  | error e => cases h
  | ok result =>
      cases h
      exact ⟨result.1, rfl, rfl⟩

/-- A sequence of steps without a fault, taken apart. -/
theorem bind_ok {α β : Type} {x : Except Fault α} {f : α → Except Fault β} {b : β} (h : (x >>= f) = .ok b) :
    ∃ a, x = .ok a ∧ f a = .ok b := by
  cases x with
  | error e => cases h
  | ok a => exact ⟨a, rfl, h⟩

end Shm

end Handler
