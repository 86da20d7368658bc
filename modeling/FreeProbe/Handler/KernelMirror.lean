import FreeProbe.Handler.KernelProg
import FreeProbe.Handler.Links
import FreeProbe.Handler.MapCreation
import Mathlib.Data.List.TakeWhile

/-!
# `Handler.KernelMirror` — programs that the daemon takes over from the kernel

`bpf_tracer.bpf.c` records the instructions of a program when it is loaded; `bpftime_driver.cpp` registers the program in
the table under its kernel id, and its maps under theirs. A program that is registered is what later attachments take for
complete, so the driver must not leave one behind that is not.

The driver registers the program first and creates its maps then, so it leaves an incomplete one whenever that fails; and a
map of the same number takes the program's slot. What the kernel answers is a `DriverEnv`.
-/

namespace Handler

open Lib MapTable

/-! ## The instructions of a load

The tracer has one entry for each thread that loads. What a load that the kernel refuses has left there stays for the
thread's next one. -/

/-- The room for the instructions of a program. -/
def BPF_COMPLEXITY_LIMIT_INSNS : Nat := 4096

/-- `bpf_insn_data` -/
structure InsnData where
  code    : Vector Vm.EbpfInst BPF_COMPLEXITY_LIMIT_INSNS
  codeLen : BitVec 32

/-- The recorded instructions; `code_len` may be more than there is room for. -/
def InsnData.insns (data : InsnData) : List Vm.EbpfInst := data.code.toList.take data.codeLen.toNat

/-- `insns_data`, and `bpf_prog_insns_map`, whose keys are threads that load and ids of programs. -/
structure Tracer where
  insnsData : InsnData
  insnsMap  : BitVec 64 → Option InsnData

namespace Tracer

/-- `bpf_probe_read_user(&insns_data.code, read_len, insns)`: as many instructions as there is room for. -/
def readCode {room : Nat} (code : Vector Vm.EbpfInst room) (insns : List Vm.EbpfInst) : Vector Vm.EbpfInst room :=
  Vector.ofFn fun i => insns.getD i code[i]

/-- The recording in `process_bpf_prog_load_events`, with `BPF_NOEXIST`. -/
def processBpfProgLoadEvents (tracer : Tracer) (pidTgid : BitVec 64) (insns : List Vm.EbpfInst) : Tracer :=
  let insnsData : InsnData := ⟨readCode tracer.insnsData.code insns, BitVec.ofNat 32 insns.length⟩
  { insnsData := insnsData
    insnsMap  := if (tracer.insnsMap pidTgid).isSome then tracer.insnsMap
      else Function.update tracer.insnsMap pidTgid (some insnsData) }

/-- `bpf_prog_kallsyms_add_enter`: the kernel has taken the program and given it an id. -/
def bpfProgKallsymsAddEnter (tracer : Tracer) (pidTgid : BitVec 64) (id : BitVec 32) : Tracer :=
  match tracer.insnsMap pidTgid with
  | none => tracer
  | some data =>
    { tracer with
      insnsMap := Function.update (Function.update tracer.insnsMap (id.setWidth 64) (some data)) pidTgid none }

end Tracer

/-! ## The driver

The functions of the daemon that mirror a program. The kernel's answers are a parameter. -/

/-- A program of the kernel: the instructions as they were loaded, the id of the map that each fd in them named, and the
ids of the maps that it uses. -/
structure KernelProg where
  insns : List Vm.EbpfInst
  mapId : BitVec 32 → BitVec 32
  name  : CStr
  maps  : List Nat

/-- An instruction with the fd of its map replaced. -/
def KernelProg.relocatedInst (prog : KernelProg) (inst : Vm.EbpfInst) : Vm.EbpfInst :=
  if refersToMap inst then { inst with imm := prog.mapId inst.imm } else inst

/-- The instructions with map ids in place of fds. -/
def KernelProg.relocated (prog : KernelProg) : List Vm.EbpfInst := prog.insns.map prog.relocatedInst

/-- What the calls of the driver get: whether `bpf_prog_get_fd_by_id` and `bpf_obj_get_info_by_fd` succeed, the entry of
`bpf_prog_insns_map`, the ids in `bpf_fd_map` by the fds of the process, whether the related maps are told, what is told of
each, and how its `map_init` ends. `memory` is what lies in the new handler's type. -/
structure DriverEnv where
  progFd      : Bool
  progInfo    : Bool
  insnData    : Option InsnData
  fdMap       : BitVec 32 → Option (BitVec 32)
  memory      : BitVec 32
  relatedInfo : Bool
  mapInfo     : Nat → Option MapInfo
  mapInit     : Nat → InitOut

namespace DriverEnv

/-- A negative id is taken for a failure. -/
def getBpfObjIdFromPidFd (env : DriverEnv) (fd : BitVec 32) : Option (BitVec 32) :=
  (env.fdMap fd).filter fun id => decide (0 ≤ id.toInt)

/-- Beyond the buffer the loop reads what lies behind it. -/
def relocateBpfProgInsns (env : DriverEnv) : Except Fault (Option (List Vm.EbpfInst)) :=
  match env.insnData with
  | none => .ok none
  | some data =>
    if BPF_COMPLEXITY_LIMIT_INSNS < data.codeLen.toNat then .error .outOfRange
    else .ok (relocateInsns env.getBpfObjIdFromPidFd data.insns)

end DriverEnv

/-- `set_handler` with a new map, whose `map_init` ends as it is told. -/
def setMapWith (out : InitOut) (shm : Shm) (fd : Int) (map : MapHandler) : Except Fault (CreateResult × Shm) :=
  if shm.isAllocated fd then .ok (.returned (-Shm.EEXIST), shm)
  else do
    let placed ← shm.putHandler fd (.map map)
    let shm ← { placed with segment := out.segment }.putHandler fd (.map out.handler)
    return (if out.ret.isSome then .returned fd else .threw, shm)

/-- `setMap` is such a creation, which ends as `map_init` does. -/
theorem setMap_eq_setMapWith (env : CreateEnv) (shm : Shm) (fd : Int) {map : MapHandler} (himpl : map.mapImplPtr = none) :
    shm.setMap env fd map = setMapWith (map.mapInit env shm.config shm.segment) shm fd map := by
  unfold Shm.setMap setMapWith
  rw [himpl]
  rfl

namespace Shm

/-- `bpftime_maps_create` -/
def mapsCreate (env : DriverEnv) (shm : Shm) (id : Nat) (name : CStr) (attr : MapAttr) :
    Except Fault (CreateResult × Shm) := do
  let shm ← shm.clearedFor id
  setMapWith (env.mapInit id) shm id (.new name attr)

/-- It is `add_bpf_map` where the driver is told what `map_init` comes to. -/
theorem mapsCreate_eq_addBpfMap {env : DriverEnv} {create : CreateEnv} {shm : Shm} {id : Nat} {name : CStr} {attr : MapAttr}
    (h : ∀ left, shm.clearedFor id = .ok left →
      env.mapInit id = (MapHandler.new name attr).mapInit create left.config left.segment) (fake : Int) :
    shm.mapsCreate env id name attr = shm.addBpfMap create id fake name attr := by
  have hfd : fdOrFake id fake = id := if_neg (Int.not_lt.mpr (Int.natCast_nonneg id))
  unfold mapsCreate addBpfMap
  rw [hfd]
  dsimp only
  cases hclear : shm.clearedFor id with
  | error e => rfl
  | ok left =>
      show setMapWith (env.mapInit id) left id _ = left.setMap create id _
      rw [setMap_eq_setMapWith create left id rfl, h left hclear]

/-- `bpf_maps_create_server` -/
def mapsCreateServer (env : DriverEnv) (shm : Shm) (id : Nat) : Except Fault (CreateResult × Shm) :=
  match env.mapInfo id with
  | none => .ok (.returned (-1), shm)
  | some info =>
    if shm.isMapFd id then .ok (.returned 0, shm)
    else do
      let (out, shm) ← shm.mapsCreate env id info.name
        (info.attr (info.type + KERNEL_USER_MAP_OFFSET) (BitVec.ofNat 32 id))
      match out with
      | .threw => return (.threw, shm)
      | .returned res => return (.returned (if res < 0 then -1 else id), shm)

/-- The loop of `check_and_create_prog_related_maps`. -/
def createRelatedMaps (env : DriverEnv) (shm : Shm) : List Nat → Except Fault (CreateResult × Shm)
  | [] => .ok (.returned 0, shm)
  | id :: ids =>
    if shm.isMapFd id then createRelatedMaps env shm ids
    else do
      let (out, shm) ← shm.mapsCreateServer env id
      match out with
      | .threw => return (.threw, shm)
      | .returned res => if res < 0 then return (.returned (-1), shm) else createRelatedMaps env shm ids

/-- `check_and_create_prog_related_maps` -/
def checkAndCreateProgRelatedMaps (env : DriverEnv) (shm : Shm) (prog : KernelProg) :
    Except Fault (CreateResult × Shm) :=
  if env.relatedInfo then createRelatedMaps env shm prog.maps else .ok (.returned (-1), shm)

/-- `bpf_progs_create_server` -/
def progsCreateServer (env : DriverEnv) (shm : Shm) (id : Nat) (prog : KernelProg) :
    Except Fault (CreateResult × Shm) :=
  if !env.progFd then .ok (.returned (-1), shm)
  else if !env.progInfo then .ok (.returned (-1), shm)
  else if shm.isProgFd id then .ok (.returned 0, shm)
  else do
    match ← env.relocateBpfProgInsns with
    | none => return (.returned (-1), shm)
    | some insns =>
      let (res, shm) ← shm.addBpfProg id (-1) insns prog.name env.memory
      if res < 0 then return (.returned (-1), shm)
      else
        let (out, shm) ← checkAndCreateProgRelatedMaps env shm prog
        match out with
        | .threw => return (.threw, shm)
        | .returned res => return (.returned (if res < 0 then -1 else id), shm)

/-- `perf_id` is what `check_and_get_pid_fd` finds. -/
def attachPerfToBpfServer (env : DriverEnv) (shm : Shm) (perfId : Option Int) (id : Nat) (prog : KernelProg)
    (fake : Int) : Except Fault (CreateResult × Shm) :=
  match perfId with
  | none => .ok (.returned (-1), shm)
  | some perfId => do
    let (out, shm) ← (if shm.isProgFd id then .ok (.returned 0, shm) else progsCreateServer env shm id prog :
      Except Fault (CreateResult × Shm))
    match out with
    | .threw => return (.threw, shm)
    | .returned res =>
      if res < 0 then return (.returned (-1), shm)
      else
        let (res, shm) ← shm.attachPerfToBpf perfId id none fake
        return (.returned (if res < 0 then -1 else 0), shm)

end Shm

/-! ## All or nothing

What a call should leave: the program under its id, with its instructions and its maps, or nothing. -/

/-- The program is registered with its instructions, and its maps are there. -/
structure Complete (shm : Shm) (prog : KernelProg) (id : Nat) : Prop where
  insns : ∃ handler : ProgHandler, shm.handlers[id]? = some (.prog handler) ∧ handler.insns = prog.relocated
  maps  : ∀ map ∈ prog.maps, shm.isMapFd map = true

/-- With an error no program is registered under the id, and else this program is, completely. A constructor that throws
ends the daemon; what leaves the table or the buffer is no way to end. -/
def Mirrored (id : Nat) (prog : KernelProg) : Except Fault (CreateResult × Shm) → Prop
  | .error _ => False
  | .ok (.threw, _) => True
  | .ok (.returned res, shm') => if res < 0 then shm'.isProgFd id = false else Complete shm' prog id

/-- **A call mirrors its program.** -/
def Mirrors (env : DriverEnv) (shm : Shm) (id : Nat) (prog : KernelProg) : Prop :=
  Mirrored id prog (shm.progsCreateServer env id prog)

/-! ## The condition -/

/-- What comes of a related map. -/
inductive MapEnd where
  | there
  | failed
  | threw
  | fault
deriving DecidableEq

/-- How the loop ends at one map. -/
def mapEnd (env : DriverEnv) (shm : Shm) (map : Nat) : MapEnd :=
  if shm.isMapFd map then .there
  else if (env.mapInfo map).isNone then .failed
  else if ¬ shm.InRange map then .fault
  else if (env.mapInit map).ret.isSome then .there
  else .threw

/-- The related maps before the first that is not there in the end. -/
def reached (env : DriverEnv) (shm : Shm) (maps : List Nat) : List Nat :=
  maps.takeWhile fun map => mapEnd env shm map = .there

/-- What comes of all of them. -/
def mapsEnd (env : DriverEnv) (shm : Shm) (maps : List Nat) : MapEnd :=
  ((maps.dropWhile fun map => mapEnd env shm map = .there).head?.map (mapEnd env shm)).getD .there

/-- A recorded instruction stands for one of the program: it is the same, or it is the same reference to a map, and the id
recorded for its fd is the map's. -/
def StandsFor (env : DriverEnv) (prog : KernelProg) (recorded inst : Vm.EbpfInst) : Prop :=
  if refersToMap inst then
    recorded = { inst with imm := recorded.imm } ∧ env.getBpfObjIdFromPidFd recorded.imm = some (prog.mapId inst.imm)
  else recorded = inst

/-- The fds in the recorded instructions have ids. -/
def Relocatable (env : DriverEnv) (data : InsnData) : Prop :=
  ∀ inst ∈ data.insns, refersToMap inst = true → (env.getBpfObjIdFromPidFd inst.imm).isSome = true

/-- The related maps are created, none in the program's slot, and the instructions are the program's. Where one of them
fails, another has taken the slot before. -/
def MapsFit (env : DriverEnv) (shm : Shm) (id : Nat) (prog : KernelProg) (data : InsnData) : Prop :=
  env.relatedInfo = true ∧
    match mapsEnd env shm prog.maps with
    | .there => id ∉ prog.maps ∧ List.Forall₂ (StandsFor env prog) data.insns prog.insns
    | .failed => id ∈ reached env shm prog.maps
    | .threw => True
    | .fault => False

/-- **The condition on a call.** A program that is registered is still known to the kernel; else no more instructions are
recorded than there is room for, and if the program is registered then its slot is in the table and its maps fit. -/
def Fits (env : DriverEnv) (shm : Shm) (id : Nat) (prog : KernelProg) : Prop :=
  if env.progFd = true ∧ env.progInfo = true then
    shm.isProgFd id = false → ∀ data ∈ env.insnData, data.codeLen.toNat ≤ BPF_COMPLEXITY_LIMIT_INSNS ∧
      (Relocatable env data → shm.isAllocated id = false → shm.InRange id ∧ MapsFit env shm id prog data)
  else shm.isProgFd id = false

/-! ## The slots

Programs and maps are put under the kernel's ids, over what was there. -/

section Slots

variable {shm shm' left : Shm} {env : DriverEnv} {id : Nat}

/-- An fd of a map has a map handler. -/
theorem isMapFd_iff {n : Nat} : shm.isMapFd n = true ↔ ∃ map : MapHandler, shm.handlers[n]? = some (.map map) := by
  rw [isMapFd_eq, Option.isSome_iff_exists]
  constructor
  · rintro ⟨map, hmap⟩
    obtain ⟨m, heq, hget⟩ := mem_mapAt.mp hmap
    obtain rfl := Int.ofNat.inj heq
    exact ⟨map, hget⟩
  · rintro ⟨map, hget⟩
    exact ⟨map, mapAt_of_getElem hget⟩

/-- And that of a program a program. -/
theorem isProgFd_nat_iff {n : Nat} : shm.isProgFd n = true ↔ ∃ prog : ProgHandler, shm.handlers[n]? = some (.prog prog) := by
  rw [isProgFd_iff]
  constructor
  · rintro ⟨m, prog, heq, hget⟩
    exact ⟨prog, Int.ofNat.inj heq ▸ hget⟩
  · rintro ⟨prog, hget⟩
    exact ⟨n, prog, rfl, hget⟩

/-- The table with maps in these slots, whatever was there before; its other maps and programs are as they were. -/
structure Grown (ids : List Nat) (shm shm' : Shm) : Prop where
  size  : shm'.size = shm.size
  isMap : ∀ n : Nat, shm'.isMapFd n = true ↔ shm.isMapFd n = true ∨ n ∈ ids
  prog  : ∀ (n : Nat) (prog : ProgHandler),
    shm'.handlers[n]? = some (.prog prog) ↔ shm.handlers[n]? = some (.prog prog) ∧ n ∉ ids

/-- No map more. -/
theorem Grown.refl (shm : Shm) : Grown [] shm shm := ⟨rfl, fun n => by simp, fun n prog => by simp⟩

/-- A map that is there already. -/
theorem Grown.skip (h : shm.isMapFd id = true) : Grown [id] shm shm := by
  obtain ⟨map, hget⟩ := isMapFd_iff.mp h
  refine ⟨rfl, fun n => ?_, fun n prog => ?_⟩
  · rw [List.mem_singleton]
    exact ⟨.inl, fun hor => hor.elim (fun hmap => hmap) fun heq => heq ▸ h⟩
  · rw [List.mem_singleton]
    refine ⟨fun hprog => ⟨hprog, ?_⟩, And.left⟩
    rintro rfl
    rw [hget] at hprog
    cases hprog

/-- Some maps more, and then some others. -/
theorem Grown.append {ids ids' : List Nat} {shm'' : Shm} (h : Grown ids shm shm') (h' : Grown ids' shm' shm'') :
    Grown (ids ++ ids') shm shm'' := by
  refine ⟨h'.size.trans h.size, fun n => ?_, fun n prog => ?_⟩
  · rw [h'.isMap, h.isMap, List.mem_append, or_assoc]
  · rw [h'.prog, h.prog, List.mem_append, not_or, and_assoc]

/-- The table keeps its size. -/
theorem Grown.inRange {ids : List Nat} (h : Grown ids shm shm') {fd : Int} : shm'.InRange fd ↔ shm.InRange fd := by
  unfold Shm.InRange
  rw [h.size]

/-- What comes of a map is not changed by maps that are created before. -/
theorem Grown.mapEnd_eq {ids : List Nat} (h : Grown ids shm shm') (hthere : ∀ i ∈ ids, mapEnd env shm i = .there) (n : Nat) :
    mapEnd env shm' n = mapEnd env shm n := by
  by_cases hmem : n ∈ ids
  · rw [hthere n hmem]
    exact if_pos ((h.isMap n).mpr (.inr hmem))
  · have hmap : shm'.isMapFd n = shm.isMapFd n := by
      rw [Bool.eq_iff_iff, h.isMap]
      exact or_iff_left hmem
    simp only [mapEnd, hmap, h.inRange]

/-- A handler that is neither a link nor unused is where it was. -/
theorem cleared_getElem_iff {i : Nat} {handler : HandlerVariant} (hin : shm.InRange id) (hne : i ≠ id)
    (hlink : ∀ link, handler ≠ .link link) (hused : handler ≠ .unused) :
    (shm.cleared id)[i]? = some handler ↔ shm.handlers[i]? = some handler := by
  have hneInt : (i : Int) ≠ id := fun heq => hne (Int.ofNat.inj heq)
  refine ⟨fun hget => ?_, fun hget => Shm.cleared_other hneInt hget hlink hin⟩
  have hlt : i < shm.handlers.length := by
    have hlen : (shm.cleared id).length = shm.handlers.length := Shm.length_cleared
    rw [← hlen]
    exact (List.getElem?_eq_some_iff.mp hget).1
  have hold := Shm.getElem_slot hlt
  -- what is no link stays
  by_cases hlinks : ∀ link, shm.slot i ≠ .link link
  · rw [Shm.cleared_other hneInt hold hlinks hin, Option.some_inj] at hget
    rw [hold, hget]
  · -- a link stays a link or goes
    obtain ⟨link, hslot⟩ := not_forall_not.mp hlinks
    rw [hslot] at hold
    unfold Shm.cleared at hget
    rw [Int.toNat_natCast, List.getElem?_set_ne (Ne.symm hne)] at hget
    have hthrough : ∀ toFd : LinkHandler → Bool, (shm.clearLinks toFd).handlers[i]? ≠ some handler := by
      intro toFd hcleared
      rw [Shm.getElem_clearLinks, hold, Option.map_some, Option.some_inj] at hcleared
      split at hcleared
      · split at hcleared
        · exact hused hcleared.symm
        · exact hlink _ hcleared.symm
      · next hnot => exact hnot link rfl
    cases hid : shm.slot id with
    | perfEvent perf =>
        rw [hid] at hget
        exact absurd hget (hthrough _)
    | prog prog =>
        rw [hid] at hget
        exact absurd hget (hthrough _)
    | _ =>
        rw [hid, hold, Option.some_inj] at hget
        exact absurd hget.symm (hlink link)

/-- What goes is no map, so nothing is freed. -/
theorem clearIdAt_other (hin : shm.InRange id) (hmap : shm.isMapFd id = false) : ∃ left, shm.clearIdAt id = .ok left := by
  unfold Shm.clearIdAt
  rw [if_pos hin]
  cases hslot : shm.slot id with
  | map map =>
      have hall : shm.isMapFd id = true := by
        unfold Shm.isMapFd
        rw [decide_eq_true hin, hslot]
        rfl
      rw [hall] at hmap
      cases hmap
  | perfEvent perf => exact ⟨_, Shm.putHandler_eq (Shm.clearLinks_inRange.mpr hin)⟩
  | prog prog => exact ⟨_, Shm.putHandler_eq (Shm.clearLinks_inRange.mpr hin)⟩
  | _ => exact ⟨_, Shm.putHandler_eq hin⟩

/-- The clearing of a slot without a map leaves all but links. -/
theorem clearedFor_other (hin : shm.InRange id) (hmap : shm.isMapFd id = false) : ∃ left, shm.clearedFor id = .ok left ∧
    left.handlers[id]? = some .unused ∧ left.size = shm.size ∧
      ∀ (i : Nat) (handler : HandlerVariant), i ≠ id → (∀ link, handler ≠ .link link) → handler ≠ .unused →
        (left.handlers[i]? = some handler ↔ shm.handlers[i]? = some handler) := by
  unfold Shm.clearedFor Shm.clearUsed
  rw [Shm.getHandler_eq hin]
  show ∃ left, (if shm.slot id ≠ .unused then shm.clearIdAt id else .ok shm) = .ok left ∧ _
  by_cases hused : shm.slot id ≠ .unused
  · obtain ⟨left, hclear⟩ := clearIdAt_other hin hmap
    have hhandlers : left.handlers = shm.cleared id := by
      rcases Shm.clearIdAt_ok hclear with ⟨hout, -⟩ | ⟨-, hhandlers⟩
      · exact absurd hin hout
      · exact hhandlers
    rw [if_pos hused]
    refine ⟨left, hclear, (clearIdAt_left hclear hin).1, ?_, fun i handler hne hlink hunused => ?_⟩
    · rw [Shm.size, hhandlers, Shm.length_cleared, Shm.size]
    · rw [hhandlers]
      exact cleared_getElem_iff hin hne hlink hunused
  · rw [if_neg hused]
    obtain ⟨n, heq, hlt⟩ := Shm.inRange_iff.mp hin
    obtain rfl := Int.ofNat.inj heq
    refine ⟨shm, rfl, ?_, rfl, fun i handler _ _ _ => Iff.rfl⟩
    rw [Shm.getElem_slot hlt, not_not.mp hused]

/-- A map put into a free slot. -/
theorem setMapWith_eq (hget : left.handlers[id]? = some .unused) (out : InitOut) (map : MapHandler) :
    setMapWith out left id map = .ok (if out.ret.isSome then .returned id else .threw,
      ⟨left.config, left.handlers.set id (.map out.handler), out.segment⟩) := by
  obtain ⟨hin, hfree⟩ := slot_of_getElem hget
  have hnot : ¬ left.isAllocated id = true := fun hall => (Shm.isAllocated_iff.mp hall).2 hfree
  unfold setMapWith
  rw [if_neg hnot, Shm.putHandler_eq hin]
  have hin' : Shm.InRange ⟨left.config, left.handlers.set id (.map map), out.segment⟩ id := by
    unfold Shm.InRange Shm.size at *
    rw [List.length_set]
    exact hin
  show (do
    let shm ← Shm.putHandler ⟨left.config, left.handlers.set id (.map map), _⟩ id (.map _)
    return (_, shm)) = _
  rw [Shm.putHandler_eq hin', Int.toNat_natCast, List.set_set]
  rfl

/-- **One map.** Its slot gets a map, whatever `map_init` does. -/
theorem mapsCreate_spec (env : DriverEnv) (hin : shm.InRange id) (hmap : shm.isMapFd id = false) (name : CStr) (attr : MapAttr) :
    ∃ shm', shm.mapsCreate env id name attr = .ok (if (env.mapInit id).ret.isSome then .returned id else .threw, shm') ∧
      Grown [id] shm shm' := by
  obtain ⟨left, hclear, hget, hsize, hkept⟩ := clearedFor_other hin hmap
  obtain ⟨hlt, -⟩ := List.getElem?_eq_some_iff.mp hget
  refine ⟨⟨left.config, left.handlers.set id (.map (env.mapInit id).handler), (env.mapInit id).segment⟩, ?_, ?_, ?_, ?_⟩
  · unfold Shm.mapsCreate
    rw [hclear]
    exact setMapWith_eq hget _ _
  · show (left.handlers.set id _).length = _
    rw [List.length_set]
    exact hsize
  · intro n
    rw [isMapFd_iff, isMapFd_iff, List.mem_singleton]
    by_cases heq : n = id
    · subst heq
      exact iff_of_true ⟨_, List.getElem?_set_self hlt⟩ (.inr rfl)
    · have hslot : ∀ map : MapHandler, left.handlers[n]? = some (.map map) ↔ shm.handlers[n]? = some (.map map) :=
        fun map => hkept n (.map map) heq (fun link heq => by cases heq) (fun heq => by cases heq)
      simp only [List.getElem?_set_ne (Ne.symm heq), hslot, heq, or_false]
  · intro n prog
    rw [List.mem_singleton]
    by_cases heq : n = id
    · subst heq
      refine iff_of_false (fun hprog => ?_) fun hall => hall.2 rfl
      rw [List.getElem?_set_self hlt] at hprog
      cases hprog
    · have hslot := hkept n (.prog prog) heq (fun link heq => by cases heq) (fun heq => by cases heq)
      simp only [List.getElem?_set_ne (Ne.symm heq), hslot, heq, not_false_eq_true, and_true]

/-- An id that is too large for the table. -/
theorem mapsCreate_outOfRange (h : ¬ shm.InRange id) (name : CStr) (attr : MapAttr) :
    shm.mapsCreate env id name attr = .error .outOfRange := by
  unfold Shm.mapsCreate Shm.clearedFor Shm.getHandler
  rw [if_neg h]
  rfl

end Slots

/-! ## The related maps

The loop ends at the first map that it cannot create. The maps before it stay. -/

section RelatedMaps

variable {shm shm' : Shm} {env : DriverEnv} {id : Nat} {maps : List Nat}

/-- The loop ends at its first map, or goes on. -/
theorem mapsEnd_cons : mapsEnd env shm (id :: maps) =
    if mapEnd env shm id = .there then mapsEnd env shm maps else mapEnd env shm id := by
  unfold mapsEnd
  rw [List.dropWhile_cons]
  by_cases hthere : mapEnd env shm id = .there
  · simp [hthere]
  · simp [hthere]

/-- It has come as far as the first map. -/
theorem reached_cons (h : mapEnd env shm id = .there) : reached env shm (id :: maps) = id :: reached env shm maps := by
  unfold reached
  rw [List.takeWhile_cons, if_pos (by simpa using h)]

/-- Or not even there. -/
theorem reached_nil (h : mapEnd env shm id ≠ .there) : reached env shm (id :: maps) = [] := by
  unfold reached
  rw [List.takeWhile_cons, if_neg (by simpa using h)]

/-- The maps that have come do not change how the loop goes on. -/
theorem Grown.mapsEnd_eq {ids : List Nat} (h : Grown ids shm shm') (maps : List Nat) (hthere : ∀ i ∈ ids, mapEnd env shm i = .there) :
    mapsEnd env shm' maps = mapsEnd env shm maps ∧ reached env shm' maps = reached env shm maps := by
  have heq : mapEnd env shm' = mapEnd env shm := funext (h.mapEnd_eq hthere)
  unfold mapsEnd reached
  rw [heq]
  exact ⟨rfl, rfl⟩

/-- How the loop over the maps ends, and the table that it leaves. -/
def LoopEnds (env : DriverEnv) (shm : Shm) (maps : List Nat) (result : Except Fault (CreateResult × Shm)) : MapEnd → Prop
  | .there => ∃ shm', result = .ok (.returned 0, shm') ∧ Grown maps shm shm'
  | .failed => ∃ shm', result = .ok (.returned (-1), shm') ∧ Grown (reached env shm maps) shm shm'
  | .threw => ∃ shm', result = .ok (.threw, shm')
  | .fault => result = .error .outOfRange

/-- A map that was there, or got there, comes before the rest. -/
theorem LoopEnds.cons {result : Except Fault (CreateResult × Shm)} (hgrown : Grown [id] shm shm')
    (hthere : mapEnd env shm id = .there) (h : LoopEnds env shm' maps result (mapsEnd env shm' maps)) :
    LoopEnds env shm (id :: maps) result (mapsEnd env shm (id :: maps)) := by
  have hids : ∀ i ∈ [id], mapEnd env shm i = .there := by
    intro i hi
    rwa [List.mem_singleton.mp hi]
  obtain ⟨hends, hreached⟩ := hgrown.mapsEnd_eq maps hids
  rw [mapsEnd_cons, if_pos hthere, ← hends]
  cases hend : mapsEnd env shm' maps with
  | there =>
      rw [hend] at h
      obtain ⟨shm'', hresult, h'⟩ := h
      exact ⟨shm'', hresult, hgrown.append h'⟩
  | failed =>
      rw [hend] at h
      obtain ⟨shm'', hresult, h'⟩ := h
      refine ⟨shm'', hresult, ?_⟩
      rw [reached_cons hthere, ← hreached]
      exact hgrown.append h'
  | threw =>
      rw [hend] at h
      exact h
  | fault =>
      rw [hend] at h
      exact h

/-- **The loop.** -/
theorem createRelatedMaps_ends (env : DriverEnv) (shm : Shm) (maps : List Nat) :
    LoopEnds env shm maps (shm.createRelatedMaps env maps) (mapsEnd env shm maps) := by
  induction maps generalizing shm with
  | nil => exact ⟨shm, rfl, .refl shm⟩
  | cons id maps ih =>
      unfold Shm.createRelatedMaps
      -- a map that is there is left as it is; one that is not is created
      cases hmap : shm.isMapFd id with
      | true =>
          rw [if_pos rfl]
          exact .cons (.skip hmap) (if_pos hmap) (ih shm)
      | false =>
          rw [if_neg Bool.false_ne_true]
          unfold Shm.mapsCreateServer
          cases hinfo : env.mapInfo id with
          | none =>
              have hend : mapEnd env shm id = .failed := by simp [mapEnd, hmap, hinfo]
              rw [mapsEnd_cons, hend, if_neg (by decide)]
              refine ⟨shm, rfl, ?_⟩
              rw [reached_nil (by rw [hend]; decide)]
              exact .refl shm
          | some info =>
              simp only [hmap, Bool.false_eq_true, if_false]
              by_cases hin : shm.InRange id
              swap
              · have hend : mapEnd env shm id = .fault := by simp [mapEnd, hmap, hinfo, hin]
                rw [mapsEnd_cons, hend, if_neg (by decide), mapsCreate_outOfRange hin]
                rfl
              obtain ⟨shm', hcreate, hgrown⟩ := mapsCreate_spec env hin hmap info.name
                (info.attr (info.type + KERNEL_USER_MAP_OFFSET) (BitVec.ofNat 32 id))
              rw [hcreate]
              cases hret : (env.mapInit id).ret.isSome with
              | false =>
                  have hend : mapEnd env shm id = .threw := by simp [mapEnd, hmap, hinfo, hin, hret]
                  rw [mapsEnd_cons, hend, if_neg (by decide)]
                  exact ⟨shm', rfl⟩
              | true =>
                  have hend : mapEnd env shm id = .there := by simp [mapEnd, hmap, hinfo, hin, hret]
                  refine .cons hgrown hend ?_
                  have hres : ¬ (id : Int) < 0 := Int.not_lt.mpr (Int.natCast_nonneg id)
                  show LoopEnds env shm' maps (if (if (id : Int) < 0 then (-1 : Int) else id) < 0 then
                    pure (.returned (-1), shm') else shm'.createRelatedMaps env maps) _
                  rw [if_neg hres, if_neg hres]
                  exact ih shm'

end RelatedMaps

/-! ## Relocation

A map's fd in an instruction is replaced by the map's id. -/

section Relocation

variable {env : DriverEnv} {prog : KernelProg} {mapId : BitVec 32 → Option (BitVec 32)}

/-- An instruction is relocated if its map is known. -/
theorem relocateInst_isSome_iff (inst : Vm.EbpfInst) : (relocateInst mapId inst).isSome = true ↔
    (refersToMap inst = true → (mapId inst.imm).isSome = true) := by
  unfold relocateInst
  by_cases href : refersToMap inst = true
  · rw [if_pos href, Option.isSome_map]
    exact ⟨fun h _ => h, fun h => h href⟩
  · rw [if_neg href]
    exact iff_of_true rfl fun h => absurd h href

/-- And a program if all its maps are. -/
theorem relocateInsns_isSome_iff (insns : List Vm.EbpfInst) : (relocateInsns mapId insns).isSome = true ↔
    ∀ inst ∈ insns, refersToMap inst = true → (mapId inst.imm).isSome = true := by
  induction insns with
  | nil => exact iff_of_true rfl fun inst hinst => absurd hinst List.not_mem_nil
  | cons inst insns ih =>
      rw [List.forall_mem_cons, ← ih, ← relocateInst_isSome_iff, relocateInsns]
      cases relocateInst mapId inst with
      | none => simp
      | some inst' => simp

/-- The relocated instruction is that of the program just if the recorded one stands for it. -/
theorem relocateInst_eq_iff (recorded inst : Vm.EbpfInst) :
    relocateInst env.getBpfObjIdFromPidFd recorded = some (prog.relocatedInst inst) ↔ StandsFor env prog recorded inst := by
  unfold relocateInst KernelProg.relocatedInst StandsFor
  by_cases hinst : refersToMap inst = true
  · rw [if_pos hinst, if_pos hinst]
    constructor
    · intro heq
      -- whether an instruction refers to a map does not depend on what is relocated
      have hrecorded : refersToMap recorded = true := by
        by_contra hnot
        rw [if_neg hnot, Option.some_inj] at heq
        rw [heq] at hnot
        exact hnot hinst
      rw [if_pos hrecorded, Option.map_eq_some_iff] at heq
      obtain ⟨id, hid, heq⟩ := heq
      obtain ⟨hopcode, hdst, hsrc, hoffset, himm⟩ := Vm.EbpfInst.mk.inj heq
      refine ⟨?_, himm ▸ hid⟩
      rw [← hopcode, ← hdst, ← hsrc, ← hoffset]
    · rintro ⟨heq, hid⟩
      have hrecorded : refersToMap recorded = true := by
        rw [heq]
        exact hinst
      rw [if_pos hrecorded, hid, Option.map_some, heq]
  · rw [if_neg hinst, if_neg hinst]
    constructor
    · intro heq
      by_cases hrecorded : refersToMap recorded = true
      · rw [if_pos hrecorded, Option.map_eq_some_iff] at heq
        obtain ⟨id, -, heq⟩ := heq
        rw [← heq] at hinst
        exact absurd hrecorded hinst
      · rw [if_neg hrecorded, Option.some_inj] at heq
        exact heq
    · rintro rfl
      rw [if_neg hinst]

/-- **Relocation.** It gives the program's instructions just if the recorded ones stand for them, one by one. -/
theorem relocateInsns_eq_iff (recorded insns : List Vm.EbpfInst) :
    relocateInsns env.getBpfObjIdFromPidFd recorded = some (insns.map prog.relocatedInst) ↔
      List.Forall₂ (StandsFor env prog) recorded insns := by
  induction recorded generalizing insns with
  | nil =>
      cases insns with
      | nil => exact iff_of_true rfl .nil
      | cons inst insns => exact iff_of_false (by simp [relocateInsns]) fun h => nomatch h
  | cons first recorded ih =>
      cases insns with
      | nil => exact iff_of_false (by simp [relocateInsns, Option.bind_eq_some_iff]) fun h => nomatch h
      | cons inst insns =>
          rw [List.forall₂_cons, ← relocateInst_eq_iff, ← ih, List.map_cons, relocateInsns, Option.bind_eq_some_iff]
          constructor
          · rintro ⟨first', hfirst, hrest⟩
            obtain ⟨rest, hrest, heq⟩ := Option.map_eq_some_iff.mp hrest
            obtain ⟨rfl, rfl⟩ := List.cons.inj heq
            exact ⟨hfirst, hrest⟩
          · rintro ⟨hfirst, hrest⟩
            exact ⟨_, hfirst, by rw [hrest, Option.map_some]⟩

end Relocation

/-! ## One call

The program is registered before its maps are looked at, so an error of theirs leaves it under its id. -/

section Call

variable {shm shm' : Shm} {env : DriverEnv} {id : Nat} {prog : KernelProg} {data : InsnData}

/-- A fault mirrors nothing. -/
theorem mirrored_error {fault : Fault} : ¬ Mirrored id prog (.error fault) := fun h => h

/-- An error leaves no program under the id. -/
theorem mirrored_failed_iff : Mirrored id prog (.ok (.returned (-1), shm')) ↔ shm'.isProgFd id = false := by
  unfold Mirrored
  exact Iff.rfl

/-- A success mirrors a program that is complete. -/
theorem mirrored_done_iff {res : Int} (h : 0 ≤ res) : Mirrored id prog (.ok (.returned res, shm')) ↔ Complete shm' prog id := by
  show (if res < 0 then _ else _) ↔ _
  rw [if_neg (Int.not_lt.mpr h)]

/-- The table with the program in its slot. -/
def withProg (shm : Shm) (id : Nat) (handler : ProgHandler) : Shm :=
  { shm with handlers := shm.handlers.set id (.prog handler) }

/-- The program is in its slot. -/
theorem withProg_getElem {handler : ProgHandler} (hin : shm.InRange id) :
    (withProg shm id handler).handlers[id]? = some (.prog handler) := by
  obtain ⟨n, heq, hlt⟩ := Shm.inRange_iff.mp hin
  obtain rfl := Int.ofNat.inj heq
  exact List.getElem?_set_self hlt

/-- The table keeps its size. -/
theorem withProg_inRange {handler : ProgHandler} {fd : Int} : (withProg shm id handler).InRange fd ↔ shm.InRange fd := by
  unfold Shm.InRange Shm.size withProg
  rw [List.length_set]

/-- The slot was free, so no map went. -/
theorem withProg_isMapFd {handler : ProgHandler} (hget : shm.handlers[id]? = some .unused) (n : Nat) :
    (withProg shm id handler).isMapFd n = shm.isMapFd n := by
  obtain ⟨hlt, -⟩ := List.getElem?_eq_some_iff.mp hget
  rw [Bool.eq_iff_iff, isMapFd_iff, isMapFd_iff]
  unfold withProg
  by_cases heq : n = id
  · subst heq
    simp [hget, List.getElem?_set_self hlt]
  · simp only [List.getElem?_set_ne (Ne.symm heq)]

/-- A program is no map, so the loop ends as before. -/
theorem withProg_mapEnd {handler : ProgHandler} (hget : shm.handlers[id]? = some .unused) :
    mapEnd env (withProg shm id handler) = mapEnd env shm := by
  funext n
  simp only [mapEnd, withProg_isMapFd hget, withProg_inRange]

/-- What is returned after the related maps. -/
def afterMaps (id : Nat) : CreateResult × Shm → Except Fault (CreateResult × Shm)
  | (.threw, shm) => .ok (.threw, shm)
  | (.returned res, shm) => .ok (.returned (if res < 0 then -1 else id), shm)

/-- What follows the registration. -/
def afterProg (env : DriverEnv) (id : Nat) (prog : KernelProg) (result : Int × Shm) : Except Fault (CreateResult × Shm) :=
  if result.1 < 0 then .ok (.returned (-1), result.2)
  else result.2.checkAndCreateProgRelatedMaps env prog >>= afterMaps id

/-- What follows after the program is placed. -/
theorem afterProg_placed : afterProg env id prog (id, shm') = shm'.checkAndCreateProgRelatedMaps env prog >>= afterMaps id :=
  if_neg (Int.not_lt.mpr (Int.natCast_nonneg id))

/-- A call that gets that far puts the program into the slot of its id. -/
theorem progsCreateServer_adds (prog : KernelProg) (hprogFd : env.progFd = true) (hprogInfo : env.progInfo = true)
    (hprog : shm.isProgFd id = false) {insns : List Vm.EbpfInst} (hrelocate : env.relocateBpfProgInsns = .ok (some insns)) :
    shm.progsCreateServer env id prog =
      shm.setHandler id (.prog ⟨env.memory, insns, prog.name⟩) >>= afterProg env id prog := by
  unfold Shm.progsCreateServer Shm.addBpfProg Shm.fdOrFake
  rw [hprogFd, hprogInfo, hprog, hrelocate, if_neg (Int.not_lt.mpr (Int.natCast_nonneg id))]
  show (shm.setHandler id (.prog ⟨env.memory, insns, prog.name⟩) >>= fun result => _) = _
  congr 1
  funext result
  unfold afterProg
  dsimp only
  split
  · rfl
  · congr 1
    funext out
    obtain ⟨out, shm'⟩ := out
    cases out <;> rfl

/-- **The maps of a program that is registered.** -/
theorem mirrored_maps_iff {insns : List Vm.EbpfInst} {handler : ProgHandler} (hget : shm.handlers[id]? = some .unused)
    (hinsns : relocateInsns env.getBpfObjIdFromPidFd data.insns = some insns) (hhandler : handler.insns = insns) :
    Mirrored id prog ((withProg shm id handler).checkAndCreateProgRelatedMaps env prog >>= afterMaps id) ↔
      MapsFit env shm id prog data := by
  obtain ⟨hin, hfree⟩ := slot_of_getElem hget
  have hslot : (withProg shm id handler).handlers[id]? = some (.prog handler) := withProg_getElem hin
  unfold Shm.checkAndCreateProgRelatedMaps MapsFit
  cases hrelated : env.relatedInfo with
  | false =>
      -- the program stays
      refine iff_of_false (fun h => ?_) fun h => nomatch h.1
      have hnone : (withProg shm id handler).isProgFd id = false := mirrored_failed_iff.mp h
      rw [isProgFd_nat_iff.mpr ⟨handler, hslot⟩] at hnone
      cases hnone
  | true =>
      simp only [if_true, true_and]
      have hends := createRelatedMaps_ends env (withProg shm id handler) prog.maps
      have hmapsEnd : mapsEnd env (withProg shm id handler) prog.maps = mapsEnd env shm prog.maps := by
        unfold mapsEnd
        rw [withProg_mapEnd hget]
      have hreached : reached env (withProg shm id handler) prog.maps = reached env shm prog.maps := by
        unfold reached
        rw [withProg_mapEnd hget]
      rw [hmapsEnd] at hends
      cases hend : mapsEnd env shm prog.maps with
      | there =>
          rw [hend] at hends
          obtain ⟨shm', hresult, hgrown⟩ := hends
          rw [hresult]
          show Mirrored id prog (.ok (.returned (if (0 : Int) < 0 then -1 else id), shm')) ↔ _
          rw [if_neg (by decide), mirrored_done_iff (Int.natCast_nonneg id), ← relocateInsns_eq_iff, hinsns, Option.some_inj]
          constructor
          · rintro ⟨⟨handler', hget', heq⟩, -⟩
            obtain ⟨hold, hnot⟩ := (hgrown.prog id handler').mp hget'
            rw [hslot, Option.some_inj] at hold
            cases hold
            exact ⟨hnot, hhandler.symm.trans heq⟩
          · rintro ⟨hnot, heq⟩
            exact ⟨⟨handler, (hgrown.prog id handler).mpr ⟨hslot, hnot⟩, hhandler.trans heq⟩,
              fun map hmap => (hgrown.isMap map).mpr (.inr hmap)⟩
      | failed =>
          rw [hend] at hends
          obtain ⟨shm', hresult, hgrown⟩ := hends
          rw [hresult]
          show Mirrored id prog (.ok (.returned (if (-1 : Int) < 0 then -1 else id), shm')) ↔ _
          rw [if_pos (by decide), mirrored_failed_iff, ← Bool.not_eq_true, isProgFd_nat_iff, ← hreached]
          constructor
          · intro hnone
            by_contra hnot
            exact hnone ⟨handler, (hgrown.prog id handler).mpr ⟨hslot, hnot⟩⟩
          · rintro hmem ⟨handler', hget'⟩
            exact ((hgrown.prog id handler').mp hget').2 hmem
      | threw =>
          rw [hend] at hends
          obtain ⟨shm', hresult⟩ := hends
          rw [hresult]
          exact iff_of_true trivial trivial
      | fault =>
          rw [hend] at hends
          have hfault : (withProg shm id handler).createRelatedMaps env prog.maps = .error .outOfRange := hends
          rw [hfault]
          exact iff_of_false mirrored_error fun h => h

/-- **One call.** In a table in which the program is complete if it is registered, the call mirrors it if and only if the
condition holds. -/
theorem mirrors_iff (hcomplete : shm.isProgFd id = true → Complete shm prog id) :
    Mirrors env shm id prog ↔ Fits env shm id prog := by
  unfold Mirrors Fits
  -- without the program's fd or its info nothing is done
  by_cases hkernel : env.progFd = true ∧ env.progInfo = true
  swap
  · have hresult : shm.progsCreateServer env id prog = .ok (.returned (-1), shm) := by
      unfold Shm.progsCreateServer
      cases hprogFd : env.progFd with
      | false => rfl
      | true =>
          have hprogInfo : env.progInfo = false := (Bool.not_eq_true _).mp fun h => hkernel ⟨hprogFd, h⟩
          rw [hprogInfo]
          rfl
    rw [if_neg hkernel, hresult]
    exact mirrored_failed_iff
  obtain ⟨hprogFd, hprogInfo⟩ := hkernel
  rw [if_pos ⟨hprogFd, hprogInfo⟩]
  -- a program that is there is not created again
  cases hprog : shm.isProgFd id with
  | true =>
      have hresult : shm.progsCreateServer env id prog = .ok (.returned 0, shm) := by
        unfold Shm.progsCreateServer
        rw [hprogFd, hprogInfo, hprog]
        rfl
      rw [hresult, mirrored_done_iff (Int.le_refl 0)]
      exact iff_of_true (hcomplete hprog) fun h => nomatch h
  | false =>
      rw [forall_prop_of_true rfl]
      cases hdata : env.insnData with
      | none =>
          have hresult : shm.progsCreateServer env id prog = .ok (.returned (-1), shm) := by
            unfold Shm.progsCreateServer DriverEnv.relocateBpfProgInsns
            rw [hprogFd, hprogInfo, hprog, hdata]
            rfl
          rw [hresult, mirrored_failed_iff]
          exact iff_of_true hprog fun data h => nomatch h
      | some data =>
          simp only [Option.mem_some_iff, forall_eq']
          by_cases hlen : data.codeLen.toNat ≤ BPF_COMPLEXITY_LIMIT_INSNS
          swap
          · have hresult : shm.progsCreateServer env id prog = .error .outOfRange := by
              unfold Shm.progsCreateServer DriverEnv.relocateBpfProgInsns
              rw [hprogFd, hprogInfo, hprog, hdata]
              dsimp only
              rw [if_pos (Nat.not_le.mp hlen)]
              rfl
            rw [hresult]
            exact iff_of_false mirrored_error fun h => hlen h.1
          rw [and_iff_right hlen]
          have hsome : Relocatable env data ↔ (relocateInsns env.getBpfObjIdFromPidFd data.insns).isSome = true :=
            (relocateInsns_isSome_iff data.insns).symm
          rw [hsome]
          have hrelocate : env.relocateBpfProgInsns = .ok (relocateInsns env.getBpfObjIdFromPidFd data.insns) := by
            unfold DriverEnv.relocateBpfProgInsns
            rw [hdata]
            exact if_neg (Nat.not_lt.mpr hlen)
          cases hinsns : relocateInsns env.getBpfObjIdFromPidFd data.insns with
          | none =>
              have hresult : shm.progsCreateServer env id prog = .ok (.returned (-1), shm) := by
                unfold Shm.progsCreateServer
                rw [hprogFd, hprogInfo, hprog, hrelocate, hinsns]
                rfl
              rw [hresult, mirrored_failed_iff]
              exact iff_of_true hprog fun h => nomatch h
          | some insns =>
              rw [Option.isSome_some, forall_prop_of_true rfl]
              have hadds := progsCreateServer_adds prog hprogFd hprogInfo hprog (hrelocate.trans (congrArg _ hinsns))
              rw [hadds]
              cases hall : shm.isAllocated id with
              | true =>
                  rw [Shm.setHandler_allocated hall]
                  exact iff_of_true hprog fun h => nomatch h
              | false =>
                  rw [forall_prop_of_true rfl]
                  by_cases hin : shm.InRange id
                  swap
                  · rw [Shm.setHandler_outOfRange (by simp) hin]
                    exact iff_of_false mirrored_error fun h => hin h.1
                  have hfree : shm.slot id = .unused := by
                    by_contra hused
                    rw [Shm.isAllocated_iff.mpr ⟨hin, hused⟩] at hall
                    cases hall
                  obtain ⟨n, heq, hlt⟩ := Shm.inRange_iff.mp hin
                  obtain rfl := Int.ofNat.inj heq
                  have hget : shm.handlers[id]? = some .unused := by rw [Shm.getElem_slot hlt, hfree]
                  rw [and_iff_right hin, Shm.setHandler_free (by simp) hin hfree]
                  show Mirrored id prog (afterProg env id prog (id, withProg shm id _)) ↔ _
                  rw [afterProg_placed]
                  exact mirrored_maps_iff hget hinsns rfl

end Call

/-! ## Recorded loads

The instructions that the driver is given are those recorded for the thread, if nothing was left over. -/

section Recorded

variable {tracer : Tracer} {pidTgid : BitVec 64} {id : BitVec 32} {env : DriverEnv} {prog : KernelProg}

/-- What fits is read whole. -/
theorem readCode_take {room : Nat} {code : Vector Vm.EbpfInst room} {insns : List Vm.EbpfInst}
    (hlen : insns.length ≤ room) : (Tracer.readCode code insns).toList.take insns.length = insns := by
  apply List.ext_getElem
  · rw [List.length_take, Vector.length_toList, Nat.min_eq_left hlen]
  · intro i hi hi'
    have hroom : i < room := Nat.lt_of_lt_of_le hi' hlen
    have hread : (Tracer.readCode code insns)[i] = insns.getD i code[i] := Vector.getElem_ofFn hroom
    rw [List.getElem_take, Vector.getElem_toList, hread, List.getD_eq_getElem?_getD, List.getElem?_eq_getElem hi',
      Option.getD_some]

/-- What a thread loads is recorded whole, if it fits and the thread has nothing recorded yet. -/
theorem load_recorded {insns : List Vm.EbpfInst} (hfresh : tracer.insnsMap pidTgid = none)
    (hlen : insns.length ≤ BPF_COMPLEXITY_LIMIT_INSNS) (hkey : id.setWidth 64 ≠ pidTgid) :
    ∃ data, ((tracer.processBpfProgLoadEvents pidTgid insns).bpfProgKallsymsAddEnter pidTgid id).insnsMap
        (id.setWidth 64) = some data ∧ data.codeLen.toNat = insns.length ∧ data.insns = insns := by
  set data : InsnData := ⟨Tracer.readCode tracer.insnsData.code insns, BitVec.ofNat 32 insns.length⟩ with hdata
  have hsmall : insns.length < 2 ^ 32 := by
    unfold BPF_COMPLEXITY_LIMIT_INSNS at hlen
    omega
  have hcodeLen : data.codeLen.toNat = insns.length := BitVec.toNat_ofNat .. |>.trans (Nat.mod_eq_of_lt hsmall)
  have hmap : (tracer.processBpfProgLoadEvents pidTgid insns).insnsMap = Function.update tracer.insnsMap pidTgid (some data) := by
    unfold Tracer.processBpfProgLoadEvents
    rw [hfresh]
    rfl
  refine ⟨data, ?_, hcodeLen, ?_⟩
  · unfold Tracer.bpfProgKallsymsAddEnter
    rw [hmap, Function.update_self]
    dsimp only
    rw [Function.update_of_ne hkey, Function.update_self]
  · unfold InsnData.insns
    rw [hcodeLen]
    exact readCode_take hlen

/-- What a load that the kernel refused has left is taken for the thread's next program. -/
theorem load_leftover {insns : List Vm.EbpfInst} {old : InsnData} (hold : tracer.insnsMap pidTgid = some old)
    (hkey : id.setWidth 64 ≠ pidTgid) :
    ((tracer.processBpfProgLoadEvents pidTgid insns).bpfProgKallsymsAddEnter pidTgid id).insnsMap (id.setWidth 64) =
      some old := by
  have hmap : (tracer.processBpfProgLoadEvents pidTgid insns).insnsMap = tracer.insnsMap := by
    unfold Tracer.processBpfProgLoadEvents
    rw [hold]
    rfl
  unfold Tracer.bpfProgKallsymsAddEnter
  rw [hmap, hold]
  dsimp only
  rw [Function.update_of_ne hkey, Function.update_self]

/-- The program's own instructions stand for it, if its fds still name its maps. -/
theorem standsFor_self (insns : List Vm.EbpfInst) (h : ∀ inst ∈ insns, refersToMap inst = true →
    env.getBpfObjIdFromPidFd inst.imm = some (prog.mapId inst.imm)) : List.Forall₂ (StandsFor env prog) insns insns := by
  refine List.forall₂_same.mpr fun inst hinst => ?_
  unfold StandsFor
  split
  · next href => exact ⟨rfl, h inst hinst href⟩
  · rfl

/-- **A load that is mirrored.** A thread without leftovers loads a program that fits into the buffer, its fds keep naming
its maps, and the maps are there or can be made, none under the program's id. -/
theorem fits_of_load {shm : Shm} (hprogFd : env.progFd = true) (hprogInfo : env.progInfo = true)
    (hrelated : env.relatedInfo = true) (hin : shm.InRange id.toNat) (hfresh : tracer.insnsMap pidTgid = none)
    (hlen : prog.insns.length ≤ BPF_COMPLEXITY_LIMIT_INSNS) (hkey : id.setWidth 64 ≠ pidTgid)
    (hrecorded : env.insnData = ((tracer.processBpfProgLoadEvents pidTgid prog.insns).bpfProgKallsymsAddEnter pidTgid
      id).insnsMap (id.setWidth 64))
    (hfds : ∀ inst ∈ prog.insns, refersToMap inst = true → env.getBpfObjIdFromPidFd inst.imm = some (prog.mapId inst.imm))
    (hmaps : ∀ map ∈ prog.maps, mapEnd env shm map = .there ∧ map ≠ id.toNat) : Fits env shm id.toNat prog := by
  obtain ⟨data, hdata, hcodeLen, hinsns⟩ := load_recorded hfresh hlen hkey
  rw [hdata] at hrecorded
  unfold Fits
  rw [if_pos ⟨hprogFd, hprogInfo⟩]
  intro _ data' hdata'
  rw [hrecorded, Option.mem_some_iff] at hdata'
  subst hdata'
  refine ⟨hcodeLen.trans_le hlen, fun _ _ => ⟨hin, hrelated, ?_⟩⟩
  have hend : mapsEnd env shm prog.maps = .there := by
    have hdrop : (prog.maps.dropWhile fun map => mapEnd env shm map = .there) = [] :=
      List.dropWhile_eq_nil_iff.mpr fun map hmap => decide_eq_true (hmaps map hmap).1
    unfold mapsEnd
    rw [hdrop]
    rfl
  rw [hend, hinsns]
  exact ⟨fun hmem => (hmaps _ hmem).2 rfl, standsFor_self prog.insns hfds⟩

end Recorded

/-! ## Runs -/

/-- What happens to the table: the driver mirrors a program or a map, or attaches a program to a perf event, and handlers
of other kinds are put. -/
inductive MirrorOp where
  | create (id : Nat) (env : DriverEnv)
  | createMap (id : Nat) (env : DriverEnv)
  | attach (perfId : Option Int) (id : Nat) (env : DriverEnv) (fake : Int)
  | put (fd : Int) (handler : HandlerVariant) (other : handler.isMap = false ∧ handler.isProg = false)

/-- A call that returns; one that throws ends the daemon. -/
def returned : Except Fault (CreateResult × Shm) → Option (Int × Shm)
  | .ok (.returned res, shm) => some (res, shm)
  | _ => none

/-- The programs of the kernel are given by their ids. -/
def applyMirror (progs : Nat → KernelProg) (shm : Shm) : MirrorOp → Option (Int × Shm)
  | .create id env => returned (shm.progsCreateServer env id (progs id))
  | .createMap id env => returned (shm.mapsCreateServer env id)
  | .attach perfId id env fake => returned (shm.attachPerfToBpfServer env perfId id (progs id) fake)
  | .put fd handler _ => (shm.setHandler fd handler).toOption

/-- A program is mirrored completely or not at all, and one that is attached is complete. -/
def MirrorsWhole (progs : Nat → KernelProg) (shm : Shm) : MirrorOp → Prop
  | .create id env => Mirrors env shm id (progs id)
  | .attach none _ _ _ => True
  | .attach (some perfId) id env fake => (shm.isProgFd id = false → Mirrors env shm id (progs id)) ∧
      ∀ next ∈ applyMirror progs shm (.attach (some perfId) id env fake), 0 ≤ next.1 → Complete next.2 (progs id) id
  | _ => True

/-- Each program that is to be mirrored meets the condition. -/
def FitsWhole (progs : Nat → KernelProg) (shm : Shm) : MirrorOp → Prop
  | .create id env => Fits env shm id (progs id)
  | .attach (some _) id env _ => shm.isProgFd id = false → Fits env shm id (progs id)
  | _ => True

/-- The programs in the table are complete. -/
def AllComplete (progs : Nat → KernelProg) (shm : Shm) : Prop :=
  ∀ id : Nat, shm.isProgFd id = true → Complete shm (progs id) id

section Runs

variable {progs : Nat → KernelProg} {shm shm' : Shm} {env : DriverEnv} {id : Nat} {prog : KernelProg} {res : Int}

/-- The maps stay, and no program is new but the one under the id. -/
structure Kept (id : Option Nat) (shm shm' : Shm) : Prop where
  isMap : ∀ n : Nat, shm.isMapFd n = true → shm'.isMapFd n = true
  prog  : ∀ (n : Nat) (prog : ProgHandler), some n ≠ id → shm'.handlers[n]? = some (.prog prog) →
    shm.handlers[n]? = some (.prog prog)

/-- Nothing changes. -/
theorem Kept.refl (id : Option Nat) (shm : Shm) : Kept id shm shm := ⟨fun _ h => h, fun _ _ _ h => h⟩

/-- One change after another. -/
theorem Kept.trans {id : Option Nat} {shm'' : Shm} (h : Kept id shm shm') (h' : Kept id shm' shm'') : Kept id shm shm'' :=
  ⟨fun n hmap => h'.isMap n (h.isMap n hmap), fun n prog hne hget => h.prog n prog hne (h'.prog n prog hne hget)⟩

/-- More maps leave what is there. -/
theorem Grown.kept {ids : List Nat} (h : Grown ids shm shm') (id : Option Nat) : Kept id shm shm' :=
  ⟨fun n hmap => (h.isMap n).mpr (.inl hmap), fun n prog _ hget => ((h.prog n prog).mp hget).1⟩

/-- A handler in a slot that was free. -/
theorem kept_set {n : Nat} {handler : HandlerVariant} (hfree : shm.handlers[n]? = some .unused)
    (hset : shm'.handlers = shm.handlers.set n handler) (id : Option Nat) (hprog : handler.isProg = true → some n = id) :
    Kept id shm shm' ∧ ∀ (m : Nat) (prog : ProgHandler), shm.handlers[m]? = some (.prog prog) →
      shm'.handlers[m]? = some (.prog prog) := by
  obtain ⟨hlt, -⟩ := List.getElem?_eq_some_iff.mp hfree
  have hother : ∀ (m : Nat) (old : HandlerVariant), old ≠ .unused → shm.handlers[m]? = some old →
      shm'.handlers[m]? = some old := by
    intro m old hused hget
    rw [hset, List.getElem?_set_ne, hget]
    rintro rfl
    rw [hfree, Option.some_inj] at hget
    exact hused hget.symm
  refine ⟨⟨fun m hmap => ?_, fun m prog hne hget => ?_⟩, fun m prog => hother m _ fun heq => by cases heq⟩
  · obtain ⟨map, hget⟩ := isMapFd_iff.mp hmap
    exact isMapFd_iff.mpr ⟨map, hother m _ (fun heq => by cases heq) hget⟩
  · rw [hset] at hget
    by_cases heq : n = m
    · subst heq
      rw [List.getElem?_set_self hlt, Option.some_inj] at hget
      rw [hget] at hprog
      exact absurd (hprog rfl) hne
    · rwa [List.getElem?_set_ne heq] at hget

/-- `set_handler` of a handler that is no map. -/
theorem kept_setHandler {fd : Int} {handler : HandlerVariant} (h : shm.setHandler fd handler = .ok (res, shm')) (id : Option Nat)
    (hprog : handler.isProg = true → ∀ n : Nat, fd = n → some n = id) :
    Kept id shm shm' ∧ ∀ (m : Nat) (prog : ProgHandler), shm.handlers[m]? = some (.prog prog) →
      shm'.handlers[m]? = some (.prog prog) := by
  rcases Shm.setHandler_ok h with rfl | ⟨n, heq, hfree, hset⟩
  · exact ⟨.refl _ _, fun _ _ hget => hget⟩
  · exact kept_set hfree hset id fun hisProg => hprog hisProg n heq

/-- A program stays complete. -/
theorem Complete.kept {id' : Option Nat} (h : Complete shm prog id) (hkept : Kept id' shm shm')
    (hprogs : ∀ (m : Nat) (prog : ProgHandler), shm.handlers[m]? = some (.prog prog) →
      shm'.handlers[m]? = some (.prog prog)) : Complete shm' prog id := by
  obtain ⟨⟨handler, hget, hinsns⟩, hmaps⟩ := h
  exact ⟨⟨handler, hprogs id handler hget, hinsns⟩, fun map hmap => hkept.isMap map (hmaps map hmap)⟩

/-- The programs that were complete stay so; the one under the id is to be seen to. -/
theorem AllComplete.kept {id : Option Nat} (h : AllComplete progs shm) (hkept : Kept id shm shm')
    (hid : ∀ n, some n = id → shm'.isProgFd n = true → Complete shm' (progs n) n) : AllComplete progs shm' := by
  intro n hprog
  by_cases heq : some n = id
  · exact hid n heq hprog
  obtain ⟨handler, hget⟩ := isProgFd_nat_iff.mp hprog
  have hold := hkept.prog n handler heq hget
  obtain ⟨⟨handler', hget', hinsns⟩, hmaps⟩ := h n (isProgFd_nat_iff.mpr ⟨handler, hold⟩)
  rw [hold, Option.some_inj] at hget'
  cases hget'
  exact ⟨⟨handler, hget, hinsns⟩, fun map hmap => hkept.isMap map (hmaps map hmap)⟩

/-- `bpf_maps_create_server` sets a slot without a map. -/
theorem mapsCreateServer_kept (h : shm.mapsCreateServer env id = .ok (.returned res, shm')) : Kept none shm shm' := by
  unfold Shm.mapsCreateServer at h
  cases hinfo : env.mapInfo id with
  | none =>
      rw [hinfo] at h
      cases h
      exact .refl _ _
  | some info =>
      rw [hinfo] at h
      dsimp only at h
      cases hmap : shm.isMapFd id with
      | true =>
          rw [hmap] at h
          cases h
          exact .refl _ _
      | false =>
          rw [hmap, if_neg Bool.false_ne_true] at h
          obtain ⟨⟨out, shm''⟩, hcreate, h⟩ := Shm.bind_ok h
          by_cases hin : shm.InRange id
          swap
          · rw [mapsCreate_outOfRange hin] at hcreate
            cases hcreate
          obtain ⟨shm₁, hspec, hgrown⟩ := mapsCreate_spec env hin hmap info.name
            (info.attr (info.type + KERNEL_USER_MAP_OFFSET) (BitVec.ofNat 32 id))
          rw [hspec] at hcreate
          cases hcreate
          have hkept := hgrown.kept none
          dsimp only at h
          split at h
          · cases h
          · cases h
            exact hkept

/-- The loop creates maps. -/
theorem checkAndCreate_grown (h : shm.checkAndCreateProgRelatedMaps env prog = .ok (.returned res, shm')) :
    ∃ ids, Grown ids shm shm' := by
  unfold Shm.checkAndCreateProgRelatedMaps at h
  split at h
  swap
  · cases h
    exact ⟨[], .refl _⟩
  have hends := createRelatedMaps_ends env shm prog.maps
  rw [h] at hends
  cases hend : mapsEnd env shm prog.maps with
  | there =>
      rw [hend] at hends
      obtain ⟨shm'', heq, hgrown⟩ := hends
      cases heq
      exact ⟨_, hgrown⟩
  | failed =>
      rw [hend] at hends
      obtain ⟨shm'', heq, hgrown⟩ := hends
      cases heq
      exact ⟨_, hgrown⟩
  | threw =>
      rw [hend] at hends
      obtain ⟨shm'', heq⟩ := hends
      cases heq
  | fault =>
      rw [hend] at hends
      have hfault : (Except.ok (CreateResult.returned res, shm') : Except Fault (CreateResult × Shm)) =
          .error .outOfRange := hends
      cases hfault

/-- `bpf_progs_create_server` sets the slot of its program, and creates maps. -/
theorem progsCreateServer_kept (h : shm.progsCreateServer env id prog = .ok (.returned res, shm')) :
    Kept (some id) shm shm' := by
  by_cases hearly : shm' = shm
  · exact hearly ▸ .refl _ _
  unfold Shm.progsCreateServer at h
  split at h
  · cases h
    exact absurd rfl hearly
  split at h
  · cases h
    exact absurd rfl hearly
  split at h
  · cases h
    exact absurd rfl hearly
  obtain ⟨insns, -, h⟩ := Shm.bind_ok h
  cases insns with
  | none =>
      cases h
      exact absurd rfl hearly
  | some insns =>
      obtain ⟨⟨added, shm₁⟩, hadd, h⟩ := Shm.bind_ok h
      have hset : shm.setHandler id (.prog ⟨env.memory, insns, prog.name⟩) = .ok (added, shm₁) := by
        unfold Shm.addBpfProg Shm.fdOrFake at hadd
        rwa [if_neg (Int.not_lt.mpr (Int.natCast_nonneg id))] at hadd
      have hkept : Kept (some id) shm shm₁ :=
        (kept_setHandler hset (some id) fun _ n heq => congrArg some (Int.ofNat.inj heq).symm).1
      dsimp only at h
      split at h
      · cases h
        exact hkept
      · obtain ⟨⟨out, shm₂⟩, hmaps, h⟩ := Shm.bind_ok h
        cases out with
        | threw => cases h
        | returned res' =>
            cases h
            obtain ⟨ids, hgrown⟩ := checkAndCreate_grown hmaps
            exact hkept.trans (hgrown.kept _)

/-- After a call that mirrors its program, a program under the id is complete. -/
theorem complete_of_mirrors (hmirrors : Mirrors env shm id prog)
    (h : shm.progsCreateServer env id prog = .ok (.returned res, shm')) (hprog : shm'.isProgFd id = true) :
    Complete shm' prog id := by
  unfold Mirrors at hmirrors
  rw [h] at hmirrors
  by_cases hres : res < 0
  · have hnone : shm'.isProgFd id = false := by
      have hif : (if res < 0 then shm'.isProgFd id = false else Complete shm' prog id) := hmirrors
      rwa [if_pos hres] at hif
    rw [hnone] at hprog
    cases hprog
  · exact (mirrored_done_iff (Int.not_lt.mp hres)).mp hmirrors

/-- A step that is taken returned. -/
theorem returned_eq_some {result : Except Fault (CreateResult × Shm)} {next : Int × Shm} (h : returned result = some next) :
    result = .ok (.returned next.1, next.2) := by
  unfold returned at h
  split at h
  · cases h
    rfl
  · cases h

/-- **One attachment.** With complete programs in the table, and one that is mirrored now mirrored completely, the programs
in the table that it leaves are complete, and the attached one is there. -/
theorem attach_complete (h : AllComplete progs shm) {perfId fake : Int}
    (hmirrors : shm.isProgFd id = false → Mirrors env shm id (progs id))
    (hattach : shm.attachPerfToBpfServer env (some perfId) id (progs id) fake = .ok (.returned res, shm')) :
    AllComplete progs shm' ∧ (0 ≤ res → Complete shm' (progs id) id) := by
  unfold Shm.attachPerfToBpfServer at hattach
  obtain ⟨⟨out, shm₁⟩, hcreate, hrest⟩ := Shm.bind_ok hattach
  -- the table in which the program is attached
  have hmirrored : ∀ r, out = .returned r → AllComplete progs shm₁ := by
    rintro r rfl
    cases hprog : shm.isProgFd id with
    | true =>
        rw [hprog] at hcreate
        cases hcreate
        exact h
    | false =>
        rw [hprog] at hcreate
        refine h.kept (progsCreateServer_kept hcreate) fun n heq hisProg => ?_
        obtain rfl := Option.some.inj heq
        exact complete_of_mirrors (hmirrors hprog) hcreate hisProg
  cases out with
  | threw => cases hrest
  | returned r =>
      have hcomplete := hmirrored r rfl
      dsimp only at hrest
      split at hrest
      · cases hrest
        exact ⟨hcomplete, fun hres => absurd hres (show ¬ (0 : Int) ≤ -1 by decide)⟩
      obtain ⟨⟨linked, shm₂⟩, hlink, hrest⟩ := Shm.bind_ok hrest
      cases hrest
      unfold Shm.attachPerfToBpf at hlink
      split at hlink
      · cases hlink
        exact ⟨hcomplete, fun hres => absurd hres (show ¬ (0 : Int) ≤ -1 by decide)⟩
      unfold Shm.addBpfProgAttachTarget at hlink
      split at hlink
      · cases hlink
        exact ⟨hcomplete, fun hres => absurd hres (show ¬ (0 : Int) ≤ -1 by decide)⟩
      next hprog =>
        split at hlink
        · cases hlink
          exact ⟨hcomplete, fun hres => absurd hres (show ¬ (0 : Int) ≤ -1 by decide)⟩
        obtain ⟨⟨put, shm₃⟩, hset, hlink⟩ := Shm.bind_ok hlink
        cases hlink
        obtain ⟨hkept, hprogs⟩ := kept_setHandler hset none fun hisProg => by cases hisProg
        refine ⟨hcomplete.kept hkept (fun n heq => by cases heq), fun _ => ?_⟩
        have hisProg : shm₁.isProgFd id = true := by simpa using hprog
        exact (hcomplete id hisProg).kept hkept hprogs

/-- A table without programs. -/
theorem allComplete_new (config : BuildConfig) (maxFdCount : Nat) : AllComplete progs (.new config maxFdCount) := by
  intro id hprog
  obtain ⟨handler, hget⟩ := isProgFd_nat_iff.mp hprog
  have hunused : HandlerVariant.prog handler = .unused := (List.mem_replicate.mp (List.mem_of_getElem? hget)).2
  cases hunused

/-- **One step.** -/
theorem mirrorsWhole_iff (h : AllComplete progs shm) (op : MirrorOp) : MirrorsWhole progs shm op ↔ FitsWhole progs shm op := by
  cases op with
  | create id env => exact mirrors_iff (h id)
  | createMap id env => exact Iff.rfl
  | put fd handler other => exact Iff.rfl
  | attach perfId id env fake =>
      cases perfId with
      | none => exact Iff.rfl
      | some perfId =>
          constructor
          · exact fun hwhole hprog => (mirrors_iff (h id)).mp (hwhole.1 hprog)
          · intro hfits
            have hmirrors : shm.isProgFd id = false → Mirrors env shm id (progs id) :=
              fun hprog => (mirrors_iff (h id)).mpr (hfits hprog)
            exact ⟨hmirrors, fun next hnext => (attach_complete h hmirrors (returned_eq_some hnext)).2⟩

/-- What a step leaves. -/
theorem AllComplete.step (h : AllComplete progs shm) (op : MirrorOp) (hfits : FitsWhole progs shm op) :
    ∀ next ∈ applyMirror progs shm op, AllComplete progs next.2 := by
  intro next hnext
  -- by the operation; only a creation brings a program
  cases op with
  | create id env =>
      have hcreate := returned_eq_some hnext
      refine h.kept (progsCreateServer_kept hcreate) fun n heq hprog => ?_
      obtain rfl := Option.some.inj heq
      exact complete_of_mirrors ((mirrors_iff (h n)).mpr hfits) hcreate hprog
  | createMap id env => exact h.kept (mapsCreateServer_kept (returned_eq_some hnext)) fun n heq => by cases heq
  | attach perfId id env fake =>
      have hattach := returned_eq_some hnext
      cases perfId with
      | none =>
          rw [← (Prod.mk.inj (Except.ok.inj hattach)).2]
          exact h
      | some perfId =>
          exact (attach_complete h (fun hprog => (mirrors_iff (h id)).mpr (hfits hprog)) hattach).1
  | put fd handler other =>
      have hset : shm.setHandler fd handler = .ok next := by
        cases hset : shm.setHandler fd handler with
        | error e =>
            rw [applyMirror, hset] at hnext
            cases hnext
        | ok result =>
            rw [applyMirror, hset] at hnext
            cases hnext
            rfl
      refine h.kept (kept_setHandler hset none fun hisProg => ?_).1 fun n heq => by cases heq
      rw [other.2] at hisProg
      cases hisProg

/-- **Mirroring is all or nothing.** In every run from an empty table, a call that mirrors a program registers it
completely or leaves no program under its id, and no attachment succeeds with an incomplete one, if and only if each
program that is mirrored meets the condition. -/
theorem kernelMirror_whole_iff (progs : Nat → KernelProg) (config : BuildConfig) (maxFdCount : Nat) (ops : List MirrorOp) :
    AllSteps (applyMirror progs) (MirrorsWhole progs) (.new config maxFdCount) ops ↔
      AllSteps (applyMirror progs) (FitsWhole progs) (.new config maxFdCount) ops := by
  have hstep : ∀ (shm : Shm) (op : MirrorOp), AllComplete progs shm →
      (MirrorsWhole progs shm op ↔ FitsWhole progs shm op) := fun shm op h => mirrorsWhole_iff h op
  exact allSteps_iff_of_invariant hstep (fun shm op h hfits => h.step op hfits) (allComplete_new config maxFdCount) ops

/-- A program with one map. -/
def oneMapProg : KernelProg := ⟨[], fun _ => 5, [], [5]⟩

/-- Its map is gone when the driver asks for it. -/
def mapGone : DriverEnv where
  progFd      := true
  progInfo    := true
  insnData    := some ⟨Vector.replicate _ ⟨Vm.EBPF_OP_EXIT, 0, 0, 0, 0⟩, 0⟩
  fdMap       := fun _ => some 5
  memory      := 0
  relatedInfo := true
  mapInfo     := fun _ => none
  mapInit     := fun _ => ⟨none, .new [] ⟨0, 0, 0, 0, 0, 0, 0, 0, 0, 0, 0, 0, 0⟩, .empty⟩

/-- The error leaves the program under its id. -/
theorem kernelMirror_not_whole : ¬ AllSteps (applyMirror fun _ => oneMapProg) (MirrorsWhole fun _ => oneMapProg)
    (.new ⟨true, false⟩ 8) [.create 3 mapGone] := by
  rintro ⟨hmirrors, -⟩
  have hone : Mirrors mapGone (.new ⟨true, false⟩ 8) 3 oneMapProg := hmirrors
  have hfits := (mirrors_iff fun hprog => absurd hprog (by decide)).mp hone
  have hfit := hfits (by decide) _ rfl
  have hmaps := (hfit.2 (fun inst _ _ => rfl) (by decide)).2.2
  have hend : mapsEnd mapGone (.new ⟨true, false⟩ 8) oneMapProg.maps = .failed := by decide
  rw [hend] at hmaps
  exact absurd hmaps (by decide)

end Runs

end Handler
