import FreeProbe.Lib.Machine
import FreeProbe.Maps.ArrayMap

/-!
# `Gpu.DeviceArray` — the array maps in device memory

`nv_gpu_per_thread_array_map_impl` and `nv_gpu_shared_array_map_impl` keep their elements in device memory. The objects
are in the shared memory, at addresses that server and agent agree on; device memory has addresses of its own in each
process. The creator allocates it and leaves its address and an IPC handle in the object, an agent opens the handle. A
lookup copies an element to the host, through a GDRCopy mapping where the process has one for the object, else by
`cuMemcpyDtoH`. The mappings are in a table of the process, by the object's address.

The CUDA driver is not a part of the repository: its calls are a parameter, and `Driver.Works` says what they do where
they are used as they should be. What the driver chooses is part of the operation: the address where it puts an
allocation or an opened handle, and what the calls of GDRCopy return. CUDA contexts and streams, which say where a copy
runs, are left out.
-/

namespace DeviceArray

open Lib Lib.Memory

open Maps (Byte Errno)

/-- A server has created the shared memory (`SHM_REMOVE_AND_CREATE`), an agent has opened it (`SHM_OPEN_ONLY`). -/
inductive Role where
  | server
  | agent
deriving DecidableEq, Repr

/-- `CUdeviceptr` -/
abbrev Address := BitVec 64

/-- An offset in an allocation. -/
structure Place where
  memory : Nat
  offset : Nat
deriving DecidableEq, Repr

/-- An allocation at an address of a process. -/
structure Mapping where
  base   : Address
  memory : Nat
deriving DecidableEq, Repr

/-- `gdrcopy_mapping_state` after the attempt: where it is enabled, what `mapped_cpu_base` shows. -/
structure GdrcopyMappingState where
  mappedCpuBase : Option Place
deriving DecidableEq, Repr

/-- What a process has: its address space, and the mappings that GDRCopy made in it. -/
structure Process where
  space   : List Mapping
  gdrcopy : Nat → Option GdrcopyMappingState

/-- The two classes. -/
inductive Kind where
  | perThread (threadCount : BitVec 64)
  | shared
deriving DecidableEq, Repr

/-- An object; there is one agent, so `agent_gpu_shared_mem` has an entry at most. The handle is the allocation. -/
structure ArrayMap where
  kind               : Kind
  gpuMemHandle       : Nat
  serverGpuSharedMem : Address
  agentGpuSharedMem  : Option Address
  valueSize          : BitVec 64
  maxEntries         : BitVec 64
deriving DecidableEq, Repr

namespace ArrayMap

/-- `entry_size`; in the shared map it is `value_size`. -/
def entrySize (map : ArrayMap) : BitVec 64 :=
  match map.kind with
  | .perThread threadCount => threadCount * map.valueSize
  | .shared => map.valueSize

/-- `total_buffer_size` -/
def totalBufferSize (map : ArrayMap) : BitVec 64 := map.entrySize * map.maxEntries

/-- `copy_offset_bytes` -/
def offset (map : ArrayMap) (key : BitVec 32) : BitVec 64 := key.setWidth 64 * map.entrySize

/-- The tests of `elem_update`. -/
def checkUpdate (map : ArrayMap) (key : BitVec 32) (flags : BitVec 64) : Except Errno Unit :=
  if !Maps.checkUpdateFlags flags then .error .einval
  else if key.setWidth 64 < map.maxEntries ∧ flags = Maps.BPF_NOEXIST then .error .eexist
  else if map.maxEntries ≤ key.setWidth 64 then .error .e2big
  else .ok ()

/-- With what `next_key` points at afterwards; for a key that is too large the pointer itself is set to null. -/
def mapGetNextKey (map : ArrayMap) (key : Option (BitVec 32)) (nextKey : BitVec 32) : Except Errno Unit × BitVec 32 :=
  match key with
  | none => (.ok (), 0)
  | some key =>
    if map.maxEntries ≤ key.setWidth 64 then (.ok (), nextKey)
    else if (key + 1).setWidth 64 = map.maxEntries then (.error .enoent, nextKey)
    else (.ok (), key + 1)

end ArrayMap

/-- The memory of the device, the maps in the shared memory and the processes. -/
structure World where
  memory    : Nat → Buffer Byte
  allocated : Nat
  freed     : Nat → Bool
  process   : Role → Process
  maps      : Nat → Option ArrayMap

/-- `gdr_info_t` -/
structure GdrInfo where
  va         : Address
  mappedSize : BitVec 64
deriving DecidableEq, Repr

/-- What the calls of GDRCopy return: the info of a mapping, unless the set-up is not tried or fails, and whether a copy
through it succeeds. -/
structure GdrcopyAnswers where
  info   : Option GdrInfo
  copies : Bool

/-- The operations on a map, each by one process. -/
inductive Op where
  | create (role : Role) (owner : Nat) (kind : Kind) (valueSize maxEntries : BitVec 64) (address : Address)
  | destroy (role : Role) (owner : Nat)
  | elemUpdate (role : Role) (owner : Nat) (key : BitVec 32) (value : Nat → Byte) (flags : BitVec 64) (opened : Address)
  | elemLookup (role : Role) (owner : Nat) (key : BitVec 32) (opened : Address) (answers : GdrcopyAnswers)
  | mapGetNextKey (owner : Nat) (key : Option (BitVec 32)) (nextKey : BitVec 32)

/-- A lookup that fails in `cuMemcpyDtoH` leaves `errno` alone. -/
inductive Reply where
  | done
  | updated (result : Except Errno Unit)
  | found (result : Except (Option Errno) (List Byte))
  | next (result : Except Errno Unit × BitVec 32)

namespace World

/-- No map and no memory. -/
def init : World := ⟨fun _ => ⟨0, fun _ => 0⟩, 0, fun _ => false, fun _ => ⟨[], fun _ => none⟩, fun _ => none⟩

/-- The size of what is mapped. -/
def size (world : World) (mapping : Mapping) : Nat := (world.memory mapping.memory).size

/-- Another map for an owner. -/
def setMap (world : World) (owner : Nat) (map : Option ArrayMap) : World :=
  { world with maps := Function.update world.maps owner map }

/-- Another address space for a process. -/
def setSpace (world : World) (role : Role) (space : List Mapping) : World :=
  { world with process := Function.update world.process role { world.process role with space := space } }

/-- Another GDRCopy mapping. -/
def setGdrcopy (world : World) (role : Role) (owner : Nat) (state : Option GdrcopyMappingState) : World :=
  { world with
    process := Function.update world.process role
      { world.process role with gdrcopy := Function.update (world.process role).gdrcopy owner state } }

/-! ## Device memory

Memory is in allocations. A process sees an allocation at an address of its own, and a range belongs to an allocation
only if it does not cross its end. -/

/-- What the range at an address of a process is, if all of it is in one allocation. -/
def resolve (world : World) (role : Role) (address : Address) (n : Nat) : Option Place :=
  ((world.process role).space.find? fun mapping =>
    !world.freed mapping.memory && decide (mapping.base ≤ address) &&
      decide (address.toNat + n ≤ mapping.base.toNat + world.size mapping)).map fun mapping =>
    ⟨mapping.memory, address.toNat - mapping.base.toNat⟩

/-- Memory with all bytes 0. -/
def allocate (world : World) (n : Nat) : World :=
  { world with
    memory := Function.update world.memory world.allocated ⟨n, fun _ => 0⟩
    allocated := world.allocated + 1
    freed := Function.update world.freed world.allocated false }

/-- An allocation of zeros at an address of a process. -/
def alloc (world : World) (role : Role) (address : Address) (n : Nat) : World :=
  (world.allocate n).setSpace role (⟨address, world.allocated⟩ :: (world.process role).space)

/-- An address that no allocation begins at is not freed. -/
def free (world : World) (role : Role) (address : Address) : World :=
  match (world.process role).space.find? (·.base == address) with
  | none => world
  | some mapping =>
    { world with freed := Function.update world.freed mapping.memory true }.setSpace role
      ((world.process role).space.filter (·.base != address))

/-- An allocation is there at a second address, in another process. -/
def openHandle (world : World) (role : Role) (handle : Nat) (address : Address) : World :=
  world.setSpace role (⟨address, handle⟩ :: (world.process role).space)

/-- Device memory is read through an address of a process. -/
def copyOut (world : World) (role : Role) (address : Address) (n : Nat) : Option (List Byte) :=
  (world.resolve role address n).map fun place => load (world.memory place.memory).cells place.offset n

/-- And written. -/
def copyIn (world : World) (role : Role) (address : Address) (bytes : List Byte) : Option World :=
  (world.resolve role address bytes.length).map fun place =>
    { world with
      memory := Function.update world.memory place.memory
        { world.memory place.memory with cells := store (world.memory place.memory).cells place.offset bytes } }

/-- The range is in nothing that the process has. -/
def Free (world : World) (role : Role) (address : Address) (n : Nat) : Prop :=
  address.toNat + n ≤ 2 ^ 64 ∧ ∀ mapping ∈ (world.process role).space,
    address.toNat + n ≤ mapping.base.toNat ∨ mapping.base.toNat + world.size mapping ≤ address.toNat

instance (world : World) (role : Role) (address : Address) (n : Nat) : Decidable (world.Free role address n) :=
  inferInstanceAs (Decidable (_ ∧ _))

end World

/-! ## The driver

What the maps ask of the CUDA driver. `Works` is what is promised of it; which addresses it gives, and when it refuses,
is left open. -/

/-- The calls of the CUDA driver that the maps make, each in a process. `cuMemAlloc` is with the `cuMemsetD8` behind it. -/
structure Driver where
  cuMemAlloc         : World → Role → Address → Nat → World
  cuMemFree          : World → Role → Address → World
  cuIpcOpenMemHandle : World → Role → Nat → Address → World
  cuMemcpyDtoH       : World → Role → Address → Nat → Option (List Byte)
  cuMemcpyHtoD       : World → Role → Address → List Byte → Option World

/-- The copies and the handles work: an allocation is of memory and at addresses that are free, what is freed or opened
is an allocation, and a range that lies in one is copied. Of calls that are used otherwise nothing is said. -/
structure Driver.Works (driver : Driver) : Prop where
  cuMemAlloc : ∀ (world : World) role address n, 0 < n → world.Free role address n →
    driver.cuMemAlloc world role address n = world.alloc role address n
  cuMemFree : ∀ (world : World) role base memory, ⟨base, memory⟩ ∈ (world.process role).space →
    world.freed memory = false → driver.cuMemFree world role base = world.free role base
  cuIpcOpenMemHandle : ∀ (world : World) role handle address, world.freed handle = false →
    world.Free role address (world.memory handle).size →
    driver.cuIpcOpenMemHandle world role handle address = world.openHandle role handle address
  cuMemcpyDtoH : ∀ (world : World) role address n, (world.resolve role address n).isSome →
    driver.cuMemcpyDtoH world role address n = world.copyOut role address n
  cuMemcpyHtoD : ∀ (world : World) role address bytes, (world.resolve role address bytes.length).isSome →
    driver.cuMemcpyHtoD world role address bytes = world.copyIn role address bytes

/-- A driver that turns down every other copy. -/
def Driver.plain : Driver := ⟨World.alloc, World.free, World.openHandle, World.copyOut, World.copyIn⟩

/-- The driver that does what it is asked to. -/
theorem Driver.plain_works : Driver.plain.Works :=
  ⟨fun _ _ _ _ _ _ => rfl, fun _ _ _ _ _ _ => rfl, fun _ _ _ _ _ _ => rfl, fun _ _ _ _ _ => rfl, fun _ _ _ _ _ => rfl⟩

namespace World

/-! ## The mappings of GDRCopy

A mapping is made in a process and kept by the object's address. It is not looked up whether the object at that address
is still the one that it was made for. -/

/-- The set-up of a mapping, which shows the device memory from `va` on. -/
def attempt (world : World) (role : Role) (deviceBase : Address) (totalBufferSize : BitVec 64)
    (info : Option GdrInfo) : GdrcopyMappingState :=
  ⟨info.bind fun info =>
    if info.mappedSize ≤ deviceBase - info.va then none
    else world.resolve role (info.va + (deviceBase - info.va)) totalBufferSize.toNat⟩

/-- The bytes, where they are copied. A mapping of memory that was freed, or that ends before them, shows nothing. -/
def copyFromDeviceToHostWithGdrcopy (world : World) (role : Role) (mappingKey : Nat) (deviceBase : Address)
    (totalBufferSize copyOffsetBytes copySizeBytes : BitVec 64) (answers : GdrcopyAnswers) :
    Option (Option (List Byte) × World) :=
  if totalBufferSize < copyOffsetBytes + copySizeBytes then some (none, world)
  else
    let state := ((world.process role).gdrcopy mappingKey).getD
      (world.attempt role deviceBase totalBufferSize answers.info)
    let world := world.setGdrcopy role mappingKey (some state)
    match state.mappedCpuBase with
    | none => some (none, world)
    | some place =>
      if !answers.copies then some (none, world)
      else if world.freed place.memory then none
      else ((world.memory place.memory).read (place.offset + copyOffsetBytes.toNat) copySizeBytes.toNat).map
        fun bytes => (some bytes, world)

/-- `destroy_gdrcopy_mapping_for_owner` -/
def destroyGdrcopyMappingForOwner (world : World) (role : Role) (mappingKey : Nat) : World :=
  world.setGdrcopy role mappingKey none

/-! ## The maps

The functions of the two classes, with the process that calls. -/

/-- The constructor. -/
def create (driver : Driver) (world : World) (role : Role) (owner : Nat) (kind : Kind) (valueSize maxEntries : BitVec 64)
    (address : Address) : World :=
  let totalBufferSize :=
    match kind with
    | .perThread threadCount => valueSize * maxEntries * threadCount
    | .shared => valueSize * maxEntries
  (driver.cuMemAlloc world role address totalBufferSize.toNat).setMap owner
    (some ⟨kind, world.allocated, address, none, valueSize, maxEntries⟩)

/-- The destructor. -/
def destroy (driver : Driver) (world : World) (role : Role) (owner : Nat) (map : ArrayMap) : World :=
  let world := (world.destroyGdrcopyMappingForOwner role owner).setMap owner none
  match role with
  | .server => driver.cuMemFree world .server map.serverGpuSharedMem
  | .agent => world

/-- `try_initialize_for_agent_and_get_mapped_address`: an agent opens the handle once, and keeps the address. -/
def tryInitializeForAgentAndGetMappedAddress (driver : Driver) (world : World) (role : Role) (owner : Nat)
    (map : ArrayMap) (opened : Address) : Address × World :=
  match role, map.agentGpuSharedMem with
  | .server, _ => (map.serverGpuSharedMem, world)
  | .agent, some address => (address, world)
  | .agent, none =>
    (opened, (driver.cuIpcOpenMemHandle world .agent map.gpuMemHandle opened).setMap owner
      (some { map with agentGpuSharedMem := some opened }))

/-- With what the pointer that it returns points at. -/
def elemLookup (driver : Driver) (world : World) (role : Role) (owner : Nat) (map : ArrayMap) (key : BitVec 32)
    (opened : Address) (answers : GdrcopyAnswers) : Option (Except (Option Errno) (List Byte) × World) :=
  if map.maxEntries ≤ key.setWidth 64 then some (.error (some .enoent), world)
  else
    let (base, world) := world.tryInitializeForAgentAndGetMappedAddress driver role owner map opened
    (world.copyFromDeviceToHostWithGdrcopy role owner base map.totalBufferSize (map.offset key) map.entrySize
      answers).map fun copied =>
      match copied.1 <|> driver.cuMemcpyDtoH copied.2 role (base + map.offset key) map.entrySize.toNat with
      | some bytes => (.ok bytes, copied.2)
      | none => (.error none, copied.2)

/-- `elem_update` with the address that it copies to; `value` is what its argument points at. -/
def copyElem (driver : Driver) (world : World) (role : Role) (map : ArrayMap) (base : Address) (key : BitVec 32)
    (value : Nat → Byte) : Except Errno Unit × World :=
  match driver.cuMemcpyHtoD world role (base + map.offset key) (load value 0 map.entrySize.toNat) with
  | some world => (.ok (), world)
  | none => (.error .einval, world)

/-- The per-thread map takes the server's address, in either process. -/
def elemUpdate (driver : Driver) (world : World) (role : Role) (owner : Nat) (map : ArrayMap) (key : BitVec 32)
    (value : Nat → Byte) (flags : BitVec 64) (opened : Address) : Except Errno Unit × World :=
  match map.checkUpdate key flags with
  | .error e => (.error e, world)
  | .ok () =>
    match map.kind with
    | .perThread _ => world.copyElem driver role map map.serverGpuSharedMem key value
    | .shared =>
      let (base, world) := world.tryInitializeForAgentAndGetMappedAddress driver role owner map opened
      world.copyElem driver role map base key value

/-- An access to memory that is gone has no result. -/
def step (driver : Driver) (world : World) : Op → Option (Reply × World)
  | .create role owner kind valueSize maxEntries address =>
    some (.done, world.create driver role owner kind valueSize maxEntries address)
  | .destroy role owner => (world.maps owner).map fun map => (.done, world.destroy driver role owner map)
  | .elemUpdate role owner key value flags opened =>
    (world.maps owner).map fun map =>
      let (result, world) := world.elemUpdate driver role owner map key value flags opened
      (.updated result, world)
  | .elemLookup role owner key opened answers => do
    let map ← world.maps owner
    let (result, world) ← world.elemLookup driver role owner map key opened answers
    return (.found result, world)
  | .mapGetNextKey owner key nextKey =>
    (world.maps owner).map fun map => (.next (map.mapGetNextKey key nextKey), world)

/-! ## What the driver may choose -/

/-- There is a map, and `opened` is free where the agent opens its handle. -/
def Opens (world : World) (role : Role) (owner : Nat) (opened : Address) : Prop :=
  (world.maps owner).isSome ∧ ∀ map ∈ world.maps owner, role = .agent → map.agentGpuSharedMem = none →
    world.Free .agent opened (world.memory map.gpuMemHandle).size

instance (world : World) (role : Role) (owner : Nat) (opened : Address) : Decidable (world.Opens role owner opened) :=
  inferInstanceAs (Decidable (_ ∧ _))

/-- The operation can be applied: objects are created where there is none and used where there is one, no empty buffer
is allocated, and the driver chooses free addresses. -/
def Valid (world : World) : Op → Prop
  | .create role owner kind valueSize maxEntries address =>
    let map : ArrayMap := ⟨kind, 0, address, none, valueSize, maxEntries⟩
    world.maps owner = none ∧ 0 < map.totalBufferSize ∧ world.Free role address map.totalBufferSize.toNat
  | .destroy _ owner => (world.maps owner).isSome
  | .elemUpdate role owner _ _ _ opened => world.Opens role owner opened
  | .elemLookup role owner _ opened _ => world.Opens role owner opened
  | .mapGetNextKey owner _ _ => (world.maps owner).isSome

instance (world : World) : ∀ op, Decidable (world.Valid op)
  | .create .. => inferInstanceAs (Decidable (_ ∧ _ ∧ _))
  | .destroy .. => inferInstanceAs (Decidable (_ = true))
  | .elemUpdate .. => inferInstanceAs (Decidable (World.Opens ..))
  | .elemLookup .. => inferInstanceAs (Decidable (World.Opens ..))
  | .mapGetNextKey .. => inferInstanceAs (Decidable (_ = true))

end World

/-! ## The plain array maps

The arrays in the host's memory that the maps are compared with. -/

/-- `array_map_impl` -/
structure Elements where
  valueSize  : BitVec 32
  maxEntries : BitVec 32
  map        : Maps.ArrayMap valueSize maxEntries

namespace Elements

/-- With what the pointer that it returns points at. -/
def elemLookup (elements : Elements) (key : BitVec 32) : Option (Except (Option Errno) (List Byte)) :=
  match elements.map.elemLookup key with
  | .error e => some (.error (some e))
  | .ok offset => (elements.map.data.read offset elements.valueSize.toNat).map .ok

/-- An update of an array. -/
def elemUpdate (elements : Elements) (key : BitVec 32) (value : Nat → Byte) (flags : BitVec 64) :
    Option (Except Errno Unit × Elements) :=
  (elements.map.elemUpdate key (Vector.ofFn fun i => value i) flags).map fun (result, map) =>
    (result, { elements with map := map })

end Elements

/-- The array maps that are compared with, by the same addresses. -/
abbrev Arrays := Nat → Option Elements

namespace Arrays

/-- The same operations on arrays. -/
def step (arrays : Arrays) : Op → Option (Reply × Arrays)
  | .create _ owner kind valueSize maxEntries address =>
    let map : ArrayMap := ⟨kind, 0, address, none, valueSize, maxEntries⟩
    some (.done, Function.update arrays owner (some ⟨map.entrySize.setWidth 32, maxEntries.setWidth 32, .new _ _⟩))
  | .destroy _ owner => some (.done, Function.update arrays owner none)
  | .elemUpdate _ owner key value flags _ => do
    let elements ← arrays owner
    let (result, elements) ← elements.elemUpdate key value flags
    return (.updated result, Function.update arrays owner (some elements))
  | .elemLookup _ owner key _ _ => do
    let elements ← arrays owner
    let result ← elements.elemLookup key
    return (.found result, arrays)
  | .mapGetNextKey owner key nextKey =>
    (arrays owner).map fun elements => (.next (elements.map.mapGetNextKey key nextKey), arrays)

end Arrays

/-! ## The comparison

Both sides do the same operations. A reply is compared whole, with the code, the value and the key. -/

/-- Both at once. -/
def both (driver : Driver) (state : World × Arrays) (op : Op) : Option ((Reply × Reply) × World × Arrays) := do
  let (reply, world) ← state.1.step driver op
  let (reply', arrays) ← state.2.step op
  return ((reply, reply'), world, arrays)

/-- No map and no array. -/
def init : World × Arrays := (.init, fun _ => none)

/-- The operation does not get stuck, and its replies are the same. -/
def Agree (driver : Driver) (state : World × Arrays) (op : Op) : Prop :=
  ∃ reply world arrays, state.1.step driver op = some (reply, world) ∧ state.2.step op = some (reply, arrays)

/-- The bytes of all elements, not reduced modulo `2 ^ 64`. -/
def exactSize (kind : Kind) (valueSize maxEntries : BitVec 64) : Nat :=
  match kind with
  | .perThread threadCount => threadCount.toNat * valueSize.toNat * maxEntries.toNat
  | .shared => valueSize.toNat * maxEntries.toNat

/-- An agent's update of a per-thread map takes an address that is not the agent's; a mapping of GDRCopy may be left by
an earlier map at the same address; a key that is too large has a successor that is not written. -/
def Careful (world : World) : Op → Prop
  | .create role _ kind valueSize maxEntries _ => role = .server ∧ exactSize kind valueSize maxEntries < 2 ^ 32
  | .destroy .. => True
  | .elemUpdate role owner key _ flags _ =>
    ∀ map ∈ world.maps owner, role = .agent → map.kind ≠ .shared → map.checkUpdate key flags = .ok () →
      world.resolve .agent (map.serverGpuSharedMem + map.offset key) map.entrySize.toNat =
        some ⟨map.gpuMemHandle, (map.offset key).toNat⟩
  | .elemLookup role owner key _ _ =>
    ∀ map ∈ world.maps owner, key.setWidth 64 < map.maxEntries →
      ∀ state ∈ (world.process role).gdrcopy owner, ∀ place ∈ state.mappedCpuBase, place.memory = map.gpuMemHandle
  | .mapGetNextKey owner key nextKey =>
    ∀ map ∈ world.maps owner, ∀ k ∈ key, map.maxEntries ≤ k.setWidth 64 → nextKey = 0

instance (world : World) : ∀ op, Decidable (Careful world op)
  | .create .. => inferInstanceAs (Decidable (_ ∧ _))
  | .destroy .. => inferInstanceAs (Decidable True)
  | .elemUpdate role owner key _ flags _ =>
    inferInstanceAs (Decidable (∀ map ∈ world.maps owner, role = .agent → map.kind ≠ .shared →
      map.checkUpdate key flags = .ok () → world.resolve .agent (map.serverGpuSharedMem + map.offset key)
        map.entrySize.toNat = some ⟨map.gpuMemHandle, (map.offset key).toNat⟩))
  | .elemLookup role owner key _ _ =>
    inferInstanceAs (Decidable (∀ map ∈ world.maps owner, key.setWidth 64 < map.maxEntries →
      ∀ state ∈ (world.process role).gdrcopy owner, ∀ place ∈ state.mappedCpuBase, place.memory = map.gpuMemHandle))
  | .mapGetNextKey owner key nextKey =>
    inferInstanceAs (Decidable (∀ map ∈ world.maps owner, ∀ k ∈ key, map.maxEntries ≤ k.setWidth 64 → nextKey = 0))

/-! ## Address spaces

No process has two allocations that overlap, so an address leads to one of them. -/

/-- The allocations of a process are apart. -/
structure Space (world : World) (role : Role) : Prop where
  apart : ∀ m ∈ (world.process role).space, ∀ m' ∈ (world.process role).space, m ≠ m' →
    m.base.toNat + world.size m ≤ m'.base.toNat ∨ m'.base.toNat + world.size m' ≤ m.base.toNat
  fits  : ∀ m ∈ (world.process role).space,
    0 < world.size m ∧ m.base.toNat + world.size m ≤ 2 ^ 64 ∧ m.memory < world.allocated

namespace Space

variable {world world' : World} {role : Role} {base address : Address} {memory : Nat}

/-- A range in an allocation is found there. -/
theorem resolve (h : Space world role) (hmem : ⟨base, memory⟩ ∈ (world.process role).space)
    (hlive : world.freed memory = false) {o n : Nat} (haddress : address.toNat = base.toNat + o) (hn : 0 < n)
    (hin : o + n ≤ (world.memory memory).size) : world.resolve role address n = some ⟨memory, o⟩ := by
  have hle : base ≤ address := BitVec.le_def.mpr (by omega)
  unfold World.resolve
  cases hfind : (world.process role).space.find? _ with
  | none =>
      refine absurd ?_ (List.find?_eq_none.mp hfind _ hmem)
      simp only [hlive, hle, World.size, Bool.not_false, decide_true, Bool.true_and]
      exact decide_eq_true (by omega)
  | some m =>
      have hm := List.mem_of_find?_eq_some hfind
      have hp := List.find?_some hfind
      simp only [Bool.and_eq_true, decide_eq_true_eq, BitVec.le_def] at hp
      obtain ⟨⟨-, hlow⟩, hhigh⟩ := hp
      have heq : m = ⟨base, memory⟩ := by
        by_contra hne
        have hapart := h.apart m hm _ hmem hne
        simp only [World.size] at hapart hhigh
        omega
      rw [heq, Option.map_some, haddress, Nat.add_sub_cancel_left]

/-- What begins at an address is one allocation. -/
theorem unique (h : Space world role) {memory' : Nat} (hmem : ⟨base, memory⟩ ∈ (world.process role).space)
    (hmem' : ⟨base, memory'⟩ ∈ (world.process role).space) : memory = memory' := by
  by_contra hne
  have hapart := h.apart _ hmem _ hmem' (fun heq => hne (congrArg Mapping.memory heq))
  have hpos := (h.fits _ hmem).1
  have hpos' := (h.fits _ hmem').1
  simp only at hapart
  omega

/-- A process keeps no more than it had. -/
theorem of_subset (h : Space world role) (hsub : ∀ m ∈ (world'.process role).space, m ∈ (world.process role).space)
    (hsize : ∀ n < world.allocated, (world'.memory n).size = (world.memory n).size)
    (hallocated : world.allocated ≤ world'.allocated) : Space world' role where
  apart := by
    intro m hm m' hm' hne
    rw [World.size, World.size, hsize _ (h.fits m (hsub m hm)).2.2, hsize _ (h.fits m' (hsub m' hm')).2.2]
    exact h.apart m (hsub m hm) m' (hsub m' hm') hne
  fits := by
    intro m hm
    obtain ⟨hpos, hend, hknown⟩ := h.fits m (hsub m hm)
    rw [World.size, hsize _ hknown]
    exact ⟨hpos, hend, Nat.lt_of_lt_of_le hknown hallocated⟩

/-- A process gets an allocation at a free address. -/
theorem insert (h : Space world role)
    (hspace : (world'.process role).space = ⟨address, memory⟩ :: (world.process role).space)
    (hmemory : world'.memory = world.memory) (hallocated : world'.allocated = world.allocated)
    (hfree : world.Free role address (world.memory memory).size) (hpos : 0 < (world.memory memory).size)
    (hknown : memory < world.allocated) : Space world' role where
  apart := by
    intro m hm m' hm' hne
    rw [hspace, List.mem_cons] at hm hm'
    simp only [World.size, hmemory]
    rcases hm with rfl | hm <;> rcases hm' with rfl | hm'
    · exact absurd rfl hne
    · exact hfree.2 m' hm'
    · exact (hfree.2 m hm).symm
    · exact h.apart m hm m' hm' hne
  fits := by
    intro m hm
    rw [hspace, List.mem_cons] at hm
    simp only [World.size, hmemory, hallocated]
    rcases hm with rfl | hm
    · exact ⟨hpos, hfree.1, hknown⟩
    · exact h.fits m hm

/-- What is freed is the allocation at the address. -/
theorem free (h : Space world role) (hmem : ⟨base, memory⟩ ∈ (world.process role).space) :
    world.free role base = { world with freed := Function.update world.freed memory true }.setSpace role
      ((world.process role).space.filter (·.base != base)) := by
  unfold World.free
  cases hfind : (world.process role).space.find? _ with
  | none => exact absurd (beq_self_eq_true base) (List.find?_eq_none.mp hfind _ hmem)
  | some mapping =>
      obtain ⟨base', memory'⟩ := mapping
      have hbase := List.find?_some hfind
      obtain rfl : base' = base := eq_of_beq hbase
      rw [h.unique hmem (List.mem_of_find?_eq_some hfind)]

end Space

/-- A map is shared by the threads or has an element for each. -/
theorem ArrayMap.kind_cases (map : ArrayMap) :
    map.kind = .shared ∨ ∃ threadCount, map.kind = .perThread threadCount := by
  cases map.kind with
  | perThread threadCount => exact Or.inr ⟨threadCount, rfl⟩
  | shared => exact Or.inl rfl

/-! ## The relation

The memory behind a map holds the elements of its array, for each process that has the map. -/

/-- The memory behind a map has the bytes of the elements, at the server's address and at the agent's. -/
structure Holds (world : World) (map : ArrayMap) (elements : Elements) : Prop where
  valueSize  : map.entrySize = elements.valueSize.setWidth 64
  maxEntries : map.maxEntries = elements.maxEntries.setWidth 64
  nonempty   : 0 < elements.valueSize.toNat
  fits       : elements.valueSize.toNat * elements.maxEntries.toNat < 2 ^ 32
  data       : elements.map.data = world.memory map.gpuMemHandle
  size       : elements.map.data.size = elements.valueSize.toNat * elements.maxEntries.toNat
  known      : map.gpuMemHandle < world.allocated
  live       : world.freed map.gpuMemHandle = false
  server     : ⟨map.serverGpuSharedMem, map.gpuMemHandle⟩ ∈ (world.process .server).space
  agent      : ∀ address ∈ map.agentGpuSharedMem, ⟨address, map.gpuMemHandle⟩ ∈ (world.process .agent).space

/-- The maps hold what the arrays do, in memory of their own, and the mappings in use are to it. -/
structure Inv (state : World × Arrays) : Prop where
  spaces   : ∀ role, Space state.1 role
  maps     : ∀ owner, Option.Rel (Holds state.1) (state.1.maps owner) (state.2 owner)
  handles  : ∀ owner owner' map map', state.1.maps owner = some map → state.1.maps owner' = some map' →
    map.gpuMemHandle = map'.gpuMemHandle → owner = owner'
  mappings : ∀ role owner, ∀ mapping ∈ (state.1.process role).gdrcopy owner, ∀ place ∈ mapping.mappedCpuBase,
    place.offset = 0

/-- Nothing is there. -/
theorem inv_init : Inv init where
  spaces := fun _ => ⟨fun _ hm => absurd hm List.not_mem_nil, fun _ hm => absurd hm List.not_mem_nil⟩
  maps := fun _ => .none
  handles := fun _ _ _ _ hmap => absurd hmap (Option.some_ne_none _).symm
  mappings := fun _ _ _ hmapping => absurd hmapping (Option.not_mem_none _)

namespace Holds

variable {world world' : World} {map : ArrayMap} {elements : Elements} {key : BitVec 32}

/-- What is not done to the memory of a map or to where it is leaves it alone. -/
theorem frame (h : Holds world map elements) (hmemory : world'.memory map.gpuMemHandle = world.memory map.gpuMemHandle)
    (hallocated : world.allocated ≤ world'.allocated) (hfreed : world'.freed map.gpuMemHandle = false)
    (hserver : ⟨map.serverGpuSharedMem, map.gpuMemHandle⟩ ∈ (world'.process .server).space)
    (hagent : ∀ m ∈ (world.process .agent).space, m ∈ (world'.process .agent).space) : Holds world' map elements where
  valueSize := h.valueSize
  maxEntries := h.maxEntries
  nonempty := h.nonempty
  fits := h.fits
  data := h.data.trans hmemory.symm
  size := h.size
  known := Nat.lt_of_lt_of_le h.known hallocated
  live := hfreed
  server := hserver
  agent := fun address haddress => hagent _ (h.agent address haddress)

/-- The memory of a map has its elements. -/
theorem memory_size (h : Holds world map elements) :
    (world.memory map.gpuMemHandle).size = elements.valueSize.toNat * elements.maxEntries.toNat := by
  rw [← h.data, h.size]

/-- The index check is the same in 64 bits. -/
theorem le_iff (h : Holds world map elements) : map.maxEntries ≤ key.setWidth 64 ↔ elements.maxEntries ≤ key := by
  rw [h.maxEntries, BitVec.le_def, BitVec.le_def, BitVec.toNat_setWidth, BitVec.toNat_setWidth,
    Nat.mod_eq_of_lt (by omega), Nat.mod_eq_of_lt (by omega)]

/-- An element has the size it should. -/
theorem entrySize_toNat (h : Holds world map elements) : map.entrySize.toNat = elements.valueSize.toNat := by
  rw [h.valueSize, BitVec.toNat_setWidth, Nat.mod_eq_of_lt (by omega)]

/-- An element is in the memory. -/
theorem element_le (hkey : key < elements.maxEntries) :
    key.toNat * elements.valueSize.toNat + elements.valueSize.toNat ≤
      elements.valueSize.toNat * elements.maxEntries.toNat := by
  rw [← Nat.succ_mul, Nat.mul_comm]
  exact Nat.mul_le_mul_left _ hkey

/-- And its place, without wrapping. -/
theorem offset_toNat (h : Holds world map elements) (hkey : key < elements.maxEntries) :
    (map.offset key).toNat = key.toNat * elements.valueSize.toNat := by
  have hle := element_le hkey
  have hfits := h.fits
  rw [ArrayMap.offset, BitVec.toNat_mul, h.entrySize_toNat, BitVec.toNat_setWidth,
    Nat.mod_eq_of_lt (a := key.toNat) (by omega), Nat.mod_eq_of_lt (by omega)]

/-- The same for the array. -/
theorem index_toNat (h : Holds world map elements) (hkey : key < elements.maxEntries) :
    (key * elements.valueSize).toNat = key.toNat * elements.valueSize.toNat := by
  have hle := element_le hkey
  have hfits := h.fits
  rw [BitVec.toNat_mul, Nat.mod_eq_of_lt (by omega)]

/-- An address of the memory leads to its elements. -/
theorem resolve (h : Holds world map elements) {role : Role} (hspace : Space world role) {base : Address}
    (hbase : ⟨base, map.gpuMemHandle⟩ ∈ (world.process role).space) (hkey : key < elements.maxEntries) :
    world.resolve role (base + map.offset key) map.entrySize.toNat =
      some ⟨map.gpuMemHandle, (map.offset key).toNat⟩ := by
  have hle := element_le hkey
  have hend := (hspace.fits _ hbase).2.1
  have hpos := h.nonempty
  simp only [World.size, h.memory_size] at hend
  have hoffset := h.offset_toNat hkey
  refine hspace.resolve hbase h.live ?_ ?_ ?_
  · rw [BitVec.toNat_add, Nat.mod_eq_of_lt (by omega)]
  · rw [h.entrySize_toNat]
    exact hpos
  · rw [h.entrySize_toNat, h.memory_size, hoffset]
    exact hle

end Holds

namespace Inv

variable {world world' : World} {arrays : Arrays} {owner : Nat} {map : ArrayMap} {role : Role}

/-- A map has its array. -/
theorem elements (h : Inv (world, arrays)) (hmap : world.maps owner = some map) :
    ∃ elements, arrays owner = some elements ∧ Holds world map elements := by
  have hrel := h.maps owner
  simp only [hmap] at hrel
  cases hrel' : arrays owner with
  | none =>
      rw [hrel'] at hrel
      cases hrel
  | some elements =>
      rw [hrel'] at hrel
      cases hrel with
      | some hholds => exact ⟨elements, rfl, hholds⟩

end Inv

/-! ## Creation

The constructor allocates the bytes of all elements. Where their exact number is below `2 ^ 32`, no product in the size
wraps. -/

/-- The size that the constructor asks for. -/
theorem totalBufferSize_eq (kind : Kind) (valueSize maxEntries : BitVec 64) (address : Address) :
    (match kind with
      | .perThread threadCount => valueSize * maxEntries * threadCount
      | .shared => valueSize * maxEntries) =
      ArrayMap.totalBufferSize ⟨kind, 0, address, none, valueSize, maxEntries⟩ := by
  cases kind with
  | perThread threadCount =>
      change valueSize * maxEntries * threadCount = threadCount * valueSize * maxEntries
      rw [BitVec.mul_comm _ threadCount, BitVec.mul_assoc]
  | shared => rfl

/-- Where the exact size is below `2 ^ 32`, no product wraps. -/
theorem sizes_exact {map : ArrayMap} (hpos : 0 < map.totalBufferSize)
    (hexact : exactSize map.kind map.valueSize map.maxEntries < 2 ^ 32) :
    0 < map.entrySize.toNat ∧ map.entrySize.toNat < 2 ^ 32 ∧ map.maxEntries.toNat < 2 ^ 32 ∧
      map.entrySize.toNat * map.maxEntries.toNat < 2 ^ 32 ∧
      map.totalBufferSize.toNat = map.entrySize.toNat * map.maxEntries.toNat := by
  have hne : map.entrySize.toNat * map.maxEntries.toNat ≠ 0 := by
    intro hzero
    have htotal : map.totalBufferSize.toNat = 0 := by
      rw [ArrayMap.totalBufferSize, BitVec.toNat_mul, hzero, Nat.zero_mod]
    exact absurd (BitVec.lt_def.mp hpos) (by rw [htotal]; exact Nat.lt_irrefl 0)
  have hentry : 0 < map.entrySize.toNat := Nat.pos_of_ne_zero (left_ne_zero_of_mul hne)
  have hentries : 0 < map.maxEntries.toNat := Nat.pos_of_ne_zero (right_ne_zero_of_mul hne)
  have hfits : map.entrySize.toNat * map.maxEntries.toNat < 2 ^ 32 := by
    refine Nat.lt_of_le_of_lt ?_ hexact
    unfold exactSize ArrayMap.entrySize
    cases map.kind with
    | perThread threadCount =>
        refine Nat.mul_le_mul_right _ ?_
        rw [BitVec.toNat_mul]
        exact Nat.mod_le _ _
    | shared => exact Nat.le_refl _
  refine ⟨hentry, ?_, ?_, hfits, ?_⟩
  · exact Nat.lt_of_le_of_lt (Nat.le_mul_of_pos_right _ hentries) hfits
  · exact Nat.lt_of_le_of_lt (Nat.le_mul_of_pos_left _ hentry) hfits
  · rw [ArrayMap.totalBufferSize, BitVec.toNat_mul, Nat.mod_eq_of_lt (by omega)]

/-- A small number is the same in 32 bits. -/
theorem setWidth_setWidth {x : BitVec 64} (hx : x.toNat < 2 ^ 32) : (x.setWidth 32).toNat = x.toNat ∧
    (x.setWidth 32).setWidth 64 = x := by
  have hnarrow : (x.setWidth 32).toNat = x.toNat := by
    rw [BitVec.toNat_setWidth, Nat.mod_eq_of_lt hx]
  refine ⟨hnarrow, BitVec.eq_of_toNat_eq ?_⟩
  rw [BitVec.toNat_setWidth, hnarrow, Nat.mod_eq_of_lt x.isLt]

section Steps

variable {driver : Driver} {world world' : World} {arrays : Arrays} {owner : Nat} {map : ArrayMap} {elements : Elements}
  {role : Role}

/-- What changes nothing in the memory of the other maps nor in where they are, and gives one address what holds of
it. -/
theorem Inv.update (h : Inv (world, arrays)) {new : Option ArrayMap} {newElements : Option Elements}
    (hspaces : ∀ role, Space world' role) (hmaps : world'.maps = Function.update world.maps owner new)
    (hnew : Option.Rel (Holds world') new newElements)
    (hothers : ∀ owner' map' elements', owner' ≠ owner → world.maps owner' = some map' → Holds world map' elements' →
      Holds world' map' elements')
    (hhandles : ∀ owner' map map', owner' ≠ owner → new = some map → world.maps owner' = some map' →
      map.gpuMemHandle ≠ map'.gpuMemHandle)
    (hmappings : ∀ role owner, ∀ mapping ∈ (world'.process role).gdrcopy owner, ∀ place ∈ mapping.mappedCpuBase,
      place.offset = 0) : Inv (world', Function.update arrays owner newElements) where
  spaces := hspaces
  maps := by
    intro owner'
    -- the map that changes, and the others
    by_cases howner : owner' = owner
    · subst howner
      simp only [hmaps, Function.update_self]
      exact hnew
    · simp only [hmaps, Function.update_of_ne howner]
      cases hmap : world.maps owner' with
      | none =>
          have hrel := h.maps owner'
          simp only [hmap] at hrel
          cases helements : arrays owner' with
          | none => exact .none
          | some elements =>
              rw [helements] at hrel
              cases hrel
      | some map' =>
          obtain ⟨elements', helements, hholds⟩ := h.elements hmap
          rw [helements]
          exact .some (hothers owner' map' elements' howner hmap hholds)
  handles := by
    intro owner₁ owner₂ map₁ map₂ hmap₁ hmap₂ heq
    simp only [hmaps, Function.update_apply] at hmap₁ hmap₂
    split at hmap₁ <;> split at hmap₂
    · exact Eq.trans ‹_› (Eq.symm ‹_›)
    · exact absurd heq (hhandles _ _ _ ‹_› hmap₁ hmap₂)
    · exact absurd heq.symm (hhandles _ _ _ ‹_› hmap₂ hmap₁)
    · exact h.handles _ _ _ _ hmap₁ hmap₂ heq
  mappings := hmappings

/-- Both do the operation, with the same reply, and stay related. -/
def Keeps (driver : Driver) (state : World × Arrays) (op : Op) : Prop :=
  ∃ reply world arrays, state.1.step driver op = some (reply, world) ∧ state.2.step op = some (reply, arrays) ∧
    Inv (world, arrays)

/-- **A map is created** in memory that is new. -/
theorem create_keeps (hdriver : driver.Works) (h : Inv (world, arrays)) {kind : Kind} {valueSize maxEntries : BitVec 64}
    {address : Address}
    (hvalid : world.Valid (.create role owner kind valueSize maxEntries address))
    (hcareful : Careful world (.create role owner kind valueSize maxEntries address)) :
    Keeps driver (world, arrays) (.create role owner kind valueSize maxEntries address) := by
  obtain ⟨hnone, hpos, hfree⟩ := hvalid
  obtain ⟨rfl, hexact⟩ := hcareful
  obtain ⟨hentry, hentry', hentries, hfits, htotal⟩ := sizes_exact hpos hexact
  set map : ArrayMap := ⟨kind, 0, address, none, valueSize, maxEntries⟩ with hmap
  have hcreate : world.create driver .server owner kind valueSize maxEntries address =
      (world.alloc .server address map.totalBufferSize.toNat).setMap owner
        (some { map with gpuMemHandle := world.allocated }) := by
    rw [← hdriver.cuMemAlloc world .server address _ hpos hfree, hmap, ← totalBufferSize_eq]
    rfl
  -- the memory of the other maps is not touched
  have hmemory : ∀ n < world.allocated, (world.allocate map.totalBufferSize.toNat).memory n = world.memory n :=
    fun n hn => Function.update_of_ne (Nat.ne_of_lt hn) ..
  have hfreed : ∀ n < world.allocated, (world.allocate map.totalBufferSize.toNat).freed n = world.freed n :=
    fun n hn => Function.update_of_ne (Nat.ne_of_lt hn) ..
  have hnew : (world.allocate map.totalBufferSize.toNat).memory world.allocated =
      ⟨map.totalBufferSize.toNat, fun _ => 0⟩ := Function.update_self ..
  have hspaces : ∀ role, Space (world.allocate map.totalBufferSize.toNat) role := fun role =>
    (h.spaces role).of_subset (fun _ hm => hm) (fun n hn => by rw [hmemory n hn]) (Nat.le_succ _)
  refine ⟨.done, world.create driver .server owner kind valueSize maxEntries address, _, rfl, rfl, ?_⟩
  rw [hcreate]
  refine h.update (fun role => ?_) rfl (.some ?_) ?_ ?_ ?_
  · cases role with
    | server =>
        refine (hspaces .server).insert rfl rfl rfl ?_ ?_ (Nat.lt_succ_self _)
        · rw [hnew]
          refine ⟨hfree.1, fun m hm => ?_⟩
          rw [World.size, hmemory _ ((h.spaces .server).fits m hm).2.2]
          exact hfree.2 m hm
        · rw [hnew]
          exact hpos
    | agent => exact (hspaces .agent).of_subset (fun _ hm => hm) (fun _ _ => rfl) (Nat.le_refl _)
  · obtain ⟨hnarrow, hwide⟩ := setWidth_setWidth hentry'
    obtain ⟨hnarrow', hwide'⟩ := setWidth_setWidth hentries
    have hsize : (map.entrySize.setWidth 32 * maxEntries.setWidth 32).toNat = map.totalBufferSize.toNat := by
      rw [BitVec.toNat_mul, hnarrow, hnarrow', htotal, Nat.mod_eq_of_lt hfits]
    exact
      { valueSize := hwide.symm
        maxEntries := hwide'.symm
        nonempty := by rwa [hnarrow]
        fits := by rwa [hnarrow, hnarrow']
        data := by
          refine Eq.trans ?_ hnew.symm
          rw [← hsize]
          rfl
        size := by
          rw [hnarrow, hnarrow', ← htotal, ← hsize]
          rfl
        known := Nat.lt_succ_self _
        live := Function.update_self ..
        server := List.mem_cons_self ..
        agent := fun _ haddress => absurd haddress (Option.not_mem_none _) }
  · intro owner' map' elements' _ _ hholds
    refine hholds.frame (hmemory _ hholds.known) (Nat.le_succ _) ?_ (List.mem_cons_of_mem _ hholds.server)
      fun _ hm => hm
    rw [← hholds.live]
    exact hfreed _ hholds.known
  · intro owner' map₁ map' _ hmap₁ hmap'
    obtain ⟨elements', -, hholds⟩ := h.elements hmap'
    rw [← Option.some.inj hmap₁]
    exact (Nat.ne_of_lt hholds.known).symm
  · intro role
    cases role with
    | server => exact h.mappings .server
    | agent => exact h.mappings .agent

/-- The mappings after one is set or removed. -/
theorem mappings_setGdrcopy (h : Inv (world, arrays)) {state : Option GdrcopyMappingState}
    (hstate : ∀ mapping ∈ state, ∀ place ∈ mapping.mappedCpuBase, place.offset = 0) (role' : Role) (owner' : Nat) :
    ∀ mapping ∈ ((world.setGdrcopy role owner state).process role').gdrcopy owner',
      ∀ place ∈ mapping.mappedCpuBase, place.offset = 0 := by
  intro mapping hmapping
  by_cases hrole : role' = role
  · subst hrole
    simp only [World.setGdrcopy, Function.update_self] at hmapping
    by_cases howner : owner' = owner
    · subst howner
      rw [Function.update_self] at hmapping
      exact hstate mapping hmapping
    · rw [Function.update_of_ne howner] at hmapping
      exact h.mappings role' owner' mapping hmapping
  · simp only [World.setGdrcopy, Function.update_of_ne hrole] at hmapping
    exact h.mappings role' owner' mapping hmapping

@[simp] theorem space_setGdrcopy (state : Option GdrcopyMappingState) (role' : Role) :
    ((world.setGdrcopy role owner state).process role').space = (world.process role').space := by
  by_cases hrole : role' = role
  · subst hrole
    simp only [World.setGdrcopy, Function.update_self]
  · simp only [World.setGdrcopy, Function.update_of_ne hrole]

@[simp] theorem resolve_setGdrcopy (state : Option GdrcopyMappingState) (role' : Role) (address : Address) (n : Nat) :
    (world.setGdrcopy role owner state).resolve role' address n = world.resolve role' address n := by
  unfold World.resolve
  rw [space_setGdrcopy]
  rfl

theorem destroy_keeps (hdriver : driver.Works) (h : Inv (world, arrays)) (hvalid : world.Valid (.destroy role owner)) :
    Keeps driver (world, arrays) (.destroy role owner) := by
  obtain ⟨map, hmap⟩ := Option.isSome_iff_exists.mp hvalid
  obtain ⟨elements, helements, hholds⟩ := h.elements hmap
  refine ⟨.done, world.destroy driver role owner map, _, ?_, rfl, ?_⟩
  · simp only [World.step, hmap, Option.map_some]
  have hmappings : ∀ role' owner', ∀ mapping ∈ ((world.setGdrcopy role owner none).process role').gdrcopy owner',
      ∀ place ∈ mapping.mappedCpuBase, place.offset = 0 :=
    mappings_setGdrcopy h fun _ hmapping => absurd hmapping (Option.not_mem_none _)
  have hnone : ∀ (owner' : Nat) (map₁ map' : ArrayMap), owner' ≠ owner → none = some map₁ →
      world.maps owner' = some map' → map₁.gpuMemHandle ≠ map'.gpuMemHandle :=
    fun _ _ _ _ hmap₁ => absurd hmap₁.symm (Option.some_ne_none _)
  cases role with
  | agent =>
      have hspace : ∀ role', ((world.destroy driver .agent owner map).process role').space = (world.process role').space :=
        space_setGdrcopy none
      refine h.update (fun role => ?_) rfl .none (fun owner' map' elements' _ _ hholds' => ?_) hnone hmappings
      · refine (h.spaces role).of_subset (fun m hm => ?_) (fun _ _ => rfl) (Nat.le_refl _)
        rwa [hspace] at hm
      · refine hholds'.frame rfl (Nat.le_refl _) hholds'.live ?_ (fun m hm => ?_)
        · rw [hspace]
          exact hholds'.server
        · rwa [hspace]
  | server =>
      let world₁ := (world.destroyGdrcopyMappingForOwner .server owner).setMap owner none
      have hspace : ∀ role', (world₁.process role').space = (world.process role').space := space_setGdrcopy none
      have hspaces : ∀ role', Space world₁ role' := by
        intro role'
        refine (h.spaces role').of_subset (fun m hm => ?_) (fun _ _ => rfl) (Nat.le_refl _)
        rwa [hspace] at hm
      have hserver : ⟨map.serverGpuSharedMem, map.gpuMemHandle⟩ ∈ (world₁.process .server).space := by
        rw [hspace]
        exact hholds.server
      have hdestroy : world.destroy driver .server owner map = _ :=
        (hdriver.cuMemFree world₁ .server _ _ hserver hholds.live).trans ((hspaces .server).free hserver)
      rw [hdestroy]
      refine h.update (fun role => ?_) rfl .none (fun owner' map' elements' howner hmap' hholds' => ?_) hnone ?_
      · refine (hspaces role).of_subset (fun m hm => ?_) (fun _ _ => rfl) (Nat.le_refl _)
        cases role with
        | server => exact (List.mem_filter.mp hm).1
        | agent => exact hm
      · have hhandle : map'.gpuMemHandle ≠ map.gpuMemHandle :=
          fun heq => howner (h.handles _ _ _ _ hmap' hmap heq)
        refine hholds'.frame rfl (Nat.le_refl _) ?_ ?_ (fun m hm => ?_)
        · exact (Function.update_of_ne hhandle ..).trans hholds'.live
        · refine List.mem_filter.mpr ⟨by rw [hspace]; exact hholds'.server, ?_⟩
          rw [bne_iff_ne]
          intro hbase
          have hserver' := hholds'.server
          simp only at hbase
          rw [hbase] at hserver'
          exact hhandle ((h.spaces .server).unique hserver' hholds.server)
        · change m ∈ (world₁.process .agent).space
          rwa [hspace]
      · intro role' owner'
        cases role' with
        | server => exact hmappings .server owner'
        | agent => exact hmappings .agent owner'

/-! ## The address in the process

The server has the address that it allocated, an agent the one at which it opened the handle. -/

/-- The address leads to the map's memory; nothing but the agent's entry in the object has changed. -/
theorem initialize_keeps (hdriver : driver.Works) (h : Inv (world, arrays)) (hmap : world.maps owner = some map)
    {opened : Address}
    (hopens : world.Opens role owner opened) :
    ∃ base world' agent,
      world.tryInitializeForAgentAndGetMappedAddress driver role owner map opened = (base, world') ∧
      Inv (world', arrays) ∧ world'.maps owner = some { map with agentGpuSharedMem := agent } ∧
      ⟨base, map.gpuMemHandle⟩ ∈ (world'.process role).space ∧
      (world'.process role).gdrcopy owner = (world.process role).gdrcopy owner := by
  obtain ⟨elements, helements, hholds⟩ := h.elements hmap
  cases role with
  | server => exact ⟨_, world, _, rfl, h, hmap, hholds.server, rfl⟩
  | agent =>
      cases hagent : map.agentGpuSharedMem with
      | some address =>
          refine ⟨address, world, map.agentGpuSharedMem, ?_, h, hmap, hholds.agent address hagent, rfl⟩
          simp only [World.tryInitializeForAgentAndGetMappedAddress, hagent]
      | none =>
          have hfree := hopens.2 map hmap rfl hagent
          let world' := (world.openHandle .agent map.gpuMemHandle opened).setMap owner
            (some { map with agentGpuSharedMem := some opened })
          have hinit : world.tryInitializeForAgentAndGetMappedAddress driver .agent owner map opened =
              (opened, world') := by
            simp only [World.tryInitializeForAgentAndGetMappedAddress, hagent,
              hdriver.cuIpcOpenMemHandle world .agent _ opened hholds.live hfree]
            rfl
          have hsub : ∀ m ∈ (world.process .agent).space, m ∈ (world'.process .agent).space :=
            fun _ hm => List.mem_cons_of_mem _ hm
          have hinv : Inv (world', Function.update arrays owner (some elements)) := by
            refine h.update (fun role => ?_) rfl (.some ?_) (fun owner' map' elements' _ _ hholds' => ?_) ?_ ?_
            · cases role with
              | server => exact (h.spaces .server).of_subset (fun _ hm => hm) (fun _ _ => rfl) (Nat.le_refl _)
              | agent =>
                  refine (h.spaces .agent).insert rfl rfl rfl hfree ?_ hholds.known
                  exact ((h.spaces .server).fits _ hholds.server).1
            · have hframe : Holds world' map elements :=
                hholds.frame rfl (Nat.le_refl _) hholds.live hholds.server hsub
              refine { hframe with agent := fun address haddress => ?_ }
              rw [← Option.some.inj haddress]
              exact List.mem_cons_self ..
            · exact hholds'.frame rfl (Nat.le_refl _) hholds'.live hholds'.server hsub
            · intro owner' map₁ map' howner hmap₁ hmap' heq
              rw [← Option.some.inj hmap₁] at heq
              exact howner (h.handles _ _ _ _ hmap' hmap heq.symm)
            · intro role
              cases role with
              | server => exact h.mappings .server
              | agent => exact h.mappings .agent
          rw [Function.update_eq_self_iff.mpr helements.symm] at hinv
          exact ⟨opened, world', some opened, hinit, hinv, Function.update_self .., List.mem_cons_self .., rfl⟩

/-! ## Updates -/

theorem checkUpdate_eq (hholds : Holds world map elements) (key : BitVec 32) (flags : BitVec 64) :
    map.checkUpdate key flags = Maps.checkUpdate elements.maxEntries key flags := by
  have hlt : key.setWidth 64 < map.maxEntries ↔ key < elements.maxEntries := by
    rw [← BitVec.not_le, ← BitVec.not_le, hholds.le_iff]
  unfold ArrayMap.checkUpdate Maps.checkUpdate
  simp only [hlt, hholds.le_iff]

theorem toList_ofFn (n : Nat) (value : Nat → Byte) :
    (Vector.ofFn fun i : Fin n => value i).toList = load value 0 n := by
  refine (load_eq (by simp) fun i hi => ?_).symm
  simp

/-- The bytes of a value are copied to where the element is. -/
theorem copyElem_keeps (hdriver : driver.Works) (h : Inv (world, arrays)) (hmap : world.maps owner = some map)
    (helements : arrays owner = some elements) {key : BitVec 32} {flags : BitVec 64}
    (hcheck : map.checkUpdate key flags = .ok ()) {base : Address}
    (hbase : world.resolve role (base + map.offset key) map.entrySize.toNat =
      some ⟨map.gpuMemHandle, (map.offset key).toNat⟩) (value : Nat → Byte) :
    ∃ world' elements', world.copyElem driver role map base key value = (.ok (), world') ∧
      elements.elemUpdate key value flags = some (.ok (), elements') ∧
      Inv (world', Function.update arrays owner (some elements')) := by
  obtain ⟨elements₁, helements₁, hholds⟩ := h.elements hmap
  obtain rfl : elements₁ = elements := Option.some.inj (helements₁.symm.trans helements)
  rw [checkUpdate_eq hholds] at hcheck
  have hkey : key < elements₁.maxEntries := BitVec.not_le.mp (Maps.checkUpdate_ok hcheck)
  have hoffset : (key * elements₁.valueSize).toNat = (map.offset key).toNat := by
    rw [hholds.index_toNat hkey, hholds.offset_toNat hkey]
  have hlength : (load value 0 map.entrySize.toNat).length = map.entrySize.toNat := length_load
  -- both stores
  let written : Buffer Byte :=
    { world.memory map.gpuMemHandle with
      cells := store (world.memory map.gpuMemHandle).cells (map.offset key).toNat (load value 0 map.entrySize.toNat) }
  let world' : World := { world with memory := Function.update world.memory map.gpuMemHandle written }
  have hresolve : (world.resolve role (base + map.offset key) (load value 0 map.entrySize.toNat).length).isSome := by
    rw [hlength, hbase]
    rfl
  have hcopy : world.copyElem driver role map base key value = (.ok (), world') := by
    simp only [World.copyElem, hdriver.cuMemcpyHtoD world role _ _ hresolve, World.copyIn, hlength, hbase,
      Option.map_some]
    rfl
  have hwrite : elements₁.map.data.write (key * elements₁.valueSize).toNat
      (load value 0 elements₁.valueSize.toNat) = some written := by
    rw [Buffer.write_eq, hholds.data, hoffset, ← hholds.entrySize_toNat]
    rw [length_load, hholds.index_toNat hkey, hholds.size]
    exact Holds.element_le hkey
  have hupdate : elements₁.elemUpdate key value flags = some (.ok (), { elements₁ with map := ⟨written⟩ }) := by
    simp only [Elements.elemUpdate, Maps.ArrayMap.elemUpdate, hcheck, toList_ofFn, hwrite, Option.bind_eq_bind,
      Option.bind_some, Option.pure_def, Option.map_some]
  refine ⟨world', _, hcopy, hupdate, ?_⟩
  have hsize : ∀ n, (world'.memory n).size = (world.memory n).size := by
    intro n
    simp only [world', Function.update_apply]
    split
    · rename_i hn
      rw [hn]
    · rfl
  refine h.update (fun role => ?_) (Function.update_eq_self_iff.mpr hmap.symm).symm (.some ?_)
    (fun owner' map' elements' howner hmap' hholds' => ?_) ?_ h.mappings
  · exact (h.spaces role).of_subset (fun _ hm => hm) (fun n _ => hsize n) (Nat.le_refl _)
  · have hwritten : world'.memory map.gpuMemHandle = written := Function.update_self ..
    exact { hholds with data := hwritten.symm, size := hholds.memory_size }
  · refine hholds'.frame ?_ (Nat.le_refl _) hholds'.live hholds'.server fun _ hm => hm
    exact Function.update_of_ne (fun heq => howner (h.handles _ _ _ _ hmap' hmap heq)) ..
  · intro owner' map₁ map' howner hmap₁ hmap' heq
    rw [← Option.some.inj hmap₁] at heq
    exact howner (h.handles _ _ _ _ hmap' hmap heq.symm)

theorem elemUpdate_keeps (hdriver : driver.Works) (h : Inv (world, arrays)) {key : BitVec 32} {value : Nat → Byte}
    {flags : BitVec 64}
    {opened : Address} (hvalid : world.Valid (.elemUpdate role owner key value flags opened))
    (hcareful : Careful world (.elemUpdate role owner key value flags opened)) :
    Keeps driver (world, arrays) (.elemUpdate role owner key value flags opened) := by
  obtain ⟨map, hmap⟩ := Option.isSome_iff_exists.mp hvalid.1
  obtain ⟨elements, helements, hholds⟩ := h.elements hmap
  cases hcheck : map.checkUpdate key flags with
  | error e =>
      refine ⟨.updated (.error e), world, Function.update arrays owner (some elements), ?_, ?_, ?_⟩
      · simp only [World.step, hmap, Option.map_some, World.elemUpdate, hcheck]
      · rw [checkUpdate_eq hholds] at hcheck
        simp only [Arrays.step, helements, Elements.elemUpdate, Maps.ArrayMap.elemUpdate, hcheck, Option.bind_eq_bind,
          Option.bind_some, Option.map_some, Option.pure_def]
      · rwa [Function.update_eq_self_iff.mpr helements.symm]
  | ok _ =>
      -- in either case a copy to an address that leads to the element
      obtain ⟨base, world₁, agent, hstep, h₁, hmap₁, hbase⟩ : ∃ base world₁ agent,
          world.elemUpdate driver role owner map key value flags opened =
            world₁.copyElem driver role map base key value ∧
          Inv (world₁, arrays) ∧ world₁.maps owner = some { map with agentGpuSharedMem := agent } ∧
          world₁.resolve role (base + map.offset key) map.entrySize.toNat =
            some ⟨map.gpuMemHandle, (map.offset key).toNat⟩ := by
        have hkey : key < elements.maxEntries := by
          rw [checkUpdate_eq hholds] at hcheck
          exact BitVec.not_le.mp (Maps.checkUpdate_ok hcheck)
        rcases map.kind_cases with hkind | ⟨threadCount, hkind⟩
        · obtain ⟨base, world₁, agent, hinit, h₁, hmap₁, hbase, -⟩ := initialize_keeps hdriver h hmap hvalid
          obtain ⟨elements₁, helements₁, hholds₁⟩ := h₁.elements hmap₁
          obtain rfl : elements₁ = elements := Option.some.inj (helements₁.symm.trans helements)
          refine ⟨base, world₁, agent, ?_, h₁, hmap₁, hholds₁.resolve (h₁.spaces role) hbase hkey⟩
          simp only [World.elemUpdate, hcheck, hkind, hinit]
        · refine ⟨map.serverGpuSharedMem, world, map.agentGpuSharedMem, ?_, h, hmap, ?_⟩
          · simp only [World.elemUpdate, hcheck, hkind]
          · cases role with
            | server => exact hholds.resolve (h.spaces .server) hholds.server hkey
            | agent => exact hcareful map hmap rfl (by rw [hkind]; exact Kind.noConfusion) hcheck
      obtain ⟨world', elements', hcopy, hupdate, hinv⟩ := copyElem_keeps hdriver h₁ hmap₁ helements hcheck hbase value
      refine ⟨.updated (.ok ()), world', _, ?_, ?_, hinv⟩
      · have hcopy' : world₁.copyElem driver role map base key value = (.ok (), world') := hcopy
        simp only [World.step, hmap, Option.map_some, hstep, hcopy']
      · simp only [Arrays.step, helements, Option.bind_eq_bind, Option.bind_some, hupdate, Option.pure_def]

/-! ## Lookups

A lookup copies through a mapping if the process has one, and else through the driver. Both show the memory of the map.
-/

/-- A mapping that is set up shows the memory from its begin on. -/
theorem attempt_mappedCpuBase (hspace : Space world role) (hholds : Holds world map elements) {base : Address}
    (hbase : ⟨base, map.gpuMemHandle⟩ ∈ (world.process role).space) {totalBufferSize : BitVec 64}
    (htotal : totalBufferSize.toNat = (world.memory map.gpuMemHandle).size) {info : Option GdrInfo} :
    ∀ place ∈ (world.attempt role base totalBufferSize info).mappedCpuBase, place = ⟨map.gpuMemHandle, 0⟩ := by
  intro place hplace
  obtain ⟨gdrInfo, -, hplace⟩ := Option.bind_eq_some_iff.mp hplace
  have hpos := (hspace.fits _ hbase).1
  simp only [World.size] at hpos
  have hresolve : world.resolve role base totalBufferSize.toNat = some ⟨map.gpuMemHandle, 0⟩ :=
    hspace.resolve hbase hholds.live (Nat.add_zero _).symm (by omega) (by omega)
  have hbegin : gdrInfo.va + (base - gdrInfo.va) = base := by rw [BitVec.add_comm, BitVec.sub_add_cancel]
  by_cases hinfo : gdrInfo.mappedSize ≤ base - gdrInfo.va
  · rw [if_pos hinfo] at hplace
    cases hplace
  · rw [if_neg hinfo, hbegin, hresolve] at hplace
    exact (Option.some.inj hplace).symm

/-- What comes through a mapping of the map's own memory are the bytes of the element. -/
theorem gdrcopy_keeps (h : Inv (world, arrays)) (hholds : Holds world map elements)
    {base : Address} (hbase : ⟨base, map.gpuMemHandle⟩ ∈ (world.process role).space) {key : BitVec 32}
    (hkey : key < elements.maxEntries)
    (hown : ∀ mapping ∈ (world.process role).gdrcopy owner, ∀ place ∈ mapping.mappedCpuBase,
      place.memory = map.gpuMemHandle) (answers : GdrcopyAnswers) :
    ∃ copied state, world.copyFromDeviceToHostWithGdrcopy role owner base map.totalBufferSize (map.offset key)
        map.entrySize answers = some (copied, world.setGdrcopy role owner (some state)) ∧
      (∀ place ∈ state.mappedCpuBase, place = ⟨map.gpuMemHandle, 0⟩) ∧
      ∀ bytes ∈ copied, bytes = load elements.map.data.cells (map.offset key).toNat elements.valueSize.toNat := by
  have hle := Holds.element_le hkey
  have hfits := hholds.fits
  have htotal : map.totalBufferSize.toNat = elements.valueSize.toNat * elements.maxEntries.toNat := by
    rw [ArrayMap.totalBufferSize, BitVec.toNat_mul, hholds.entrySize_toNat, hholds.maxEntries, BitVec.toNat_setWidth,
      Nat.mod_eq_of_lt (a := elements.maxEntries.toNat) (by omega), Nat.mod_eq_of_lt (by omega)]
  have hinside : ¬ map.totalBufferSize < map.offset key + map.entrySize := by
    rw [BitVec.lt_def, BitVec.toNat_add, htotal, hholds.offset_toNat hkey, hholds.entrySize_toNat,
      Nat.mod_eq_of_lt (by omega)]
    omega
  let state := ((world.process role).gdrcopy owner).getD (world.attempt role base map.totalBufferSize answers.info)
  have hstate : ∀ place ∈ state.mappedCpuBase, place = ⟨map.gpuMemHandle, 0⟩ := by
    intro place hplace
    cases hmapping : (world.process role).gdrcopy owner with
    | none =>
        simp only [state, hmapping, Option.getD_none] at hplace
        exact attempt_mappedCpuBase (h.spaces role) hholds hbase (htotal.trans hholds.memory_size.symm) place hplace
    | some mapping =>
        simp only [state, hmapping, Option.getD_some] at hplace
        have hmemory := hown mapping hmapping place hplace
        have hoffset := h.mappings role owner mapping hmapping place hplace
        obtain ⟨memory, offset⟩ := place
        subst hmemory hoffset
        rfl
  have hcopy : world.copyFromDeviceToHostWithGdrcopy role owner base map.totalBufferSize (map.offset key)
      map.entrySize answers = _ := if_neg hinside
  cases hbar : state.mappedCpuBase with
  | none =>
      refine ⟨none, state, ?_, hstate, fun _ hbytes => absurd hbytes (Option.not_mem_none _)⟩
      rw [hcopy]
      simp only [state] at hbar
      simp only [hbar]
      rfl
  | some place =>
      obtain rfl := hstate place hbar
      simp only [state] at hbar
      by_cases hcopies : answers.copies = true
      · have hread : (world.memory map.gpuMemHandle).read (0 + (map.offset key).toNat) map.entrySize.toNat =
            some (load elements.map.data.cells (map.offset key).toNat elements.valueSize.toNat) := by
          rw [Nat.zero_add, hholds.entrySize_toNat, ← hholds.data]
          refine Buffer.read_eq ?_
          rw [hholds.offset_toNat hkey, hholds.size]
          exact hle
        refine ⟨some _, state, ?_, hstate, fun _ hbytes => (Option.some.inj hbytes).symm⟩
        rw [hcopy]
        simp only [hbar, hcopies, World.setGdrcopy, hholds.live, hread, Bool.not_true, Bool.false_eq_true, if_false,
          Option.map_some]
        rfl
      · refine ⟨none, state, ?_, hstate, fun _ hbytes => absurd hbytes (Option.not_mem_none _)⟩
        rw [hcopy]
        simp only [hbar, Bool.not_eq_true] at hcopies ⊢
        simp only [hcopies, Bool.not_false, if_true]
        rfl

theorem elemLookup_keeps (hdriver : driver.Works) (h : Inv (world, arrays)) {key : BitVec 32} {opened : Address}
    {answers : GdrcopyAnswers}
    (hvalid : world.Valid (.elemLookup role owner key opened answers))
    (hcareful : Careful world (.elemLookup role owner key opened answers)) :
    Keeps driver (world, arrays) (.elemLookup role owner key opened answers) := by
  obtain ⟨map, hmap⟩ := Option.isSome_iff_exists.mp hvalid.1
  obtain ⟨elements, helements, hholds⟩ := h.elements hmap
  by_cases hkey : elements.maxEntries ≤ key
  · have hkey' := hholds.le_iff.mpr hkey
    refine ⟨.found (.error (some .enoent)), world, arrays, ?_, ?_, h⟩
    · simp only [World.step, hmap, Option.bind_eq_bind, Option.bind_some, World.elemLookup, if_pos hkey',
        Option.pure_def]
    · simp only [Arrays.step, helements, Option.bind_eq_bind, Option.bind_some, Elements.elemLookup,
        Maps.ArrayMap.elemLookup, if_pos hkey, Option.pure_def]
  · have hkey' := mt hholds.le_iff.mp hkey
    have hlt : key < elements.maxEntries := BitVec.not_le.mp hkey
    obtain ⟨base, world₁, agent, hinit, h₁, hmap₁, hbase, hgdrcopy⟩ := initialize_keeps hdriver h hmap hvalid
    obtain ⟨elements₁, helements₁, hholds₁⟩ := h₁.elements hmap₁
    obtain rfl : elements₁ = elements := Option.some.inj (helements₁.symm.trans helements)
    have hown : ∀ mapping ∈ (world₁.process role).gdrcopy owner, ∀ place ∈ mapping.mappedCpuBase,
        place.memory = map.gpuMemHandle := by
      rw [hgdrcopy]
      exact hcareful map hmap (BitVec.not_le.mp hkey')
    obtain ⟨copied, state, hcopy, hstate, hbytes⟩ := gdrcopy_keeps h₁ hholds₁ hbase hlt hown answers
    let bytes := load elements₁.map.data.cells (map.offset key).toNat elements₁.valueSize.toNat
    let world' := world₁.setGdrcopy role owner (some state)
    have hfallback : driver.cuMemcpyDtoH world' role (base + map.offset key) map.entrySize.toNat = some bytes := by
      have hresolve : world'.resolve role (base + map.offset key) map.entrySize.toNat =
          some ⟨map.gpuMemHandle, (map.offset key).toNat⟩ :=
        (resolve_setGdrcopy ..).trans (hholds₁.resolve (h₁.spaces role) hbase hlt)
      rw [hdriver.cuMemcpyDtoH world' role _ _ (Option.isSome_of_mem hresolve), World.copyOut, hresolve]
      rw [Option.map_some, hholds.entrySize_toNat]
      simp only [bytes, hholds₁.data]
      rfl
    have hfound : (copied <|> driver.cuMemcpyDtoH world' role (base + map.offset key) map.entrySize.toNat) = some bytes := by
      cases copied with
      | none => exact hfallback
      | some bytes' => exact congrArg some (hbytes bytes' rfl)
    have hcopy' : world₁.copyFromDeviceToHostWithGdrcopy role owner base map.totalBufferSize (map.offset key)
        map.entrySize answers = some (copied, world') := hcopy
    refine ⟨.found (.ok bytes), world', arrays, ?_, ?_, ?_⟩
    · simp only [World.step, hmap, Option.bind_eq_bind, Option.bind_some, World.elemLookup, if_neg hkey', hinit, hcopy',
        Option.map_some, hfound, Option.pure_def]
    · have hread : elements₁.map.data.read (key * elements₁.valueSize).toNat elements₁.valueSize.toNat = some bytes := by
        rw [hholds.index_toNat hlt, ← hholds.offset_toNat hlt]
        refine Buffer.read_eq ?_
        rw [hholds.offset_toNat hlt, hholds.size]
        exact Holds.element_le hlt
      simp only [Arrays.step, helements, Option.bind_eq_bind, Option.bind_some, Elements.elemLookup,
        Maps.ArrayMap.elemLookup, if_neg hkey, hread, Option.map_some, Option.pure_def]
    · have hinv : Inv (world', Function.update arrays owner (some elements₁)) := by
        refine h₁.update (fun role' => ?_) (Function.update_eq_self_iff.mpr hmap₁.symm).symm (.some ?_)
          (fun owner' map' elements' _ _ hholds' => ?_) ?_ ?_
        · refine (h₁.spaces role').of_subset (fun m hm => ?_) (fun _ _ => rfl) (Nat.le_refl _)
          rwa [space_setGdrcopy] at hm
        · refine hholds₁.frame rfl (Nat.le_refl _) hholds₁.live ?_ fun m hm => ?_
          · rw [space_setGdrcopy]
            exact hholds₁.server
          · rwa [space_setGdrcopy]
        · refine hholds'.frame rfl (Nat.le_refl _) hholds'.live ?_ fun m hm => ?_
          · rw [space_setGdrcopy]
            exact hholds'.server
          · rwa [space_setGdrcopy]
        · intro owner' map' map'' howner hmap' hmap'' heq
          rw [← Option.some.inj hmap'] at heq
          exact howner (h₁.handles _ _ _ _ hmap'' hmap₁ heq.symm)
        · refine mappings_setGdrcopy h₁ fun mapping hmapping place hplace => ?_
          rw [← Option.some.inj hmapping] at hplace
          rw [hstate place hplace]
      rwa [Function.update_eq_self_iff.mpr helements.symm] at hinv

theorem mapGetNextKey_keeps (h : Inv (world, arrays)) {key : Option (BitVec 32)} {nextKey : BitVec 32}
    (hvalid : world.Valid (.mapGetNextKey owner key nextKey))
    (hcareful : Careful world (.mapGetNextKey owner key nextKey)) :
    Keeps driver (world, arrays) (.mapGetNextKey owner key nextKey) := by
  obtain ⟨map, hmap⟩ := Option.isSome_iff_exists.mp hvalid
  obtain ⟨elements, helements, hholds⟩ := h.elements hmap
  refine ⟨.next (map.mapGetNextKey key nextKey), world, arrays, ?_, ?_, h⟩
  · simp only [World.step, hmap, Option.map_some]
  have hsame : elements.map.mapGetNextKey key nextKey = map.mapGetNextKey key nextKey := by
    cases key with
    | none => rfl
    | some key =>
        have hlast : (key + 1).setWidth 64 = map.maxEntries ↔ key = elements.maxEntries - 1 := by
          rw [hholds.maxEntries]
          constructor
          · intro heq
            have heq' : key + 1 = elements.maxEntries := by
              have hnarrow := congrArg (BitVec.setWidth 32) heq
              rwa [BitVec.setWidth_setWidth_of_le _ (by decide), BitVec.setWidth_setWidth_of_le _ (by decide),
                BitVec.setWidth_eq, BitVec.setWidth_eq] at hnarrow
            rw [← heq', BitVec.add_sub_cancel]
          · rintro rfl
            rw [BitVec.sub_add_cancel]
        simp only [Maps.ArrayMap.mapGetNextKey, ArrayMap.mapGetNextKey, hlast, hholds.le_iff]
        split
        · rw [hcareful map hmap key rfl (hholds.le_iff.mpr ‹_›)]
        · rfl
  simp only [Arrays.step, helements, Option.map_some, hsame]

end Steps

/-! ## Runs -/

theorem keeps {driver : Driver} (hdriver : driver.Works) {state : World × Arrays} (h : Inv state) :
    ∀ op, state.1.Valid op → Careful state.1 op → Keeps driver state op
  | .create .., hvalid, hcareful => create_keeps hdriver h hvalid hcareful
  | .destroy .., hvalid, _ => destroy_keeps hdriver h hvalid
  | .elemUpdate .., hvalid, hcareful => elemUpdate_keeps hdriver h hvalid hcareful
  | .elemLookup .., hvalid, hcareful => elemLookup_keeps hdriver h hvalid hcareful
  | .mapGetNextKey .., hvalid, hcareful => mapGetNextKey_keeps h hvalid hcareful

/-- **The array maps in device memory do what the plain ones do**, over a driver that works, in every history whose
operations are careful: the replies of all objects are the same, whichever process makes them and whichever way the
bytes are copied. -/
theorem run_agrees {driver : Driver} (hdriver : driver.Works) {ops : List Op}
    (hops : AllSteps (both driver) (fun state op => state.1.Valid op ∧ Careful state.1 op) init ops) :
    AllSteps (both driver) (Agree driver) init ops := by
  refine allSteps_of_invariant (I := Inv) (fun state op h hop => ?_) (fun state op h hop next hnext => ?_) inv_init hops
  · obtain ⟨reply, world, arrays, hworld, harrays, -⟩ := keeps hdriver h op hop.1 hop.2
    exact ⟨reply, world, arrays, hworld, harrays⟩
  · obtain ⟨reply, world, arrays, hworld, harrays, h'⟩ := keeps hdriver h op hop.1 hop.2
    have hboth : both driver state op = some ((reply, reply), world, arrays) := by
      simp only [both, hworld, harrays, Option.bind_eq_bind, Option.bind_some, Option.pure_def]
    rw [Option.mem_def, hboth] at hnext
    rw [← Option.some.inj hnext]
    exact h'

/-- An array of four elements of 8 bytes: the server writes one and the agent looks it up through a mapping. -/
theorem run_agrees_shared : AllSteps (both .plain) (Agree .plain) init
    [.create .server 0 .shared 8 4 0x1000, .elemUpdate .server 0 2 (fun _ => 5) 0 0,
      .elemLookup .agent 0 2 0x8000 ⟨some ⟨0x8000, 0x10000⟩, true⟩] :=
  run_agrees Driver.plain_works (by decide +kernel)

/-- The successor of a key that is too large is not written. -/
theorem not_agrees :
    ¬ ∀ driver : Driver, driver.Works → ∀ ops, AllSteps (both driver) (fun state op => state.1.Valid op) init ops →
      AllSteps (both driver) (Agree driver) init ops := by
  intro hall
  have hagree := hall .plain Driver.plain_works [.create .server 0 .shared 8 4 0x1000, .mapGetNextKey 0 (some 9) 7]
    (by decide +kernel)
  obtain ⟨-, hafter⟩ := hagree
  obtain ⟨⟨reply, world, arrays, hworld, harrays⟩, -⟩ := hafter _ rfl
  have hreply := (congrArg Prod.fst (Option.some.inj hworld)).trans (congrArg Prod.fst (Option.some.inj harrays)).symm
  exact absurd (congrArg Prod.snd (Reply.next.inj hreply)) (by decide)

end DeviceArray
