import FreeProbe.Lib.Machine
import Mathlib.Data.BitVec
import Mathlib.Logic.Function.Basic

/-!
# `Maps.KernelUser` — maps that a kernel map is behind

The hash, array and per-CPU array objects that pass their operations on to the kernel map with the id they were created
with. The object is in shared memory: what it keeps of the process that used it first (the descriptor, the address of
the mapping, the size of the buffer) every other process uses too. A process has a table of its own, from descriptors
to the ids of kernel maps, and mappings of its own; the kernel's answers to it are part of the operation. What an
operation does to the kernel is reported as the access it makes, resolved in the calling process.
-/

namespace KernelUser

open Lib

/-- The kernel map: `bpf_map_info`, with `BPF_F_RDONLY_PROG` of its `map_flags`, and whether it has a value for each
    CPU. -/
structure KernelMap where
  keySize    : Nat
  valueSize  : Nat
  maxEntries : Nat
  rdonlyProg : Bool
  perCpu     : Bool

/-- The bytes that the kernel writes for a lookup. -/
def KernelMap.lookupSize (kernel : KernelMap) (possibleCpus : Nat) : Nat :=
  if kernel.perCpu then (kernel.valueSize + 7) / 8 * 8 * possibleCpus else kernel.valueSize

/-- `hash_map_kernel_user_impl`; of the vectors only their sizes matter. -/
structure HashMap where
  keySize   : Nat
  valueSize : Nat
  keyVec    : Nat
  valueVec  : Nat
  mapFd     : Int

/-- `array_map_kernel_user_impl`. -/
structure ArrayMap where
  valueData    : Nat
  valueSize    : Nat
  maxEntries   : Nat
  mapFd        : Int
  hasKernelMap : Bool
  mmapPtr      : Option Nat

/-- `percpu_array_map_kernel_user_impl`. -/
structure PercpuArrayMap where
  kernelMapFd : Int
  valueData   : Nat

/-- A map object in user space, of one of the three kinds. -/
inductive Object where
  | hash (map : HashMap)
  | array (map : ArrayMap)
  | percpuArray (map : PercpuArrayMap)

/-- What a program does with it. -/
inductive Op where
  | lookup (key : Nat)
  | update (key : Nat)
  | delete (key : Nat)
  | nextKey
deriving DecidableEq, Repr

/-- The operation only reads. -/
def Op.isLookup : Op → Bool
  | .lookup _ => true
  | _ => false

/-- What the kernel answers to the calling process: the descriptor of `bpf_map_get_fd_by_id`, whether
    `bpf_obj_get_info_by_fd` succeeds, and the address of the first `mmap` and whether the second succeeds. -/
structure Answers where
  fd      : Option Nat
  info    : Bool
  address : Option Nat
  remap   : Bool
deriving DecidableEq, Repr

/-- A mapping of a kernel map, by the map's id, and whether `prot` has `PROT_WRITE`. -/
structure Mapping where
  id       : Int
  writable : Bool
deriving DecidableEq, Repr

/-- The processes, each with its descriptors and mappings of kernel maps. -/
structure World where
  object   : Object
  fds      : Nat → Nat → Option Int
  mappings : Nat → Nat → Option Mapping

/-- A call in some process, or a process that starts with its own descriptors and mappings. -/
inductive Event where
  | call (p : Nat) (op : Op) (answers : Answers)
  /-- The process opens, closes, maps and unmaps. -/
  | process (p : Nat) (fds : Nat → Option Int) (mappings : Nat → Option Mapping)

/-- What an operation does: a system call (on which kernel map, and the size of the buffer for what a lookup writes), an
    access to a mapping (which one, whether it stores, at which offset), an answer from the number of entries alone, nothing
    since the descriptor could not be got, or an access to values that the object keeps itself. -/
inductive Report where
  | quiet
  | syscall (target : Option Int) (room : Option Nat)
  | mapping (target : Option Mapping) (stores : Bool) (offset : Nat)
  | counted (maxEntries : Nat)
  | refused
  | own
deriving DecidableEq, Repr

variable (kernel : KernelMap) (id : Int)

/-- The constructors. -/
def HashMap.new : HashMap := ⟨0, 0, 1, 1, -1⟩

/-- The constructor of the array. -/
def ArrayMap.new (kmId : Int) (valueSize maxEntries : Nat) : ArrayMap :=
  let map : ArrayMap := ⟨1, valueSize, maxEntries, -1, decide (0 < kmId), none⟩
  if map.hasKernelMap then map else { map with valueData := valueSize * maxEntries }

/-- And of the array for each processor. -/
def PercpuArrayMap.new : PercpuArrayMap := ⟨-1, 1⟩

namespace World

/-- The kernel map that a descriptor of the process names. -/
def target (w : World) (p : Nat) (fd : Int) : Option Int := if fd < 0 then none else w.fds p fd.toNat

/-- `bpf_map_get_fd_by_id`: a descriptor that the process does not have yet. -/
def getFdById (w : World) (p : Nat) (answer : Option Nat) : Int × World :=
  match answer with
  | none => (-1, w)
  | some fd =>
    if w.fds p fd = none then (fd, { w with fds := Function.update w.fds p (Function.update (w.fds p) fd (some id)) })
    else (-1, w)

/-! ## `hash_map_kernel_user_impl` -/

/-- `init_map_fd` of the hash map. -/
def initHash (w : World) (p : Nat) (map : HashMap) (answers : Answers) : World × HashMap :=
  let (fd, w) := w.getFdById id p answers.fd
  let map := { map with mapFd := fd }
  if fd < 0 then (w, map)
  else
    let keySize := if answers.info then kernel.keySize else 0
    let valueSize := if answers.info then kernel.valueSize else 0
    (w, { map with keySize := keySize, valueSize := valueSize, keyVec := keySize, valueVec := valueSize })

/-- An operation of the hash map: its init, and a system call. -/
def callHash (w : World) (p : Nat) (map : HashMap) (op : Op) (answers : Answers) : Report × World :=
  let (w, map) := if map.mapFd < 0 then w.initHash kernel id p map answers else (w, map)
  let room := match op with
    | .lookup _ => some map.valueVec
    | _ => none
  (.syscall (w.target p map.mapFd) room, { w with object := .hash map })

/-! ## `array_map_kernel_user_impl` -/

/-- After the descriptor is there: the sizes, and the mapping, which is `PROT_READ` alone for a map that programs must not
    write. -/
def mapArray (w : World) (p : Nat) (map : ArrayMap) (answers : Answers) : World × ArrayMap :=
  if answers.info then
    let map := { map with valueSize := kernel.valueSize, maxEntries := kernel.maxEntries, valueData := kernel.valueSize }
    match answers.address with
    | none => (w, { map with mmapPtr := none })
    | some address =>
      if answers.remap then
        ({ w with mappings := Function.update w.mappings p (Function.update (w.mappings p) address (some ⟨id, !kernel.rdonlyProg⟩)) },
          { map with mmapPtr := some address })
      else
        ({ w with mappings := Function.update w.mappings p (Function.update (w.mappings p) address none) },
          { map with mmapPtr := none })
  else (w, map)

/-- `init_map_fd`, for an object with a kernel map. -/
def initArray (w : World) (p : Nat) (map : ArrayMap) (answers : Answers) : Bool × World × ArrayMap :=
  if 0 ≤ map.mapFd then (true, w, map)
  else
    let (fd, w) := w.getFdById id p answers.fd
    let map := { map with mapFd := fd }
    if fd < 0 then (false, w, map) else (true, w.mapArray kernel id p map answers)

/-- An access to the element of a key, in the mapping or by a system call. -/
def accessArray (w : World) (p : Nat) (map : ArrayMap) (key : Nat) (stores : Bool) (room : Option Nat) : Report :=
  match map.mmapPtr with
  | some address =>
    if map.maxEntries ≤ key then .counted map.maxEntries
    else .mapping (w.mappings p address) stores (key * map.valueSize % 2 ^ 32)
  | none => .syscall (w.target p map.mapFd) room

/-- `map_get_next_key` reads `_max_entries` and sets nothing up. -/
def callArray (w : World) (p : Nat) (map : ArrayMap) (op : Op) (answers : Answers) : Report × World :=
  match op with
  | .nextKey => (if map.hasKernelMap then .counted map.maxEntries else .own, w)
  | .lookup key | .update key | .delete key =>
    if map.hasKernelMap then
      let (ready, w, map) := w.initArray kernel id p map answers
      let room := match op with
        | .lookup _ => some map.valueData
        | _ => none
      (if ready then w.accessArray p map key (!op.isLookup) room else .refused, { w with object := .array map })
    else (.own, w)

/-! ## `percpu_array_map_kernel_user_impl` -/

/-- No operation of the class calls its `init_map_fd`. -/
def callPercpuArray (w : World) (p : Nat) (map : PercpuArrayMap) (op : Op) : Report × World :=
  let room := match op with
    | .lookup _ => some map.valueData
    | _ => none
  (.syscall (w.target p map.kernelMapFd) room, w)

/-- One event. The object is one, whichever process calls. -/
def step (w : World) : Event → Report × World
  | .call p op answers =>
    match w.object with
    | .hash map => w.callHash kernel id p map op answers
    | .array map => w.callArray kernel id p map op answers
    | .percpuArray map => w.callPercpuArray p map op
  | .process p fds mappings =>
    (.quiet, { w with fds := Function.update w.fds p fds, mappings := Function.update w.mappings p mappings })

end World

/-! ## Acting on the object's kernel map -/

/-- An operation acts on the kernel map of the object, through what the process has itself, with room for what a lookup
    writes. A store through a mapping needs `PROT_WRITE`; without it the process is stopped. An answer from the number of entries is the kernel's if the numbers agree. -/
def Report.Lawful (possibleCpus : Nat) : Report → Prop
  | .quiet => True
  | .own => True
  | .syscall target room => target = some id ∧ ∀ n ∈ room, kernel.lookupSize possibleCpus ≤ n
  | .mapping target stores _ => ∃ mapping ∈ target, mapping.id = id ∧ (stores → mapping.writable)
  | .counted maxEntries => maxEntries = kernel.maxEntries
  | .refused => False

/-- How the object was created, besides the id. -/
inductive Created where
  | hash
  | array (valueSize maxEntries : Nat)
  | percpuArray

/-- What is made at first. -/
def Created.object : Created → Object
  | .hash => .hash .new
  | .array valueSize maxEntries => .array (.new id valueSize maxEntries)
  | .percpuArray => .percpuArray .new

/-- Every operation of the run does, whatever the processes had open and mapped before it. -/
def RunLawful (possibleCpus : Nat) (created : Created) (fds : Nat → Nat → Option Int) (mappings : Nat → Nat → Option Mapping)
    (events : List Event) : Prop :=
  ∀ report ∈ (runRef (World.step kernel id) ⟨created.object id, fds, mappings⟩ events).1,
    report.Lawful kernel id possibleCpus

/-! ## The condition -/

/-- The process gets a descriptor. -/
def GetsFd (w : World) (p : Nat) (answers : Answers) : Prop := ∃ fd ∈ answers.fd, w.fds p fd = none

/-- A hash map that is not set up: the process gets a descriptor and, for a lookup, the size of the values. One that is:
    the process has the kernel map at the descriptor kept, and the buffer has room. -/
def HashFits (possibleCpus : Nat) (w : World) (p : Nat) (map : HashMap) (op : Op) (answers : Answers) : Prop :=
  if map.mapFd < 0 then
    GetsFd w p answers ∧ (op.isLookup → kernel.lookupSize possibleCpus ≤ if answers.info then kernel.valueSize else 0)
  else w.target p map.mapFd = some id ∧ (op.isLookup → kernel.lookupSize possibleCpus ≤ map.valueVec)

/-- An array that is set up: the process has the kernel map at the address kept, writable if the operation writes, or, if
    there is no address, at the descriptor. -/
def AccessFits (possibleCpus : Nat) (w : World) (p : Nat) (map : ArrayMap) (key : Nat) (lookup : Bool) : Prop :=
  match map.mmapPtr with
  | some address =>
    if map.maxEntries ≤ key then map.maxEntries = kernel.maxEntries
    else ∃ mapping ∈ w.mappings p address, mapping.id = id ∧ (!lookup → mapping.writable)
  | none => w.target p map.mapFd = some id ∧ (lookup → kernel.lookupSize possibleCpus ≤ map.valueData)

/-- The process gets a mapping. -/
def GetsMapping (answers : Answers) : Prop := answers.info = true ∧ answers.address.isSome = true ∧ answers.remap = true

/-- An array that is not set up: the process gets a descriptor and, for a lookup, a mapping or a buffer with room. An
    update or a delete of an element that is there needs that the mapping, if the process gets one, is not read-only. -/
def InitFits (possibleCpus : Nat) (w : World) (p : Nat) (map : ArrayMap) (key : Nat) (lookup : Bool) (answers : Answers) :
    Prop :=
  GetsFd w p answers ∧
    (lookup → GetsMapping answers ∨
      kernel.lookupSize possibleCpus ≤ if answers.info then kernel.valueSize else map.valueData) ∧
    (!lookup → GetsMapping answers → key < kernel.maxEntries → kernel.rdonlyProg = false)

/-- **The condition on a call of the array.** -/
def ArrayFits (possibleCpus : Nat) (w : World) (p : Nat) (map : ArrayMap) (op : Op) (answers : Answers) : Prop :=
  match op with
  | .nextKey => map.hasKernelMap = true → map.maxEntries = kernel.maxEntries
  | .lookup key | .update key | .delete key =>
    map.hasKernelMap = true →
      if 0 ≤ map.mapFd then AccessFits kernel id possibleCpus w p map key op.isLookup
      else InitFits kernel possibleCpus w p map key op.isLookup answers

/-- **The condition on a step.** A per-CPU array is never set up. -/
def World.Fits (possibleCpus : Nat) (w : World) : Event → Prop
  | .call p op answers =>
    match w.object with
    | .hash map => HashFits kernel id possibleCpus w p map op answers
    | .array map => ArrayFits kernel id possibleCpus w p map op answers
    | .percpuArray _ => False
  | .process _ _ _ => True

/-! ## Steps -/

variable {kernel : KernelMap} {id : Int} {possibleCpus : Nat} {w : World} {p : Nat}

/-- The kernel gives the process a descriptor of the map, or none. -/
theorem getFdById_cases (id : Int) (w : World) (p : Nat) (answers : Answers) :
    (∃ fd : Nat, GetsFd w p answers ∧ (w.getFdById id p answers.fd).1 = fd ∧
      ((w.getFdById id p answers.fd).2).target p fd = some id) ∨
    ¬ GetsFd w p answers ∧ w.getFdById id p answers.fd = (-1, w) := by
  unfold World.getFdById GetsFd
  cases hfd : answers.fd with
  | none => exact .inr ⟨fun ⟨_, h, _⟩ => by simp at h, rfl⟩
  | some fd =>
      dsimp only
      by_cases hfree : w.fds p fd = none
      · rw [if_pos hfree]
        refine .inl ⟨fd, ⟨fd, rfl, hfree⟩, rfl, ?_⟩
        have hneg : ¬ (fd : Int) < 0 := by omega
        simp [World.target, hneg]
      · rw [if_neg hfree]
        refine .inr ⟨?_, rfl⟩
        rintro ⟨fd', hfd', hfree'⟩
        cases hfd'
        exact hfree hfree'

/-- A descriptor that is none is open nowhere. -/
theorem target_negative : w.target p (-1) = none := rfl

/-- What a hash map's operation shows. -/
theorem callHash_lawful (map : HashMap) (op : Op) (answers : Answers) :
    (w.callHash kernel id p map op answers).1.Lawful kernel id possibleCpus ↔
      HashFits kernel id possibleCpus w p map op answers := by
  have hroom : ∀ size : Nat, (∀ n ∈ (match op with | .lookup _ => some size | _ => none : Option Nat),
      kernel.lookupSize possibleCpus ≤ n) ↔ (op.isLookup → kernel.lookupSize possibleCpus ≤ size) := by
    intro size
    cases op <;> simp [Op.isLookup]
  unfold World.callHash HashFits
  by_cases hfd : map.mapFd < 0
  · simp only [if_pos hfd]
    unfold World.initHash
    rcases getFdById_cases id w p answers with ⟨fd, hgets, hfd, htarget⟩ | ⟨hgets, hfail⟩
    · have hneg : ¬ (fd : Int) < 0 := by omega
      simp only [hfd, if_neg hneg, Report.Lawful, htarget, hroom, hgets, true_and]
    · simp [hfail, Report.Lawful, target_negative, hgets]
  · simp only [if_neg hfd, Report.Lawful, hroom]

/-- An array that has no descriptor has no mapping. -/
def ArrayMap.Inv (map : ArrayMap) : Prop := map.mapFd < 0 → map.mmapPtr = none

/-- What an access shows, after the descriptor is there. -/
theorem accessArray_lawful (map : ArrayMap) (key : Nat) (op : Op) :
    (w.accessArray p map key (!op.isLookup) (match op with | .lookup _ => some map.valueData | _ => none)).Lawful kernel id possibleCpus ↔
      AccessFits kernel id possibleCpus w p map key op.isLookup := by
  have hroom : (∀ n ∈ (match op with | .lookup _ => some map.valueData | _ => none : Option Nat),
      kernel.lookupSize possibleCpus ≤ n) ↔ (op.isLookup → kernel.lookupSize possibleCpus ≤ map.valueData) := by
    cases op <;> simp [Op.isLookup]
  unfold World.accessArray AccessFits
  cases map.mmapPtr with
  | some address =>
      dsimp only
      split <;> exact Iff.rfl
  | none => simp only [Report.Lawful, hroom]

/-- What setting up the mapping leaves. -/
theorem mapArray_cases (kernel : KernelMap) (id : Int) (w : World) (p : Nat) {map : ArrayMap} (hptr : map.mmapPtr = none)
    (answers : Answers) :
    (∃ address, GetsMapping answers ∧ (w.mapArray kernel id p map answers).2.mmapPtr = some address ∧
      (w.mapArray kernel id p map answers).2.maxEntries = kernel.maxEntries ∧
      (w.mapArray kernel id p map answers).1.mappings p address = some ⟨id, !kernel.rdonlyProg⟩) ∨
    ¬ GetsMapping answers ∧ (w.mapArray kernel id p map answers).2.mmapPtr = none ∧
      (w.mapArray kernel id p map answers).1.fds = w.fds ∧ (w.mapArray kernel id p map answers).2.mapFd = map.mapFd ∧
      (w.mapArray kernel id p map answers).2.valueData = if answers.info then kernel.valueSize else map.valueData := by
  unfold World.mapArray GetsMapping
  by_cases hinfo : answers.info = true
  · simp only [hinfo, if_true, true_and]
    cases haddress : answers.address with
    | none => exact .inr ⟨by simp, rfl, rfl, rfl, rfl⟩
    | some address =>
        by_cases hremap : answers.remap = true
        · simp only [hremap, if_true]
          exact .inl ⟨address, ⟨rfl, trivial⟩, rfl, trivial, by simp⟩
        · simp only [hremap]
          exact .inr ⟨by simp, rfl, rfl, rfl, rfl⟩
  · simp only [hinfo]
    exact .inr ⟨by simp, hptr, rfl, rfl, rfl⟩

/-- Without one, the init fails, and so it is tried again by the next call. -/
theorem initArray_fails {map : ArrayMap} (hfd : map.mapFd < 0) {answers : Answers}
    (hfail : w.getFdById id p answers.fd = (-1, w)) :
    w.initArray kernel id p map answers = (false, w, { map with mapFd := -1 }) := by
  unfold World.initArray
  rw [if_neg (Int.not_le.mpr hfd), hfail]
  rfl

/-- With one, the map is mapped. -/
theorem initArray_gets {map : ArrayMap} (hfd : map.mapFd < 0) {answers : Answers} {fd : Nat}
    (hgets : (w.getFdById id p answers.fd).1 = fd) :
    w.initArray kernel id p map answers =
      (true, (w.getFdById id p answers.fd).2.mapArray kernel id p { map with mapFd := fd } answers) := by
  have hneg : ¬ (fd : Int) < 0 := by omega
  unfold World.initArray
  rw [if_neg (Int.not_le.mpr hfd)]
  simp only [hgets, if_neg hneg]

/-- What an array's first operation shows. -/
theorem initArray_lawful {map : ArrayMap} (hfd : map.mapFd < 0) (hptr : map.mmapPtr = none) (key : Nat) (op : Op)
    (answers : Answers) :
    (if (w.initArray kernel id p map answers).1 then
        ((w.initArray kernel id p map answers).2.1.accessArray p (w.initArray kernel id p map answers).2.2 key (!op.isLookup)
          (match op with | .lookup _ => some (w.initArray kernel id p map answers).2.2.valueData | _ => none))
      else .refused).Lawful kernel id possibleCpus ↔ InitFits kernel possibleCpus w p map key op.isLookup answers := by
  unfold InitFits
  rcases getFdById_cases id w p answers with ⟨fd, hgets, hnew, htarget⟩ | ⟨hgets, hfail⟩
  · rw [initArray_gets hfd hnew, if_pos rfl, accessArray_lawful]
    have hptr' : ({ map with mapFd := fd } : ArrayMap).mmapPtr = none := hptr
    have hcases := mapArray_cases kernel id (w.getFdById id p answers.fd).2 p hptr' answers
    generalize (w.getFdById id p answers.fd).2.mapArray kernel id p { map with mapFd := fd } answers = mapped at hcases
    rcases hcases with ⟨address, hmapped, haddress, hmax, hmapping⟩ | ⟨hmapped, haddress, hfds, hmapFd, hdata⟩
    · have hwritable : (∃ mapping ∈ some (Mapping.mk id !kernel.rdonlyProg), mapping.id = id ∧
          ((!op.isLookup) = true → mapping.writable = true)) ↔ ((!op.isLookup) = true → kernel.rdonlyProg = false) := by
        simp
      simp only [AccessFits, haddress, hmax, hmapping, hwritable, hmapped, hgets, true_or, implies_true, true_and,
        forall_const]
      by_cases hkey : kernel.maxEntries ≤ key
      · simp [hkey]
      · simp only [if_neg hkey, Nat.lt_of_not_le hkey, forall_const]
    · have hnow : mapped.1.target p fd = some id := by
        unfold World.target at htarget ⊢
        rwa [hfds]
      simp only [AccessFits, haddress, hmapFd, hdata, hmapped, hgets, hnow, false_or, true_and, false_imp_iff,
        implies_true, and_true]
  · rw [initArray_fails hfd hfail]
    simp [Report.Lawful, hgets]

/-- **A call does what the kernel's map does exactly under the condition.** -/
theorem callArray_lawful {map : ArrayMap} (hmap : map.Inv) (op : Op) (answers : Answers) :
    (w.callArray kernel id p map op answers).1.Lawful kernel id possibleCpus ↔
      ArrayFits kernel id possibleCpus w p map op answers := by
  have hkey : ∀ key, (if map.hasKernelMap then
        (if (w.initArray kernel id p map answers).1 then
          ((w.initArray kernel id p map answers).2.1.accessArray p (w.initArray kernel id p map answers).2.2 key
            (!op.isLookup) (match op with | .lookup _ => some (w.initArray kernel id p map answers).2.2.valueData | _ => none))
        else Report.refused)
      else Report.own).Lawful kernel id possibleCpus ↔ (map.hasKernelMap = true →
        if 0 ≤ map.mapFd then AccessFits kernel id possibleCpus w p map key op.isLookup
        else InitFits kernel possibleCpus w p map key op.isLookup answers) := by
    intro key
    by_cases hkernel : map.hasKernelMap = true
    · rw [if_pos hkernel]
      by_cases hfd : 0 ≤ map.mapFd
      · have hready : w.initArray kernel id p map answers = (true, w, map) := if_pos hfd
        rw [hready, if_pos hfd, if_pos rfl, accessArray_lawful]
        exact ⟨fun h _ => h, fun h => h hkernel⟩
      · rw [if_neg hfd, initArray_lawful (by omega) (hmap (by omega))]
        exact ⟨fun h _ => h, fun h => h hkernel⟩
    · rw [if_neg hkernel]
      exact ⟨fun _ h => absurd h hkernel, fun _ => trivial⟩
  cases op with
  | nextKey =>
      show (if map.hasKernelMap then Report.counted map.maxEntries else .own).Lawful kernel id possibleCpus ↔
        (map.hasKernelMap = true → map.maxEntries = kernel.maxEntries)
      by_cases hkernel : map.hasKernelMap = true
      · rw [if_pos hkernel]
        exact ⟨fun h _ => h, fun h => h hkernel⟩
      · rw [if_neg hkernel]
        exact ⟨fun _ h => absurd h hkernel, fun _ => trivial⟩
  | lookup key | update key | delete key =>
      refine Iff.trans ?_ (hkey key)
      unfold World.callArray
      dsimp only
      split <;> exact Iff.rfl

/-! ## Runs -/

/-- What holds of the object in every process. -/
def Object.Inv : Object → Prop
  | .hash _ => True
  | .array map => map.Inv
  | .percpuArray map => map.kernelMapFd = -1

/-- A new one has it. -/
theorem inv_created (id : Int) (created : Created) : (created.object id).Inv := by
  cases created with
  | hash => trivial
  | array valueSize maxEntries =>
      unfold Created.object ArrayMap.new
      intro _
      dsimp only
      split <;> rfl
  | percpuArray => rfl

/-- Mapping keeps the descriptor. -/
theorem mapArray_mapFd (w : World) (p : Nat) (map : ArrayMap) (answers : Answers) :
    (w.mapArray kernel id p map answers).2.mapFd = map.mapFd := by
  unfold World.mapArray
  split
  · split
    · rfl
    · split <;> rfl
  · rfl

/-- The init keeps it. -/
theorem inv_initArray {map : ArrayMap} (hmap : map.Inv) (answers : Answers) :
    (w.initArray kernel id p map answers).2.2.Inv := by
  unfold World.initArray
  split
  · exact hmap
  · next hfd =>
      dsimp only
      split
      · exact fun _ => hmap (by omega)
      · next hnew =>
          intro hneg
          rw [mapArray_mapFd] at hneg
          exact absurd hneg hnew

/-- **One step.** It acts on the object's kernel map exactly if it meets the condition. -/
theorem inv_step (possibleCpus : Nat) (hw : w.object.Inv) (e : Event) :
    (w.step kernel id e).2.object.Inv ∧
      ((w.step kernel id e).1.Lawful kernel id possibleCpus ↔ w.Fits kernel id possibleCpus e) := by
  cases e with
  | call p op answers =>
      unfold World.step World.Fits
      cases hobject : w.object with
      | hash map => exact ⟨trivial, callHash_lawful map op answers⟩
      | array map =>
          rw [hobject] at hw
          refine ⟨?_, callArray_lawful hw op answers⟩
          unfold World.callArray
          cases op with
          | nextKey =>
              rw [← hobject] at hw
              exact hw
          | lookup key | update key | delete key =>
              dsimp only
              split
              · exact inv_initArray hw answers
              · rw [hobject]
                exact hw
      | percpuArray map =>
          rw [hobject] at hw
          have hw' : map.kernelMapFd = -1 := hw
          refine ⟨?_, ?_⟩
          · show w.object.Inv
            rw [hobject]
            exact hw
          · show (w.target p map.kernelMapFd = some id ∧ _) ↔ False
            rw [hw', target_negative]
            simp
  | process p fds mappings => exact ⟨hw, fun _ => trivial, fun _ => trivial⟩

/-- The steps of a run, each meeting the condition in the state that it is taken in. -/
def RunFits (kernel : KernelMap) (id : Int) (possibleCpus : Nat) : World → List Event → Prop
  | _, [] => True
  | w, e :: es => w.Fits kernel id possibleCpus e ∧ RunFits kernel id possibleCpus (w.step kernel id e).2 es

/-- **Every operation of a run acts on the object's kernel map exactly if the steps meet the condition.** -/
theorem kernelUser_lawful_iff (kernel : KernelMap) (id : Int) (possibleCpus : Nat) (created : Created)
    (fds : Nat → Nat → Option Int) (mappings : Nat → Nat → Option Mapping) (events : List Event) :
    RunLawful kernel id possibleCpus created fds mappings events ↔
      RunFits kernel id possibleCpus ⟨created.object id, fds, mappings⟩ events := by
  -- by induction on the run, from any state that has the invariant
  have hall : ∀ (events : List Event) (w : World), w.object.Inv →
      ((∀ report ∈ (runRef (World.step kernel id) w events).1, report.Lawful kernel id possibleCpus) ↔
        RunFits kernel id possibleCpus w events) := by
    intro events
    induction events with
    | nil =>
        intro w _
        exact ⟨fun _ => trivial, fun _ report hreport => by simp [runRef] at hreport⟩
    | cons e es ih =>
        intro w hw
        obtain ⟨hnext, hlawful⟩ := inv_step possibleCpus hw e
        show (∀ report ∈ (w.step kernel id e).1 :: (runRef (World.step kernel id) (w.step kernel id e).2 es).1, _) ↔ _
        rw [List.forall_mem_cons, hlawful, ih _ hnext]
        exact Iff.rfl
  exact hall events _ (inv_created id created)

/-- One process looks a key up, then another, which does not have the first one's descriptor. -/
theorem kernelUser_not_lawful :
    ¬ ∀ kernel id possibleCpus created fds mappings events, RunLawful kernel id possibleCpus created fds mappings events := by
  intro h
  have hrun := h ⟨4, 8, 16, false, false⟩ 7 1 .hash (fun _ _ => none) (fun _ _ => none)
    [.call 0 (.lookup 0) ⟨some 3, true, none, false⟩, .call 1 (.lookup 0) ⟨some 3, true, none, false⟩]
  have hreport : Report.syscall none (some 8) ∈ (runRef (World.step ⟨4, 8, 16, false, false⟩ 7)
      ⟨Created.hash.object 7, fun _ _ => none, fun _ _ => none⟩
      [.call 0 (.lookup 0) ⟨some 3, true, none, false⟩, .call 1 (.lookup 0) ⟨some 3, true, none, false⟩]).1 := by
    decide
  have htarget : (none : Option Int) = some 7 := (hrun _ hreport).1
  cases htarget

end KernelUser
