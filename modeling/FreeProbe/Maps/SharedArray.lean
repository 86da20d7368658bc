import FreeProbe.Lib.Memory
import FreeProbe.Maps.Common

/-!
# `Maps.SharedArray` — the elements of `array_map_kernel_user_impl` and `array_map_kernel_gpu_impl`

The two classes have the same text for what is modelled here. An array that a kernel map is behind reads and writes the
kernel's elements through a mapping or, where it got none, by system calls; one without a kernel map has a buffer of its
own. The kernel lays an element out at its key times the value size rounded up to 8, which is what the size of the mapping
is computed with; the accesses are at the key times the value size, in 32 bits.

The system calls also look at the flags of an update and refuse every delete, which the accesses to the mapping do not;
and an array that programs may only read (`BPF_F_RDONLY_PROG`) is mapped without the right to write.
-/

namespace SharedArray

open Lib.Memory

open Maps (Byte Errno)

/-- `sysconf(_SC_PAGE_SIZE)` -/
abbrev PageSize := {page : BitVec 64 // 0 < page.toNat ∧ page.toNat ≤ 2 ^ 32}

/-! ## The kernel's array -/

/-- An array without a spin lock: what `bpf_map_info` says of it, with `BPF_F_RDONLY_PROG` of its flags, and its bytes. -/
structure KernelArray where
  valueSize  : BitVec 32
  maxEntries : BitVec 32
  rdonlyProg : Bool
  cells      : Nat → Byte

namespace KernelArray

/-- The distance of two elements. -/
def elemSize (kernel : KernelArray) : Nat := (kernel.valueSize.toNat + 7) / 8 * 8

/-- The place of an element, in the kernel. -/
def offset (kernel : KernelArray) (key : BitVec 32) : Nat := key.toNat * kernel.elemSize

/-- `bpf_map_lookup_elem` -/
def lookup (kernel : KernelArray) (key : BitVec 32) : Option (List Byte) :=
  if key < kernel.maxEntries then some (load kernel.cells (kernel.offset key) kernel.valueSize.toNat) else none

/-- Bytes are written to an element. -/
def write (kernel : KernelArray) (key : BitVec 32) (bytes : List Byte) : KernelArray :=
  { kernel with cells := store kernel.cells (kernel.offset key) bytes }

/-- `bpf_map_update_elem`, which returns a negative error. -/
def update (kernel : KernelArray) (key : BitVec 32) (value : List Byte) (flags : BitVec 64) : Int × KernelArray :=
  if flags > Maps.BPF_EXIST then (-22, kernel)
  else if kernel.maxEntries ≤ key then (-7, kernel)
  else if flags = Maps.BPF_NOEXIST then (-17, kernel)
  else (0, kernel.write key value)

/-- `bpf_map_delete_elem`: the elements of an array cannot be deleted. -/
def delete (kernel : KernelArray) (_key : BitVec 32) : Int × KernelArray := (-22, kernel)

end KernelArray

/-! ## The object -/

/-- A mapping shows the kernel's bytes; it is `PROT_READ | PROT_WRITE`, or `PROT_READ` alone. -/
structure Mapping where
  size     : Nat
  writable : Bool

/-- `array_map_kernel_user_impl` and `array_map_kernel_gpu_impl`. -/
structure ArrayMap where
  valueData    : Buffer Byte
  valueSize    : BitVec 32
  maxEntries   : BitVec 32
  hasKernelMap : Bool
  mapFd        : Bool
  mapping      : Option Mapping

/-- The kernel's answers while the array is set up: a descriptor, the map's info, and both calls of `mmap`. -/
structure Answers where
  fd     : Bool
  info   : Bool
  mapped : Bool

/-- `bpf_map_mmap_sz` -/
def bpfMapMmapSz (page : PageSize) (valueSize maxEntries : BitVec 32) : BitVec 64 :=
  let mapSz := ((valueSize + (8 - 1)) / 8 * 8).setWidth 64 * maxEntries.setWidth 64
  (mapSz + (page.1 - 1)) / page.1 * page.1

namespace ArrayMap

/-- The constructor. -/
def new (kmId : BitVec 32) (valueSize maxEntries : BitVec 32) : ArrayMap where
  valueData := ⟨if 0 < kmId.toInt then 1 else (valueSize.setWidth 64 * maxEntries.setWidth 64 : BitVec 64).toNat, fun _ => 0⟩
  valueSize := valueSize
  maxEntries := maxEntries
  hasKernelMap := decide (0 < kmId.toInt)
  mapFd := false
  mapping := none

/-- `init_map_fd`; no bytes cannot be mapped. -/
def initMapFd (page : PageSize) (map : ArrayMap) (kernel : KernelArray) (answers : Answers) : Bool × ArrayMap :=
  if !map.hasKernelMap then (false, map)
  else if map.mapFd then (true, map)
  else if !answers.fd then (false, map)
  else if !answers.info then (true, { map with mapFd := true })
  else
    let mmapSz := bpfMapMmapSz page kernel.valueSize kernel.maxEntries
    (true, { map with
      valueData := ⟨kernel.valueSize.toNat, map.valueData.cells⟩
      valueSize := kernel.valueSize
      maxEntries := kernel.maxEntries
      mapFd := true
      mapping := if answers.mapped ∧ mmapSz ≠ 0 then some ⟨mmapSz.toNat, !kernel.rdonlyProg⟩ else none })

/-- `key_val * _value_size` -/
def index (map : ArrayMap) (key : BitVec 32) : Nat := (key * map.valueSize).toNat

/-- `elem_lookup` after `init_map_fd`, with what the pointer that it returns points at; `none` is outside of the
buffer or the mapping. -/
def elemLookup (map : ArrayMap) (kernel : KernelArray) (ready : Bool) (key : BitVec 32) : Option (Option (List Byte)) :=
  if !map.hasKernelMap then
    if map.maxEntries ≤ key then some none else (map.valueData.read (map.index key) map.valueSize.toNat).map some
  else if !ready then some none
  else
    match map.mapping with
    | some mapping =>
      if map.maxEntries ≤ key then some none
      else ((Buffer.mk mapping.size kernel.cells).read (map.index key) map.valueSize.toNat).map some
    | none => some (kernel.lookup key)

/-- Bytes are put at the element of a key, in the buffer or in the mapping. -/
def put (map : ArrayMap) (kernel : KernelArray) (key : BitVec 32) (bytes : List Byte) : Option (Int × ArrayMap × KernelArray) :=
  if !map.hasKernelMap then
    (map.valueData.write (map.index key) bytes).map fun data => (0, { map with valueData := data }, kernel)
  else
    match map.mapping with
    | some ⟨size, true⟩ =>
      ((Buffer.mk size kernel.cells).write (map.index key) bytes).map fun mapped =>
        (0, map, { kernel with cells := mapped.cells })
    -- the store faults
    | some ⟨_, false⟩ | none => none

/-- `elem_update` after `init_map_fd`; the value has `_value_size` bytes. -/
def elemUpdate (map : ArrayMap) (kernel : KernelArray) (ready : Bool) (key : BitVec 32) (value : List Byte)
    (flags : BitVec 64) : Option (Int × ArrayMap × KernelArray) :=
  if map.hasKernelMap ∧ !ready then some (-1, map, kernel)
  else if map.hasKernelMap ∧ map.mapping.isNone then
    let out := kernel.update key value flags
    some (out.1, map, out.2)
  else if map.maxEntries ≤ key then some (-1, map, kernel)
  else map.put kernel key value

/-- `elem_delete` after `init_map_fd`. -/
def elemDelete (map : ArrayMap) (kernel : KernelArray) (ready : Bool) (key : BitVec 32) :
    Option (Int × ArrayMap × KernelArray) :=
  if map.hasKernelMap ∧ !ready then some (-1, map, kernel)
  else if map.hasKernelMap ∧ map.mapping.isNone then
    let out := kernel.delete key
    some (out.1, map, out.2)
  else if map.maxEntries ≤ key then some (-1, map, kernel)
  else map.put kernel key (List.replicate map.valueSize.toNat 0)

end ArrayMap

/-! ## The two paths -/

/-- The operations. -/
inductive Op where
  | lookup
  | update (flags : BitVec 64)
  | delete
deriving DecidableEq, Repr

/-- The object where it got no mapping: it falls back to the system calls. -/
def ArrayMap.unmapped (map : ArrayMap) : ArrayMap := { map with mapping := none }

/-- Of two ways to change the element of a key: the first stays inside the mapping, succeeds where the second does and does
to the kernel's array what that does, and the other elements are left alone. -/
def ChangesAlike (map : ArrayMap) (kernel : KernelArray) (key : BitVec 32)
    (op : ArrayMap → Option (Int × ArrayMap × KernelArray)) : Prop :=
  ∃ code code' kernel', op map = some (code, map, kernel') ∧ op map.unmapped = some (code', map.unmapped, kernel') ∧
    (code = 0 ↔ code' = 0) ∧ ∀ other, other ≠ key → kernel'.lookup other = kernel.lookup other

/-- Through its mapping the object does to the element of a key what it does by system call. -/
def ActsAlike (map : ArrayMap) (kernel : KernelArray) (key : BitVec 32) : Op → Prop
  | .lookup => map.elemLookup kernel true key = map.unmapped.elemLookup kernel true key
  | .update flags => ∀ value : Vector Byte map.valueSize.toNat,
    ChangesAlike map kernel key fun m => m.elemUpdate kernel true key value.toList flags
  | .delete => ChangesAlike map kernel key fun m => m.elemDelete kernel true key

/-- The paths agree on an operation: for every object that got a mapping of a kernel array of these sizes, and all its
bytes. -/
def PathsAgree (page : PageSize) (valueSize maxEntries : BitVec 32) (rdonlyProg : Bool) (key : BitVec 32) (op : Op) : Prop :=
  ∀ (kmId size entries : BitVec 32) (answers : Answers) (cells : Nat → Byte),
    let kernel : KernelArray := ⟨valueSize, maxEntries, rdonlyProg, cells⟩
    let map := ((ArrayMap.new kmId size entries).initMapFd page kernel answers).2
    map.mapping.isSome → ActsAlike map kernel key op

/-- A delete through a mapping zeroes the element of its key and nothing else. -/
def DeleteZeroes (page : PageSize) (valueSize maxEntries key : BitVec 32) : Prop :=
  ∀ (kmId size entries : BitVec 32) (answers : Answers) (cells : Nat → Byte),
    let kernel : KernelArray := ⟨valueSize, maxEntries, false, cells⟩
    let map := ((ArrayMap.new kmId size entries).initMapFd page kernel answers).2
    map.mapping.isSome →
      map.elemDelete kernel true key = some (0, map, kernel.write key (List.replicate valueSize.toNat 0))

/-- Without a kernel map, the elements of different keys share no bytes of the buffer, and stay in it. -/
def KeysSeparate (valueSize maxEntries : BitVec 32) : Prop :=
  ∀ kmId : BitVec 32, kmId.toInt ≤ 0 → ∀ key < maxEntries,
    let map := ArrayMap.new kmId valueSize maxEntries
    map.index key + valueSize.toNat ≤ map.valueData.size ∧
      ∀ other < maxEntries, other ≠ key → ∀ i < valueSize.toNat, ∀ j < valueSize.toNat,
        map.index key + i ≠ map.index other + j

/-- Values of this size have a mapping. -/
def Mappable (valueSize : BitVec 32) : Prop := 0 < valueSize.toNat ∧ valueSize.toNat + 7 < 2 ^ 32

/-- The offset is right: the key is 0, or the value size is a multiple of 8 and 32 bits have the offset. -/
def OffsetFits (valueSize key : BitVec 32) : Prop :=
  key = 0 ∨ 8 ∣ valueSize.toNat ∧ key.toNat * valueSize.toNat < 2 ^ 32

/-- The operation is one that the system call allows on every element, and the mapping too. -/
def Op.Allowed (rdonlyProg : Bool) : Op → Prop
  | .lookup => True
  | .update flags => (flags = Maps.BPF_ANY ∨ flags = Maps.BPF_EXIST) ∧ rdonlyProg = false
  | .delete => False

/-- **The condition on an operation**: the key is outside, or the operation is allowed and the offset right. -/
def Op.Fits (valueSize maxEntries : BitVec 32) (rdonlyProg : Bool) (key : BitVec 32) (op : Op) : Prop :=
  Mappable valueSize → key < maxEntries → op.Allowed rdonlyProg ∧ OffsetFits valueSize key

/-! ## The mapping -/

section Mapping

variable {page : PageSize} {valueSize maxEntries key : BitVec 32}

/-- The rounding up in 32 bits. -/
theorem roundup_toNat (h : valueSize.toNat + 7 < 2 ^ 32) :
    ((valueSize + (8 - 1)) / 8 * 8).toNat = (valueSize.toNat + 7) / 8 * 8 := by
  have hseven : (8 - 1 : BitVec 32).toNat = 7 := rfl
  have height : (8 : BitVec 32).toNat = 8 := rfl
  rw [BitVec.toNat_mul, BitVec.toNat_udiv, BitVec.toNat_add, hseven, height, Nat.mod_eq_of_lt h, Nat.mod_eq_of_lt (by omega)]

/-- A value size that the rounding up wraps has a size of 0. -/
theorem roundup_wraps (h : 2 ^ 32 ≤ valueSize.toNat + 7) : (valueSize + (8 - 1)) / 8 * 8 = 0 := by
  have hseven : (8 - 1 : BitVec 32).toNat = 7 := rfl
  have height : (8 : BitVec 32).toNat = 8 := rfl
  have hlt := valueSize.isLt
  refine BitVec.eq_of_toNat_eq ?_
  rw [BitVec.toNat_mul, BitVec.toNat_udiv, BitVec.toNat_add, hseven, height]
  show _ = 0
  omega

/-- The product of the rounded size and the entries, in 64 bits. -/
theorem mapSz_lt (maxEntries : BitVec 32) (h : valueSize.toNat + 7 < 2 ^ 32) :
    (valueSize.toNat + 7) / 8 * 8 * maxEntries.toNat + 2 ^ 32 < 2 ^ 64 := by
  have helem : (valueSize.toNat + 7) / 8 * 8 ≤ 2 ^ 32 - 8 := by omega
  have hentries : maxEntries.toNat ≤ 2 ^ 32 - 1 := by
    have := maxEntries.isLt
    omega
  have hmul := Nat.mul_le_mul helem hentries
  omega

/-- The size of the mapping, where no sum wraps. -/
theorem bpfMapMmapSz_toNat (h : valueSize.toNat + 7 < 2 ^ 32) : (bpfMapMmapSz page valueSize maxEntries).toNat =
    ((valueSize.toNat + 7) / 8 * 8 * maxEntries.toNat + (page.1.toNat - 1)) / page.1.toNat * page.1.toNat := by
  have hlt := mapSz_lt maxEntries h
  obtain ⟨hpos, hle⟩ := page.2
  have hone : (1 : BitVec 64).toNat = 1 := rfl
  have hpage : (page.1 - 1).toNat = page.1.toNat - 1 := by
    rw [BitVec.toNat_sub, hone]
    have := page.1.isLt
    omega
  have hmul : (((valueSize + (8 - 1)) / 8 * 8).setWidth 64 * maxEntries.setWidth 64 : BitVec 64).toNat =
      (valueSize.toNat + 7) / 8 * 8 * maxEntries.toNat := by
    rw [BitVec.toNat_mul, BitVec.toNat_setWidth_of_le (by decide), BitVec.toNat_setWidth_of_le (by decide),
      roundup_toNat h, Nat.mod_eq_of_lt (by omega)]
  have hadd : (valueSize.toNat + 7) / 8 * 8 * maxEntries.toNat + (page.1.toNat - 1) < 2 ^ 64 := by omega
  have hdiv := Nat.div_mul_le_self ((valueSize.toNat + 7) / 8 * 8 * maxEntries.toNat + (page.1.toNat - 1)) page.1.toNat
  unfold bpfMapMmapSz
  dsimp only
  rw [BitVec.toNat_mul, BitVec.toNat_udiv, BitVec.toNat_add, hmul, hpage, Nat.mod_eq_of_lt hadd, Nat.mod_eq_of_lt (by omega)]

/-- The mapping has all elements. -/
theorem elements_le_mmapSz (page : PageSize) (maxEntries : BitVec 32) (h : valueSize.toNat + 7 < 2 ^ 32) :
    (valueSize.toNat + 7) / 8 * 8 * maxEntries.toNat ≤ (bpfMapMmapSz page valueSize maxEntries).toNat := by
  rw [bpfMapMmapSz_toNat h]
  generalize (valueSize.toNat + 7) / 8 * 8 * maxEntries.toNat = n
  have hpos := page.2.1
  have hmod := Nat.mod_lt (n + (page.1.toNat - 1)) hpos
  have hdiv := Nat.div_add_mod' (n + (page.1.toNat - 1)) page.1.toNat
  omega

/-- What is known of an object that got a mapping. -/
structure Mapped (page : PageSize) (map : ArrayMap) (kernel : KernelArray) : Prop where
  hasKernelMap : map.hasKernelMap = true
  valueSize    : map.valueSize = kernel.valueSize
  maxEntries   : map.maxEntries = kernel.maxEntries
  mapping      : map.mapping =
    some ⟨(bpfMapMmapSz page kernel.valueSize kernel.maxEntries).toNat, !kernel.rdonlyProg⟩
  mappable     : Mappable kernel.valueSize

/-- No bytes are a mapping of 0 bytes. -/
theorem bpfMapMmapSz_eq_zero (page : PageSize) (maxEntries : BitVec 32) (h : (valueSize + (8 - 1)) / 8 * 8 = 0) :
    bpfMapMmapSz page valueSize maxEntries = 0 := by
  have hpage : (page.1 - 1) / page.1 = 0 := by
    have hone : (1 : BitVec 64).toNat = 1 := rfl
    have hpos := page.2.1
    have hlt := page.1.isLt
    refine BitVec.eq_of_toNat_eq ?_
    rw [BitVec.toNat_udiv, BitVec.toNat_sub, hone]
    exact Nat.div_eq_of_lt (by omega)
  have hempty : (0 : BitVec 32).setWidth 64 = 0 := rfl
  unfold bpfMapMmapSz
  dsimp only
  rw [h, hempty, zero_mul, zero_add, hpage, zero_mul]

/-- What is mapped after `init_map_fd`. -/
theorem mapped_spec {kmId size entries : BitVec 32} {kernel : KernelArray} {answers : Answers} {map : ArrayMap}
    (hmap : ((ArrayMap.new kmId size entries).initMapFd page kernel answers).2 = map) (h : map.mapping.isSome) :
    Mapped page map kernel := by
  subst hmap
  revert h
  unfold ArrayMap.initMapFd
  split
  · intro h
    cases h
  split
  · intro h
    cases h
  split
  · intro h
    cases h
  split
  · intro h
    cases h
  next hkernel _ _ _ =>
    dsimp only
    split
    · next hmapped =>
        intro _
        refine ⟨by simpa using hkernel, rfl, rfl, rfl, ?_, ?_⟩
        · refine Nat.pos_of_ne_zero fun hzero => hmapped.2 (bpfMapMmapSz_eq_zero page _ ?_)
          rw [BitVec.eq_of_toNat_eq (y := 0) hzero]
          decide
        · by_contra hwraps
          exact hmapped.2 (bpfMapMmapSz_eq_zero page _ (roundup_wraps (Nat.le_of_not_lt hwraps)))
    · intro h
      cases h

end Mapping

/-! ## The element of a key -/

section Element

variable {page : PageSize} {map : ArrayMap} {kernel : KernelArray} {key : BitVec 32}

/-- An element has room for its value. -/
theorem valueSize_le_elemSize (kernel : KernelArray) : kernel.valueSize.toNat ≤ kernel.elemSize := by
  unfold KernelArray.elemSize
  omega

/-- Elements of different keys are apart. -/
theorem offset_apart {other : BitVec 32} (h : other ≠ key) : kernel.offset other + kernel.valueSize.toNat ≤ kernel.offset key ∨
    kernel.offset key + kernel.valueSize.toNat ≤ kernel.offset other := by
  have hne : other.toNat ≠ key.toNat := fun heq => h (BitVec.eq_of_toNat_eq heq)
  have hle := valueSize_le_elemSize kernel
  unfold KernelArray.offset
  rcases Nat.lt_or_gt_of_ne hne with hlt | hlt
  · left
    have := Nat.mul_le_mul_right kernel.elemSize (Nat.succ_le_of_lt hlt)
    rw [Nat.succ_mul] at this
    omega
  · right
    have := Nat.mul_le_mul_right kernel.elemSize (Nat.succ_le_of_lt hlt)
    rw [Nat.succ_mul] at this
    omega

/-- A write to one element leaves the others. -/
theorem lookup_write_other {other : BitVec 32} (h : other ≠ key) {bytes : List Byte}
    (hlength : bytes.length = kernel.valueSize.toNat) : (kernel.write key bytes).lookup other = kernel.lookup other := by
  have hload : load (store kernel.cells (kernel.offset key) bytes) (kernel.offset other) kernel.valueSize.toNat =
      load kernel.cells (kernel.offset other) kernel.valueSize.toNat :=
    load_store_disjoint (by rw [hlength]; exact offset_apart h)
  show (if other < kernel.maxEntries then
      some (load (store kernel.cells (kernel.offset key) bytes) (kernel.offset other) kernel.valueSize.toNat) else none) = _
  rw [hload]
  rfl

/-- An element of the kernel's array is in the mapping. -/
theorem offset_in_mapping (page : PageSize) (hsmall : kernel.valueSize.toNat + 7 < 2 ^ 32) (hkey : key < kernel.maxEntries) :
    kernel.offset key + kernel.valueSize.toNat ≤ (bpfMapMmapSz page kernel.valueSize kernel.maxEntries).toNat := by
  have hle := elements_le_mmapSz page kernel.maxEntries hsmall
  have hkey' : key.toNat + 1 ≤ kernel.maxEntries.toNat := hkey
  have hmul := Nat.mul_le_mul_right kernel.elemSize hkey'
  have helem : kernel.elemSize = (kernel.valueSize.toNat + 7) / 8 * 8 := rfl
  rw [Nat.mul_comm _ kernel.maxEntries.toNat, ← helem] at hle
  rw [Nat.succ_mul] at hmul
  have := valueSize_le_elemSize kernel
  unfold KernelArray.offset
  omega

/-- A fitting index is the element's offset. -/
theorem index_eq_offset (hsize : map.valueSize = kernel.valueSize) (h : key = 0 ∨ 8 ∣ kernel.valueSize.toNat ∧
    key.toNat * kernel.valueSize.toNat < 2 ^ 32) : map.index key = kernel.offset key := by
  unfold ArrayMap.index KernelArray.offset
  rw [BitVec.toNat_mul, hsize]
  rcases h with rfl | ⟨hdvd, hlt⟩
  · simp
  · have helem : kernel.elemSize = kernel.valueSize.toNat := by
      unfold KernelArray.elemSize
      omega
    rw [Nat.mod_eq_of_lt hlt, helem]

/-- An index that is the element's offset fits. -/
theorem fits_of_index_eq (hsize : map.valueSize = kernel.valueSize) (h : map.index key = kernel.offset key) :
    key = 0 ∨ 8 ∣ kernel.valueSize.toNat ∧ key.toNat * kernel.valueSize.toNat < 2 ^ 32 := by
  by_cases hzero : key = 0
  · exact .inl hzero
  right
  have hpos : 0 < key.toNat := Nat.pos_of_ne_zero fun heq => hzero (BitVec.eq_of_toNat_eq heq)
  have hmod := Nat.mod_le (key.toNat * kernel.valueSize.toNat) (2 ^ 32)
  unfold ArrayMap.index KernelArray.offset at h
  rw [BitVec.toNat_mul, hsize] at h
  -- the offset is not below the product, so neither was anything cut off nor added
  have hle := Nat.mul_le_mul_left key.toNat (valueSize_le_elemSize kernel)
  have heq : key.toNat * kernel.valueSize.toNat = key.toNat * kernel.elemSize := by omega
  have helem := Nat.eq_of_mul_eq_mul_left hpos heq
  refine ⟨?_, ?_⟩
  · rw [helem]
    exact Nat.dvd_mul_left ..
  · have := Nat.mod_lt (key.toNat * kernel.valueSize.toNat) (show 0 < 2 ^ 32 by decide)
    omega

namespace Mapped

variable (h : Mapped page map kernel) (hkey : key < kernel.maxEntries)

include h

/-- The kernel map is mapped. -/
theorem not_isNone : ¬ (map.hasKernelMap = true ∧ map.mapping.isNone = true) := by
  rw [h.mapping]
  simp

/-- The check of the index. -/
theorem outside : map.maxEntries ≤ key ↔ ¬ key < kernel.maxEntries := by
  rw [h.maxEntries]
  exact BitVec.not_lt.symm

/-- A key that is outside is refused on both paths. -/
theorem lookup_outside (hkey : ¬ key < kernel.maxEntries) :
    map.elemLookup kernel true key = map.unmapped.elemLookup kernel true key := by
  simp [ArrayMap.elemLookup, ArrayMap.unmapped, KernelArray.lookup, h.hasKernelMap, h.mapping, h.outside.mpr hkey, hkey]

theorem update_outside (hkey : ¬ key < kernel.maxEntries) (value : List Byte) (flags : BitVec 64) :
    map.elemUpdate kernel true key value flags = some (-1, map, kernel) := by
  unfold ArrayMap.elemUpdate
  rw [if_neg (by simp), if_neg h.not_isNone, if_pos (h.outside.mpr hkey)]

/-- A delete out of it. -/
theorem delete_outside (hkey : ¬ key < kernel.maxEntries) : map.elemDelete kernel true key = some (-1, map, kernel) := by
  unfold ArrayMap.elemDelete
  rw [if_neg (by simp), if_neg h.not_isNone, if_pos (h.outside.mpr hkey)]

/-- What the system calls do for the object. -/
theorem update_unmapped (value : List Byte) (flags : BitVec 64) : map.unmapped.elemUpdate kernel true key value flags =
    some ((kernel.update key value flags).1, map.unmapped, (kernel.update key value flags).2) := by
  simp [ArrayMap.elemUpdate, ArrayMap.unmapped, h.hasKernelMap]

/-- A delete without the mapping is refused. -/
theorem delete_unmapped : map.unmapped.elemDelete kernel true key = some (-22, map.unmapped, kernel) := by
  simp [ArrayMap.elemDelete, ArrayMap.unmapped, KernelArray.delete, h.hasKernelMap]

/-- What is put through the mapping, at the index of the key. -/
theorem of_put {bytes : List Byte} {out : Int × ArrayMap × KernelArray} (hput : map.put kernel key bytes = some out) :
    kernel.rdonlyProg = false ∧ out = (0, map, { kernel with cells := store kernel.cells (map.index key) bytes }) := by
  unfold ArrayMap.put at hput
  simp only [h.hasKernelMap, Bool.not_true, Bool.false_eq_true, if_false, h.mapping] at hput
  cases hrdonly : kernel.rdonlyProg with
  | true =>
      rw [hrdonly] at hput
      cases hput
  | false =>
      rw [hrdonly] at hput
      obtain ⟨mapped, hwrite, rfl⟩ := Option.map_eq_some_iff.mp hput
      unfold Buffer.write at hwrite
      split at hwrite
      · cases hwrite
        exact ⟨rfl, rfl⟩
      · cases hwrite

include hkey

/-- An update writes through the mapping. -/
theorem update_eq (value : List Byte) (flags : BitVec 64) :
    map.elemUpdate kernel true key value flags = map.put kernel key value := by
  unfold ArrayMap.elemUpdate
  rw [if_neg (by simp), if_neg h.not_isNone, if_neg fun hout => h.outside.mp hout hkey]

/-- A delete writes zeros through it. -/
theorem delete_eq :
    map.elemDelete kernel true key = map.put kernel key (List.replicate kernel.valueSize.toNat 0) := by
  unfold ArrayMap.elemDelete
  rw [if_neg (by simp), if_neg h.not_isNone, if_neg fun hout => h.outside.mp hout hkey, h.valueSize]

/-- A lookup reads through it. -/
theorem lookup_eq : map.elemLookup kernel true key =
    ((Buffer.mk (bpfMapMmapSz page kernel.valueSize kernel.maxEntries).toNat kernel.cells).read (map.index key)
      kernel.valueSize.toNat).map some := by
  unfold ArrayMap.elemLookup
  simp only [h.hasKernelMap, Bool.not_true, Bool.false_eq_true, if_false, h.mapping,
    show ¬ map.maxEntries ≤ key from fun hout => h.outside.mp hout hkey, h.valueSize]

/-- And without it from the kernel. -/
theorem lookup_unmapped : map.unmapped.elemLookup kernel true key =
    some (some (load kernel.cells (kernel.offset key) kernel.valueSize.toNat)) := by
  simp [ArrayMap.elemLookup, ArrayMap.unmapped, KernelArray.lookup, h.hasKernelMap, hkey]

/-- **With the right offset**, what is put through a mapping that can be written is written to the kernel's element. -/
theorem put_eq (hoffset : OffsetFits kernel.valueSize key) (hwritable : kernel.rdonlyProg = false) {bytes : List Byte}
    (hlength : bytes.length = kernel.valueSize.toNat) :
    map.put kernel key bytes = some (0, map, kernel.write key bytes) := by
  have hinside := offset_in_mapping page h.mappable.2 hkey
  unfold ArrayMap.put
  simp only [h.hasKernelMap, Bool.not_true, Bool.false_eq_true, if_false, h.mapping, hwritable,
    Bool.not_false, index_eq_offset h.valueSize hoffset]
  rw [Buffer.write_eq (by rw [hlength]; exact hinside), ← hwritable]
  rfl

end Mapped

/-- The update that a system call makes of an element that is there. -/
theorem update_cases (kernel : KernelArray) (hkey : key < kernel.maxEntries) (value : List Byte) (flags : BitVec 64) :
    (flags = Maps.BPF_ANY ∨ flags = Maps.BPF_EXIST) ∧ kernel.update key value flags = (0, kernel.write key value) ∨
      ¬ (flags = Maps.BPF_ANY ∨ flags = Maps.BPF_EXIST) ∧ (kernel.update key value flags).1 ≠ 0 := by
  unfold KernelArray.update
  rw [if_neg (BitVec.not_le.mpr hkey)]
  by_cases hallowed : flags = Maps.BPF_ANY ∨ flags = Maps.BPF_EXIST
  · left
    refine ⟨hallowed, ?_⟩
    rcases hallowed with rfl | rfl
    · rw [if_neg (by decide), if_neg (by decide)]
    · rw [if_neg (by decide), if_neg (by decide)]
  · right
    refine ⟨hallowed, ?_⟩
    split
    · exact show (-22 : Int) ≠ 0 by decide
    · next hle =>
        rw [if_pos]
        · exact show (-17 : Int) ≠ 0 by decide
        · by_contra hnoexist
          refine hallowed ?_
          have hsmall : flags.toNat ≤ 2 := Nat.le_of_not_lt hle
          have hone : flags.toNat ≠ 1 := fun heq => hnoexist (BitVec.eq_of_toNat_eq heq)
          rcases Nat.eq_zero_or_pos flags.toNat with hzero | hpos
          · exact .inl (BitVec.eq_of_toNat_eq hzero)
          · exact .inr (BitVec.eq_of_toNat_eq (show flags.toNat = 2 by omega))

/-- A system call outside of the array fails and changes nothing. -/
theorem update_outside (hkey : ¬ key < kernel.maxEntries) (value : List Byte) (flags : BitVec 64) :
    (kernel.update key value flags).1 ≠ 0 ∧ (kernel.update key value flags).2 = kernel := by
  unfold KernelArray.update
  rw [if_pos (BitVec.not_lt.mp hkey)]
  split
  · exact ⟨show (-22 : Int) ≠ 0 by decide, rfl⟩
  · exact ⟨show (-7 : Int) ≠ 0 by decide, rfl⟩

/-- **Through the mapping** an operation that meets the condition acts on the kernel's element as the system call. -/
theorem actsAlike (h : Mapped page map kernel) {op : Op}
    (hfits : key < kernel.maxEntries → op.Allowed kernel.rdonlyProg ∧ OffsetFits kernel.valueSize key) :
    ActsAlike map kernel key op := by
  by_cases hkey : key < kernel.maxEntries
  · obtain ⟨hallowed, hoffset⟩ := hfits hkey
    cases op with
    | lookup =>
        show map.elemLookup kernel true key = map.unmapped.elemLookup kernel true key
        rw [h.lookup_eq hkey, h.lookup_unmapped hkey, index_eq_offset h.valueSize hoffset,
          Buffer.read_eq (offset_in_mapping page h.mappable.2 hkey)]
        rfl
    | update flags =>
        intro value
        have hlength : value.toList.length = kernel.valueSize.toNat := by rw [← h.valueSize]; simp
        rcases update_cases kernel hkey value.toList flags with ⟨-, hupdate⟩ | ⟨hnot, -⟩
        · refine ⟨0, 0, kernel.write key value.toList, ?_, ?_, Iff.rfl, fun other hother => lookup_write_other hother hlength⟩
          · exact (h.update_eq hkey ..).trans (h.put_eq hkey hoffset hallowed.2 hlength)
          · exact (h.update_unmapped ..).trans (by rw [hupdate])
        · exact absurd hallowed.1 hnot
    | delete => exact hallowed.elim
  · cases op with
    | lookup => exact h.lookup_outside hkey
    | update flags =>
        intro value
        obtain ⟨hfails, hsame⟩ := update_outside hkey value.toList flags
        refine ⟨-1, _, kernel, h.update_outside hkey .., ?_, iff_of_false (by decide) hfails, fun _ _ => rfl⟩
        exact (h.update_unmapped ..).trans (by rw [hsame])
    | delete =>
        exact ⟨-1, -22, kernel, h.delete_outside hkey, h.delete_unmapped, iff_of_false (by decide) (by decide),
          fun _ _ => rfl⟩

end Element

/-! ## Where the paths part -/

section Paths

variable {page : PageSize} {valueSize maxEntries key : BitVec 32} {rdonlyProg : Bool}

/-- There is an object with a mapping, where there are bytes to map. -/
theorem exists_mapped (page : PageSize) (hmappable : Mappable valueSize) (hkey : key < maxEntries) (rdonlyProg : Bool)
    (cells : Nat → Byte) :
    ((ArrayMap.new 1 0 0).initMapFd page ⟨valueSize, maxEntries, rdonlyProg, cells⟩ ⟨true, true, true⟩).2.mapping.isSome := by
  obtain ⟨hpos, hsmall⟩ := hmappable
  have hmmap : bpfMapMmapSz page valueSize maxEntries ≠ 0 := by
    intro hzero
    have hle := elements_le_mmapSz page maxEntries hsmall
    have hentries : 0 < maxEntries.toNat := Nat.lt_of_le_of_lt (Nat.zero_le _) (show key.toNat < maxEntries.toNat from hkey)
    have hprod : 0 < (valueSize.toNat + 7) / 8 * 8 * maxEntries.toNat := Nat.mul_pos (by omega) hentries
    rw [hzero] at hle
    exact absurd hle (Nat.not_le_of_lt hprod)
  have hinit :
      ((ArrayMap.new 1 0 0).initMapFd page ⟨valueSize, maxEntries, rdonlyProg, cells⟩ ⟨true, true, true⟩).2.mapping =
        if True ∧ bpfMapMmapSz page valueSize maxEntries ≠ 0 then
          some ⟨(bpfMapMmapSz page valueSize maxEntries).toNat, !rdonlyProg⟩
        else none := by
    simp [ArrayMap.initMapFd, ArrayMap.new]
  rw [hinit, if_pos ⟨trivial, hmmap⟩]
  rfl

/-- Kernel memory that is 1 at one place and 0 elsewhere. -/
def oneAt (place : Nat) : Nat → Byte := fun i => if i = place then 1 else 0

/-- A lookup that finds the element where only its first byte is 1 looks at its offset. -/
theorem index_of_lookup {map : ArrayMap} {kernel : KernelArray} (h : Mapped page map kernel) (hkey : key < kernel.maxEntries)
    (hcells : kernel.cells = oneAt (kernel.offset key))
    (hlookup : map.elemLookup kernel true key = map.unmapped.elemLookup kernel true key) :
    map.index key = kernel.offset key := by
  rw [h.lookup_eq hkey, h.lookup_unmapped hkey] at hlookup
  unfold Buffer.read at hlookup
  split at hlookup
  · rw [Option.map_some, Option.some.injEq, Option.some.injEq] at hlookup
    have hfirst := congrArg (fun bytes => bytes[0]?) hlookup
    simp only [load, List.getElem?_map, List.getElem?_range h.mappable.1, Option.map_some, Nat.add_zero, Option.some.injEq,
      hcells, oneAt, if_true] at hfirst
    by_contra hne
    rw [if_neg hne] at hfirst
    cases hfirst
  · cases hlookup

/-- Two stores of the same bytes over others change the same cells only at the same place. -/
theorem store_replicate_inj {x y : Byte} {i j n : Nat} (hne : x ≠ y) (hpos : 0 < n)
    (h : store (fun _ => x) i (List.replicate n y) = store (fun _ => x) j (List.replicate n y)) : i = j := by
  have hle : ∀ i j : Nat, store (fun _ => x) i (List.replicate n y) = store (fun _ => x) j (List.replicate n y) → i ≤ j := by
    intro i j h
    by_contra hlt
    have hcell := congrFun h j
    have hlength : 0 < (List.replicate n y).length := by simpa using hpos
    have hin : store (fun _ => x) j (List.replicate n y) (j + 0) = y := by
      rw [store_in hlength, List.getElem_replicate]
    rw [Nat.add_zero] at hin
    rw [store_out (.inl (Nat.lt_of_not_le hlt)), hin] at hcell
    exact hne hcell
  exact Nat.le_antisymm (hle i j h) (hle j i h.symm)

/-- **The two paths agree** exactly on the operations that fit. -/
theorem pathsAgree_iff {op : Op} : PathsAgree page valueSize maxEntries rdonlyProg key op ↔
    op.Fits valueSize maxEntries rdonlyProg key := by
  constructor
  · intro hagree hmappable hkey
    -- the object of a process whose calls all succeed, on the cells that the case needs
    have hobject : ∀ cells, ∃ map, Mapped page map ⟨valueSize, maxEntries, rdonlyProg, cells⟩ ∧
        ActsAlike map ⟨valueSize, maxEntries, rdonlyProg, cells⟩ key op := by
      intro cells
      have hmapped := exists_mapped page hmappable hkey rdonlyProg cells
      exact ⟨_, mapped_spec rfl hmapped, hagree 1 0 0 ⟨true, true, true⟩ cells hmapped⟩
    cases op with
    | lookup =>
        obtain ⟨map, h, hacts⟩ := hobject (oneAt (key.toNat * ((valueSize.toNat + 7) / 8 * 8)))
        exact ⟨trivial, fits_of_index_eq h.valueSize (index_of_lookup h hkey rfl hacts)⟩
    | update flags =>
        obtain ⟨map, h, hacts⟩ := hobject fun _ => 0
        obtain ⟨code, code', kernel', hmap, hcall, hcode, -⟩ := hacts (Vector.replicate _ 1)
        dsimp only at hmap hcall
        rw [h.update_eq hkey] at hmap
        rw [h.update_unmapped, Option.some.injEq, Prod.mk.injEq, Prod.mk.injEq] at hcall
        obtain ⟨hwritable, hout⟩ := h.of_put hmap
        rw [Prod.mk.injEq, Prod.mk.injEq] at hout
        obtain ⟨hcall, -, hkernel⟩ := hcall
        rcases update_cases (⟨valueSize, maxEntries, rdonlyProg, fun _ => 0⟩) hkey (Vector.replicate map.valueSize.toNat (1 : Byte)).toList flags with
          ⟨hflags, hupdate⟩ | ⟨-, hfails⟩
        · refine ⟨⟨hflags, hwritable⟩, fits_of_index_eq h.valueSize ?_⟩
          have hcells := congrArg KernelArray.cells (hkernel.trans hout.2.2)
          rw [hupdate, Vector.toList_replicate] at hcells
          refine (store_replicate_inj (by decide) ?_ hcells).symm
          rw [h.valueSize]
          exact hmappable.1
        · exact absurd (hcall.trans (hcode.mp hout.1)) hfails
    | delete =>
        obtain ⟨map, h, code, code', kernel', hmap, hcall, hcode, -⟩ := hobject fun _ => 0
        dsimp only at hmap hcall
        rw [h.delete_eq hkey] at hmap
        rw [h.delete_unmapped, Option.some.injEq, Prod.mk.injEq] at hcall
        have hzero := congrArg Prod.fst (h.of_put hmap).2
        exact absurd (hcall.1.trans (hcode.mp hzero)) (by decide)
  · intro hfits kmId size entries answers cells
    dsimp only
    intro hmapped
    have h := mapped_spec rfl hmapped
    exact actsAlike h (hfits h.mappable)

/-- **A delete zeroes its element** where the offset is right. -/
theorem deleteZeroes_iff (hkey : key < maxEntries) :
    DeleteZeroes page valueSize maxEntries key ↔ (Mappable valueSize → OffsetFits valueSize key) := by
  constructor
  · intro hzeroes hmappable
    have hmapped := exists_mapped page hmappable hkey false fun _ => 1
    have h := mapped_spec rfl hmapped
    have hdelete := hzeroes 1 0 0 ⟨true, true, true⟩ (fun _ => 1) hmapped
    rw [h.delete_eq hkey] at hdelete
    have hout := (h.of_put hdelete).2
    rw [Prod.mk.injEq, Prod.mk.injEq] at hout
    have hcells := congrArg KernelArray.cells hout.2.2
    exact fits_of_index_eq h.valueSize (store_replicate_inj (by decide) hmappable.1 hcells).symm
  · intro hfits kmId size entries answers cells
    dsimp only
    intro hmapped
    have h := mapped_spec rfl hmapped
    rw [h.delete_eq hkey]
    exact h.put_eq hkey (hfits h.mappable) rfl (by simp)

/-- The first index that is cut off comes back to the element of key 0. -/
theorem exists_cut {size n : Nat} (h : 2 ^ 32 ≤ n * size) (hsize : size < 2 ^ 32) :
    ∃ m ≤ n, 0 < m ∧ m * size % 2 ^ 32 < size := by
  induction n with
  | zero => simp at h
  | succ n ih =>
      by_cases hprev : 2 ^ 32 ≤ n * size
      · obtain ⟨m, hm, hpos, hcut⟩ := ih hprev
        exact ⟨m, by omega, hpos, hcut⟩
      · rw [Nat.succ_mul] at h
        refine ⟨n + 1, Nat.le_refl _, Nat.succ_pos n, ?_⟩
        rw [Nat.succ_mul]
        omega

/-- **No two keys share an element** when no offset wraps. -/
theorem keysSeparate_iff : KeysSeparate valueSize maxEntries ↔
    ∀ key < maxEntries, key.toNat * valueSize.toNat < 2 ^ 32 := by
  have hindex : ∀ (kmId key : BitVec 32), (ArrayMap.new kmId valueSize maxEntries).index key =
      key.toNat * valueSize.toNat % 2 ^ 32 := fun kmId key => BitVec.toNat_mul ..
  constructor
  · intro hseparate key hkey
    by_contra hlarge
    -- a key whose offset wraps to less than one element, and so comes upon the first
    obtain ⟨m, hm, hpos, hcut⟩ := exists_cut (Nat.le_of_not_lt hlarge) valueSize.isLt
    have hlt : m < 2 ^ 32 := Nat.lt_of_le_of_lt hm key.isLt
    have htoNat : (BitVec.ofNat 32 m).toNat = m := by rw [BitVec.toNat_ofNat, Nat.mod_eq_of_lt hlt]
    have hkey' : key.toNat < maxEntries.toNat := hkey
    have hother : BitVec.ofNat 32 m < maxEntries := by
      rw [BitVec.lt_def, htoNat]
      omega
    have hzero : (0 : BitVec 32) < maxEntries := by
      rw [BitVec.lt_def]
      exact Nat.lt_of_le_of_lt (Nat.zero_le _) hkey'
    have hne : BitVec.ofNat 32 m ≠ 0 := by
      intro heq
      rw [heq] at htoNat
      exact absurd htoNat.symm (Nat.ne_of_gt hpos)
    obtain ⟨-, hapart⟩ := hseparate 0 (by decide) 0 hzero
    refine hapart _ hother hne (m * valueSize.toNat % 2 ^ 32) hcut 0 (by omega) ?_
    rw [hindex, hindex, htoNat]
    simp
  · intro hsmall kmId hid key hkey
    have hdata : (ArrayMap.new kmId valueSize maxEntries).valueData.size = valueSize.toNat * maxEntries.toNat := by
      have hnot : ¬ 0 < kmId.toInt := by omega
      show (if 0 < kmId.toInt then 1 else _) = _
      rw [if_neg hnot, BitVec.toNat_mul, BitVec.toNat_setWidth_of_le (by decide), BitVec.toNat_setWidth_of_le (by decide)]
      have hprod := Nat.mul_lt_mul'' valueSize.isLt maxEntries.isLt
      omega
    have hexact : ∀ k < maxEntries, (ArrayMap.new kmId valueSize maxEntries).index k = k.toNat * valueSize.toNat := by
      intro k hk
      rw [hindex, Nat.mod_eq_of_lt (hsmall k hk)]
    dsimp only
    rw [hexact key hkey, hdata]
    refine ⟨?_, fun other hother hne i hi j hj heq => hne (BitVec.eq_of_toNat_eq ?_)⟩
    · have hkey' : key.toNat + 1 ≤ maxEntries.toNat := hkey
      have hmul := Nat.mul_le_mul_right valueSize.toNat hkey'
      rw [Nat.succ_mul, Nat.mul_comm maxEntries.toNat] at hmul
      exact hmul
    · rw [hexact other hother] at heq
      have hdiv := congrArg (· / valueSize.toNat) heq
      simp only [Nat.mul_comm _ valueSize.toNat] at hdiv
      rw [Nat.mul_add_div (by omega), Nat.mul_add_div (by omega), Nat.div_eq_of_lt hi, Nat.div_eq_of_lt hj] at hdiv
      omega

/-- **The two paths of a shared array.** Through the mapping of a kernel array an operation on a key does just what the
system call does if and only if the key is outside, or it is a lookup, or an update with `BPF_ANY` or `BPF_EXIST` of an
array that programs may write, and the key is 0, or the value size is a multiple of 8 and the offset below `2 ^ 32`. With
that offset a delete zeroes the element, which the kernel refuses to do. Without a kernel map the keys share no bytes if
and only if all offsets are below `2 ^ 32`. -/
theorem sharedArray_paths_iff (page : PageSize) (valueSize maxEntries : BitVec 32) :
    (∀ rdonlyProg key op, PathsAgree page valueSize maxEntries rdonlyProg key op ↔
      op.Fits valueSize maxEntries rdonlyProg key) ∧
      (∀ key < maxEntries, DeleteZeroes page valueSize maxEntries key ↔ (Mappable valueSize → OffsetFits valueSize key)) ∧
      (KeysSeparate valueSize maxEntries ↔ ∀ key < maxEntries, key.toNat * valueSize.toNat < 2 ^ 32) :=
  ⟨fun _ _ _ => pathsAgree_iff, fun _ => deleteZeroes_iff, keysSeparate_iff⟩

/-- With values of 4 bytes, key 1 is at 4 in the mapping and at 8 in the kernel's array. -/
theorem sharedArray_paths_differ : ¬ ∀ (page : PageSize) (valueSize maxEntries : BitVec 32) rdonlyProg key op,
    PathsAgree page valueSize maxEntries rdonlyProg key op := by
  intro hall
  have hfits := (pathsAgree_iff.mp (hall ⟨4096, by decide⟩ 4 2 false 1 .lookup) ⟨by decide, by decide⟩ (by decide)).2
  revert hfits
  unfold OffsetFits
  decide

end Paths

end SharedArray
