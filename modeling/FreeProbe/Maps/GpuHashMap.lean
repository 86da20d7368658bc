import FreeProbe.Lib.Machine
import FreeProbe.Maps.HashMap

/-!
# `Maps.GpuHashMap` — `nv_gpu_shared_hash_map_impl`

The hash map that the host keeps for a GPU: the keys in a table of its own with a prime number of buckets, probed like
`bpftime_hash_map`, the values in a `nv_gpu_shared_array_map_impl` of `max_entries` elements under the index of the
bucket. The copies between the host and the device are taken to succeed.

The reference is the finite map of the successful updates and deletes. An operation is lawful when it returns, does
what the reference and the flags say, and leaves a map that agrees with the reference; `Suits` is the condition on the
table before it.
-/

namespace Maps

open Lib.LinearProbing

variable {keySize valueSize : Nat}

/-! ## `nv_gpu_shared_array_map_impl` -/

/-- `values` is the device buffer. -/
structure GpuArrayMap (valueSize : Nat) where
  maxEntries : Nat
  values     : Nat → Vector Byte valueSize

namespace GpuArrayMap

/-- `*(uint32_t *)key`, of the `size_t` that the hash map passes. -/
def keyVal (index : Nat) : Nat := index % 2 ^ 32

/-- `elem_lookup` of the array of values. -/
def elemLookup (map : GpuArrayMap valueSize) (index : Nat) : Option (Vector Byte valueSize) :=
  if keyVal index ≥ map.maxEntries then none else some (map.values (keyVal index))

/-- `elem_update` of the array, which takes the element to be there. -/
def elemUpdate (map : GpuArrayMap valueSize) (index : Nat) (value : Vector Byte valueSize) (flags : BitVec 64) :
    Except Errno Unit × GpuArrayMap valueSize :=
  if !checkUpdateFlags flags then (.error .einval, map)
  else if keyVal index < map.maxEntries ∧ flags = BPF_NOEXIST then (.error .eexist, map)
  else if keyVal index ≥ map.maxEntries then (.error .e2big, map)
  else (.ok (), { map with values := Function.update map.values (keyVal index) value })

end GpuArrayMap

/-! ## The map -/

/-- The fill mark and the key of a bucket, as they lie in `key_buffer`. -/
structure KeyBucket (keySize : Nat) where
  filled : BitVec 32
  key    : Vector Byte keySize

/-- `nv_gpu_shared_hash_map_impl`: buckets of keys, and the values in an array map. -/
structure GpuHashMap (keySize valueSize : Nat) where
  arrayMap   : GpuArrayMap valueSize
  numBuckets : Nat
  count      : Nat
  keyBuffer  : Nat → KeyBucket keySize

namespace GpuHashMap

/-- The constructor. -/
def new (maxEntries : Nat) : GpuHashMap keySize valueSize where
  arrayMap := ⟨maxEntries, fun _ => Vector.replicate valueSize 0⟩
  numBuckets := nextPrime maxEntries
  count := 0
  keyBuffer := fun _ => ⟨0, Vector.replicate keySize 0⟩

/-- `is_empty` -/
def isEmpty (map : GpuHashMap keySize valueSize) (index : Nat) : Bool := (map.keyBuffer index).filled == 0

/-- `get_key` -/
def getKey (map : GpuHashMap keySize valueSize) (index : Nat) : Vector Byte keySize := (map.keyBuffer index).key

/-- `set_empty` -/
def setEmpty (map : GpuHashMap keySize valueSize) (index : Nat) : GpuHashMap keySize valueSize :=
  { map with keyBuffer := Function.update map.keyBuffer index { map.keyBuffer index with filled := 0 } }

/-- `set_filled` -/
def setFilled (map : GpuHashMap keySize valueSize) (index : Nat) : GpuHashMap keySize valueSize :=
  { map with keyBuffer := Function.update map.keyBuffer index { map.keyBuffer index with filled := 1 } }

/-- `std::memcpy(get_key(index), key, _key_size)` -/
def setKey (map : GpuHashMap keySize valueSize) (index : Nat) (key : Vector Byte keySize) :
    GpuHashMap keySize valueSize :=
  { map with keyBuffer := Function.update map.keyBuffer index { map.keyBuffer index with key := key } }

/-- The key in a bucket, for the probe. -/
def keyAt (map : GpuHashMap keySize valueSize) (index : Nat) : Option (Vector Byte keySize) :=
  if map.isEmpty index then none else some (map.getKey index)

/-- The bucket that a key hashes to. -/
def home (map : GpuHashMap keySize valueSize) (key : Vector Byte keySize) : Nat :=
  (hashFunc key).toNat % map.numBuckets

/-- The loop that the operations share. -/
def findBucket (map : GpuHashMap keySize valueSize) (key : Vector Byte keySize) : Probe :=
  probe map.keyAt map.numBuckets key (map.home key)

/-- `key_lookup`: the offset in `key_buffer` of the key it returns a pointer to. -/
def keyLookup (map : GpuHashMap keySize valueSize) (key : Vector Byte keySize) : Option Nat :=
  match map.findBucket key with
  | .vacant _ => none
  | .found index => some (index * (4 + keySize) + 4)
  | .exhausted => none

/-- `elem_lookup` -/
def elemLookup (map : GpuHashMap keySize valueSize) (key : Vector Byte keySize) : Option (Vector Byte valueSize) :=
  match map.findBucket key with
  | .vacant _ => none
  | .found index => map.arrayMap.elemLookup index
  | .exhausted => none

/-- `elem_update`: a key in a vacant bucket is written before the array map is asked. -/
def elemUpdate (map : GpuHashMap keySize valueSize) (key : Vector Byte keySize) (value : Vector Byte valueSize)
    (flags : BitVec 64) : Except Errno Unit × GpuHashMap keySize valueSize :=
  if !checkUpdateFlags flags then (.error .einval, map)
  else
    match map.findBucket key with
    | .vacant index =>
      if map.count ≥ map.numBuckets then (.error .enospc, map)
      else
        let map := map.setKey index key
        match map.arrayMap.elemUpdate index value flags with
        | (.ok (), arrayMap) => (.ok (), { map.setFilled index with arrayMap := arrayMap, count := map.count + 1 })
        | (.error e, arrayMap) => (.error e, { map with arrayMap := arrayMap })
    | .found index =>
      let (ret, arrayMap) := map.arrayMap.elemUpdate index value flags
      (ret, { map with arrayMap := arrayMap })
    | .exhausted => (.error .enospc, map)

/-- `elem_delete` empties the bucket and leaves the buckets behind it. -/
def elemDelete (map : GpuHashMap keySize valueSize) (key : Vector Byte keySize) :
    Except Errno Unit × GpuHashMap keySize valueSize :=
  match map.findBucket key with
  | .vacant _ => (.error .enoent, map)
  | .found index => (.ok (), { map.setEmpty index with count := map.count - 1 })
  | .exhausted => (.error .enoent, map)

/-- The first filled bucket from `index` on. -/
def nextFilled (map : GpuHashMap keySize valueSize) (index : Nat) : Except Errno (Vector Byte keySize) :=
  match (List.range' index (map.numBuckets - index)).find? fun i => !map.isEmpty i with
  | some i => .ok (map.getKey i)
  | none => .error .enoent

/-- `map_get_next_key(nullptr, next_key)`. The guard waits for a lock that is held already, for ever. -/
def firstKey (map : GpuHashMap keySize valueSize) (locked : Bool) : Option (Except Errno (Vector Byte keySize)) :=
  if locked then none else some (map.nextFilled 0)

/-- `get_index_of_key`, then `index + 1` as a `size_t`. -/
def indexAfter (map : GpuHashMap keySize valueSize) (offset : Nat) : Nat :=
  if offset ≥ (keySize + 4) * map.numBuckets then 0 else offset / (4 + keySize) + 1

/-- `map_get_next_key`. The first key is asked for again from within the lock, where the key is not found. -/
def mapGetNextKey (map : GpuHashMap keySize valueSize) :
    Option (Vector Byte keySize) → Option (Except Errno (Vector Byte keySize))
  | none => map.firstKey false
  | some key =>
    match map.keyLookup key with
    -- from inside the guard
    | none => map.firstKey true
    | some offset => some (map.nextFilled (map.indexAfter offset))

/-- The keys in the buckets. -/
def storedKeys (map : GpuHashMap keySize valueSize) : Finset (Vector Byte keySize) :=
  (filledSlots map.keyAt map.numBuckets).image map.getKey

end GpuHashMap

/-! ## Runs beside the reference -/

/-- The operations. -/
inductive GpuHashOp (keySize valueSize : Nat) where
  | lookup (key : Vector Byte keySize)
  | update (key : Vector Byte keySize) (value : Vector Byte valueSize) (flags : BitVec 64)
  | delete (key : Vector Byte keySize)
  | getNextKey (key : Option (Vector Byte keySize))

/-- What an operation returns. -/
inductive GpuHashRet (keySize valueSize : Nat) where
  | value (value : Option (Vector Byte valueSize))
  | status (ret : Except Errno Unit)
  | key (ret : Except Errno (Vector Byte keySize))

/-- The map, and the map that it should be. -/
structure GpuHashRun (keySize valueSize : Nat) where
  map       : GpuHashMap keySize valueSize
  reference : Vector Byte keySize → Option (Vector Byte valueSize)

namespace GpuHashRun

/-- An empty map, and an empty one to compare it with. -/
def new (maxEntries : Nat) : GpuHashRun keySize valueSize := ⟨GpuHashMap.new maxEntries, fun _ => none⟩

/-- An operation, and on the reference if it is successful. -/
def apply (s : GpuHashRun keySize valueSize) :
    GpuHashOp keySize valueSize → Option (GpuHashRet keySize valueSize × GpuHashRun keySize valueSize)
  | .lookup key => some (.value (s.map.elemLookup key), s)
  | .update key value flags =>
    let (ret, map) := s.map.elemUpdate key value flags
    match ret with
    | .ok () => some (.status (.ok ()), ⟨map, Function.update s.reference key (some value)⟩)
    | .error e => some (.status (.error e), ⟨map, s.reference⟩)
  | .delete key =>
    let (ret, map) := s.map.elemDelete key
    match ret with
    | .ok () => some (.status (.ok ()), ⟨map, Function.update s.reference key none⟩)
    | .error e => some (.status (.error e), ⟨map, s.reference⟩)
  | .getNextKey key => do
    let ret ← s.map.mapGetNextKey key
    return (.key ret, s)

/-- The map shows what the reference says, and has no key twice. -/
structure Agrees (s : GpuHashRun keySize valueSize) : Prop where
  lookup : ∀ key, s.map.elemLookup key = s.reference key
  once   : ∀ i j key, i < s.map.numBuckets → j < s.map.numBuckets → s.map.keyAt i = some key →
    s.map.keyAt j = some key → i = j

/-- The flags allow an update of a key that is stored or not. -/
def Allowed (flags : BitVec 64) (stored : Prop) : Prop :=
  checkUpdateFlags flags = true ∧ (flags = BPF_NOEXIST → ¬ stored) ∧ (flags = BPF_EXIST → stored)

/-- What an operation returns is right. -/
def Right (s : GpuHashRun keySize valueSize) (s' : GpuHashRun keySize valueSize) :
    GpuHashOp keySize valueSize → GpuHashRet keySize valueSize → Prop
  | .lookup key, ret => ret = .value (s.reference key)
  -- an update succeeds only where the flags allow it, and does where they do, unless it is of a new key and the
  -- map is full; one that fails changes no bucket and no value
  | .update key _ flags, ret =>
    (ret = .status (.ok ()) → Allowed flags (s.reference key ≠ none)) ∧
    (Allowed flags (s.reference key ≠ none) →
      s.reference key ≠ none ∨ s.map.storedKeys.card < s.map.arrayMap.maxEntries → ret = .status (.ok ())) ∧
    (ret ≠ .status (.ok ()) → s'.map.keyAt = s.map.keyAt ∧ s'.map.arrayMap = s.map.arrayMap)
  | .delete key, ret => ret = .status (.ok ()) ↔ s.reference key ≠ none
  | .getNextKey _, ret => ∀ key, ret = .key (.ok key) → s.reference key ≠ none

/-- An operation returns what it should and leaves the two alike. -/
def Lawful (s : GpuHashRun keySize valueSize) (op : GpuHashOp keySize valueSize) : Prop :=
  ∃ ret s', s.apply op = some (ret, s') ∧ Right s s' op ret ∧ Agrees s'

/-- No other key's value lies where the value of bucket `i` goes, unless it is the same one. -/
def SlotFree (map : GpuHashMap keySize valueSize) (i : Nat) (value : Vector Byte valueSize) : Prop :=
  ∀ j, j < map.numBuckets → j ≠ i → map.keyAt j ≠ none → GpuArrayMap.keyVal j = GpuArrayMap.keyVal i →
    map.arrayMap.values (GpuArrayMap.keyVal j) = value

/-- The condition on an operation and the map before it. -/
def Suits (map : GpuHashMap keySize valueSize) : GpuHashOp keySize valueSize → Prop
  | .lookup _ => True
  | .update key value flags =>
    checkUpdateFlags flags = true →
      match map.findBucket key with
      | .vacant i =>
        if GpuArrayMap.keyVal i < map.arrayMap.maxEntries then
          if flags = BPF_NOEXIST then map.arrayMap.maxEntries ≤ map.storedKeys.card
          else flags ≠ BPF_EXIST ∧ SlotFree map i value
        else flags = BPF_EXIST ∨ map.arrayMap.maxEntries ≤ map.storedKeys.card
      | .found i => flags = BPF_NOEXIST ∨ SlotFree map i value
      | .exhausted => True
  -- the bucket that it vacates is on no other key's probe path
  | .delete key => ∀ i, i < map.numBuckets → map.keyAt i = some key → ¬ Crossed map.keyAt map.numBuckets map.home i
  -- the key is stored
  | .getNextKey none => True
  | .getNextKey (some key) => ∃ i, i < map.numBuckets ∧ map.keyAt i = some key

end GpuHashRun

section Suits

variable {map : GpuHashMap keySize valueSize} {key : Vector Byte keySize} {value : Vector Byte valueSize}
  {flags : BitVec 64} {i : Nat} (hvalid : checkUpdateFlags flags = true)

include hvalid

/-- The condition on an update of a key that is not there. -/
theorem suits_vacant (hf : map.findBucket key = .vacant i) :
    GpuHashRun.Suits map (.update key value flags) ↔
      if GpuArrayMap.keyVal i < map.arrayMap.maxEntries then
        if flags = BPF_NOEXIST then map.arrayMap.maxEntries ≤ map.storedKeys.card
        else flags ≠ BPF_EXIST ∧ GpuHashRun.SlotFree map i value
      else flags = BPF_EXIST ∨ map.arrayMap.maxEntries ≤ map.storedKeys.card := by
  simp only [GpuHashRun.Suits, hvalid, hf, forall_const]

/-- On one of a key that is there. -/
theorem suits_found (hf : map.findBucket key = .found i) :
    GpuHashRun.Suits map (.update key value flags) ↔ flags = BPF_NOEXIST ∨ GpuHashRun.SlotFree map i value := by
  simp only [GpuHashRun.Suits, hvalid, hf, forall_const]

omit hvalid in
/-- On one of a new key where all buckets are filled. -/
theorem suits_exhausted (hf : map.findBucket key = .exhausted) : GpuHashRun.Suits map (.update key value flags) := by
  simp only [GpuHashRun.Suits, hf, implies_true]

end Suits

/-! ## The array map under it -/

namespace GpuArrayMap

variable {map : GpuArrayMap valueSize} {index : Nat} {flags : BitVec 64}

/-- `BPF_NOEXIST` fails on an index of the array. -/
theorem elemUpdate_noexist (value : Vector Byte valueSize) (hindex : keyVal index < map.maxEntries) :
    map.elemUpdate index value BPF_NOEXIST = (.error .eexist, map) := by
  unfold elemUpdate
  rw [if_neg (by decide), if_pos ⟨hindex, rfl⟩]

/-- An index out of the array. -/
theorem elemUpdate_range (value : Vector Byte valueSize) (hvalid : checkUpdateFlags flags = true)
    (hindex : map.maxEntries ≤ keyVal index) : map.elemUpdate index value flags = (.error .e2big, map) := by
  unfold elemUpdate
  rw [hvalid, if_neg (by decide), if_neg fun h => absurd h.1 (Nat.not_lt.mpr hindex), if_pos hindex]

/-- An update that is stored. -/
theorem elemUpdate_ok (value : Vector Byte valueSize) (hvalid : checkUpdateFlags flags = true)
    (hflags : flags ≠ BPF_NOEXIST) (hindex : keyVal index < map.maxEntries) :
    map.elemUpdate index value flags =
      (.ok (), { map with values := Function.update map.values (keyVal index) value }) := by
  unfold elemUpdate
  rw [hvalid, if_neg (by decide), if_neg fun h => hflags h.2, if_neg (Nat.not_le.mpr hindex)]

end GpuArrayMap

/-! ## Buckets -/

namespace GpuHashMap

variable {map : GpuHashMap keySize valueSize} {i : Nat} {key : Vector Byte keySize}

/-- The key of a filled bucket. -/
theorem keyAt_eq_some (h : map.keyAt i = some key) : map.getKey i = key := by
  unfold keyAt at h
  split at h
  · cases h
  · exact Option.some.inj h

/-- The bytes of a key in an empty bucket are not seen. -/
theorem keyAt_setKey (hnone : map.keyAt i = none) : (map.setKey i key).keyAt = map.keyAt := by
  funext j
  unfold keyAt isEmpty getKey setKey at *
  dsimp only
  by_cases hj : j = i
  · subst hj
    simp only [Function.update_self]
    split at hnone
    · rename_i hempty
      rw [if_pos hempty, if_pos hempty]
    · cases hnone
  · simp only [Function.update_of_ne hj]

/-- Filling a bucket changes it only. -/
theorem keyAt_fill : ((map.setKey i key).setFilled i).keyAt = Function.update map.keyAt i (some key) := by
  funext j
  unfold keyAt isEmpty getKey setFilled setKey
  dsimp only
  by_cases hj : j = i
  · subst hj
    simp only [Function.update_self]
    rfl
  · simp only [Function.update_of_ne hj]

/-- And so does emptying it. -/
theorem keyAt_setEmpty : (map.setEmpty i).keyAt = Function.update map.keyAt i none := by
  funext j
  unfold keyAt isEmpty getKey setEmpty
  dsimp only
  by_cases hj : j = i
  · subst hj
    simp only [Function.update_self]
    rfl
  · simp only [Function.update_of_ne hj]

section ElemUpdate

variable {value : Vector Byte valueSize} {flags : BitVec 64} (hvalid : checkUpdateFlags flags = true)

include hvalid

/-- A vacant bucket whose value the array map does not take. -/
theorem elemUpdate_vacant_error (hf : map.findBucket key = .vacant i) (hcount : map.count < map.numBuckets) {e : Errno}
    (harray : map.arrayMap.elemUpdate i value flags = (.error e, map.arrayMap)) :
    map.elemUpdate key value flags = (.error e, map.setKey i key) := by
  unfold elemUpdate
  rw [hvalid, if_neg (by decide), hf]
  dsimp only
  rw [if_neg (Nat.not_le.mpr hcount)]
  have harray' : (map.setKey i key).arrayMap.elemUpdate i value flags = (.error e, map.arrayMap) := harray
  rw [harray']
  rfl

/-- A new key, with its value in the array. -/
theorem elemUpdate_vacant_ok (hf : map.findBucket key = .vacant i) (hcount : map.count < map.numBuckets)
    {arrayMap : GpuArrayMap valueSize} (harray : map.arrayMap.elemUpdate i value flags = (.ok (), arrayMap)) :
    map.elemUpdate key value flags =
      (.ok (), { (map.setKey i key).setFilled i with arrayMap := arrayMap, count := map.count + 1 }) := by
  unfold elemUpdate
  rw [hvalid, if_neg (by decide), hf]
  dsimp only
  rw [if_neg (Nat.not_le.mpr hcount)]
  have harray' : (map.setKey i key).arrayMap.elemUpdate i value flags = (.ok (), arrayMap) := harray
  rw [harray']
  rfl

/-- A key that is there. -/
theorem elemUpdate_found
    (hf : map.findBucket key = .found i) :
    map.elemUpdate key value flags =
      ((map.arrayMap.elemUpdate i value flags).1, { map with arrayMap := (map.arrayMap.elemUpdate i value flags).2 }) := by
  unfold elemUpdate
  rw [hvalid, if_neg (by decide), hf]

/-- No bucket for a new key. -/
theorem elemUpdate_exhausted (hf : map.findBucket key = .exhausted) :
    map.elemUpdate key value flags = (.error .enospc, map) := by
  unfold elemUpdate
  rw [hvalid, if_neg (by decide), hf]

end ElemUpdate

/-- Flags that are none of the three. -/
theorem elemUpdate_invalid {value : Vector Byte valueSize} {flags : BitVec 64} (hinvalid : checkUpdateFlags flags = false) :
    map.elemUpdate key value flags = (.error .einval, map) := by
  unfold elemUpdate
  rw [hinvalid, if_pos (by decide)]

/-- A stored key of an unbroken table is looked up. -/
theorem elemLookup_chained (hpos : 0 < map.numBuckets) (hc : Chained map.keyAt map.numBuckets map.home)
    (hi : i < map.numBuckets) (hk : map.keyAt i = some key) (hindex : GpuArrayMap.keyVal i < map.arrayMap.maxEntries) :
    map.elemLookup key = some (map.arrayMap.values (GpuArrayMap.keyVal i)) := by
  have hf : map.findBucket key = .found i := probe_found hc (Nat.mod_lt _ hpos) hi hk
  unfold elemLookup GpuArrayMap.elemLookup
  rw [hf]
  exact if_neg (Nat.not_le.mpr hindex)

/-- The key after one that is there. -/
theorem mapGetNextKey_found (hf : map.findBucket key = .found i) :
    map.mapGetNextKey (some key) = some (map.nextFilled (map.indexAfter (i * (4 + keySize) + 4))) := by
  simp only [mapGetNextKey, keyLookup, hf]

/-- The call from inside the guard waits for the lock. -/
theorem mapGetNextKey_absent (hf : ∀ i, map.findBucket key ≠ .found i) : map.mapGetNextKey (some key) = none := by
  have hlookup : map.keyLookup key = none := by
    unfold keyLookup
    cases hfind : map.findBucket key with
    | found i => exact absurd hfind (hf i)
    | vacant i => rfl
    | exhausted => rfl
  simp only [mapGetNextKey, hlookup]
  rfl

/-- A key that iteration comes to is stored. -/
theorem nextFilled_stored {index : Nat} (h : map.nextFilled index = .ok key) :
    ∃ i, i < map.numBuckets ∧ map.keyAt i = some key := by
  unfold nextFilled at h
  split at h
  · rename_i i hfind
    have hmem := List.mem_range'_1.mp (List.mem_of_find?_eq_some hfind)
    have hfilled : ¬ map.isEmpty i = true := by simpa using List.find?_some hfind
    refine ⟨i, by omega, ?_⟩
    unfold keyAt
    rw [if_neg hfilled, Except.ok.inj h]
  · cases h

end GpuHashMap

/-! ## The invariant -/

namespace GpuHashRun

/-- What all operations keep that suit the map: the buckets can be found by probing, each with a value in the array, and
are counted. -/
structure Inv (s : GpuHashRun keySize valueSize) : Prop where
  pos     : 0 < s.map.numBuckets
  room    : s.map.arrayMap.maxEntries ≤ s.map.numBuckets
  stores  : Stores s.map.keyAt (fun i => s.map.arrayMap.values (GpuArrayMap.keyVal i)) s.map.numBuckets s.map.home
    s.reference
  inRange : ∀ i, i < s.map.numBuckets → s.map.keyAt i ≠ none → GpuArrayMap.keyVal i < s.map.arrayMap.maxEntries
  count   : s.map.count = (filledSlots s.map.keyAt s.map.numBuckets).card

variable {s : GpuHashRun keySize valueSize} {key : Vector Byte keySize} {i : Nat}

/-- An empty map. -/
theorem inv_new (maxEntries : Nat) : Inv (GpuHashRun.new maxEntries : GpuHashRun keySize valueSize) where
  pos := (nextPrime_prime maxEntries).1.pos
  room := (nextPrime_prime maxEntries).2
  stores := stores_empty _
  inRange := fun i _ hne => absurd rfl hne
  count := by
    symm
    refine Finset.card_eq_zero.mpr (Finset.filter_eq_empty_iff.mpr ?_)
    intro i _ hi
    cases hi

namespace Inv

variable (h : Inv s)

include h

/-- A hash gives a bucket. -/
theorem home_lt (key : Vector Byte keySize) : s.map.home key < s.map.numBuckets := Nat.mod_lt _ h.pos

/-- As many keys as filled buckets. -/
theorem card_storedKeys : s.map.storedKeys.card = (filledSlots s.map.keyAt s.map.numBuckets).card := by
  refine Finset.card_image_of_injOn ?_
  intro i hi j hj hij
  obtain ⟨hi, hki⟩ := mem_filledSlots.mp hi
  obtain ⟨hj, hkj⟩ := mem_filledSlots.mp hj
  obtain ⟨ki, hki⟩ := Option.isSome_iff_exists.mp hki
  obtain ⟨kj, hkj⟩ := Option.isSome_iff_exists.mp hkj
  rw [GpuHashMap.keyAt_eq_some hki, GpuHashMap.keyAt_eq_some hkj] at hij
  exact h.stores.chained.once i j ki hi hj hki (hij ▸ hkj)

/-- A stored key is found in its bucket. -/
theorem findBucket (hi : i < s.map.numBuckets) (hk : s.map.keyAt i = some key) : s.map.findBucket key = .found i :=
  probe_found h.stores.chained (h.home_lt key) hi hk

/-- What is found is the bucket of the key. -/
theorem found_slot (hf : s.map.findBucket key = .found i) : i < s.map.numBuckets ∧ s.map.keyAt i = some key :=
  probe_found_slot (h.home_lt key) hf

/-- With the value that it should have. -/
theorem reference_found (hf : s.map.findBucket key = .found i) :
    s.reference key = some (s.map.arrayMap.values (GpuArrayMap.keyVal i)) := h.stores.lookup_found (h.home_lt key) hf

/-- A key that is not found should not be there. -/
theorem reference_none (hf : ∀ i, s.map.findBucket key ≠ .found i) : s.reference key = none :=
  h.stores.lookup_none (h.home_lt key) hf

/-- The array map has the value of a stored key. -/
theorem elemLookup_found (hf : s.map.findBucket key = .found i) :
    s.map.elemLookup key = some (s.map.arrayMap.values (GpuArrayMap.keyVal i)) := by
  obtain ⟨hi, hk⟩ := h.found_slot hf
  have hne : s.map.keyAt i ≠ none := by
    rw [hk]
    exact Option.some_ne_none key
  exact GpuHashMap.elemLookup_chained h.pos h.stores.chained hi hk (h.inRange i hi hne)

/-- **The invariant gives agreement.** -/
theorem agrees : Agrees s where
  lookup := by
    intro key
    cases hf : s.map.findBucket key with
    | found i => rw [h.elemLookup_found hf, h.reference_found hf]
    | vacant i =>
        rw [GpuHashMap.elemLookup, hf, h.reference_none fun j hj => by rw [hf] at hj; cases hj]
    | exhausted =>
        rw [GpuHashMap.elemLookup, hf, h.reference_none fun j hj => by rw [hf] at hj; cases hj]
  once := h.stores.chained.once

end Inv

/-! ## What each operation does -/

/-- The value that a write brings to a free slot is the only one it changes. -/
theorem values_update {value : Vector Byte valueSize} (hfree : SlotFree s.map i value) :
    ∀ j, j ≠ i → s.map.keyAt j ≠ none → j < s.map.numBuckets →
      Function.update s.map.arrayMap.values (GpuArrayMap.keyVal i) value (GpuArrayMap.keyVal j) =
        s.map.arrayMap.values (GpuArrayMap.keyVal j) := by
  intro j hji hk hj
  by_cases hslot : GpuArrayMap.keyVal j = GpuArrayMap.keyVal i
  · rw [hslot, Function.update_self, ← hslot]
    exact (hfree j hj hji hk hslot).symm
  · rw [Function.update_of_ne hslot]

section Steps

variable (h : Inv s)

include h

/-- A new key in a vacant bucket. -/
theorem inv_insert {value : Vector Byte valueSize} (hf : s.map.findBucket key = .vacant i)
    (hindex : GpuArrayMap.keyVal i < s.map.arrayMap.maxEntries) (hfree : SlotFree s.map i value) :
    Inv ⟨{ (s.map.setKey i key).setFilled i with
        arrayMap := { s.map.arrayMap with
          values := Function.update s.map.arrayMap.values (GpuArrayMap.keyVal i) value },
        count := s.map.count + 1 }, Function.update s.reference key (some value)⟩ := by
  obtain ⟨hi, hnone⟩ := probe_vacant_slot (h.home_lt key) hf
  have hkey : ((s.map.setKey i key).setFilled i).keyAt = Function.update s.map.keyAt i (some key) :=
    GpuHashMap.keyAt_fill
  have hvalue : Function.update s.map.arrayMap.values (GpuArrayMap.keyVal i) value (GpuArrayMap.keyVal i) = value :=
    Function.update_self ..
  refine ⟨h.pos, h.room, ?_, ?_, ?_⟩
  · show Stores ((s.map.setKey i key).setFilled i).keyAt _ s.map.numBuckets s.map.home _
    rw [hkey]
    -- probing stops at the first vacant bucket, which is the one that is filled
    have hfill := h.stores.fill (h.home_lt key) hf (values_update hfree)
    rw [hvalue] at hfill
    exact hfill
  · show ∀ j, j < s.map.numBuckets → ((s.map.setKey i key).setFilled i).keyAt j ≠ none → _
    rw [hkey]
    intro j hj hk
    by_cases hji : j = i
    · rw [hji]
      exact hindex
    · rw [Function.update_of_ne hji] at hk
      exact h.inRange j hj hk
  · show s.map.count + 1 = (filledSlots ((s.map.setKey i key).setFilled i).keyAt s.map.numBuckets).card
    rw [hkey, card_filledSlots_fill hi hnone, h.count]

/-- A new value in a filled one. -/
theorem inv_overwrite {value : Vector Byte valueSize} (hf : s.map.findBucket key = .found i)
    (hfree : SlotFree s.map i value) :
    Inv ⟨{ s.map with arrayMap := { s.map.arrayMap with
        values := Function.update s.map.arrayMap.values (GpuArrayMap.keyVal i) value } },
      Function.update s.reference key (some value)⟩ := by
  obtain ⟨hi, hk⟩ := h.found_slot hf
  have hvalue : Function.update s.map.arrayMap.values (GpuArrayMap.keyVal i) value (GpuArrayMap.keyVal i) = value :=
    Function.update_self ..
  refine ⟨h.pos, h.room, ?_, h.inRange, h.count⟩
  have hover := h.stores.overwrite hi hk (values_update hfree)
  rw [hvalue] at hover
  exact hover

/-- A delete that breaks no chain. -/
theorem inv_delete (hf : s.map.findBucket key = .found i) (hcross : ¬ Crossed s.map.keyAt s.map.numBuckets s.map.home i) :
    Inv ⟨{ s.map.setEmpty i with count := s.map.count - 1 }, Function.update s.reference key none⟩ := by
  obtain ⟨hi, hk⟩ := h.found_slot hf
  have hkey : (s.map.setEmpty i).keyAt = Function.update s.map.keyAt i none := GpuHashMap.keyAt_setEmpty
  refine ⟨h.pos, h.room, ?_, ?_, ?_⟩
  · show Stores (s.map.setEmpty i).keyAt _ s.map.numBuckets s.map.home _
    rw [hkey]
    exact h.stores.vacate hi hk hcross
  · show ∀ j, j < s.map.numBuckets → (s.map.setEmpty i).keyAt j ≠ none → _
    rw [hkey]
    intro j hj hne
    by_cases hji : j = i
    · rw [hji, Function.update_self] at hne
      exact absurd rfl hne
    · rw [Function.update_of_ne hji] at hne
      exact h.inRange j hj hne
  · show s.map.count - 1 = (filledSlots (s.map.setEmpty i).keyAt s.map.numBuckets).card
    rw [hkey, card_filledSlots_vacate hi hk, h.count]

/-- A key's bytes in a vacant bucket change nothing. -/
theorem inv_setKey (hf : s.map.findBucket key = .vacant i) : Inv ⟨s.map.setKey i key, s.reference⟩ := by
  obtain ⟨-, hnone⟩ := probe_vacant_slot (h.home_lt key) hf
  have hkey : (s.map.setKey i key).keyAt = s.map.keyAt := GpuHashMap.keyAt_setKey hnone
  refine ⟨h.pos, h.room, ?_, ?_, ?_⟩
  · show Stores (s.map.setKey i key).keyAt _ s.map.numBuckets s.map.home _
    rw [hkey]
    exact h.stores
  · show ∀ j, j < s.map.numBuckets → (s.map.setKey i key).keyAt j ≠ none → _
    rw [hkey]
    exact h.inRange
  · show s.map.count = (filledSlots (s.map.setKey i key).keyAt s.map.numBuckets).card
    rw [hkey]
    exact h.count

/-- The slot of a bucket that is written has no other value, or the key of that one shows it. -/
theorem slotFree_of_agrees {s' : GpuHashRun keySize valueSize} {value : Vector Byte valueSize} (hagrees : Agrees s')
    (hbuckets : s'.map.numBuckets = s.map.numBuckets)
    (harray : s'.map.arrayMap = { s.map.arrayMap with
      values := Function.update s.map.arrayMap.values (GpuArrayMap.keyVal i) value })
    (hchained : Chained s'.map.keyAt s'.map.numBuckets s'.map.home)
    (hother : ∀ j, j < s.map.numBuckets → j ≠ i → ∀ key', s.map.keyAt j = some key' →
      s'.map.keyAt j = some key' ∧ s'.reference key' = s.reference key') : SlotFree s.map i value := by
  intro j hj hji hne hslot
  obtain ⟨key', hk⟩ := Option.ne_none_iff_exists'.mp hne
  obtain ⟨hk', href⟩ := hother j hj hji key' hk
  have hlookup : s'.map.elemLookup key' = some value := by
    rw [GpuHashMap.elemLookup_chained (by rw [hbuckets]; exact h.pos) hchained (by rw [hbuckets]; exact hj) hk'
      (by rw [harray]; exact h.inRange j hj hne), harray, hslot]
    exact congrArg some (Function.update_self ..)
  have hvalue : s.reference key' = some (s.map.arrayMap.values (GpuArrayMap.keyVal j)) :=
    (h.stores.entries key' _).mpr ⟨j, hj, hk, rfl⟩
  rw [hagrees.lookup key', href, hvalue] at hlookup
  exact Option.some.inj hlookup

end Steps

/-! ## An operation is lawful exactly when it suits the map -/

/-- An operation is judged by its result. -/
theorem lawful_iff_of_apply {op : GpuHashOp keySize valueSize} {ret : GpuHashRet keySize valueSize}
    {s' : GpuHashRun keySize valueSize} (happly : s.apply op = some (ret, s')) :
    s.Lawful op ↔ Right s s' op ret ∧ Agrees s' := by
  constructor
  · rintro ⟨ret', s'', happly', hright, hagrees⟩
    obtain ⟨rfl, rfl⟩ : ret = ret' ∧ s' = s'' := by
      rw [happly] at happly'
      exact Prod.mk.inj (Option.some.inj happly')
    exact ⟨hright, hagrees⟩
  · rintro ⟨hright, hagrees⟩
    exact ⟨ret, s', happly, hright, hagrees⟩

section Update

variable {value : Vector Byte valueSize} {flags : BitVec 64} {map : GpuHashMap keySize valueSize} {e : Errno}

/-- An update that succeeds. -/
theorem apply_update_ok (heq : s.map.elemUpdate key value flags = (.ok (), map)) :
    s.apply (.update key value flags) =
      some (.status (.ok ()), ⟨map, Function.update s.reference key (some value)⟩) := by
  unfold apply
  dsimp only
  rw [heq]

/-- And one that fails. -/
theorem apply_update_error (heq : s.map.elemUpdate key value flags = (.error e, map)) :
    s.apply (.update key value flags) = some (.status (.error e), ⟨map, s.reference⟩) := by
  unfold apply
  dsimp only
  rw [heq]

/-- An update should succeed for flags that allow it. -/
theorem right_update_ok {s' : GpuHashRun keySize valueSize} :
    Right s s' (.update key value flags) (.status (.ok ())) ↔ Allowed flags (s.reference key ≠ none) := by
  constructor
  · intro hright
    exact hright.1 rfl
  · intro hallowed
    exact ⟨fun _ => hallowed, fun _ _ => rfl, fun hne => absurd rfl hne⟩

/-- And fail for others, or where no room is left. -/
theorem right_update_error (hkey : map.keyAt = s.map.keyAt) (harray : map.arrayMap = s.map.arrayMap) :
    Right s ⟨map, s.reference⟩ (.update key value flags) (.status (.error e)) ↔
      ¬ (Allowed flags (s.reference key ≠ none) ∧
        (s.reference key ≠ none ∨ s.map.storedKeys.card < s.map.arrayMap.maxEntries)) := by
  constructor
  · rintro ⟨-, hok, -⟩ ⟨hallowed, hroom⟩
    cases hok hallowed hroom
  · intro hnot
    refine ⟨fun heq => (by cases heq), fun hallowed hroom => ?_, fun _ => ⟨hkey, harray⟩⟩
    exact absurd ⟨hallowed, hroom⟩ hnot

/-- What a step leaves, under its condition: the invariant. -/
def Keeps (s : GpuHashRun keySize valueSize) (op : GpuHashOp keySize valueSize) : Prop :=
  ∀ next ∈ s.apply op, Inv next.2

/-- What an operation keeps is said of its result. -/
theorem keeps_of_apply {op : GpuHashOp keySize valueSize} {ret : GpuHashRet keySize valueSize}
    {s' : GpuHashRun keySize valueSize} (happly : s.apply op = some (ret, s')) (h : Inv s') : s.Keeps op := by
  intro next hnext
  rw [happly] at hnext
  cases hnext
  exact h

/-- The two things to show of an operation. -/
def Settled (s : GpuHashRun keySize valueSize) (op : GpuHashOp keySize valueSize) : Prop :=
  (s.Lawful op ↔ Suits s.map op) ∧ (Suits s.map op → s.Keeps op)

/-- An operation whose outcome keeps the invariant is lawful when what it returns is right. -/
theorem settled_of_inv {op : GpuHashOp keySize valueSize} {ret : GpuHashRet keySize valueSize}
    {s' : GpuHashRun keySize valueSize} (happly : s.apply op = some (ret, s')) (h : Inv s')
    (hright : Right s s' op ret ↔ Suits s.map op) : s.Settled op := by
  refine ⟨?_, fun _ => keeps_of_apply happly h⟩
  rw [lawful_iff_of_apply happly, hright]
  exact and_iff_left h.agrees

/-- One that returns what is right is lawful when it agrees afterwards. -/
theorem settled_of_right {op : GpuHashOp keySize valueSize} {ret : GpuHashRet keySize valueSize}
    {s' : GpuHashRun keySize valueSize} (happly : s.apply op = some (ret, s')) (hright : Right s s' op ret)
    (hinv : Suits s.map op → Inv s') (hsuits : Agrees s' → Suits s.map op) : s.Settled op := by
  refine ⟨?_, fun hsuit => keeps_of_apply happly (hinv hsuit)⟩
  rw [lawful_iff_of_apply happly]
  exact ⟨fun hlawful => hsuits hlawful.2, fun hsuit => ⟨hright, (hinv hsuit).agrees⟩⟩

/-- An update with a new key. -/
theorem update_vacant_settled (h : Inv s) (hvalid : checkUpdateFlags flags = true)
    (hf : s.map.findBucket key = .vacant i) : s.Settled (.update key value flags) := by
  obtain ⟨hi, hnone⟩ := probe_vacant_slot (h.home_lt key) hf
  have hcount : s.map.count < s.map.numBuckets := by
    rw [h.count]
    exact card_filledSlots_lt hi hnone
  have habsent : s.reference key = none := h.reference_none fun j hj => by
    rw [hf] at hj
    cases hj
  have hkey : (s.map.setKey i key).keyAt = s.map.keyAt := GpuHashMap.keyAt_setKey hnone
  -- the value's place in the array is the bucket's index, multiplied into 32 bits
  by_cases hindex : GpuArrayMap.keyVal i < s.map.arrayMap.maxEntries
  · by_cases hnoexist : flags = BPF_NOEXIST
    · -- the array map takes the element to be there
      subst hnoexist
      have hupdate :=
        GpuHashMap.elemUpdate_vacant_error hvalid hf hcount (GpuArrayMap.elemUpdate_noexist value hindex)
      refine settled_of_inv (apply_update_error hupdate) (inv_setKey h hf) ?_
      rw [right_update_error hkey rfl, suits_vacant hvalid hf, if_pos hindex, if_pos rfl, habsent]
      have hallowed : Allowed BPF_NOEXIST ((none : Option (Vector Byte valueSize)) ≠ none) :=
        ⟨hvalid, fun _ hne => hne rfl, fun hflag => absurd hflag (by decide)⟩
      constructor
      · intro hnot
        by_contra hroom
        exact hnot ⟨hallowed, .inr (Nat.not_le.mp hroom)⟩
      · rintro hfull ⟨-, hne | hroom⟩
        · exact hne rfl
        · exact absurd hfull (Nat.not_le.mpr hroom)
    · have hupdate :=
        GpuHashMap.elemUpdate_vacant_ok hvalid hf hcount (GpuArrayMap.elemUpdate_ok value hvalid hnoexist hindex)
      have hsuits : Suits s.map (.update key value flags) ↔ flags ≠ BPF_EXIST ∧ SlotFree s.map i value := by
        rw [suits_vacant hvalid hf, if_pos hindex, if_neg hnoexist]
      by_cases hexist : flags = BPF_EXIST
      · -- the map looks at this flag nowhere
        have hnot : ¬ Suits s.map (.update key value flags) := fun hsuit => (hsuits.mp hsuit).1 hexist
        refine ⟨?_, fun hsuit => absurd hsuit hnot⟩
        rw [lawful_iff_of_apply (apply_update_ok hupdate), right_update_ok]
        exact ⟨fun hlawful => absurd habsent (hlawful.1.2.2 hexist), fun hsuit => absurd hsuit hnot⟩
      · refine settled_of_right (apply_update_ok hupdate) ?_ ?_ ?_
        · exact right_update_ok.mpr ⟨hvalid, fun hflag => absurd hflag hnoexist, fun hflag => absurd hflag hexist⟩
        · intro hsuit
          exact inv_insert h hf hindex (hsuits.mp hsuit).2
        · intro hagrees
          have hfill : ((s.map.setKey i key).setFilled i).keyAt = Function.update s.map.keyAt i (some key) :=
            GpuHashMap.keyAt_fill
          refine hsuits.mpr ⟨hexist, slotFree_of_agrees h hagrees rfl rfl ?_ ?_⟩
          · show Chained ((s.map.setKey i key).setFilled i).keyAt s.map.numBuckets s.map.home
            rw [hfill]
            exact h.stores.chained.fill (h.home_lt key) hf
          · intro j hj hji key' hk
            have hne : key' ≠ key := by
              rintro rfl
              rw [h.findBucket hj hk] at hf
              cases hf
            refine ⟨?_, Function.update_of_ne hne _ _⟩
            show ((s.map.setKey i key).setFilled i).keyAt j = some key'
            rw [hfill, Function.update_of_ne hji]
            exact hk
  · -- the bucket is behind the array map's last element
    have hupdate := GpuHashMap.elemUpdate_vacant_error hvalid hf hcount
      (GpuArrayMap.elemUpdate_range value hvalid (Nat.not_lt.mp hindex))
    refine settled_of_inv (apply_update_error hupdate) (inv_setKey h hf) ?_
    rw [right_update_error hkey rfl, suits_vacant hvalid hf, if_neg hindex, habsent]
    constructor
    · intro hnot
      by_contra hboth
      obtain ⟨hexist, hroom⟩ := not_or.mp hboth
      exact hnot ⟨⟨hvalid, fun _ hne => hne rfl, fun hflag => absurd hflag hexist⟩, .inr (Nat.not_le.mp hroom)⟩
    · rintro (hexist | hfull) ⟨hallowed, hne | hroom⟩
      · exact hne rfl
      · exact hallowed.2.2 hexist rfl
      · exact hne rfl
      · exact absurd hfull (Nat.not_le.mpr hroom)

/-- An update with a stored key. -/
theorem update_found_settled (h : Inv s) (hvalid : checkUpdateFlags flags = true)
    (hf : s.map.findBucket key = .found i) : s.Settled (.update key value flags) := by
  obtain ⟨hi, hk⟩ := h.found_slot hf
  have hstored : s.reference key ≠ none := by
    rw [h.reference_found hf]
    exact Option.some_ne_none _
  have hindex := h.inRange i hi (by rw [hk]; exact Option.some_ne_none key)
  have hupdate : s.map.elemUpdate key value flags = _ := GpuHashMap.elemUpdate_found hvalid hf
  -- `BPF_NOEXIST` is refused by the array map, as it should be
  by_cases hnoexist : flags = BPF_NOEXIST
  · subst hnoexist
    rw [GpuArrayMap.elemUpdate_noexist value hindex] at hupdate
    refine settled_of_inv (apply_update_error hupdate) h ?_
    rw [right_update_error rfl rfl]
    exact ⟨fun _ => (suits_found hvalid hf).mpr (.inl rfl), fun _ hallowed => hallowed.1.2.1 rfl hstored⟩
  · rw [GpuArrayMap.elemUpdate_ok value hvalid hnoexist hindex] at hupdate
    have hsuits : Suits s.map (.update key value flags) ↔ SlotFree s.map i value :=
      (suits_found hvalid hf).trans (or_iff_right hnoexist)
    refine settled_of_right (apply_update_ok hupdate) ?_ ?_ ?_
    · exact right_update_ok.mpr ⟨hvalid, fun hflag => absurd hflag hnoexist, fun _ => hstored⟩
    · intro hsuit
      exact inv_overwrite h hf (hsuits.mp hsuit)
    · intro hagrees
      refine hsuits.mpr (slotFree_of_agrees h hagrees rfl rfl h.stores.chained ?_)
      intro j hj hji key' hk'
      have hne : key' ≠ key := by
        rintro rfl
        exact hji (h.stores.chained.once j i key' hj hi hk' hk)
      exact ⟨hk', Function.update_of_ne hne _ _⟩

/-- An update that goes around the whole table. -/
theorem update_exhausted_settled (h : Inv s) (hvalid : checkUpdateFlags flags = true)
    (hf : s.map.findBucket key = .exhausted) : s.Settled (.update key value flags) := by
  have habsent : s.reference key = none := h.reference_none fun j hj => by
    rw [hf] at hj
    cases hj
  have hfull : s.map.arrayMap.maxEntries ≤ s.map.storedKeys.card := by
    rw [h.card_storedKeys, card_filledSlots_full fun i hi => probe_exhausted (h.home_lt key) hf hi]
    exact h.room
  refine settled_of_inv (apply_update_error (GpuHashMap.elemUpdate_exhausted hvalid hf)) h ?_
  rw [right_update_error rfl rfl]
  refine ⟨fun _ => suits_exhausted hf, ?_⟩
  · rintro - ⟨-, hstored | hroom⟩
    · exact hstored habsent
    · exact absurd hfull (Nat.not_le.mpr hroom)

/-- **An update**, by the bucket that is found. -/
theorem update_settled (h : Inv s) : s.Settled (.update key value flags) := by
  cases hvalid : checkUpdateFlags flags with
  | false =>
      refine settled_of_inv (apply_update_error (GpuHashMap.elemUpdate_invalid hvalid)) h ?_
      rw [right_update_error rfl rfl]
      refine ⟨fun _ htrue => ?_, fun _ hallowed => ?_⟩
      · rw [hvalid] at htrue
        cases htrue
      · have htrue := hallowed.1.1
        rw [hvalid] at htrue
        cases htrue
  | true =>
      cases hf : s.map.findBucket key with
      | vacant i => exact update_vacant_settled h hvalid hf
      | found i => exact update_found_settled h hvalid hf
      | exhausted => exact update_exhausted_settled h hvalid hf

end Update

/-- **A lookup.** -/
theorem lookup_settled (h : Inv s) (key : Vector Byte keySize) : s.Settled (.lookup key) := by
  have hright : Right s s (.lookup key) (.value (s.map.elemLookup key)) := congrArg _ (h.agrees.lookup key)
  exact settled_of_inv rfl h (iff_of_true hright trivial)

/-- Deleting a key that is not there. -/
theorem delete_absent_settled (h : Inv s) (hf : ∀ i, s.map.findBucket key ≠ .found i)
    (hdelete : s.map.elemDelete key = (.error .enoent, s.map)) : s.Settled (.delete key) := by
  have happly : s.apply (.delete key) = some (.status (.error .enoent), s) := by
    unfold apply
    dsimp only
    rw [hdelete]
  refine settled_of_inv happly h (iff_of_true ?_ ?_)
  · refine ⟨fun heq => (by cases heq), fun hstored => absurd (h.reference_none hf) hstored⟩
  · intro i hi hk
    exact absurd (h.findBucket hi hk) (hf i)

/-- **A delete**, by the bucket that is found. -/
theorem delete_settled (h : Inv s) (key : Vector Byte keySize) : s.Settled (.delete key) := by
  cases hf : s.map.findBucket key with
  | vacant i =>
      exact delete_absent_settled h (fun j hj => by rw [hf] at hj; cases hj) (by rw [GpuHashMap.elemDelete, hf])
  | exhausted =>
      exact delete_absent_settled h (fun j hj => by rw [hf] at hj; cases hj) (by rw [GpuHashMap.elemDelete, hf])
  | found i =>
      obtain ⟨hi, hk⟩ := h.found_slot hf
      have happly : s.apply (.delete key) =
          some (.status (.ok ()), ⟨{ s.map.setEmpty i with count := s.map.count - 1 },
            Function.update s.reference key none⟩) := by
        unfold apply GpuHashMap.elemDelete
        dsimp only
        rw [hf]
      refine settled_of_right happly ?_ (fun hsuit => inv_delete h hf (hsuit i hi hk)) ?_
      · refine iff_of_true rfl ?_
        rw [h.reference_found hf]
        exact Option.some_ne_none _
      · -- the key behind a broken chain is not looked up
        rintro hagrees i' hi' hk' ⟨j, key', hj, hji, hkj, hlt⟩
        obtain rfl := h.stores.chained.once i' i key hi' hi hk' hk
        have hne : key' ≠ key := by
          rintro rfl
          exact hji (h.stores.chained.once j i' key' hj hi hkj hk)
        have hlookup : GpuHashMap.elemLookup { s.map.setEmpty i' with count := s.map.count - 1 } key' =
            Function.update s.reference key none key' := hagrees.lookup key'
        have hprobe : probe (s.map.setEmpty i').keyAt s.map.numBuckets key' (s.map.home key') = .vacant i' := by
          rw [GpuHashMap.keyAt_setEmpty]
          exact probe_vacate h.stores.chained (h.home_lt key') hi hj hkj hlt
        have hmissed : GpuHashMap.elemLookup { s.map.setEmpty i' with count := s.map.count - 1 } key' = none := by
          unfold GpuHashMap.elemLookup GpuHashMap.findBucket
          have hprobe' : probe ({ s.map.setEmpty i' with count := s.map.count - 1 } :
            GpuHashMap keySize valueSize).keyAt s.map.numBuckets key' (s.map.home key') = .vacant i' := hprobe
          exact hprobe' ▸ rfl
        rw [hmissed] at hlookup
        have hstored : Function.update s.reference key none key' = some (s.map.arrayMap.values (GpuArrayMap.keyVal j)) := by
          rw [Function.update_of_ne hne]
          exact (h.stores.entries key' _).mpr ⟨j, hj, hkj, rfl⟩
        rw [hstored] at hlookup
        cases hlookup

/-- The next key is the one of the next filled bucket. -/
theorem right_getNextKey (h : Inv s) {key : Option (Vector Byte keySize)} {index : Nat} :
    Right s s (.getNextKey key) (.key (s.map.nextFilled index)) := by
  intro key' hret
  have hnext : s.map.nextFilled index = .ok key' := by
    injection hret
  obtain ⟨i, hi, hk⟩ := GpuHashMap.nextFilled_stored hnext
  rw [(h.stores.entries key' _).mpr ⟨i, hi, hk, rfl⟩]
  exact Option.some_ne_none _

/-- **`map_get_next_key`**. -/
theorem getNextKey_settled (h : Inv s) (key : Option (Vector Byte keySize)) : s.Settled (.getNextKey key) := by
  cases key with
  | none => exact settled_of_inv rfl h (iff_of_true (right_getNextKey h) trivial)
  | some key =>
      have happly : s.apply (.getNextKey (some key)) = do
          let ret ← s.map.mapGetNextKey (some key)
          return (.key ret, s) := rfl
      by_cases hfound : ∃ i, s.map.findBucket key = .found i
      · obtain ⟨i, hf⟩ := hfound
        rw [GpuHashMap.mapGetNextKey_found hf] at happly
        exact settled_of_inv happly h (iff_of_true (right_getNextKey h) ⟨i, h.found_slot hf⟩)
      · rw [GpuHashMap.mapGetNextKey_absent fun i hf => hfound ⟨i, hf⟩] at happly
        have hnot : ¬ Suits s.map (.getNextKey (some key)) := by
          rintro ⟨i, hi, hk⟩
          exact hfound ⟨i, h.findBucket hi hk⟩
        refine ⟨⟨?_, fun hsuit => absurd hsuit hnot⟩, fun hsuit => absurd hsuit hnot⟩
        rintro ⟨ret, s', heq, -⟩
        rw [happly] at heq
        cases heq

/-- **An operation is lawful exactly when it suits the map**, and then it keeps the invariant. -/
theorem settled (h : Inv s) (op : GpuHashOp keySize valueSize) : s.Settled op := by
  cases op with
  | lookup key => exact lookup_settled h key
  | update key value flags => exact update_settled h
  | delete key => exact delete_settled h key
  | getNextKey key => exact getNextKey_settled h key

end GpuHashRun

/-- **The shared hash map refines a finite map** along a run exactly when every operation suits the map it finds. -/
theorem gpuHashMap_refines_iff (maxEntries : Nat) (ops : List (GpuHashOp keySize valueSize)) :
    Lib.AllSteps GpuHashRun.apply GpuHashRun.Lawful (GpuHashRun.new maxEntries) ops ↔
      Lib.AllSteps GpuHashRun.apply (fun s op => GpuHashRun.Suits s.map op) (GpuHashRun.new maxEntries) ops := by
  have hiff : ∀ (s : GpuHashRun keySize valueSize) op, s.Inv → (s.Lawful op ↔ GpuHashRun.Suits s.map op) :=
    fun s op h => (GpuHashRun.settled h op).1
  have hkeeps : ∀ (s : GpuHashRun keySize valueSize) op, s.Inv → GpuHashRun.Suits s.map op →
      ∀ next ∈ s.apply op, next.2.Inv := fun s op h hop => (GpuHashRun.settled h op).2 hop
  exact Lib.allSteps_iff_of_invariant hiff hkeeps (GpuHashRun.inv_new maxEntries) ops

/-- Iteration from a key that is not stored does not return. -/
theorem gpuHashMap_waits :
    ¬ Lib.AllSteps GpuHashRun.apply GpuHashRun.Lawful (GpuHashRun.new 1 : GpuHashRun 1 1)
      [.getNextKey (some (single 0))] := by
  rintro ⟨⟨ret, s', happly, -⟩, -⟩
  cases happly

end Maps
