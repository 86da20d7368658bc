import FreeProbe.Maps.HashMapRefine
import Mathlib.Data.List.Nodup
import Mathlib.Data.List.Perm.Basic

/-!
# `Maps.FixHashMap` — `fix_size_hash_map_impl`

The map handler's hash map: a `bpftime_hash_map`, and beside it the number of buckets that was asked for. An update and
a delete drop what the hash map answers. `map_get_next_key` goes over as many buckets as were asked for, from behind
the bucket of the key that it is given.
-/

namespace Maps

open Lib.LinearProbing

/-- `fix_hash_map_impl`: the open-addressing table with its limits. -/
structure FixSizeHashMap (keySize valueSize : Nat) where
  mapImpl    : HashMap keySize valueSize
  numBuckets : Nat

variable {keySize valueSize : Nat}

/-- The length of an element of `data_buffer`. -/
def elemSize (keySize valueSize : Nat) : Nat := 4 + keySize + valueSize

/-- Where `get_value(index)` points to in `data_buffer`. -/
def valueOffset (keySize valueSize index : Nat) : Nat := index * elemSize keySize valueSize + 4 + keySize

/-- `get_index_of_value`; `none` is `(size_t)-1`. -/
def HashMap.getIndexOfValue (map : HashMap keySize valueSize) (offset : Nat) : Option Nat :=
  if offset < map.numBuckets * elemSize keySize valueSize then some (offset / elemSize keySize valueSize) else none

namespace FixSizeHashMap

/-- The constructor. `_num_buckets` is a `uint32_t`, the parameter a `size_t`. -/
def new (numBuckets : Nat) : FixSizeHashMap keySize valueSize := ⟨HashMap.new numBuckets, numBuckets % 2 ^ 32⟩

/-- `elem_lookup` -/
def elemLookup (map : FixSizeHashMap keySize valueSize) (key : Vector Byte keySize) : Option (Vector Byte valueSize) :=
  map.mapImpl.elemLookup key

/-- The flags are not looked at. -/
def elemUpdate (map : FixSizeHashMap keySize valueSize) (key : Vector Byte keySize) (value : Vector Byte valueSize)
    (_flags : BitVec 64) : Except Errno Unit × FixSizeHashMap keySize valueSize :=
  (.ok (), { map with mapImpl := (map.mapImpl.elemUpdate key value).2 })

/-- `elem_delete` answers what the table answers, whether the key was there or not. -/
def elemDelete (map : FixSizeHashMap keySize valueSize) (key : Vector Byte keySize) :
    Except Errno Unit × FixSizeHashMap keySize valueSize :=
  (.ok (), { map with mapImpl := (map.mapImpl.elemDelete key).2 })

/-- The loops of `map_get_next_key`: the key of the first bucket from `start` on that is in use. -/
def firstKey (map : FixSizeHashMap keySize valueSize) (start : Nat) : Except Errno (Vector Byte keySize) :=
  match (List.range' start (map.numBuckets - start)).find? fun i => !(map.mapImpl.buckets i).isEmpty with
  | some i => .ok (map.mapImpl.getKey i)
  | none => .error .enoent

/-- `none` is a null `key`. -/
def mapGetNextKey (map : FixSizeHashMap keySize valueSize) : Option (Vector Byte keySize) → Except Errno (Vector Byte keySize)
  | none => map.firstKey 0
  | some key =>
    match map.mapImpl.findBucket key with
    | .found index =>
      match map.mapImpl.getIndexOfValue (valueOffset keySize valueSize index) with
      | some index => map.firstKey (index + 1)
      -- `(size_t)-1 + 1`
      | none => map.firstKey 0
    | .vacant _ | .exhausted => map.firstKey 0

/-! ## Runs -/

/-- The operations. -/
inductive Op (keySize valueSize : Nat) where
  | update (key : Vector Byte keySize) (value : Vector Byte valueSize) (flags : BitVec 64)
  | delete (key : Vector Byte keySize)

/-- One operation. -/
def step (map : FixSizeHashMap keySize valueSize) : Op keySize valueSize → FixSizeHashMap keySize valueSize
  | .update key value flags => (map.elemUpdate key value flags).2
  | .delete key => (map.elemDelete key).2

/-- A run from the empty map. -/
def run (numBuckets : Nat) (ops : List (Op keySize valueSize)) : FixSizeHashMap keySize valueSize :=
  ops.foldl step (new numBuckets)

/-! ## Truthful results

A result is truthful when it says what has happened: that a value is stored, that a key is deleted, or why not. -/

/-- An update succeeds just when it stores the value, fails as the flags and the capacity say, and a failure changes
nothing. -/
structure UpdateTruthful (map : FixSizeHashMap keySize valueSize) (key : Vector Byte keySize)
    (value : Vector Byte valueSize) (flags : BitVec 64) : Prop where
  stored    : (map.elemUpdate key value flags).1 = .ok () ↔ (map.elemUpdate key value flags).2.elemLookup key = some value
  noexist   : flags = BPF_NOEXIST → map.elemLookup key ≠ none → (map.elemUpdate key value flags).1 = .error .eexist
  exist     : flags = BPF_EXIST → map.elemLookup key = none → (map.elemUpdate key value flags).1 = .error .enoent
  full      : map.elemLookup key = none → map.mapImpl.maxElementCount ≤ map.mapImpl.getElemCount →
    ∃ e, (map.elemUpdate key value flags).1 = .error e
  unchanged : ∀ e, (map.elemUpdate key value flags).1 = .error e → (map.elemUpdate key value flags).2 = map

/-- A delete says whether it has deleted. -/
structure DeleteTruthful (map : FixSizeHashMap keySize valueSize) (key : Vector Byte keySize) : Prop where
  absent    : (map.elemDelete key).1 = .error .enoent ↔ map.elemLookup key = none
  unchanged : ∀ e, (map.elemDelete key).1 = .error e → (map.elemDelete key).2 = map

/-- **The condition on an update.** There is nothing for it to refuse. -/
def UpdateFits (map : FixSizeHashMap keySize valueSize) (key : Vector Byte keySize) (flags : BitVec 64) : Prop :=
  (flags = BPF_NOEXIST → map.elemLookup key = none) ∧ (flags = BPF_EXIST → map.elemLookup key ≠ none) ∧
    (map.elemLookup key = none → map.mapImpl.getElemCount < map.mapImpl.maxElementCount)

/-! ## A complete iteration

A user iterates by handing back the key that was returned last, until the error at the end. -/

/-- The keys that `map_get_next_key` returns one after the other until it fails with `ENOENT`. -/
inductive Walk (map : FixSizeHashMap keySize valueSize) : Option (Vector Byte keySize) → List (Vector Byte keySize) → Prop
  | stop {last} (h : map.mapGetNextKey last = .error .enoent) : Walk map last []
  | next {last key keys} (h : map.mapGetNextKey last = .ok key) (rest : Walk map (some key) keys) : Walk map last (key :: keys)

/-- What is stored, bucket by bucket. -/
def storedKeys (map : FixSizeHashMap keySize valueSize) : List (Vector Byte keySize) :=
  (List.range map.mapImpl.numBuckets).filterMap map.mapImpl.keyAt

/-- **The iteration** visits every stored key exactly once, and ends. -/
def IteratesAll (map : FixSizeHashMap keySize valueSize) : Prop :=
  ∃ keys, Walk map none keys ∧ keys.Nodup ∧ keys.Perm map.storedKeys

/-- **The condition on a table.** Every bucket in use is one of those asked for, a lookup of its key finds it, and
where values have no bytes there is an empty bucket behind it. -/
def IterationFits (map : FixSizeHashMap keySize valueSize) : Prop :=
  ∀ i < map.mapImpl.numBuckets, ∀ key, map.mapImpl.keyAt i = some key →
    i < map.numBuckets ∧ map.mapImpl.findBucket key = .found i ∧
      (valueSize = 0 → i + 1 < map.mapImpl.numBuckets ∧ map.mapImpl.keyAt (i + 1) = none)

/-! ## The results

`elem_update` and `elem_delete` return 0 in any case, so they are right exactly when there was nothing to refuse. -/

/-- What every run keeps. -/
structure Inv (map : FixSizeHashMap keySize valueSize) : Prop where
  rounded : map.numBuckets ≤ map.mapImpl.numBuckets
  pos     : 0 < map.mapImpl.numBuckets
  most    : map.mapImpl.maxElementCount ≤ map.mapImpl.numBuckets
  count   : map.mapImpl.count = map.mapImpl.filledBuckets.card

/-- An empty map. -/
theorem inv_new (numBuckets : Nat) : Inv (new numBuckets : FixSizeHashMap keySize valueSize) where
  rounded := Nat.le_trans (Nat.mod_le _ _) (nextPrime_prime numBuckets).2
  pos := (nextPrime_prime numBuckets).1.pos
  most := (nextPrime_prime numBuckets).2
  count := by
    refine (Finset.card_eq_zero.mpr (Finset.filter_eq_empty_iff.mpr ?_)).symm
    intro i _ hi
    cases hi

variable {map : FixSizeHashMap keySize valueSize}

/-- A hash gives a bucket. -/
theorem Inv.home_lt (h : Inv map) (key : Vector Byte keySize) : map.mapImpl.home key < map.mapImpl.numBuckets :=
  Nat.mod_lt _ h.pos

/-- An update that takes a vacant bucket. -/
theorem inv_insert (h : Inv map) {key : Vector Byte keySize} (value : Vector Byte valueSize) {i : Nat}
    (hf : map.mapImpl.findBucket key = .vacant i) :
    Inv { map with mapImpl := { map.mapImpl.setBucket i ⟨1, key, value⟩ with count := map.mapImpl.count + 1 } } where
  rounded := h.rounded
  pos := h.pos
  most := h.most
  count := by
    obtain ⟨hi, hnone⟩ := probe_vacant_slot (h.home_lt key) hf
    have hkey := HashMap.keyAt_fill map.mapImpl i key value
    show map.mapImpl.count + 1 = (map.mapImpl.setBucket i ⟨1, key, value⟩).filledBuckets.card
    rw [HashMap.card_filledBuckets_fill map.mapImpl hi hnone hkey rfl, h.count]

/-- Each operation keeps the invariant. -/
theorem inv_step (h : Inv map) (op : Op keySize valueSize) : Inv (map.step op) := by
  cases op with
  | update key value flags =>
      show Inv { map with mapImpl := (map.mapImpl.elemUpdate key value).2 }
      cases hf : map.mapImpl.findBucket key with
      | vacant i =>
          by_cases hfull : map.mapImpl.count ≥ map.mapImpl.maxElementCount
          · simp only [HashMap.elemUpdate, hf, hfull, ↓reduceIte]
            exact h
          · simp only [HashMap.elemUpdate, hf, hfull, ↓reduceIte]
            exact inv_insert h value hf
      | found i =>
          simp only [HashMap.elemUpdate, hf]
          exact ⟨h.rounded, h.pos, h.most, h.count.trans
            (congrArg Finset.card (HashMap.filledBuckets_congr map.mapImpl (HashMap.keyAt_setValue map.mapImpl i value) rfl).symm)⟩
      | exhausted =>
          simp only [HashMap.elemUpdate, hf]
          exact h
  | delete key =>
      show Inv { map with mapImpl := (map.mapImpl.elemDelete key).2 }
      cases hf : map.mapImpl.findBucket key with
      | vacant i =>
          simp only [HashMap.elemDelete, hf]
          exact h
      | found i =>
          obtain ⟨hi, hk⟩ := probe_found_slot (h.home_lt key) hf
          have hcard := HashMap.card_filledBuckets_vacate map.mapImpl hi hk (HashMap.keyAt_vacate map.mapImpl i) rfl
          simp only [HashMap.elemDelete, hf]
          exact ⟨h.rounded, h.pos, h.most, (congrArg (· - 1) h.count).trans hcard.symm⟩
      | exhausted =>
          simp only [HashMap.elemDelete, hf]
          exact h

/-- And so does any run. -/
theorem inv_run (numBuckets : Nat) (ops : List (Op keySize valueSize)) : Inv (run numBuckets ops) := by
  induction ops using List.reverseRecOn with
  | nil => exact inv_new numBuckets
  | append_singleton ops op ih =>
      rw [run, List.foldl_append]
      exact inv_step ih op

/-- What a lookup finds after an update of the hash map. -/
theorem elemLookup_update (h : Inv map) (key : Vector Byte keySize) (value : Vector Byte valueSize) :
    (map.mapImpl.elemUpdate key value).2.elemLookup key = some value ↔
      (map.elemLookup key = none → map.mapImpl.count < map.mapImpl.maxElementCount) := by
  unfold elemLookup
  cases hf : map.mapImpl.findBucket key with
  | vacant i =>
      have hnone : map.mapImpl.elemLookup key = none := by
        rw [HashMap.elemLookup, hf]
      by_cases hfull : map.mapImpl.count ≥ map.mapImpl.maxElementCount
      · have hup : map.mapImpl.elemUpdate key value = (false, map.mapImpl) := by
          simp only [HashMap.elemUpdate, hf, hfull, ↓reduceIte]
        rw [hup, hnone]
        exact ⟨fun hsome => (by cases hsome), fun hroom => absurd (hroom rfl) (Nat.not_lt_of_le hfull)⟩
      · have hup : map.mapImpl.elemUpdate key value =
            (true, { map.mapImpl.setBucket i ⟨1, key, value⟩ with count := map.mapImpl.count + 1 }) := by
          simp only [HashMap.elemUpdate, hf, hfull, ↓reduceIte]
        have hfound : (map.mapImpl.elemUpdate key value).2.findBucket key = .found i := by
          rw [hup]
          show probe (map.mapImpl.setBucket i ⟨1, key, value⟩).keyAt map.mapImpl.numBuckets key (map.mapImpl.home key) = _
          rw [HashMap.keyAt_fill]
          exact probe_fill (h.home_lt key) hf
        rw [HashMap.elemLookup, hfound]
        refine ⟨fun _ _ => Nat.lt_of_not_le hfull, fun _ => ?_⟩
        rw [hup]
        exact congrArg some (HashMap.getValue_setBucket_self map.mapImpl i _)
  | found i =>
      have hsome : map.mapImpl.elemLookup key ≠ none := by
        rw [HashMap.elemLookup, hf]
        exact Option.some_ne_none _
      have hup : map.mapImpl.elemUpdate key value =
          (true, map.mapImpl.setBucket i { map.mapImpl.buckets i with value := value }) := by
        simp only [HashMap.elemUpdate, hf]
      have hfound : (map.mapImpl.elemUpdate key value).2.findBucket key = .found i := by
        rw [hup]
        show probe (map.mapImpl.setBucket i _).keyAt map.mapImpl.numBuckets key (map.mapImpl.home key) = _
        rw [HashMap.keyAt_setValue]
        exact hf
      rw [HashMap.elemLookup, hfound]
      refine ⟨fun _ hnone => absurd hnone hsome, fun _ => ?_⟩
      rw [hup]
      exact congrArg some (HashMap.getValue_setBucket_self map.mapImpl i _)
  | exhausted =>
      have hnone : map.mapImpl.elemLookup key = none := by
        rw [HashMap.elemLookup, hf]
      have hup : map.mapImpl.elemUpdate key value = (false, map.mapImpl) := by
        simp only [HashMap.elemUpdate, hf]
      -- no bucket is empty, so the count is the number of buckets
      have hall : map.mapImpl.filledBuckets = Finset.range map.mapImpl.numBuckets := by
        refine Finset.filter_true_of_mem fun i hi => ?_
        exact Option.isSome_iff_ne_none.mpr (probe_exhausted (h.home_lt key) hf (Finset.mem_range.mp hi))
      have hcount := h.count
      rw [hall, Finset.card_range] at hcount
      rw [hup, hnone]
      refine ⟨fun hsome => (by cases hsome), fun hroom => absurd (hroom rfl) (Nat.not_lt_of_le ?_)⟩
      rw [hcount]
      exact h.most

/-- **An update says what it has done** exactly when it fits. -/
theorem updateTruthful_iff (h : Inv map) (key : Vector Byte keySize) (value : Vector Byte valueSize) (flags : BitVec 64) :
    map.UpdateTruthful key value flags ↔ map.UpdateFits key flags := by
  have hlookup := elemLookup_update h key value
  constructor
  · intro htrue
    refine ⟨fun hflags => ?_, fun hflags hnone => ?_, hlookup.mp (htrue.stored.mp rfl)⟩
    · by_contra hsome
      cases htrue.noexist hflags hsome
    · cases htrue.exist hflags hnone
  · rintro ⟨hnoexist, hexist, hroom⟩
    refine ⟨⟨fun _ => hlookup.mpr hroom, fun _ => rfl⟩, fun hflags hsome => absurd (hnoexist hflags) hsome,
      fun hflags hnone => absurd hnone (hexist hflags), fun hnone hfull => absurd (hroom hnone) (Nat.not_lt_of_le hfull),
      fun e he => ?_⟩
    cases he

/-- **A delete** does for the keys that are stored. -/
theorem deleteTruthful_iff (key : Vector Byte keySize) : map.DeleteTruthful key ↔ map.elemLookup key ≠ none := by
  constructor
  · intro htrue hnone
    cases htrue.absent.mpr hnone
  · intro hsome
    refine ⟨⟨fun he => ?_, fun hnone => absurd hnone hsome⟩, fun e he => ?_⟩ <;> cases he

/-- **The results are truthful** exactly for the updates that there is nothing to refuse and the deletes of present
keys. -/
theorem fixHashMap_truthful_iff (keySize valueSize numBuckets : Nat) (ops : List (Op keySize valueSize))
    (key : Vector Byte keySize) :
    (∀ value flags, (run numBuckets ops).UpdateTruthful key value flags ↔ (run numBuckets ops).UpdateFits key flags) ∧
      ((run numBuckets ops).DeleteTruthful key ↔ (run numBuckets ops).elemLookup key ≠ none) :=
  ⟨fun value flags => updateTruthful_iff (inv_run numBuckets ops) key value flags, deleteTruthful_iff key⟩

/-- A delete of a key that is not there succeeds. -/
theorem fixHashMap_not_truthful : ¬ ∀ (keySize valueSize numBuckets : Nat) (ops : List (Op keySize valueSize))
    (key : Vector Byte keySize),
    (∀ value flags, (run numBuckets ops).UpdateTruthful key value flags) ∧ (run numBuckets ops).DeleteTruthful key := by
  intro h
  have hdelete := (h 1 1 1 [] (single 0)).2
  cases hdelete.absent.mpr (by decide)

/-! ## The iteration

The loop is bounded by the number of buckets that was asked for, while the table has rounded it up. -/

/-- An empty bucket has no key. -/
theorem isEmpty_iff {i : Nat} : (map.mapImpl.buckets i).isEmpty = true ↔ map.mapImpl.keyAt i = none := by
  unfold HashMap.keyAt Bucket.keyOf
  by_cases h : (map.mapImpl.buckets i).isEmpty = true
  · rw [if_pos h]
    exact ⟨fun _ => rfl, fun _ => h⟩
  · rw [if_neg h]
    exact ⟨fun h' => absurd h' h, fun h' => by cases h'⟩

/-- One round of the loops. -/
theorem firstKey_succ {start : Nat} (h : start < map.numBuckets) :
    map.firstKey start = match map.mapImpl.keyAt start with
      | some key => .ok key
      | none => map.firstKey (start + 1) := by
  obtain ⟨left, hleft⟩ := Nat.exists_eq_add_of_lt h
  have hrange : List.range' start (map.numBuckets - start) = start :: List.range' (start + 1) (map.numBuckets - (start + 1)) := by
    rw [show map.numBuckets - start = map.numBuckets - (start + 1) + 1 by omega, List.range'_succ]
  unfold firstKey
  rw [hrange, List.find?_cons]
  cases hkey : map.mapImpl.keyAt start with
  | none =>
      rw [isEmpty_iff.mpr hkey]
      rfl
  | some key =>
      have hfilled : (map.mapImpl.buckets start).isEmpty = false := by
        rw [Bool.eq_false_iff]
        intro hempty
        rw [isEmpty_iff, hkey] at hempty
        cases hempty
      rw [hfilled]
      exact congrArg Except.ok (HashMap.keyAt_eq_some hkey)

/-- Behind the last bucket that is looked at there is no key. -/
theorem firstKey_end {start : Nat} (h : map.numBuckets ≤ start) : map.firstKey start = .error .enoent := by
  unfold firstKey
  rw [Nat.sub_eq_zero_of_le h]
  rfl

/-- What `firstKey` finds; the induction is on the buckets that are left. -/
theorem firstKey_ok {start : Nat} {key : Vector Byte keySize} (h : map.firstKey start = .ok key) :
    ∃ i, start ≤ i ∧ i < map.numBuckets ∧ map.mapImpl.keyAt i = some key ∧
      ∀ j, start ≤ j → j < i → map.mapImpl.keyAt j = none := by
  induction hleft : map.numBuckets - start generalizing start with
  | zero =>
      rw [firstKey_end (Nat.le_of_sub_eq_zero hleft)] at h
      cases h
  | succ left ih =>
      have hstart : start < map.numBuckets := by omega
      rw [firstKey_succ hstart] at h
      cases hkey : map.mapImpl.keyAt start with
      | some key' =>
          rw [hkey] at h
          cases h
          exact ⟨start, Nat.le_refl _, hstart, hkey, fun j hj hlt => absurd hj (Nat.not_le_of_lt hlt)⟩
      | none =>
          rw [hkey] at h
          obtain ⟨i, hle, hi, hfound, hbefore⟩ := ih h (by omega)
          refine ⟨i, Nat.le_of_succ_le hle, hi, hfound, fun j hj hlt => ?_⟩
          rcases Nat.eq_or_lt_of_le hj with rfl | hlt'
          · exact hkey
          · exact hbefore j hlt' hlt

/-- The keys of the buckets from `start` on. -/
def keysFrom (map : FixSizeHashMap keySize valueSize) (start : Nat) : List (Vector Byte keySize) :=
  (List.range' start (map.numBuckets - start)).filterMap map.mapImpl.keyAt

/-- The keys from a bucket on. -/
theorem keysFrom_succ {start : Nat} (h : start < map.numBuckets) :
    map.keysFrom start = (map.mapImpl.keyAt start).toList ++ map.keysFrom (start + 1) := by
  unfold keysFrom
  rw [show map.numBuckets - start = map.numBuckets - (start + 1) + 1 by omega, List.range'_succ, List.filterMap_cons]
  cases map.mapImpl.keyAt start <;> rfl

/-- Where a lookup of a key finds its own bucket, and values have bytes or the next bucket is empty, the iteration goes
on behind it. -/
theorem mapGetNextKey_found {i : Nat} {key : Vector Byte keySize} (hi : i < map.mapImpl.numBuckets)
    (hf : map.mapImpl.findBucket key = .found i)
    (hvalue : valueSize = 0 → i + 1 < map.mapImpl.numBuckets ∧ map.mapImpl.keyAt (i + 1) = none) :
    map.mapGetNextKey (some key) = map.firstKey (i + 1) := by
  have hsize : 0 < elemSize keySize valueSize := by
    unfold elemSize
    omega
  have hoffset : valueOffset keySize valueSize i = i * elemSize keySize valueSize + (4 + keySize) := by
    unfold valueOffset
    omega
  unfold mapGetNextKey
  simp only [hf]
  unfold HashMap.getIndexOfValue
  by_cases hzero : valueSize = 0
  · obtain ⟨hlast, hempty⟩ := hvalue hzero
    have hnext : valueOffset keySize valueSize i = (i + 1) * elemSize keySize valueSize := by
      rw [hoffset, Nat.succ_mul]
      unfold elemSize
      omega
    rw [hnext, if_pos (Nat.mul_lt_mul_of_pos_right hlast hsize), Nat.mul_div_cancel _ hsize]
    show map.firstKey (i + 1 + 1) = map.firstKey (i + 1)
    by_cases hend : i + 1 < map.numBuckets
    · rw [firstKey_succ hend, hempty]
    · rw [firstKey_end (Nat.le_of_not_lt hend), firstKey_end (Nat.le_succ_of_le (Nat.le_of_not_lt hend))]
  · have hinside : 4 + keySize < elemSize keySize valueSize := by
      unfold elemSize
      omega
    have hlt : valueOffset keySize valueSize i < map.mapImpl.numBuckets * elemSize keySize valueSize := by
      rw [hoffset]
      exact Nat.lt_of_lt_of_le (Nat.add_lt_add_left hinside _)
        ((Nat.succ_mul i _).symm.le.trans (Nat.mul_le_mul_right _ hi))
    rw [if_pos hlt, hoffset, Nat.add_comm, Nat.add_mul_div_right _ _ hsize, Nat.div_eq_of_lt hinside, Nat.zero_add]

/-- On a table that fits, the iteration goes over the buckets; the induction is on the buckets that are left. -/
theorem walk_of_fits (h : Inv map) (hfits : map.IterationFits) {start : Nat} {last : Option (Vector Byte keySize)}
    (hlast : map.mapGetNextKey last = map.firstKey start) : Walk map last (map.keysFrom start) := by
  induction hleft : map.numBuckets - start generalizing start last with
  | zero =>
      have hend : map.numBuckets ≤ start := Nat.le_of_sub_eq_zero hleft
      unfold keysFrom
      rw [hleft]
      exact .stop (hlast.trans (firstKey_end hend))
  | succ left ih =>
      have hstart : start < map.numBuckets := by omega
      rw [firstKey_succ hstart] at hlast
      rw [keysFrom_succ hstart]
      cases hkey : map.mapImpl.keyAt start with
      | none =>
          rw [hkey] at hlast
          exact ih hlast (by omega)
      | some key =>
          rw [hkey] at hlast
          have hi : start < map.mapImpl.numBuckets := Nat.lt_of_lt_of_le hstart h.rounded
          obtain ⟨-, hf, hvalue⟩ := hfits start hi key hkey
          exact .next hlast (ih (mapGetNextKey_found hi hf hvalue) (by omega))

/-! ### What a complete iteration says of the table -/

/-- A key of a walk comes after one before it, or first. -/
theorem Walk.mem_keyAt {last : Option (Vector Byte keySize)} {keys : List (Vector Byte keySize)} (hwalk : Walk map last keys)
    {key : Vector Byte keySize} (hkey : key ∈ keys) :
    ∃ last', (last' = last ∨ ∃ key' ∈ keys, last' = some key') ∧ map.mapGetNextKey last' = .ok key := by
  induction hwalk with
  | stop h => cases hkey
  | @next last first keys h rest ih =>
      rcases List.mem_cons.mp hkey with rfl | hkey
      · exact ⟨last, Or.inl rfl, h⟩
      · obtain ⟨last', hlast', hnext⟩ := ih hkey
        refine ⟨last', Or.inr ?_, hnext⟩
        rcases hlast' with rfl | ⟨key', hkey', rfl⟩
        · exact ⟨first, List.mem_cons_self, rfl⟩
        · exact ⟨key', List.mem_cons_of_mem _ hkey', rfl⟩

/-- What comes after a key that has been visited. -/
theorem Walk.suffix {last : Option (Vector Byte keySize)} {keys : List (Vector Byte keySize)} (hwalk : Walk map last keys)
    {key : Vector Byte keySize} (hkey : key ∈ keys) : ∃ before after, keys = before ++ key :: after ∧ Walk map (some key) after := by
  induction hwalk with
  | stop h => cases hkey
  | @next last first keys h rest ih =>
      rcases List.mem_cons.mp hkey with rfl | hkey
      · exact ⟨[], keys, rfl, rest⟩
      · obtain ⟨before, after, rfl, hafter⟩ := ih hkey
        exact ⟨first :: before, after, rfl, hafter⟩

/-- An iteration that does not visit a key twice never starts again. -/
theorem Walk.no_restart {keys : List (Vector Byte keySize)} (hwalk : Walk map none keys) (hnodup : keys.Nodup)
    {key : Vector Byte keySize} (hkey : key ∈ keys) : map.mapGetNextKey (some key) ≠ map.firstKey 0 := by
  intro hagain
  obtain ⟨before, after, rfl, hafter⟩ := hwalk.suffix hkey
  have hfirst : ∃ first rest, before ++ key :: after = first :: rest ∧ map.firstKey 0 = .ok first := by
    cases hkeys : before ++ key :: after with
    | nil => simp at hkeys
    | cons first rest =>
        rw [hkeys] at hwalk
        cases hwalk with
        | next h _ => exact ⟨first, rest, rfl, h⟩
  obtain ⟨first, rest, heq, hok⟩ := hfirst
  cases hafter with
  | stop h =>
      rw [hagain, hok] at h
      cases h
  | @next _ second after h _ =>
      rw [hagain, hok] at h
      obtain rfl := Except.ok.inj h
      -- the first key is visited again behind `key`
      cases before with
      | nil =>
          obtain ⟨rfl, -⟩ := List.cons.inj heq
          exact (List.nodup_cons.mp hnodup).1 List.mem_cons_self
      | cons b before =>
          obtain ⟨rfl, -⟩ := List.cons.inj heq
          refine (List.nodup_cons.mp hnodup).1 ?_
          exact List.mem_append_right _ (List.mem_cons_of_mem _ List.mem_cons_self)

/-- No key is in two buckets, where the list of the stored keys has no key twice. -/
theorem once_of_nodup (hnodup : map.storedKeys.Nodup) {i j : Nat} {key : Vector Byte keySize}
    (hi : i < map.mapImpl.numBuckets) (hj : j < map.mapImpl.numBuckets) (hki : map.mapImpl.keyAt i = some key)
    (hkj : map.mapImpl.keyAt j = some key) : i = j := by
  have hpairs := List.pairwise_filterMap.mp hnodup
  by_contra hne
  rcases Nat.lt_or_gt_of_ne hne with hlt | hgt
  · have hpair := List.pairwise_iff_getElem.mp hpairs i j (by rwa [List.length_range]) (by rwa [List.length_range]) hlt
    rw [List.getElem_range, List.getElem_range] at hpair
    exact hpair key hki key hkj rfl
  · have hpair := List.pairwise_iff_getElem.mp hpairs j i (by rwa [List.length_range]) (by rwa [List.length_range]) hgt
    rw [List.getElem_range, List.getElem_range] at hpair
    exact hpair key hkj key hki rfl

/-- The keys of all buckets. -/
theorem mem_storedKeys {key : Vector Byte keySize} :
    key ∈ map.storedKeys ↔ ∃ i < map.mapImpl.numBuckets, map.mapImpl.keyAt i = some key := by
  unfold storedKeys
  simp only [List.mem_filterMap, List.mem_range]

/-- Where a lookup finds a key. -/
theorem findBucket_of_next (h : Inv map) (hnodup : map.storedKeys.Nodup) {i : Nat} {key : Vector Byte keySize}
    (hi : i < map.mapImpl.numBuckets) (hkey : map.mapImpl.keyAt i = some key)
    (hnext : map.mapGetNextKey (some key) ≠ map.firstKey 0) : map.mapImpl.findBucket key = .found i := by
  cases hf : map.mapImpl.findBucket key with
  | found j =>
      obtain ⟨hj, hkj⟩ := probe_found_slot (h.home_lt key) hf
      rw [once_of_nodup hnodup hj hi hkj hkey]
  | vacant j =>
      refine absurd ?_ hnext
      unfold mapGetNextKey
      simp only [hf]
  | exhausted =>
      refine absurd ?_ hnext
      unfold mapGetNextKey
      simp only [hf]

/-- Where values have no bytes, the bucket behind the one that a lookup finds is passed over. -/
theorem mapGetNextKey_passes (hvalue : valueSize = 0) {i : Nat} {key : Vector Byte keySize}
    (hf : map.mapImpl.findBucket key = .found i) :
    map.mapGetNextKey (some key) = if i + 1 < map.mapImpl.numBuckets then map.firstKey (i + 2) else map.firstKey 0 := by
  have hsize : 0 < elemSize keySize valueSize := by
    unfold elemSize
    omega
  have hoffset : valueOffset keySize valueSize i = (i + 1) * elemSize keySize valueSize := by
    unfold valueOffset
    rw [Nat.succ_mul]
    unfold elemSize
    omega
  unfold mapGetNextKey
  simp only [hf]
  unfold HashMap.getIndexOfValue
  rw [hoffset]
  by_cases hlast : i + 1 < map.mapImpl.numBuckets
  · rw [if_pos (Nat.mul_lt_mul_of_pos_right hlast hsize), if_pos hlast, Nat.mul_div_cancel _ hsize]
  · rw [if_neg (Nat.not_lt_of_le (Nat.mul_le_mul_right _ (Nat.le_of_not_lt hlast))), if_neg hlast]

/-- Where values have no bytes, the second of two buckets in use side by side is reached only from the bucket before
the first. -/
theorem before_neighbours (h : Inv map) (hvalue : valueSize = 0) {keys : List (Vector Byte keySize)}
    (hwalk : Walk map none keys) (hnodup : map.storedKeys.Nodup)
    (hnext : ∀ key ∈ keys, map.mapGetNextKey (some key) ≠ map.firstKey 0)
    (hall : ∀ key, key ∈ keys ↔ key ∈ map.storedKeys) {i : Nat} {key key' : Vector Byte keySize}
    (hkey : map.mapImpl.keyAt i = some key) (hkey' : map.mapImpl.keyAt (i + 1) = some key')
    (hi : i + 1 < map.mapImpl.numBuckets) : ∃ j key'', i = j + 1 ∧ map.mapImpl.keyAt j = some key'' := by
  obtain ⟨last, hlast, hok⟩ := hwalk.mem_keyAt ((hall key').mpr (mem_storedKeys.mpr ⟨i + 1, hi, hkey'⟩))
  -- a loop that stops at the second bucket starts there
  have hstart {start : Nat} (hfirst : map.firstKey start = .ok key') : start = i + 1 := by
    obtain ⟨j, hle, hj, hkj, hbefore⟩ := firstKey_ok hfirst
    obtain rfl := once_of_nodup hnodup (Nat.lt_of_lt_of_le hj h.rounded) hi hkj hkey'
    by_contra hne
    have hempty := hbefore i (by omega) (Nat.lt_succ_self i)
    rw [hkey] at hempty
    cases hempty
  rcases hlast with rfl | ⟨key'', hmem, rfl⟩
  · exact absurd (hstart hok) (Nat.succ_ne_zero i).symm
  · obtain ⟨j, hj, hkj⟩ := mem_storedKeys.mp ((hall key'').mp hmem)
    have hpass := mapGetNextKey_passes hvalue (findBucket_of_next h hnodup hj hkj (hnext key'' hmem))
    by_cases hlast : j + 1 < map.mapImpl.numBuckets
    · rw [if_pos hlast, hok] at hpass
      have hj' := hstart hpass.symm
      exact ⟨j, key'', by omega, hkj⟩
    · rw [if_neg hlast] at hpass
      exact absurd hpass (hnext key'' hmem)

/-- So there are none, down to bucket 0. -/
theorem no_neighbours (h : Inv map) (hvalue : valueSize = 0) {keys : List (Vector Byte keySize)}
    (hwalk : Walk map none keys) (hnodup : map.storedKeys.Nodup)
    (hnext : ∀ key ∈ keys, map.mapGetNextKey (some key) ≠ map.firstKey 0)
    (hall : ∀ key, key ∈ keys ↔ key ∈ map.storedKeys) {i : Nat} {key key' : Vector Byte keySize}
    (hkey : map.mapImpl.keyAt i = some key) (hkey' : map.mapImpl.keyAt (i + 1) = some key') :
    ¬ i + 1 < map.mapImpl.numBuckets := by
  intro hi
  induction i generalizing key key' with
  | zero =>
      obtain ⟨j, -, hj, -⟩ := before_neighbours h hvalue hwalk hnodup hnext hall hkey hkey' hi
      cases hj
  | succ i ih =>
      obtain ⟨j, key'', hj, hkj⟩ := before_neighbours h hvalue hwalk hnodup hnext hall hkey hkey' hi
      obtain rfl := Nat.succ.inj hj
      exact ih hkj hkey (Nat.lt_of_succ_lt hi)

/-- A walk that finds all keys looks at all filled buckets. -/
theorem fits_of_iteratesAll (h : Inv map) (hiterates : map.IteratesAll) : map.IterationFits := by
  obtain ⟨keys, hwalk, hnodup, hperm⟩ := hiterates
  have hstored : map.storedKeys.Nodup := hperm.nodup_iff.mp hnodup
  have hall (key : Vector Byte keySize) : key ∈ keys ↔ key ∈ map.storedKeys := hperm.mem_iff
  have hnext (key : Vector Byte keySize) (hmem : key ∈ keys) : map.mapGetNextKey (some key) ≠ map.firstKey 0 :=
    hwalk.no_restart hnodup hmem
  intro i hi key hkey
  have hmem : key ∈ keys := (hall key).mpr (mem_storedKeys.mpr ⟨i, hi, hkey⟩)
  have hfound := findBucket_of_next h hstored hi hkey (hnext key hmem)
  refine ⟨?_, hfound, fun hvalue => ?_⟩
  · -- only the buckets asked for are gone over
    obtain ⟨last, -, hok⟩ := hwalk.mem_keyAt hmem
    have hfirst : ∃ start, map.firstKey start = .ok key := by
      unfold mapGetNextKey at hok
      split at hok
      · exact ⟨_, hok⟩
      · split at hok
        · split at hok <;> exact ⟨_, hok⟩
        all_goals exact ⟨_, hok⟩
    obtain ⟨start, hfirst⟩ := hfirst
    obtain ⟨j, -, hj, hkj, -⟩ := firstKey_ok hfirst
    obtain rfl := once_of_nodup hstored (Nat.lt_of_lt_of_le hj h.rounded) hi hkj hkey
    exact hj
  · have hlast : i + 1 < map.mapImpl.numBuckets := by
      by_contra hlast
      have hpass := mapGetNextKey_passes hvalue hfound
      rw [if_neg hlast] at hpass
      exact hnext key hmem hpass
    refine ⟨hlast, ?_⟩
    cases hkey' : map.mapImpl.keyAt (i + 1) with
    | none => rfl
    | some key' => exact absurd hlast (no_neighbours h hvalue hwalk hstored hnext hall hkey hkey')

/-- And one that looks at all of them finds all keys. -/
theorem iteratesAll_of_fits (h : Inv map) (hfits : map.IterationFits) : map.IteratesAll := by
  have hwalk : Walk map none (map.keysFrom 0) := walk_of_fits h hfits rfl
  -- behind the buckets asked for there is none in use
  have hkeys : map.keysFrom 0 = map.storedKeys := by
    unfold keysFrom storedKeys
    obtain ⟨more, hmore⟩ := Nat.exists_eq_add_of_le h.rounded
    rw [hmore, List.range_add, List.filterMap_append, Nat.sub_zero, ← List.range_eq_range', List.self_eq_append_right,
      List.filterMap_eq_nil_iff]
    intro i hi
    obtain ⟨j, hj, rfl⟩ := List.mem_map.mp hi
    rw [List.mem_range] at hj
    cases hkey : map.mapImpl.keyAt (map.numBuckets + j) with
    | none => rfl
    | some key => exact absurd (hfits _ (by omega) key hkey).1 (by omega)
  refine ⟨map.keysFrom 0, hwalk, ?_, by rw [hkeys]⟩
  rw [hkeys]
  refine List.pairwise_filterMap.mpr ((List.nodup_range).imp_of_mem fun {i j} hi hj hne => ?_)
  intro key hki key' hkj heq
  subst heq
  have hfi := (hfits i (List.mem_range.mp hi) key hki).2.1
  have hfj := (hfits j (List.mem_range.mp hj) key hkj).2.1
  rw [hfi] at hfj
  exact hne (Probe.found.inj hfj)

/-- **The iteration is complete** exactly on a table that fits. -/
theorem fixHashMap_iterates_iff (keySize valueSize numBuckets : Nat) (ops : List (Op keySize valueSize)) :
    (run numBuckets ops).IteratesAll ↔ (run numBuckets ops).IterationFits :=
  ⟨fits_of_iteratesAll (inv_run numBuckets ops), iteratesAll_of_fits (inv_run numBuckets ops)⟩

/-- One bucket is asked for and there are two: the key in the second one is not visited. -/
theorem fixHashMap_not_iterates : ¬ ∀ (keySize valueSize numBuckets : Nat) (ops : List (Op keySize valueSize)),
    (run numBuckets ops).IteratesAll := by
  intro h
  obtain ⟨keys, hwalk, -, hperm⟩ := h 1 1 1 [.update (single 1) (single 7) BPF_ANY]
  have hnext : (run 1 [.update (single 1) (single 7) BPF_ANY]).mapGetNextKey none = .error .enoent := by rfl
  cases hwalk with
  | stop _ => exact absurd hperm.length_eq (by decide)
  | next hok _ =>
      rw [hnext] at hok
      cases hok

end FixSizeHashMap

end Maps
