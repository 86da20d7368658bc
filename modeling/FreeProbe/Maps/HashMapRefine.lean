import FreeProbe.Maps.HashMap
import Mathlib.Data.Finset.Card

/-!
# `Maps.HashMapRefine` — the hash map against a finite map

The reference is the finite map that the answers of the operations describe: a successful update sets the
key, a delete removes it. `HashMapInv` ties a map to its reference through the probe chains; updates keep it,
and so does a delete that vacates a bucket no other key's probe path crosses. One that vacates such a bucket
hides the key behind it at once (`delete_crossed`), so the map agrees with its reference all along a run
exactly when no delete of the run does that (`hashMap_refines_iff`).
-/

namespace Maps

open Lib.LinearProbing

variable {keySize valueSize : Nat}

/-- An operation of a run. -/
inductive HashMapOp (keySize valueSize : Nat) where
  | lookup (key : Vector Byte keySize)
  | update (key : Vector Byte keySize) (value : Vector Byte valueSize)
  | delete (key : Vector Byte keySize)

/-- A map beside its reference. -/
structure HashMapRun (keySize valueSize : Nat) where
  map : HashMap keySize valueSize
  reference : Vector Byte keySize → Option (Vector Byte valueSize)

/-- One operation on both. -/
def HashMapRun.step (s : HashMapRun keySize valueSize) : HashMapOp keySize valueSize → HashMapRun keySize valueSize
  | .lookup _ => s
  | .update key value =>
    ⟨(s.map.elemUpdate key value).2,
      if (s.map.elemUpdate key value).1 then Function.update s.reference key (some value) else s.reference⟩
  | .delete key => ⟨(s.map.elemDelete key).2, Function.update s.reference key none⟩

/-- A run from the empty map. -/
def hashMapRun (numBuckets : Nat) (ops : List (HashMapOp keySize valueSize)) : HashMapRun keySize valueSize :=
  ops.foldl HashMapRun.step ⟨HashMap.new numBuckets, fun _ => none⟩

namespace HashMap

/-- The buckets in use. -/
def filledBuckets (map : HashMap keySize valueSize) : Finset Nat :=
  (Finset.range map.numBuckets).filter fun i => (map.keyAt i).isSome

/-- The keys in them. -/
def storedKeys (map : HashMap keySize valueSize) : Finset (Vector Byte keySize) :=
  map.filledBuckets.image map.getKey

end HashMap

/-- What the map shows is what the reference says: every lookup, one bucket a key, and the count. -/
structure HashMapAgrees (s : HashMapRun keySize valueSize) : Prop where
  lookup : ∀ key, s.map.elemLookup key = s.reference key
  once : ∀ i j key, i < s.map.numBuckets → j < s.map.numBuckets → s.map.keyAt i = some key →
    s.map.keyAt j = some key → i = j
  count : s.map.getElemCount = s.map.storedKeys.card

/-- No bucket that holds the key is crossed by the probe path of another stored key. -/
def DeleteSafe (map : HashMap keySize valueSize) (key : Vector Byte keySize) : Prop :=
  ∀ i, i < map.numBuckets → map.keyAt i = some key → ¬ Crossed map.keyAt map.numBuckets map.home i

/-! ## Buckets -/

namespace HashMap

variable (map : HashMap keySize valueSize)

variable {map} in
/-- The key of a filled bucket. -/
theorem keyAt_eq_some {i : Nat} {key : Vector Byte keySize} (h : map.keyAt i = some key) : map.getKey i = key := by
  unfold keyAt Bucket.keyOf at h
  split at h
  · cases h
  · exact Option.some.inj h

/-- Setting a bucket changes its key only. -/
theorem keyAt_setBucket (i : Nat) (b : Bucket keySize valueSize) :
    (map.setBucket i b).keyAt = Function.update map.keyAt i b.keyOf :=
  Function.comp_update Bucket.keyOf map.buckets i b

/-- Filling a bucket. -/
theorem keyAt_fill (i : Nat) (key : Vector Byte keySize) (value : Vector Byte valueSize) :
    (map.setBucket i ⟨1, key, value⟩).keyAt = Function.update map.keyAt i (some key) :=
  keyAt_setBucket map i _

/-- Overwriting a value. -/
theorem keyAt_setValue (i : Nat) (value : Vector Byte valueSize) :
    (map.setBucket i { map.buckets i with value := value }).keyAt = map.keyAt :=
  (keyAt_setBucket map i _).trans (Function.update_eq_self i map.keyAt)

/-- `set_empty` -/
theorem keyAt_vacate (i : Nat) :
    (map.setBucket i { map.buckets i with filled := 0 }).keyAt = Function.update map.keyAt i none :=
  keyAt_setBucket map i _

/-- And its value. -/
theorem getValue_setBucket_self (i : Nat) (b : Bucket keySize valueSize) :
    (map.setBucket i b).getValue i = b.value := by
  simp only [getValue, setBucket, Function.update_self]

/-- The others keep theirs. -/
theorem getValue_setBucket_of_ne {i j : Nat} (hj : j ≠ i) (b : Bucket keySize valueSize) :
    (map.setBucket i b).getValue j = map.getValue j := by
  simp only [getValue, setBucket, Function.update_of_ne hj]

variable {map} in
/-- The buckets with a key. -/
theorem mem_filledBuckets {i : Nat} : i ∈ map.filledBuckets ↔ i < map.numBuckets ∧ (map.keyAt i).isSome := by
  rw [filledBuckets, Finset.mem_filter, Finset.mem_range]

/-- One more bucket in use. -/
theorem card_filledBuckets_fill {map' : HashMap keySize valueSize} {i : Nat} {key : Vector Byte keySize}
    (hi : i < map.numBuckets) (hnone : map.keyAt i = none) (hkey : map'.keyAt = Function.update map.keyAt i (some key))
    (hn : map'.numBuckets = map.numBuckets) :
    map'.filledBuckets.card = map.filledBuckets.card + 1 := by
  have hnot : i ∉ map.filledBuckets := by
    rw [mem_filledBuckets, hnone]
    exact fun h => by cases h.2
  rw [← Finset.card_insert_of_notMem hnot]
  congr 1
  ext j
  rw [Finset.mem_insert, mem_filledBuckets, mem_filledBuckets, hn, hkey]
  by_cases hj : j = i
  · subst hj; rw [Function.update_self]; simp [hi]
  · rw [Function.update_of_ne hj]; simp [hj]

/-- One less. -/
theorem card_filledBuckets_vacate {map' : HashMap keySize valueSize} {i : Nat} {key : Vector Byte keySize}
    (hi : i < map.numBuckets) (hsome : map.keyAt i = some key) (hkey : map'.keyAt = Function.update map.keyAt i none)
    (hn : map'.numBuckets = map.numBuckets) :
    map'.filledBuckets.card = map.filledBuckets.card - 1 := by
  have hmem : i ∈ map.filledBuckets := by
    rw [mem_filledBuckets, hsome]
    exact ⟨hi, rfl⟩
  rw [← Finset.card_erase_of_mem hmem]
  congr 1
  ext j
  rw [Finset.mem_erase, mem_filledBuckets, mem_filledBuckets, hn, hkey]
  by_cases hj : j = i
  · subst hj; rw [Function.update_self]; simp
  · rw [Function.update_of_ne hj]; simp [hj]

/-- Are told by their keys. -/
theorem filledBuckets_congr {map' : HashMap keySize valueSize} (hkey : map'.keyAt = map.keyAt)
    (hn : map'.numBuckets = map.numBuckets) : map'.filledBuckets = map.filledBuckets := by
  unfold filledBuckets
  rw [hn, hkey]

end HashMap

/-! ## The invariant -/

/-- A map with unbroken chains that holds its reference's entries. -/
structure HashMapInv (s : HashMapRun keySize valueSize) : Prop where
  pos : 0 < s.map.numBuckets
  chained : Chained s.map.keyAt s.map.numBuckets s.map.home
  entries : ∀ key value, s.reference key = some value ↔
    ∃ i, i < s.map.numBuckets ∧ s.map.keyAt i = some key ∧ s.map.getValue i = value
  count : s.map.count = s.map.filledBuckets.card

variable {s : HashMapRun keySize valueSize}

/-- A hash gives a bucket. -/
theorem HashMapInv.home_lt (h : HashMapInv s) (key : Vector Byte keySize) : s.map.home key < s.map.numBuckets :=
  Nat.mod_lt _ h.pos

/-- A stored key is found where it is. -/
theorem HashMapInv.findBucket (h : HashMapInv s) {key : Vector Byte keySize} {i : Nat}
    (hi : i < s.map.numBuckets) (hk : s.map.keyAt i = some key) : s.map.findBucket key = .found i :=
  probe_found h.chained (h.home_lt key) hi hk

/-- A key that is not found is not in the reference. -/
theorem HashMapInv.reference_none (h : HashMapInv s) {key : Vector Byte keySize}
    (hf : ∀ i, s.map.findBucket key ≠ .found i) : s.reference key = none := by
  cases hr : s.reference key with
  | none => rfl
  | some value =>
      obtain ⟨i, hi, hk, -⟩ := (h.entries key value).mp hr
      exact absurd (h.findBucket hi hk) (hf i)

/-- **The invariant gives agreement.** -/
theorem HashMapInv.agrees (h : HashMapInv s) : HashMapAgrees s where
  lookup := by
    intro key
    unfold HashMap.elemLookup
    cases hf : s.map.findBucket key with
    | vacant i => exact (h.reference_none fun j hj => by rw [hf] at hj; cases hj).symm
    | exhausted => exact (h.reference_none fun j hj => by rw [hf] at hj; cases hj).symm
    | found i =>
        obtain ⟨hi, hk⟩ := probe_found_slot (h.home_lt key) hf
        exact ((h.entries key _).mpr ⟨i, hi, hk, rfl⟩).symm
  once := fun i j key hi hj => h.chained.once i j key hi hj
  count := by
    rw [HashMap.getElemCount, h.count, HashMap.storedKeys, Finset.card_image_of_injOn]
    intro i hi j hj hij
    obtain ⟨hi, hki⟩ := HashMap.mem_filledBuckets.mp hi
    obtain ⟨hj, hkj⟩ := HashMap.mem_filledBuckets.mp hj
    obtain ⟨ki, hki⟩ := Option.isSome_iff_exists.mp hki
    obtain ⟨kj, hkj⟩ := Option.isSome_iff_exists.mp hkj
    rw [HashMap.keyAt_eq_some hki, HashMap.keyAt_eq_some hkj] at hij
    exact h.chained.once i j ki hi hj hki (hij ▸ hkj)

/-- An empty map. -/
theorem hashMapInv_new (numBuckets : Nat) :
    HashMapInv (⟨HashMap.new numBuckets, fun _ => none⟩ : HashMapRun keySize valueSize) where
  pos := (nextPrime_prime numBuckets).1.pos
  chained := ⟨fun _ _ _ hk => (nomatch hk), fun _ _ _ _ _ hk => (nomatch hk)⟩
  entries := fun key value => ⟨fun h => (nomatch h), fun ⟨_, _, hk, _⟩ => (nomatch hk)⟩
  count := by
    symm
    refine Finset.card_eq_zero.mpr (Finset.filter_eq_empty_iff.mpr ?_)
    intro i _ hi
    cases hi

/-- An update that takes a vacant bucket. -/
theorem hashMapInv_insert (h : HashMapInv s) {key : Vector Byte keySize} (value : Vector Byte valueSize) {i : Nat}
    (hf : s.map.findBucket key = .vacant i) :
    HashMapInv ⟨{ s.map.setBucket i ⟨1, key, value⟩ with count := s.map.count + 1 },
      Function.update s.reference key (some value)⟩ := by
  obtain ⟨hi, hnone⟩ := probe_vacant_slot (h.home_lt key) hf
  have hkey := HashMap.keyAt_fill s.map i key value
  have habsent : ∀ j, j < s.map.numBuckets → s.map.keyAt j ≠ some key := fun j hj =>
    probe_not_found h.chained (h.home_lt key) (fun i' hf' => by
      rw [← HashMap.findBucket, hf] at hf'
      cases hf') hj
  refine ⟨h.pos, ?_, fun key' value' => ?_, ?_⟩
  · show Chained (s.map.setBucket i ⟨1, key, value⟩).keyAt s.map.numBuckets s.map.home
    rw [hkey]
    exact h.chained.fill (h.home_lt key) hf
  · show Function.update s.reference key (some value) key' = some value' ↔
      ∃ j, j < s.map.numBuckets ∧ (s.map.setBucket i ⟨1, key, value⟩).keyAt j = some key' ∧
      (s.map.setBucket i ⟨1, key, value⟩).getValue j = value'
    rw [hkey]
    by_cases hkk : key' = key
    · subst hkk
      rw [Function.update_self]
      constructor
      · intro hv
        obtain rfl := Option.some.inj hv
        exact ⟨i, hi, Function.update_self .., HashMap.getValue_setBucket_self ..⟩
      · rintro ⟨j, hj, hk, rfl⟩
        by_cases hji : j = i
        · subst hji
          rw [HashMap.getValue_setBucket_self]
        · rw [Function.update_of_ne hji] at hk
          exact absurd hk (habsent j hj)
    · rw [Function.update_of_ne hkk, h.entries]
      refine exists_congr fun j => and_congr_right fun hj => ?_
      by_cases hji : j = i
      · subst hji
        rw [Function.update_self, hnone]
        exact ⟨fun hx => (nomatch hx.1), fun hx => absurd (Option.some.inj hx.1).symm hkk⟩
      · rw [Function.update_of_ne hji, HashMap.getValue_setBucket_of_ne s.map hji]
  · show s.map.count + 1 = (s.map.setBucket i ⟨1, key, value⟩).filledBuckets.card
    rw [HashMap.card_filledBuckets_fill s.map hi hnone hkey rfl, h.count]

/-- An update that overwrites a value. -/
theorem hashMapInv_overwrite (h : HashMapInv s) {key : Vector Byte keySize} (value : Vector Byte valueSize)
    {i : Nat} (hf : s.map.findBucket key = .found i) :
    HashMapInv ⟨s.map.setBucket i { s.map.buckets i with value := value },
      Function.update s.reference key (some value)⟩ := by
  obtain ⟨hi, hk⟩ := probe_found_slot (h.home_lt key) hf
  have hkey := HashMap.keyAt_setValue s.map i value
  refine ⟨h.pos, ?_, fun key' value' => ?_, ?_⟩
  · show Chained (s.map.setBucket i _).keyAt s.map.numBuckets s.map.home
    rw [hkey]
    exact h.chained
  · show Function.update s.reference key (some value) key' = some value' ↔
      ∃ j, j < s.map.numBuckets ∧ (s.map.setBucket i _).keyAt j = some key' ∧
      (s.map.setBucket i _).getValue j = value'
    rw [hkey]
    by_cases hkk : key' = key
    · subst hkk
      rw [Function.update_self]
      constructor
      · intro hv
        obtain rfl := Option.some.inj hv
        exact ⟨i, hi, hk, HashMap.getValue_setBucket_self ..⟩
      · rintro ⟨j, hj, hk', rfl⟩
        obtain rfl := h.chained.once j i key' hj hi hk' hk
        rw [HashMap.getValue_setBucket_self]
    · rw [Function.update_of_ne hkk, h.entries]
      refine exists_congr fun j => and_congr_right fun hj => and_congr_right fun hk' => ?_
      have hji : j ≠ i := fun hji => by
        rw [hji, hk] at hk'
        exact hkk (Option.some.inj hk').symm
      rw [HashMap.getValue_setBucket_of_ne s.map hji]
  · show s.map.count = (s.map.setBucket i _).filledBuckets.card
    rw [HashMap.filledBuckets_congr s.map hkey rfl, h.count]

/-- **Updates keep the invariant.** -/
theorem hashMapInv_update (h : HashMapInv s) (key : Vector Byte keySize) (value : Vector Byte valueSize) :
    HashMapInv (s.step (.update key value)) := by
  show HashMapInv ⟨(s.map.elemUpdate key value).2,
    if (s.map.elemUpdate key value).1 then Function.update s.reference key (some value) else s.reference⟩
  cases hf : s.map.findBucket key with
  | vacant i =>
      by_cases hfull : s.map.count ≥ s.map.maxElementCount
      · have hup : s.map.elemUpdate key value = (false, s.map) := by
          simp only [HashMap.elemUpdate, hf, hfull, ↓reduceIte]
        rw [hup]
        exact h
      · have hup : s.map.elemUpdate key value =
            (true, { s.map.setBucket i ⟨1, key, value⟩ with count := s.map.count + 1 }) := by
          simp only [HashMap.elemUpdate, hf, hfull, ↓reduceIte]
        rw [hup]
        exact hashMapInv_insert h value hf
  | found i =>
      have hup : s.map.elemUpdate key value =
          (true, s.map.setBucket i { s.map.buckets i with value := value }) := by
        simp only [HashMap.elemUpdate, hf]
      rw [hup]
      exact hashMapInv_overwrite h value hf
  | exhausted =>
      have hup : s.map.elemUpdate key value = (false, s.map) := by
        simp only [HashMap.elemUpdate, hf]
      rw [hup]
      exact h

/-- A delete that finds nothing leaves the reference as it is. -/
theorem hashMapInv_delete_absent (h : HashMapInv s) {key : Vector Byte keySize}
    (hf : ∀ i, s.map.findBucket key ≠ .found i) :
    HashMapInv ⟨s.map, Function.update s.reference key none⟩ := by
  have hr : Function.update s.reference key none = s.reference :=
    Function.update_eq_iff.mpr ⟨(h.reference_none hf).symm, fun _ _ => rfl⟩
  rw [hr]
  exact h

/-- **A delete keeps the invariant** when it vacates a bucket that no other key's path crosses. -/
theorem hashMapInv_delete (h : HashMapInv s) {key : Vector Byte keySize} (hsafe : DeleteSafe s.map key) :
    HashMapInv (s.step (.delete key)) := by
  show HashMapInv ⟨(s.map.elemDelete key).2, Function.update s.reference key none⟩
  unfold HashMap.elemDelete
  cases hf : s.map.findBucket key with
  | vacant i => exact hashMapInv_delete_absent h fun j hj => by rw [hf] at hj; cases hj
  | exhausted => exact hashMapInv_delete_absent h fun j hj => by rw [hf] at hj; cases hj
  | found i =>
      obtain ⟨hi, hk⟩ := probe_found_slot (h.home_lt key) hf
      have hkey := HashMap.keyAt_vacate s.map i
      refine ⟨h.pos, ?_, fun key' value' => ?_, ?_⟩
      · show Chained (s.map.setBucket i _).keyAt s.map.numBuckets s.map.home
        rw [hkey]
        exact h.chained.vacate (hsafe i hi hk)
      · show Function.update s.reference key none key' = some value' ↔
      ∃ j, j < s.map.numBuckets ∧ (s.map.setBucket i _).keyAt j = some key' ∧
          (s.map.setBucket i _).getValue j = value'
        rw [hkey]
        by_cases hkk : key' = key
        · subst hkk
          rw [Function.update_self]
          refine ⟨fun hv => (nomatch hv), fun ⟨j, hj, hk', _⟩ => ?_⟩
          by_cases hji : j = i
          · subst hji
            rw [Function.update_self] at hk'
            cases hk'
          · rw [Function.update_of_ne hji] at hk'
            exact absurd (h.chained.once j i key' hj hi hk' hk) hji
        · rw [Function.update_of_ne hkk, h.entries]
          refine exists_congr fun j => and_congr_right fun hj => ?_
          by_cases hji : j = i
          · subst hji
            rw [Function.update_self, hk]
            exact ⟨fun hx => absurd (Option.some.inj hx.1).symm hkk, fun hx => (nomatch hx.1)⟩
          · rw [Function.update_of_ne hji, HashMap.getValue_setBucket_of_ne s.map hji]
      · show s.map.count - 1 = (s.map.setBucket i _).filledBuckets.card
        rw [HashMap.card_filledBuckets_vacate s.map hi hk hkey rfl, h.count]

/-- **A delete that breaks a chain is seen at once**: the key behind the vacated bucket is gone for lookups. -/
theorem delete_crossed (h : HashMapInv s) {key : Vector Byte keySize} (hsafe : ¬ DeleteSafe s.map key) :
    ¬ HashMapAgrees (s.step (.delete key)) := by
  intro hag
  unfold DeleteSafe at hsafe
  push Not at hsafe
  obtain ⟨i, hi, hk, j, key', hj, hji, hk', hlt⟩ := hsafe
  have hf := h.findBucket hi hk
  have hne : key' ≠ key := by
    rintro rfl
    exact hji (h.chained.once j i key' hj hi hk' hk)
  -- the reference keeps the other key
  have href : (s.step (.delete key)).reference key' = some (s.map.getValue j) := by
    show Function.update s.reference key none key' = _
    rw [Function.update_of_ne hne]
    exact (h.entries key' _).mpr ⟨j, hj, hk', rfl⟩
  -- the map does not
  have hmap : (s.step (.delete key)).map =
      { s.map.setBucket i { s.map.buckets i with filled := 0 } with count := s.map.count - 1 } := by
    show (s.map.elemDelete key).2 = _
    rw [HashMap.elemDelete, hf]
  have hprobe : (s.step (.delete key)).map.findBucket key' = .vacant i := by
    rw [hmap]
    show probe (s.map.setBucket i { s.map.buckets i with filled := 0 }).keyAt s.map.numBuckets key'
      (s.map.home key') = _
    rw [HashMap.keyAt_vacate]
    exact probe_vacate h.chained (h.home_lt key') hi hj hk' hlt
  have hlookup := hag.lookup key'
  rw [HashMap.elemLookup, hprobe, href] at hlookup
  cases hlookup

/-! ## Runs -/

/-- One operation more. -/
theorem hashMapRun_snoc (numBuckets : Nat) (ops : List (HashMapOp keySize valueSize))
    (op : HashMapOp keySize valueSize) :
    hashMapRun numBuckets (ops ++ [op]) = (hashMapRun numBuckets ops).step op := by
  rw [hashMapRun, List.foldl_append]
  rfl

/-- The map agrees with its reference after every operation of the run. -/
def HashMapRefines (numBuckets : Nat) (ops : List (HashMapOp keySize valueSize)) : Prop :=
  ∀ pre post, ops = pre ++ post → HashMapAgrees (hashMapRun numBuckets pre)

/-- Every delete of the run vacates a bucket that no other stored key's probe path crosses. -/
def DeletesSafe (numBuckets : Nat) (ops : List (HashMapOp keySize valueSize)) : Prop :=
  ∀ pre key post, ops = pre ++ .delete key :: post → DeleteSafe (hashMapRun numBuckets pre).map key

/-- The first part of a run. -/
theorem DeletesSafe.left {numBuckets : Nat} {ops ops' : List (HashMapOp keySize valueSize)}
    (h : DeletesSafe numBuckets (ops ++ ops')) : DeletesSafe numBuckets ops := by
  intro pre key post he
  exact h pre key (post ++ ops') (by rw [he, List.append_assoc, List.cons_append])

/-- **The invariant of a run** whose deletes are safe. -/
theorem hashMapInv_run {numBuckets : Nat} {ops : List (HashMapOp keySize valueSize)}
    (h : DeletesSafe numBuckets ops) : HashMapInv (hashMapRun numBuckets ops) := by
  induction ops using List.reverseRecOn with
  | nil => exact hashMapInv_new numBuckets
  | append_singleton ops op ih =>
      have hinv := ih h.left
      rw [hashMapRun_snoc]
      cases op with
      | lookup key => exact hinv
      | update key value => exact hashMapInv_update hinv key value
      | delete key => exact hashMapInv_delete hinv (h ops key [] rfl)

/-- A run that refines has deleted safely. -/
theorem deletesSafe_of_refines {numBuckets : Nat} {ops : List (HashMapOp keySize valueSize)}
    (h : HashMapRefines numBuckets ops) : DeletesSafe numBuckets ops := by
  induction ops using List.reverseRecOn with
  | nil => exact fun pre key post he => absurd he (by simp)
  | append_singleton ops op ih =>
      have hsafe := ih fun pre post he => h pre (post ++ [op]) (by rw [he, List.append_assoc])
      intro pre key post he
      rcases List.eq_nil_or_concat post with rfl | ⟨post, op', rfl⟩
      · obtain ⟨rfl, hop⟩ := List.append_inj' he rfl
        obtain rfl := List.singleton_inj.mp hop
        by_contra hcross
        refine delete_crossed (hashMapInv_run hsafe) hcross ?_
        rw [← hashMapRun_snoc]
        exact h _ [] (List.append_nil _).symm
      · rw [List.concat_eq_append, ← List.cons_append, ← List.append_assoc] at he
        exact hsafe pre key post (List.append_inj' he rfl).1

/-- **The hash map refines a finite map on a run exactly when no delete of the run breaks a probe chain.** -/
theorem hashMap_refines_iff (numBuckets : Nat) (ops : List (HashMapOp keySize valueSize)) :
    HashMapRefines numBuckets ops ↔ DeletesSafe numBuckets ops := by
  refine ⟨deletesSafe_of_refines, fun h pre post he => ?_⟩
  subst he
  exact (hashMapInv_run h.left).agrees

/-- Two keys of one home bucket: with the first deleted, the second is not found. -/
theorem hashMap_not_refines :
    ¬ ∀ (keySize valueSize numBuckets : Nat) (ops : List (HashMapOp keySize valueSize)),
      HashMapRefines numBuckets ops := by
  intro h
  have hag := h 1 1 2 [.update #v[0] #v[7], .update #v[2] #v[9], .delete #v[0]] _ [] (List.append_nil _).symm
  have hlookup := hag.lookup #v[2]
  revert hlookup
  decide

end Maps
