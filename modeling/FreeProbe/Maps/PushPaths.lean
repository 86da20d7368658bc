import FreeProbe.Maps.Queue
import FreeProbe.Maps.Stack

/-!
# `Maps.PushPaths` — the two ways to push

`elem_update` and `map_push_elem` of the queue map and of the stack map store a value alike, but only the second looks
at flags that are none of a push: the first stores the value, or finds the map full.
-/

namespace Maps

/-- A store that fails finds the map full. -/
theorem QueueMap.store_ne_einval {valueSize maxEntries : BitVec 32} (map map' : QueueMap valueSize maxEntries)
    (value : Vector Byte valueSize.toNat) (flags : BitVec 64) : map.store value flags ≠ some (.error .einval, map') := by
  unfold QueueMap.store
  split
  · intro h
    cases h
  · exact bind_ok_ne fun data => ⟨none, rfl⟩

theorem StackMap.store_ne_einval {valueSize maxEntries : BitVec 32} (map map' : StackMap valueSize maxEntries)
    (value : Vector Byte valueSize.toNat) (flags : BitVec 64) : map.store value flags ≠ some (.error .einval, map') := by
  unfold StackMap.store
  split
  · intro h
    cases h
  · split
    · exact bind_ok_ne fun _ => ⟨none, rfl⟩
    · exact bind_ok_ne fun _ => ⟨none, rfl⟩

/-- Where a store does not fail so, a check of the flags before it makes no difference just where they pass it. -/
theorem checked_eq_iff {ρ : Type} {stored refused : ρ} (hstored : stored ≠ refused) (flags : BitVec 64) :
    stored = (if flags ≠ 0 ∧ flags ≠ BPF_ANY ∧ flags ≠ BPF_EXIST then refused else stored) ↔
      flags = BPF_ANY ∨ flags = BPF_EXIST := by
  by_cases hflags : flags = BPF_ANY ∨ flags = BPF_EXIST
  · rw [if_neg fun hbad => badPushFlags_iff.mp hbad hflags]
    exact ⟨fun _ => hflags, fun _ => rfl⟩
  · rw [if_pos (badPushFlags_iff.mpr hflags)]
    exact ⟨fun heq => absurd heq hstored, fun hgood => absurd hgood hflags⟩

theorem QueueMap.paths_agree_iff {valueSize maxEntries : BitVec 32} (map : QueueMap valueSize maxEntries)
    (value : Option (Vector Byte valueSize.toNat)) (flags : BitVec 64) :
    map.elemUpdate value flags = map.mapPushElem value flags ↔ value = none ∨ flags = BPF_ANY ∨ flags = BPF_EXIST := by
  cases value with
  | none => exact ⟨fun _ => Or.inl rfl, fun _ => rfl⟩
  | some value =>
      rw [or_iff_right (Option.some_ne_none value)]
      exact checked_eq_iff (map.store_ne_einval map value flags) flags

theorem StackMap.paths_agree_iff {valueSize maxEntries : BitVec 32} (map : StackMap valueSize maxEntries)
    (value : Option (Vector Byte valueSize.toNat)) (flags : BitVec 64) :
    map.elemUpdate value flags = map.mapPushElem value flags ↔ value = none ∨ flags = BPF_ANY ∨ flags = BPF_EXIST := by
  cases value with
  | none => exact ⟨fun _ => Or.inl rfl, fun _ => rfl⟩
  | some value =>
      rw [or_iff_right (Option.some_ne_none value)]
      exact checked_eq_iff (map.store_ne_einval map value flags) flags

/-- **The two push paths agree** exactly where there is no value, or where the flags are those of a push. -/
theorem pushPaths_agree_iff (valueSize maxEntries : BitVec 32) (value : Option (Vector Byte valueSize.toNat))
    (flags : BitVec 64) :
    (∀ map : QueueMap valueSize maxEntries,
      map.elemUpdate value flags = map.mapPushElem value flags ↔ value = none ∨ flags = BPF_ANY ∨ flags = BPF_EXIST) ∧
    ∀ map : StackMap valueSize maxEntries,
      map.elemUpdate value flags = map.mapPushElem value flags ↔ value = none ∨ flags = BPF_ANY ∨ flags = BPF_EXIST :=
  ⟨fun map => map.paths_agree_iff value flags, fun map => map.paths_agree_iff value flags⟩

/-- An update with `BPF_NOEXIST` stores the value, a push with it is refused. -/
theorem pushPaths_not_agree :
    ¬ ((∀ (valueSize maxEntries : BitVec 32) (map : QueueMap valueSize maxEntries)
      (value : Option (Vector Byte valueSize.toNat)) (flags : BitVec 64),
      map.elemUpdate value flags = map.mapPushElem value flags) ∧
    ∀ (valueSize maxEntries : BitVec 32) (map : StackMap valueSize maxEntries)
      (value : Option (Vector Byte valueSize.toNat)) (flags : BitVec 64),
      map.elemUpdate value flags = map.mapPushElem value flags) := by
  rintro ⟨-, hstack⟩
  have h := hstack 1 2 ⟨[]⟩ (some (Vector.replicate _ 7)) BPF_NOEXIST
  have hresult := congrArg (Option.map Prod.fst) h
  revert hresult
  decide

end Maps
