import FreeProbe.Lib.Memory
import FreeProbe.Maps.PushPop

/-!
# `Maps.Queue` — `queue_map_impl`

The queue map of the runtime: its elements in a byte vector, the oldest one in slot `head` and the next one to be
stored in slot `tail`. Offsets are products of two `unsigned int`. An access outside of the vector ends an operation
with `none`.

`Represents` says what the three indices and the bytes mean; an operation is one of a bounded first-in-first-out
sequence (`apply_refines`), and so is a run (`queueMap_refines`).
-/

namespace Maps

open Lib.Memory

/-- `queue_map_impl`: a circular buffer of slots. -/
structure QueueMap (valueSize maxEntries : BitVec 32) where
  data  : Buffer Byte
  head  : BitVec 32
  tail  : BitVec 32
  count : BitVec 32

namespace QueueMap

variable {valueSize maxEntries : BitVec 32}

/-- The constructor; it throws on a zero size. -/
def new (valueSize maxEntries : BitVec 32) : Option (QueueMap valueSize maxEntries) :=
  if valueSize = 0 ∨ maxEntries = 0 then none
  else some {
    data := ⟨(maxEntries * valueSize).toNat, fun _ => 0⟩
    head := 0
    tail := 0
    count := 0 }

/-- `is_full` -/
def isFull (map : QueueMap valueSize maxEntries) : Bool := maxEntries ≤ map.count

/-- `is_empty` -/
def isEmpty (map : QueueMap valueSize maxEntries) : Bool := map.count == 0

/-- The slot after one. -/
def nextIndex (maxEntries index : BitVec 32) : BitVec 32 := (index + 1) % maxEntries

/-- The bytes at `head`. -/
def front (map : QueueMap valueSize maxEntries) : Option (List Byte) :=
  map.data.read (map.head * valueSize).toNat valueSize.toNat

/-- What is left when the oldest element goes. -/
def dropFront (map : QueueMap valueSize maxEntries) : QueueMap valueSize maxEntries :=
  { map with head := nextIndex maxEntries map.head, count := map.count - 1 }

/-- The fields after the bytes of a new element are in `data`. -/
def pushed (map : QueueMap valueSize maxEntries) (data : Buffer Byte) : QueueMap valueSize maxEntries :=
  { map with data := data, tail := nextIndex maxEntries map.tail, count := map.count + 1 }

/-- What `elem_update` and `map_push_elem` do with a value. -/
def store (map : QueueMap valueSize maxEntries) (value : Vector Byte valueSize.toNat) (flags : BitVec 64) :
    Option (PushPopReturn × QueueMap valueSize maxEntries) :=
  if map.isFull ∧ flags ≠ BPF_EXIST then some (.error .e2big, map)
  else do
    let map := if map.isFull then map.dropFront else map
    let data ← map.data.write (map.tail * valueSize).toNat value.toList
    return (.ok none, map.pushed data)

/-- `elem_lookup` peeks. -/
def elemLookup (map : QueueMap valueSize maxEntries) : Option (PushPopReturn × QueueMap valueSize maxEntries) :=
  if map.isEmpty then some (.error .enoent, map) else do return (.ok (some (← map.front)), map)

/-- `elem_update` pushes. -/
def elemUpdate (map : QueueMap valueSize maxEntries) (value : Option (Vector Byte valueSize.toNat))
    (flags : BitVec 64) : Option (PushPopReturn × QueueMap valueSize maxEntries) :=
  match value with
  | none => some (.error .einval, map)
  | some value => map.store value flags

/-- `elem_delete` pops, into nothing. -/
def elemDelete (map : QueueMap valueSize maxEntries) : Option (PushPopReturn × QueueMap valueSize maxEntries) :=
  if map.isEmpty then some (.error .enoent, map) else some (.ok none, map.dropFront)

/-- `map_push_elem` -/
def mapPushElem (map : QueueMap valueSize maxEntries) (value : Option (Vector Byte valueSize.toNat))
    (flags : BitVec 64) : Option (PushPopReturn × QueueMap valueSize maxEntries) :=
  match value with
  | none => some (.error .einval, map)
  | some value =>
    if flags ≠ 0 ∧ flags ≠ BPF_ANY ∧ flags ≠ BPF_EXIST then some (.error .einval, map) else map.store value flags

/-- `map_pop_elem` -/
def mapPopElem (map : QueueMap valueSize maxEntries) (value : Bool) :
    Option (PushPopReturn × QueueMap valueSize maxEntries) :=
  if !value then some (.error .einval, map)
  else if map.isEmpty then some (.error .enoent, map)
  else do return (.ok (some (← map.front)), map.dropFront)

/-- `map_peek_elem` -/
def mapPeekElem (map : QueueMap valueSize maxEntries) (value : Bool) :
    Option (PushPopReturn × QueueMap valueSize maxEntries) :=
  if !value then some (.error .einval, map)
  else if map.isEmpty then some (.error .enoent, map)
  else do return (.ok (some (← map.front)), map)

/-- The operations. -/
def apply (map : QueueMap valueSize maxEntries) :
    PushPopOp valueSize.toNat → Option (PushPopReturn × QueueMap valueSize maxEntries)
  | .push value flags => map.mapPushElem value flags
  | .pop value => map.mapPopElem value
  | .peek value => map.mapPeekElem value
  | .update value flags => map.elemUpdate value flags
  | .delete => map.elemDelete
  | .lookup => map.elemLookup

/-! ## What the fields mean -/

/-- The bytes of slot `i`. -/
def slot (map : QueueMap valueSize maxEntries) (i : Nat) : List Byte :=
  load map.data.cells (i * valueSize.toNat) valueSize.toNat

/-- The stored elements are in the slots from `head` on, around the end of the vector. -/
structure Represents (map : QueueMap valueSize maxEntries) (stored : Stored valueSize.toNat) : Prop where
  size  : map.data.size = maxEntries.toNat * valueSize.toNat
  head  : map.head.toNat < maxEntries.toNat
  tail  : map.tail.toNat = (map.head.toNat + stored.length) % maxEntries.toNat
  count : map.count.toNat = stored.length
  bound : stored.length ≤ maxEntries.toNat
  slots : ∀ i, (hi : i < stored.length) → map.slot ((map.head.toNat + i) % maxEntries.toNat) = (stored[i]).toList

/-- The 32-bit offset of a slot does not wrap, when the buffer has less than `2 ^ 32` bytes. -/
theorem offset_toNat (hfits : maxEntries.toNat * valueSize.toNat < 2 ^ 32) {index : BitVec 32} (hindex : index.toNat < maxEntries.toNat) :
    (index * valueSize).toNat = index.toNat * valueSize.toNat := by
  rw [BitVec.toNat_mul, Nat.mod_eq_of_lt]
  exact Nat.lt_of_le_of_lt (Nat.mul_le_mul_right _ (Nat.le_of_lt hindex)) hfits

/-- A slot is inside of the buffer. -/
theorem slot_inside {i : Nat} (hi : i < maxEntries.toNat) :
    i * valueSize.toNat + valueSize.toNat ≤ maxEntries.toNat * valueSize.toNat := by
  rw [← Nat.succ_mul]
  exact Nat.mul_le_mul_right _ hi

/-- Going around at the end. -/
theorem nextIndex_toNat {index : BitVec 32} (hindex : index.toNat < maxEntries.toNat) :
    (nextIndex maxEntries index).toNat = (index.toNat + 1) % maxEntries.toNat := by
  have hmax := maxEntries.isLt
  rw [nextIndex, BitVec.toNat_umod, BitVec.toNat_add, Nat.mod_eq_of_lt (show _ < 2 ^ 32 from by simp; omega)]
  rfl

/-- A store in one slot leaves the others. -/
theorem slot_store_ne {map : QueueMap valueSize maxEntries} {i j : Nat} (hne : i ≠ j)
    (value : Vector Byte valueSize.toNat) :
    load (Lib.Memory.store map.data.cells (j * valueSize.toNat) value.toList) (i * valueSize.toNat) valueSize.toNat =
      map.slot i := by
  refine load_store_disjoint ?_
  rw [Vector.length_toList, ← Nat.succ_mul, ← Nat.succ_mul]
  rcases Nat.lt_or_gt_of_ne hne with hlt | hgt
  · exact Or.inl (Nat.mul_le_mul_right _ hlt)
  · exact Or.inr (Nat.mul_le_mul_right _ hgt)

/-- What is stored in a slot is read back. -/
theorem slot_store_self {map : QueueMap valueSize maxEntries} {j : Nat} (value : Vector Byte valueSize.toNat) :
    load (Lib.Memory.store map.data.cells (j * valueSize.toNat) value.toList) (j * valueSize.toNat) valueSize.toNat =
      value.toList := by
  have h := @load_store _ map.data.cells (j * valueSize.toNat) value.toList
  rwa [Vector.length_toList] at h

/-! ## The steps -/

section Steps

variable {map : QueueMap valueSize maxEntries} {stored : Stored valueSize.toNat}

/-- A queue is full with `max_entries` values. -/
theorem isFull_iff (h : Represents map stored) : map.isFull = true ↔ ¬ stored.length < maxEntries.toNat := by
  rw [isFull, decide_eq_true_iff, BitVec.le_def, h.count, Nat.not_lt]

/-- And empty with none. -/
theorem isEmpty_iff (h : Represents map stored) : map.isEmpty = true ↔ stored = [] := by
  rw [isEmpty, beq_iff_eq, ← BitVec.toNat_inj, h.count]
  exact List.length_eq_zero_iff

/-- The front is the oldest value. -/
theorem front_eq (hfits : maxEntries.toNat * valueSize.toNat < 2 ^ 32) {value : Vector Byte valueSize.toNat}
    {rest : Stored valueSize.toNat} (h : Represents map (value :: rest)) : map.front = some value.toList := by
  rw [front, offset_toNat hfits h.head, Buffer.read_eq (by rw [h.size]; exact slot_inside h.head)]
  have hslot := h.slots 0 (Nat.zero_lt_succ _)
  rw [Nat.add_zero, Nat.mod_eq_of_lt h.head] at hslot
  exact congrArg some hslot

/-- Dropping it leaves the others. -/
theorem dropFront_represents {value : Vector Byte valueSize.toNat} {rest : Stored valueSize.toNat}
    (h : Represents map (value :: rest)) : Represents map.dropFront rest := by
  have hhead : map.dropFront.head.toNat = (map.head.toNat + 1) % maxEntries.toNat := nextIndex_toNat h.head
  have hmove : ∀ i, (map.dropFront.head.toNat + i) % maxEntries.toNat =
      (map.head.toNat + (i + 1)) % maxEntries.toNat := by
    intro i
    rw [hhead, Nat.mod_add_mod, Nat.add_assoc, Nat.add_comm 1 i]
  have hbound := h.bound
  have hcount := h.count
  rw [List.length_cons] at hbound hcount
  refine ⟨h.size, ?_, ?_, ?_, Nat.le_of_succ_le hbound, ?_⟩
  · rw [hhead]
    exact Nat.mod_lt _ (Nat.zero_lt_of_lt h.head)
  · rw [hmove]
    exact h.tail
  · have hlt := maxEntries.isLt
    have hone : (1 : BitVec 32).toNat = 1 := rfl
    change (map.count - 1).toNat = _
    rw [BitVec.toNat_sub, hcount, hone]
    omega
  · intro i hi
    rw [hmove]
    exact h.slots (i + 1) (Nat.succ_lt_succ hi)

/-- A value in the slot after the stored ones. -/
theorem store_represents (hfits : maxEntries.toNat * valueSize.toNat < 2 ^ 32) (h : Represents map stored)
    (hroom : stored.length < maxEntries.toNat) (value : Vector Byte valueSize.toNat) :
    ∃ data, map.data.write (map.tail * valueSize).toNat value.toList = some data ∧
      Represents (map.pushed data) (stored ++ [value]) := by
  have hpos : 0 < maxEntries.toNat := Nat.zero_lt_of_lt h.head
  have htail : map.tail.toNat < maxEntries.toNat := by
    rw [h.tail]
    exact Nat.mod_lt _ hpos
  have hinside : map.tail.toNat * valueSize.toNat + value.toList.length ≤ map.data.size := by
    rw [h.size, Vector.length_toList]
    exact slot_inside htail
  have hwrite := Buffer.write_eq hinside
  rw [← offset_toNat hfits htail] at hwrite
  refine ⟨_, hwrite, h.size, h.head, ?_, ?_, ?_, ?_⟩
  · rw [List.length_append, List.length_singleton, ← Nat.add_assoc, ← Nat.mod_add_mod]
    change (nextIndex maxEntries map.tail).toNat = ((map.head.toNat + stored.length) % maxEntries.toNat + 1) % _
    rw [← h.tail, nextIndex_toNat htail]
  · have hlt := maxEntries.isLt
    have hone : (1 : BitVec 32).toNat = 1 := rfl
    change (map.count + 1).toNat = _
    rw [BitVec.toNat_add, h.count, hone, List.length_append, List.length_singleton]
    omega
  · rw [List.length_append, List.length_singleton]
    exact hroom
  · intro i hi
    rw [List.length_append, List.length_singleton] at hi
    by_cases hlast : i = stored.length
    · subst hlast
      rw [List.getElem_append_right (Nat.le_refl _)]
      simp only [slot, pushed, Nat.sub_self, List.getElem_singleton, ← h.tail, offset_toNat hfits htail]
      exact slot_store_self value
    · have hold : i < stored.length := by omega
      rw [List.getElem_append_left hold, ← h.slots i hold]
      simp only [slot, pushed, offset_toNat hfits htail]
      refine slot_store_ne ?_ value
      rw [h.tail]
      intro heq
      have hsame := mod_inj (c := map.head.toNat) (n := maxEntries.toNat) (by omega) (by omega) (by omega) (by omega) heq
      omega

/-- What a push that is let through does. -/
theorem store_refines (hfits : maxEntries.toNat * valueSize.toNat < 2 ^ 32) (h : Represents map stored)
    (value : Vector Byte valueSize.toNat) (flags : BitVec 64) :
    ∃ map', map.store value flags = some ((Discipline.insert maxEntries.toNat stored flags value).1, map') ∧
      Represents map' (Discipline.insert maxEntries.toNat stored flags value).2 := by
  have hfull := isFull_iff h
  unfold store Discipline.insert
  -- with room the flags do not matter; without it `BPF_EXIST` drops the oldest and others fail
  by_cases hroom : stored.length < maxEntries.toNat
  · obtain ⟨data, hwrite, hafter⟩ := store_represents hfits h hroom value
    have hnot : map.isFull = false := Bool.eq_false_iff.mpr fun hf => hfull.mp hf hroom
    refine ⟨map.pushed data, ?_, ?_⟩
    · simp only [hnot, hroom, if_true, Bool.false_eq_true, false_and, if_false, hwrite, Option.bind_eq_bind,
        Option.bind_some]
      rfl
    · rw [if_pos hroom]
      exact hafter
  · have hf : map.isFull = true := hfull.mpr hroom
    by_cases hflags : flags = BPF_EXIST
    · -- the oldest element makes room
      obtain ⟨oldest, rest, rfl⟩ : ∃ oldest rest, stored = oldest :: rest := by
        cases stored with
        | nil => exact absurd (Nat.zero_lt_of_lt h.head) hroom
        | cons oldest rest => exact ⟨oldest, rest, rfl⟩
      obtain ⟨data, hwrite, hafter⟩ := store_represents hfits (dropFront_represents h) h.bound value
      refine ⟨map.dropFront.pushed data, ?_, ?_⟩
      · simp only [hf, hroom, hflags, if_true, if_false, ne_eq, not_true_eq_false, and_false, hwrite,
          Option.bind_eq_bind, Option.bind_some]
        rfl
      · simp only [hroom, hflags, if_true, if_false, List.tail_cons]
        exact hafter
    · refine ⟨map, ?_, ?_⟩
      · simp only [hf, hflags, hroom, ne_eq, not_false_eq_true, and_self, if_true, if_false]
      · simp only [hroom, hflags, if_false]
        exact h

/-- What an operation that needs a stored element does. -/
theorem taken_refines (h : Represents map stored) {f : Vector Byte valueSize.toNat → PushPopReturn × Stored _}
    {taken : Option (PushPopReturn × QueueMap valueSize maxEntries)}
    (hsome : ∀ value rest, stored = value :: rest →
      ∃ map', taken = some ((f value).1, map') ∧ Represents map' (f value).2) :
    ∃ map', (if map.isEmpty then some (.error .enoent, map) else taken) =
        some ((Discipline.fifo.take stored f).1, map') ∧ Represents map' (Discipline.fifo.take stored f).2 := by
  have hempty := isEmpty_iff h
  cases stored with
  | nil =>
      rw [if_pos (hempty.mpr rfl), Discipline.take_nil]
      exact ⟨map, rfl, h⟩
  | cons value rest =>
      rw [if_neg fun hmap => List.cons_ne_nil _ _ (hempty.mp hmap)]
      exact hsome value rest rfl

end Steps

/-- **Every operation is one of a bounded first-in-first-out sequence.** -/
theorem apply_refines (hfits : maxEntries.toNat * valueSize.toNat < 2 ^ 32) :
    Lib.Refines (@apply valueSize maxEntries) (Discipline.fifo.apply maxEntries.toNat) Represents := by
  intro map stored op h
  have hfront : ∀ value rest, stored = value :: rest → map.front = some value.toList := by
    rintro value rest rfl
    exact front_eq hfits h
  -- `push` and `update` store, `pop` and `delete` take, `peek` and `lookup` look
  cases op with
  | push value flags =>
      cases value with
      | none => exact ⟨map, rfl, h⟩
      | some value =>
          simp only [apply, mapPushElem, Discipline.apply]
          by_cases hflags : flags = 0 ∨ flags = BPF_EXIST
          · rw [if_neg (mt badPushFlags_iff.mp (not_not.mpr hflags)), if_pos hflags]
            exact store_refines hfits h value flags
          · rw [if_pos (badPushFlags_iff.mpr hflags), if_neg hflags]
            exact ⟨map, rfl, h⟩
  | update value flags =>
      cases value with
      | none => exact ⟨map, rfl, h⟩
      | some value => exact store_refines hfits h value flags
  | pop value =>
      cases value with
      | false => exact ⟨map, rfl, h⟩
      | true =>
          refine taken_refines h fun value rest heq => ⟨map.dropFront, ?_, ?_⟩
          · rw [hfront value rest heq]
            rfl
          · subst heq
            exact dropFront_represents h
  | peek value =>
      cases value with
      | false => exact ⟨map, rfl, h⟩
      | true =>
          refine taken_refines h fun value rest heq => ⟨map, ?_, h⟩
          rw [hfront value rest heq]
          rfl
  | delete =>
      refine taken_refines h fun value rest heq => ⟨map.dropFront, rfl, ?_⟩
      subst heq
      exact dropFront_represents h
  | lookup =>
      refine taken_refines h fun value rest heq => ⟨map, ?_, h⟩
      rw [hfront value rest heq]
      rfl

/-- An operation that fails leaves the map as it was. -/
theorem apply_error {map map' : QueueMap valueSize maxEntries} {op : PushPopOp valueSize.toNat} {e : Errno}
    (h : map.apply op = some (.error e, map')) : map' = map := by
  have hstore : ∀ value flags, map.store value flags = some (.error e, map') → map' = map := by
    intro value flags h
    unfold store at h
    split at h
    · exact (Prod.mk.inj (Option.some.inj h)).2.symm
    · exact absurd h (bind_ok_ne fun _ => ⟨_, rfl⟩)
  have htaken : ∀ taken : Option (PushPopReturn × QueueMap valueSize maxEntries), taken ≠ some (.error e, map') →
      (if map.isEmpty then some (.error .enoent, map) else taken) = some (.error e, map') → map' = map := by
    intro taken hne h
    split at h
    · exact (Prod.mk.inj (Option.some.inj h)).2.symm
    · exact absurd h hne
  cases op with
  | push value flags =>
      cases value with
      | none => exact (Prod.mk.inj (Option.some.inj h)).2.symm
      | some value =>
          simp only [apply, mapPushElem] at h
          split at h
          · exact (Prod.mk.inj (Option.some.inj h)).2.symm
          · exact hstore value flags h
  | update value flags =>
      cases value with
      | none => exact (Prod.mk.inj (Option.some.inj h)).2.symm
      | some value => exact hstore value flags h
  | pop value =>
      cases value with
      | false => exact (Prod.mk.inj (Option.some.inj h)).2.symm
      | true => exact htaken _ (bind_ok_ne fun _ => ⟨_, rfl⟩) h
  | peek value =>
      cases value with
      | false => exact (Prod.mk.inj (Option.some.inj h)).2.symm
      | true => exact htaken _ (bind_ok_ne fun _ => ⟨_, rfl⟩) h
  | delete => exact htaken (some (.ok none, map.dropFront)) (by simp) h
  | lookup => exact htaken _ (bind_ok_ne fun _ => ⟨_, rfl⟩) h

/-- The constructor makes an empty queue. -/
theorem new_represents (hvalue : valueSize ≠ 0) (hmax : maxEntries ≠ 0)
    (hfits : maxEntries.toNat * valueSize.toNat < 2 ^ 32) :
    ∃ map, new valueSize maxEntries = some map ∧ Represents map [] := by
  have hpos : 0 < maxEntries.toNat := by
    have hne := mt (@BitVec.toNat_inj 32 maxEntries 0).mp hmax
    exact Nat.pos_of_ne_zero hne
  refine ⟨_, if_neg (not_or.mpr ⟨hvalue, hmax⟩), ?_, hpos, ?_, rfl, Nat.zero_le _, ?_⟩
  · change (maxEntries * valueSize).toNat = _
    rw [BitVec.toNat_mul, Nat.mod_eq_of_lt hfits]
  · exact (Nat.zero_mod _).symm
  · intro i hi
    exact absurd hi (Nat.not_lt_zero i)

end QueueMap

/-- **The queue map refines a bounded FIFO.** After every sequence of operations on a new map, none of which leaves the
    vector, the results are the sequence's, the fields describe the stored elements, and what fails then changes
    nothing. -/
theorem queueMap_refines (valueSize maxEntries : BitVec 32) (hvalue : valueSize ≠ 0) (hmax : maxEntries ≠ 0)
    (hfits : maxEntries.toNat * valueSize.toNat < 2 ^ 32) (ops : List (PushPopOp valueSize.toNat)) :
    ∃ start rs map stored, QueueMap.new valueSize maxEntries = some start ∧
      Lib.runAll QueueMap.apply start ops = some (rs, map) ∧
      Lib.runRef (Discipline.fifo.apply maxEntries.toNat) [] ops = (rs, stored) ∧ map.Represents stored ∧
      ∀ op e map', map.apply op = some (.error e, map') → map' = map := by
  obtain ⟨start, hnew, hstart⟩ := QueueMap.new_represents hvalue hmax hfits
  obtain ⟨map, hrun, hafter⟩ := Lib.runAll_refines (QueueMap.apply_refines hfits) hstart ops
  exact ⟨start, _, map, _, hnew, hrun, rfl, hafter, fun _ _ _ h => QueueMap.apply_error h⟩

/-- A full queue drops its oldest element, and its tail wraps. -/
def overwriting : List (PushPopOp 1) :=
  [.push (some (single 10)) 0, .push (some (single 20)) 0, .push (some (single 30)) 0,
    .push (some (single 30)) BPF_EXIST, .pop true]

/-- Two entries, and a push that drops the oldest. -/
theorem queueMap_refines_overwriting :
    ∃ start rs map, QueueMap.new 1 2 = some start ∧ Lib.runAll QueueMap.apply start overwriting = some (rs, map) ∧
      map.Represents [single 30] ∧
      rs = [.ok none, .ok none, .error .e2big, .ok none, .ok (some [20])] := by
  obtain ⟨start, rs, map, stored, hnew, hrun, href, hafter, -⟩ :=
    queueMap_refines 1 2 (by decide) (by decide) (by decide) overwriting
  have hend : Lib.runRef (Discipline.fifo.apply 2) [] overwriting =
      ([.ok none, .ok none, .error .e2big, .ok none, .ok (some [20])], [single 30]) := by decide
  obtain ⟨rfl, rfl⟩ := Prod.mk.inj (href.symm.trans hend)
  exact ⟨start, _, map, hnew, hrun, hafter, rfl⟩

end Maps
