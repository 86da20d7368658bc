import FreeProbe.Maps.PushPop

/-!
# `Maps.Stack` — `stack_map_impl`

The stack map of the runtime: a byte vector that holds its elements one after the other, the top one last. Erasing or
copying what the vector does not hold ends an operation with `none`.
-/

namespace Maps

/-- `stack_map_impl`: the values as one vector of bytes, the top at its end. -/
structure StackMap (valueSize maxEntries : BitVec 32) where
  data : List Byte

namespace StackMap

variable {valueSize maxEntries : BitVec 32}

/-- The constructor; it throws on a zero size. -/
def new (valueSize maxEntries : BitVec 32) : Option (StackMap valueSize maxEntries) :=
  if valueSize = 0 ∨ maxEntries = 0 then none else some ⟨[]⟩

/-- `get_current_size` -/
def getCurrentSize (map : StackMap valueSize maxEntries) : Nat := map.data.length / valueSize.toNat

/-- `is_full` -/
def isFull (map : StackMap valueSize maxEntries) : Bool := maxEntries.toNat ≤ map.getCurrentSize

/-- `is_empty` -/
def isEmpty (map : StackMap valueSize maxEntries) : Bool := map.data.isEmpty

/-- The bytes at `top_offset`. -/
def top (map : StackMap valueSize maxEntries) : Option (List Byte) :=
  let topOffset := (map.getCurrentSize - 1) * valueSize.toNat
  if topOffset + valueSize.toNat ≤ map.data.length then some ((map.data.drop topOffset).take valueSize.toNat) else none

/-- `data.erase(data.begin(), data.begin() + _value_size)` -/
def eraseBottom (map : StackMap valueSize maxEntries) : Option (StackMap valueSize maxEntries) :=
  if valueSize.toNat ≤ map.data.length then some ⟨map.data.drop valueSize.toNat⟩ else none

/-- `data.erase(data.end() - _value_size, data.end())` -/
def eraseTop (map : StackMap valueSize maxEntries) : Option (StackMap valueSize maxEntries) :=
  if valueSize.toNat ≤ map.data.length then some ⟨map.data.take (map.data.length - valueSize.toNat)⟩ else none

/-- What `elem_update` and `map_push_elem` do with a value. -/
def store (map : StackMap valueSize maxEntries) (value : Vector Byte valueSize.toNat) (flags : BitVec 64) :
    Option (PushPopReturn × StackMap valueSize maxEntries) :=
  if map.isFull ∧ flags ≠ BPF_EXIST then some (.error .e2big, map)
  else do
    let map ← if map.isFull then map.eraseBottom else some map
    return (.ok none, ⟨map.data ++ value.toList⟩)

/-- `elem_lookup` peeks. -/
def elemLookup (map : StackMap valueSize maxEntries) : Option (PushPopReturn × StackMap valueSize maxEntries) :=
  if map.isEmpty then some (.error .enoent, map) else do return (.ok (some (← map.top)), map)

/-- `elem_update` pushes. -/
def elemUpdate (map : StackMap valueSize maxEntries) (value : Option (Vector Byte valueSize.toNat))
    (flags : BitVec 64) : Option (PushPopReturn × StackMap valueSize maxEntries) :=
  match value with
  | none => some (.error .einval, map)
  | some value => map.store value flags

/-- `elem_delete` pops, into nothing. -/
def elemDelete (map : StackMap valueSize maxEntries) : Option (PushPopReturn × StackMap valueSize maxEntries) :=
  if map.isEmpty then some (.error .enoent, map) else do return (.ok none, ← map.eraseTop)

/-- `map_push_elem` -/
def mapPushElem (map : StackMap valueSize maxEntries) (value : Option (Vector Byte valueSize.toNat))
    (flags : BitVec 64) : Option (PushPopReturn × StackMap valueSize maxEntries) :=
  match value with
  | none => some (.error .einval, map)
  | some value =>
    if flags ≠ 0 ∧ flags ≠ BPF_ANY ∧ flags ≠ BPF_EXIST then some (.error .einval, map) else map.store value flags

/-- `map_pop_elem` -/
def mapPopElem (map : StackMap valueSize maxEntries) (value : Bool) :
    Option (PushPopReturn × StackMap valueSize maxEntries) :=
  if !value then some (.error .einval, map)
  else if map.isEmpty then some (.error .enoent, map)
  else do
    let bytes ← map.top
    return (.ok (some bytes), ← map.eraseTop)

/-- `map_peek_elem` -/
def mapPeekElem (map : StackMap valueSize maxEntries) (value : Bool) :
    Option (PushPopReturn × StackMap valueSize maxEntries) :=
  if !value then some (.error .einval, map)
  else if map.isEmpty then some (.error .enoent, map)
  else do return (.ok (some (← map.top)), map)

/-- The operations. -/
def apply (map : StackMap valueSize maxEntries) :
    PushPopOp valueSize.toNat → Option (PushPopReturn × StackMap valueSize maxEntries)
  | .push value flags => map.mapPushElem value flags
  | .pop value => map.mapPopElem value
  | .peek value => map.mapPeekElem value
  | .update value flags => map.elemUpdate value flags
  | .delete => map.elemDelete
  | .lookup => map.elemLookup

/-! ## What the bytes mean -/

/-- The bytes of the elements, the bottom one first. -/
def bytes (stored : Stored valueSize.toNat) : List Byte := stored.flatMap Vector.toList

/-- Each value has its bytes. -/
theorem length_bytes (stored : Stored valueSize.toNat) :
    (bytes stored).length = stored.length * valueSize.toNat := by
  induction stored with
  | nil => simp [bytes]
  | cons value stored ih =>
      rw [bytes, List.flatMap_cons, List.length_append, Vector.length_toList, List.length_cons, Nat.succ_mul,
        Nat.add_comm]
      exact congrArg (· + valueSize.toNat) ih

/-- The bytes of the one after those of the other. -/
theorem bytes_append (stored stored' : Stored valueSize.toNat) :
    bytes (stored ++ stored') = bytes stored ++ bytes stored' := List.flatMap_append

/-- One value. -/
@[simp] theorem bytes_singleton (value : Vector Byte valueSize.toNat) : bytes [value] = value.toList := by
  simp [bytes]

/-- The vector holds the stored elements, and there are at most `_max_entries`. -/
structure Represents (map : StackMap valueSize maxEntries) (stored : Stored valueSize.toNat) : Prop where
  data  : map.data = bytes stored
  bound : stored.length ≤ maxEntries.toNat

/-! ## The steps -/

section Steps

variable {map : StackMap valueSize maxEntries} {stored : Stored valueSize.toNat} {value : Vector Byte valueSize.toNat}

/-- The size is the number of the values. -/
theorem getCurrentSize_eq (hvalue : 0 < valueSize.toNat) (h : Represents map stored) :
    map.getCurrentSize = stored.length := by
  rw [getCurrentSize, h.data, length_bytes, Nat.mul_div_cancel _ hvalue]

/-- A stack is full with `max_entries` values. -/
theorem isFull_iff (hvalue : 0 < valueSize.toNat) (h : Represents map stored) :
    map.isFull = true ↔ ¬ stored.length < maxEntries.toNat := by
  rw [isFull, decide_eq_true_iff, getCurrentSize_eq hvalue h, Nat.not_lt]

/-- And empty with none. -/
theorem isEmpty_iff (hvalue : 0 < valueSize.toNat) (h : Represents map stored) : map.isEmpty = true ↔ stored = [] := by
  have hne : valueSize.toNat ≠ 0 := Nat.ne_of_gt hvalue
  rw [isEmpty, h.data, List.isEmpty_iff_length_eq_zero, length_bytes, Nat.mul_eq_zero, List.length_eq_zero_iff]
  exact or_iff_left hne

/-- The top is the last value. -/
theorem top_eq (hvalue : 0 < valueSize.toNat) (h : Represents map (stored ++ [value])) :
    map.top = some value.toList := by
  have hsize := getCurrentSize_eq hvalue h
  have hlength := length_bytes stored
  have hdata := h.data
  rw [bytes_append, bytes_singleton] at hdata
  rw [top, hsize, List.length_append, List.length_singleton, Nat.add_sub_cancel, ← hlength, hdata,
    List.length_append, Vector.length_toList, if_pos (Nat.le_refl _), List.drop_left, List.take_of_length_le]
  rw [Vector.length_toList]

/-- Erasing it leaves the others. -/
theorem eraseTop_eq (h : Represents map (stored ++ [value])) :
    ∃ map', map.eraseTop = some map' ∧ Represents map' stored := by
  have hdata := h.data
  have hbound := h.bound
  rw [bytes_append, bytes_singleton] at hdata
  rw [List.length_append, List.length_singleton] at hbound
  have hlength : map.data.length = (bytes stored).length + valueSize.toNat := by
    rw [hdata, List.length_append, Vector.length_toList]
  refine ⟨_, if_pos (by rw [hlength]; exact Nat.le_add_left _ _), ?_, Nat.le_of_succ_le hbound⟩
  change map.data.take (map.data.length - valueSize.toNat) = _
  rw [hlength, Nat.add_sub_cancel, hdata, List.take_left]

/-- Erasing the bottom moves the others down. -/
theorem eraseBottom_eq (h : Represents map (value :: stored)) :
    ∃ map', map.eraseBottom = some map' ∧ Represents map' stored := by
  have hdata : map.data = value.toList ++ bytes stored := h.data
  have hlength : value.toList.length = valueSize.toNat := Vector.length_toList
  refine ⟨_, if_pos (by rw [hdata, List.length_append, hlength]; exact Nat.le_add_right _ _), ?_,
    Nat.le_of_succ_le h.bound⟩
  change map.data.drop valueSize.toNat = _
  rw [hdata, List.drop_append_of_le_length (Nat.le_of_eq hlength.symm), List.drop_of_length_le (Nat.le_of_eq hlength),
    List.nil_append]

/-- Pushing a value where there is room. -/
theorem push_represents (h : Represents map stored) (hroom : stored.length < maxEntries.toNat)
    (value : Vector Byte valueSize.toNat) :
    Represents (⟨map.data ++ value.toList⟩ : StackMap valueSize maxEntries) (stored ++ [value]) := by
  refine ⟨?_, ?_⟩
  · rw [bytes_append, bytes_singleton, h.data]
  · rw [List.length_append, List.length_singleton]
    exact hroom

/-- What a push that is let through does. -/
theorem store_refines (hvalue : 0 < valueSize.toNat) (hmax : 0 < maxEntries.toNat) (h : Represents map stored)
    (value : Vector Byte valueSize.toNat) (flags : BitVec 64) :
    ∃ map', map.store value flags = some ((Discipline.insert maxEntries.toNat stored flags value).1, map') ∧
      Represents map' (Discipline.insert maxEntries.toNat stored flags value).2 := by
  have hfull := isFull_iff hvalue h
  unfold store Discipline.insert
  -- with room the flags do not matter; without it `BPF_EXIST` drops the bottom and others fail
  by_cases hroom : stored.length < maxEntries.toNat
  · have hnot : map.isFull = false := Bool.eq_false_iff.mpr fun hf => hfull.mp hf hroom
    refine ⟨⟨map.data ++ value.toList⟩, ?_, ?_⟩
    · simp only [hnot, hroom, if_true, Bool.false_eq_true, false_and, if_false, Option.bind_eq_bind, Option.bind_some]
      rfl
    · rw [if_pos hroom]
      exact push_represents h hroom value
  · have hf : map.isFull = true := hfull.mpr hroom
    by_cases hflags : flags = BPF_EXIST
    · -- the bottom element makes room
      obtain ⟨bottom, rest, rfl⟩ : ∃ bottom rest, stored = bottom :: rest := by
        cases stored with
        | nil => exact absurd hmax hroom
        | cons bottom rest => exact ⟨bottom, rest, rfl⟩
      obtain ⟨map', herase, hafter⟩ := eraseBottom_eq h
      refine ⟨⟨map'.data ++ value.toList⟩, ?_, ?_⟩
      · simp only [hf, hroom, hflags, if_true, if_false, ne_eq, not_true_eq_false, and_false, herase,
          Option.bind_eq_bind, Option.bind_some]
        rfl
      · simp only [hroom, hflags, if_true, if_false, List.tail_cons]
        exact push_represents hafter h.bound value
    · refine ⟨map, ?_, ?_⟩
      · simp only [hf, hflags, hroom, ne_eq, not_false_eq_true, and_self, if_true, if_false]
      · simp only [hroom, hflags, if_false]
        exact h

/-- What an operation that needs a stored element does. -/
theorem taken_refines (hvalue : 0 < valueSize.toNat) (h : Represents map stored)
    {f : Vector Byte valueSize.toNat → PushPopReturn × Stored _}
    {taken : Option (PushPopReturn × StackMap valueSize maxEntries)}
    (hsome : ∀ rest value, stored = rest ++ [value] →
      ∃ map', taken = some ((f value).1, map') ∧ Represents map' (f value).2) :
    ∃ map', (if map.isEmpty then some (.error .enoent, map) else taken) =
        some ((Discipline.lifo.take stored f).1, map') ∧ Represents map' (Discipline.lifo.take stored f).2 := by
  have hempty := isEmpty_iff hvalue h
  rcases List.eq_nil_or_concat stored with rfl | ⟨rest, value, rfl⟩
  · rw [if_pos (hempty.mpr rfl), Discipline.take_nil]
    exact ⟨map, rfl, h⟩
  · rw [List.concat_eq_append] at hempty ⊢
    have hne : rest ++ [value] ≠ [] := List.append_ne_nil_of_right_ne_nil rest (List.cons_ne_nil value [])
    rw [if_neg fun hmap => hne (hempty.mp hmap), Discipline.take, Discipline.next, List.getLast?_concat]
    exact hsome rest value List.concat_eq_append

end Steps

/-- **Every operation is one of a bounded last-in-first-out sequence.** -/
theorem apply_refines (hvalue : 0 < valueSize.toNat) (hmax : 0 < maxEntries.toNat) :
    Lib.Refines (@apply valueSize maxEntries) (Discipline.lifo.apply maxEntries.toNat) Represents := by
  intro map stored op h
  have htop : ∀ rest value, stored = rest ++ [value] → map.top = some value.toList := by
    rintro rest value rfl
    exact top_eq hvalue h
  have herase : ∀ rest value, stored = rest ++ [value] →
      ∃ map', map.eraseTop = some map' ∧ Represents map' (Discipline.lifo.rest stored) := by
    rintro rest value rfl
    rw [Discipline.rest, List.dropLast_concat]
    exact eraseTop_eq h
  -- `push` and `update` store, `pop` and `delete` take, `peek` and `lookup` look
  cases op with
  | push value flags =>
      cases value with
      | none => exact ⟨map, rfl, h⟩
      | some value =>
          simp only [apply, mapPushElem, Discipline.apply]
          by_cases hflags : flags = 0 ∨ flags = BPF_EXIST
          · rw [if_neg (mt badPushFlags_iff.mp (not_not.mpr hflags)), if_pos hflags]
            exact store_refines hvalue hmax h value flags
          · rw [if_pos (badPushFlags_iff.mpr hflags), if_neg hflags]
            exact ⟨map, rfl, h⟩
  | update value flags =>
      cases value with
      | none => exact ⟨map, rfl, h⟩
      | some value => exact store_refines hvalue hmax h value flags
  | pop value =>
      cases value with
      | false => exact ⟨map, rfl, h⟩
      | true =>
          refine taken_refines hvalue h fun rest value heq => ?_
          obtain ⟨map', hmap', hafter⟩ := herase rest value heq
          refine ⟨map', ?_, hafter⟩
          simp only [htop rest value heq, hmap', Option.bind_eq_bind, Option.bind_some]
          rfl
  | peek value =>
      cases value with
      | false => exact ⟨map, rfl, h⟩
      | true =>
          refine taken_refines hvalue h fun rest value heq => ⟨map, ?_, h⟩
          rw [htop rest value heq]
          rfl
  | delete =>
      refine taken_refines hvalue h fun rest value heq => ?_
      obtain ⟨map', hmap', hafter⟩ := herase rest value heq
      refine ⟨map', ?_, hafter⟩
      rw [hmap']
      rfl
  | lookup =>
      refine taken_refines hvalue h fun rest value heq => ⟨map, ?_, h⟩
      rw [htop rest value heq]
      rfl

/-- An operation that fails leaves the map as it was. -/
theorem apply_error {map map' : StackMap valueSize maxEntries} {op : PushPopOp valueSize.toNat} {e : Errno}
    (h : map.apply op = some (.error e, map')) : map' = map := by
  have hstore : ∀ value flags, map.store value flags = some (.error e, map') → map' = map := by
    intro value flags h
    unfold store at h
    split at h
    · exact (Prod.mk.inj (Option.some.inj h)).2.symm
    · split at h
      · exact absurd h (bind_ok_ne fun _ => ⟨_, rfl⟩)
      · exact absurd h (bind_ok_ne fun _ => ⟨_, rfl⟩)
  -- nothing is erased before the checks are over
  have htaken : ∀ taken : Option (PushPopReturn × StackMap valueSize maxEntries), taken ≠ some (.error e, map') →
      (if map.isEmpty then some (.error .enoent, map) else taken) = some (.error e, map') → map' = map := by
    intro taken hne h
    split at h
    · exact (Prod.mk.inj (Option.some.inj h)).2.symm
    · exact absurd h hne
  cases op with
  | push value flags =>
      cases value with
      | none => exact (Prod.mk.inj (Option.some.inj h)).2.symm
      | some value =>
          simp only [apply, mapPushElem] at h
          split at h
          · exact (Prod.mk.inj (Option.some.inj h)).2.symm
          · exact hstore value flags h
  | update value flags =>
      cases value with
      | none => exact (Prod.mk.inj (Option.some.inj h)).2.symm
      | some value => exact hstore value flags h
  | pop value =>
      cases value with
      | false => exact (Prod.mk.inj (Option.some.inj h)).2.symm
      | true =>
          refine htaken _ ?_ h
          intro heq
          obtain ⟨bytes, -, heq⟩ := Option.bind_eq_some_iff.mp heq
          exact bind_ok_ne (fun _ => ⟨_, rfl⟩) heq
  | peek value =>
      cases value with
      | false => exact (Prod.mk.inj (Option.some.inj h)).2.symm
      | true => exact htaken _ (bind_ok_ne fun _ => ⟨_, rfl⟩) h
  | delete => exact htaken _ (bind_ok_ne fun _ => ⟨_, rfl⟩) h
  | lookup => exact htaken _ (bind_ok_ne fun _ => ⟨_, rfl⟩) h

/-- The constructor makes an empty stack. -/
theorem new_represents (hvalue : valueSize ≠ 0) (hmax : maxEntries ≠ 0) :
    ∃ map, new valueSize maxEntries = some map ∧ Represents map [] :=
  ⟨⟨[]⟩, if_neg (not_or.mpr ⟨hvalue, hmax⟩), rfl, Nat.zero_le _⟩

end StackMap

/-- **The stack map refines a bounded LIFO.** After every sequence of operations on a new map, none of which leaves the
    vector, the results are the sequence's, the vector holds the stored elements, and what fails then changes
    nothing. -/
theorem stackMap_refines (valueSize maxEntries : BitVec 32) (hvalue : valueSize ≠ 0) (hmax : maxEntries ≠ 0)
    (ops : List (PushPopOp valueSize.toNat)) :
    ∃ start rs map stored, StackMap.new valueSize maxEntries = some start ∧
      Lib.runAll StackMap.apply start ops = some (rs, map) ∧
      Lib.runRef (Discipline.lifo.apply maxEntries.toNat) [] ops = (rs, stored) ∧ map.Represents stored ∧
      ∀ op e map', map.apply op = some (.error e, map') → map' = map := by
  have hpos : ∀ x : BitVec 32, x ≠ 0 → 0 < x.toNat := fun x hx =>
    Nat.pos_of_ne_zero (mt (@BitVec.toNat_inj 32 x 0).mp hx)
  obtain ⟨start, hnew, hstart⟩ := StackMap.new_represents hvalue hmax
  obtain ⟨map, hrun, hafter⟩ :=
    Lib.runAll_refines (StackMap.apply_refines (hpos valueSize hvalue) (hpos maxEntries hmax)) hstart ops
  exact ⟨start, _, map, _, hnew, hrun, rfl, hafter, fun _ _ _ h => StackMap.apply_error h⟩

/-- A full stack drops its bottom element. -/
def dropping : List (PushPopOp 1) :=
  [.push (some (single 10)) 0, .push (some (single 20)) 0, .push (some (single 30)) 0,
    .push (some (single 30)) BPF_EXIST, .pop true]

/-- Two entries, and a push that drops the bottom one. -/
theorem stackMap_refines_dropping :
    ∃ start rs map, StackMap.new 1 2 = some start ∧ Lib.runAll StackMap.apply start dropping = some (rs, map) ∧
      map.Represents [single 20] ∧ rs = [.ok none, .ok none, .error .e2big, .ok none, .ok (some [30])] := by
  obtain ⟨start, rs, map, stored, hnew, hrun, href, hafter, -⟩ :=
    stackMap_refines 1 2 (by decide) (by decide) dropping
  have hend : Lib.runRef (Discipline.lifo.apply 2) [] dropping =
      ([.ok none, .ok none, .error .e2big, .ok none, .ok (some [30])], [single 20]) := by decide
  obtain ⟨rfl, rfl⟩ := Prod.mk.inj (href.symm.trans hend)
  exact ⟨start, _, map, hnew, hrun, hafter, rfl⟩

end Maps
