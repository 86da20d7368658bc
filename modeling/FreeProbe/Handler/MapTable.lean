import FreeProbe.Handler.Manager

/-!
# `Handler.MapTable` — the maps in the handler table

What a table of maps keeps: handlers of one object are copies of each other, the object has the name of one of them, and
its reference count is the number of the fds that name it. One lemma each for what `clear_id_at`, `set_handler` with a
new map and `set_handler` with a copy of a handler leave of that.
-/

namespace Handler

/-- The map object under a handler. -/
def HandlerVariant.object : HandlerVariant → Option Nat
  | .map handler => handler.mapImplPtr
  | _ => none

/-- The number of the fds that name the object. -/
def Shm.holders (shm : Shm) (a : Nat) : Nat := shm.handlers.countP fun handler => handler.object = some a

/-- The handler of the map at an fd. -/
def Shm.mapAt (shm : Shm) (fd : Int) : Option MapHandler :=
  if shm.InRange fd then
    match shm.slot fd with
    | .map map => some map
    | _ => none
  else none

namespace MapTable

/-- Each reference count is the number of the fds that name its map. -/
def CountsHolders (shm : Shm) : Prop :=
  ∀ map, HandlerVariant.map map ∈ shm.handlers → ∀ a ∈ map.mapImplPtr, ∀ cell ∈ map.mapRefcntPtr,
    shm.segment.refcnts cell = some (shm.holders a)

/-- The fd can let go of its map: another fd names it, or `map_free` destroys maps of its type. -/
def Droppable (shm : Shm) (fd : Int) : Prop :=
  ∀ map ∈ shm.mapAt fd, ∀ a ∈ map.mapImplPtr, shm.holders a = 1 → mapFreeOf shm.config map.attr.type = true

instance (shm : Shm) (fd : Int) : Decidable (Droppable shm fd) :=
  inferInstanceAs (Decidable (∀ map ∈ shm.mapAt fd, ∀ a ∈ map.mapImplPtr, _))

/-! ## The table of maps

Everything below is about one slot of the handler list: what setting it does to the objects, to the maps that fds name,
and to the number of holders of an object. -/

section Table

variable {shm : Shm} {n : Nat} {old new : HandlerVariant} {a : Nat} {map : MapHandler}

/-- Setting one place of a list moves the count by that place alone. Stated with sums, as the truncated difference would
    lose the case where the place was not counted. -/
theorem countP_set_add {α : Type} {l : List α} {p : α → Bool} {x y : α} (h : l[n]? = some x) :
    (l.set n y).countP p + (if p x then 1 else 0) = l.countP p + (if p y then 1 else 0) := by
  obtain ⟨hn, rfl⟩ := List.getElem?_eq_some_iff.mp h
  rw [List.countP_set hn]
  have hle : (if p l[n] then 1 else 0) ≤ l.countP p := by
    split
    · next hp => exact List.countP_pos_iff.mpr ⟨l[n], List.getElem_mem hn, hp⟩
    · exact Nat.zero_le _
  omega

/-- What stays in a list when one of its slots is set. -/
theorem mem_set_of_ne {α : Type} {l : List α} {x y z : α} (h : l[n]? = some x) (hz : z ∈ l) (hne : z ≠ x) :
    z ∈ l.set n y := by
  obtain ⟨i, hi⟩ := List.mem_iff_getElem?.mp hz
  have hni : n ≠ i := by
    rintro rfl
    rw [h] at hi
    exact hne (Option.some.inj hi).symm
  exact List.mem_of_getElem? (by rw [List.getElem?_set_ne hni, hi])

/-- An entry of the list is the slot of a fd in range. -/
theorem slot_of_getElem (h : shm.handlers[n]? = some old) : shm.InRange n ∧ shm.slot n = old := by
  obtain ⟨hn, -⟩ := List.getElem?_eq_some_iff.mp h
  have hslot := Shm.getElem_slot hn
  rw [h] at hslot
  exact ⟨Shm.inRange_iff.mpr ⟨n, rfl, hn⟩, (Option.some.inj hslot).symm⟩

/-- An fd outside of the table names no object. -/
theorem objectAt_eq (fd : Int) : shm.objectAt fd = if shm.InRange fd then (shm.slot fd).object else none := rfl

/-- The object at an fd is that of its entry. -/
theorem objectAt_of_getElem (h : shm.handlers[n]? = some old) : shm.objectAt n = old.object := by
  obtain ⟨hin, hslot⟩ := slot_of_getElem h
  rw [objectAt_eq, if_pos hin, hslot]

/-- The map at an fd is the one of its entry. -/
theorem mapAt_of_getElem (h : shm.handlers[n]? = some (.map map)) : shm.mapAt n = some map := by
  obtain ⟨hin, hslot⟩ := slot_of_getElem h
  unfold Shm.mapAt
  rw [if_pos hin, hslot]

/-- An fd has a map when the list has one at its place. -/
theorem mem_mapAt {fd : Int} : map ∈ shm.mapAt fd ↔ ∃ n : Nat, fd = n ∧ shm.handlers[n]? = some (.map map) := by
  constructor
  · intro h
    unfold Shm.mapAt at h
    split at h
    · next hin =>
        obtain ⟨n, rfl, hn⟩ := Shm.inRange_iff.mp hin
        split at h
        · next map' hslot =>
            obtain rfl := Option.some.inj h
            exact ⟨n, rfl, by rw [Shm.getElem_slot hn, hslot]⟩
        · cases h
    · cases h
  · rintro ⟨n, rfl, h⟩
    exact mapAt_of_getElem h

/-- An fd names an object if its slot has a handler of it. -/
theorem objectAt_eq_some {fd : Int} : shm.objectAt fd = some a ↔
    ∃ n : Nat, fd = n ∧ ∃ map, shm.handlers[n]? = some (.map map) ∧ map.mapImplPtr = some a := by
  constructor
  · intro h
    rw [objectAt_eq] at h
    split at h
    · next hin =>
        obtain ⟨n, rfl, hn⟩ := Shm.inRange_iff.mp hin
        have hget := Shm.getElem_slot hn
        generalize shm.slot n = handler at h hget
        -- only a map handler has an object
        cases handler with
        | map map => exact ⟨n, rfl, map, hget, h⟩
        | _ => cases h
    · cases h
  · rintro ⟨n, rfl, map, hget, himpl⟩
    rw [objectAt_of_getElem hget]
    exact himpl

/-- After a slot is set. -/
theorem objectAt_set {segment : Segment} (h : shm.handlers[n]? = some old) (fd : Int) :
    Shm.objectAt ⟨shm.config, shm.handlers.set n new, segment⟩ fd = if fd = n then new.object else shm.objectAt fd := by
  obtain ⟨hn, -⟩ := List.getElem?_eq_some_iff.mp h
  by_cases heq : fd = n
  · rw [if_pos heq, heq]
    exact objectAt_of_getElem (List.getElem?_set_self hn)
  · rw [if_neg heq]
    refine Option.ext fun a => ?_
    simp only [objectAt_eq_some]
    refine exists_congr fun i => and_congr_right fun hi => ?_
    have hni : n ≠ i := by
      rintro rfl
      exact heq hi
    rw [List.getElem?_set_ne hni]

/-- An fd in range has an entry. -/
theorem getElem_of_inRange {fd : Int} (hin : shm.InRange fd) : ∃ (n : Nat) (handler : HandlerVariant),
    fd = n ∧ shm.handlers[n]? = some handler := by
  obtain ⟨n, rfl, hn⟩ := Shm.inRange_iff.mp hin
  exact ⟨n, _, rfl, Shm.getElem_slot hn⟩

/-- An fd outside of the table has no map. -/
theorem mapAt_outOfRange {fd : Int} (hin : ¬ shm.InRange fd) : shm.mapAt fd = none := if_neg hin

/-- `is_map_fd` asks for the map at the fd. -/
theorem isMapFd_eq (fd : Int) : shm.isMapFd fd = (shm.mapAt fd).isSome := by
  unfold Shm.isMapFd Shm.mapAt
  by_cases hin : shm.InRange fd
  · rw [if_pos hin, decide_eq_true hin, Bool.true_and]
    cases shm.slot fd <;> rfl
  · rw [if_neg hin, decide_eq_false hin, Bool.false_and]
    rfl

/-- An object that some fd names is the one of a handler in the list. -/
theorem holders_pos : 0 < shm.holders a ↔ ∃ map, .map map ∈ shm.handlers ∧ map.mapImplPtr = some a := by
  unfold Shm.holders
  rw [List.countP_pos_iff]
  constructor
  · rintro ⟨handler, hmem, hobject⟩
    have hobject : handler.object = some a := of_decide_eq_true hobject
    cases handler with
    | map map => exact ⟨map, hmem, hobject⟩
    | _ => cases hobject
  · rintro ⟨map, hmem, himpl⟩
    exact ⟨.map map, hmem, decide_eq_true himpl⟩

/-- The two ways to say that an object is in use: through fds, and by its count. -/
theorem held_iff_holders : (∃ fd, shm.objectAt fd = some a) ↔ 0 < shm.holders a := by
  rw [holders_pos]
  constructor
  · rintro ⟨fd, h⟩
    obtain ⟨n, -, map, hget, himpl⟩ := objectAt_eq_some.mp h
    exact ⟨map, List.mem_of_getElem? hget, himpl⟩
  · rintro ⟨map, hmem, himpl⟩
    obtain ⟨n, hget⟩ := List.mem_iff_getElem?.mp hmem
    exact ⟨n, objectAt_eq_some.mpr ⟨n, rfl, map, hget, himpl⟩⟩

/-- The holders after a slot is set. -/
theorem holders_set {segment : Segment} (h : shm.handlers[n]? = some old) :
    Shm.holders ⟨shm.config, shm.handlers.set n new, segment⟩ a + (if old.object = some a then 1 else 0) =
      shm.holders a + (if new.object = some a then 1 else 0) := by
  have hcount := countP_set_add (p := fun handler => decide (handler.object = some a)) (y := new) h
  simp only [decide_eq_true_eq] at hcount
  exact hcount

end Table

/-! ## The invariant

The reference counts lie in the segment, each in a cell of its own, and the handlers only point at them. `WellHeld` says
of one handler what its pointers are worth, `SharingInv` of the whole table how the handlers go together. -/

/-- What the pointers of a handler point to: none of them to anything, to an object and a count of its holders, or to an
    object that only this handler has. -/
inductive WellHeld (shm : Shm) (map : MapHandler) : Prop where
  | empty (himpl : map.mapImplPtr = none) (hcell : map.mapRefcntPtr = none)
      (hinit : mapInitOf shm.config map.attr = .nothing)
  | counted {a cell : Nat} (himpl : map.mapImplPtr = some a) (hcell : map.mapRefcntPtr = some cell)
      (hinit : mapInitOf shm.config map.attr = .counted) (hnamed : shm.segment.named map.containerName = some a)
      (ha : a < shm.segment.next) (hcellLt : cell < shm.segment.next)
      (hcount : shm.segment.refcnts cell = some (shm.holders a))
  | single {a : Nat} (himpl : map.mapImplPtr = some a) (hcell : map.mapRefcntPtr = none)
      (hinit : mapInitOf shm.config map.attr = .uncounted) (hnamed : shm.segment.named map.containerName = some a)
      (ha : a < shm.segment.next) (hone : shm.holders a = 1)

/-- The table has maps only; handlers of one object, or of one count, are copies of each other; an object has the name of
    a handler that names it. -/
structure SharingInv (shm : Shm) : Prop where
  maps       : ∀ handler ∈ shm.handlers, handler = .unused ∨ ∃ map, handler = .map map
  held       : ∀ map, .map map ∈ shm.handlers → WellHeld shm map
  sameObject : ∀ map map' a, .map map ∈ shm.handlers → .map map' ∈ shm.handlers → map.mapImplPtr = some a →
    map'.mapImplPtr = some a → map = map'
  sameCell   : ∀ map map' cell, .map map ∈ shm.handlers → .map map' ∈ shm.handlers → map.mapRefcntPtr = some cell →
    map'.mapRefcntPtr = some cell → map = map'
  named      : ∀ name a, shm.segment.named name = some a →
    ∃ map, .map map ∈ shm.handlers ∧ map.mapImplPtr = some a ∧ map.containerName = name

section Invariant

variable {shm : Shm} {n : Nat} {a : Nat} {map : MapHandler}

/-- What a handler holds is in the segment under the handler's own name. -/
theorem WellHeld.named (h : WellHeld shm map) (himpl : map.mapImplPtr = some a) :
    shm.segment.named map.containerName = some a ∧ a < shm.segment.next := by
  cases h with
  | empty himpl' => exact absurd (himpl.symm.trans himpl') (by simp)
  | counted himpl' hcell hinit hnamed ha =>
      obtain rfl := Option.some.inj (himpl.symm.trans himpl')
      exact ⟨hnamed, ha⟩
  | single himpl' hcell hinit hnamed ha =>
      obtain rfl := Option.some.inj (himpl.symm.trans himpl')
      exact ⟨hnamed, ha⟩

/-- Its count is a cell that was handed out. -/
theorem WellHeld.cell_lt (h : WellHeld shm map) {cell : Nat} (hcell : map.mapRefcntPtr = some cell) :
    cell < shm.segment.next := by
  cases h with
  | empty himpl hnone => exact absurd (hcell.symm.trans hnone) (by simp)
  | single himpl hnone => exact absurd (hcell.symm.trans hnone) (by simp)
  | counted himpl hcell' hinit hnamed ha hlt =>
      obtain rfl := Option.some.inj (hcell.symm.trans hcell')
      exact hlt

/-- The objects that exist are those that an fd names. -/
theorem SharingInv.exists_iff (h : SharingInv shm) :
    (∃ name, shm.segment.named name = some a) ↔ 0 < shm.holders a := by
  rw [holders_pos]
  constructor
  · rintro ⟨name, hname⟩
    obtain ⟨map, hmem, himpl, -⟩ := h.named name a hname
    exact ⟨map, hmem, himpl⟩
  · rintro ⟨map, hmem, himpl⟩
    exact ⟨_, ((h.held map hmem).named himpl).1⟩

/-- An object has one name. -/
theorem SharingInv.name_of (h : SharingInv shm) (hmem : .map map ∈ shm.handlers) (himpl : map.mapImplPtr = some a)
    {name : CStr} : shm.segment.named name = some a ↔ name = map.containerName := by
  constructor
  · intro hname
    obtain ⟨map', hmem', himpl', rfl⟩ := h.named name a hname
    rw [h.sameObject map map' a hmem hmem' himpl himpl']
  · rintro rfl
    exact ((h.held map hmem).named himpl).1

/-- So is every object that has a name. -/
theorem SharingInv.object_lt (h : SharingInv shm) {name : CStr} (hname : shm.segment.named name = some a) :
    a < shm.segment.next := by
  obtain ⟨map, hmem, himpl, -⟩ := h.named name a hname
  exact ((h.held map hmem).named himpl).2

/-- **The counts are right** in a table that keeps the invariant. -/
theorem countsHolders_of_inv (h : SharingInv shm) : CountsHolders shm := by
  intro map hmem a himpl cell hcell
  cases h.held map hmem with
  | empty himpl' => exact absurd (himpl.symm.trans himpl') (by simp)
  | single _ hnone => exact absurd (hcell.symm.trans hnone) (by simp)
  | counted himpl' hcell' _ _ _ _ hcount =>
      obtain rfl := Option.some.inj (himpl.symm.trans himpl')
      obtain rfl := Option.some.inj (hcell.symm.trans hcell')
      exact hcount

/-- The shared memory starts with unused slots and an empty segment. -/
theorem sharingInv_new (config : BuildConfig) (maxFdCount : Nat) : SharingInv (.new config maxFdCount) := by
  have hunused : ∀ handler ∈ (Shm.new config maxFdCount).handlers, handler = .unused := fun handler hmem =>
    List.eq_of_mem_replicate hmem
  have hnone : ∀ map, .map map ∉ (Shm.new config maxFdCount).handlers := fun map hmem => by cases hunused _ hmem
  exact {
    maps       := fun handler hmem => .inl (hunused handler hmem)
    held       := fun map hmem => absurd hmem (hnone map)
    sameObject := fun map _ _ hmem => absurd hmem (hnone map)
    sameCell   := fun map _ _ hmem => absurd hmem (hnone map)
    named      := fun name a hname => by cases hname }

end Invariant

/-! ## A map goes

`clear_id_at` calls `map_free` and puts an unused handler into the slot. `map_free` takes the count down when others
hold the object; the last holder destroys it, if `map_free` knows its type. -/

/-- What `map_free` leaves of the segment. -/
def releasedSegment (shm : Shm) (map : MapHandler) : Segment :=
  match map.mapImplPtr, map.mapRefcntPtr with
  | none, _ => shm.segment
  | some _, none => map.freeImpl shm.config shm.segment
  | some a, some cell =>
    if shm.holders a > 1 then shm.segment.setRefcnt cell (some (shm.holders a - 1))
    else map.freeImpl shm.config (shm.segment.setRefcnt cell none)

/-- The shared memory when the handler at `n` is gone. -/
def released (shm : Shm) (n : Nat) : Shm :=
  ⟨shm.config, shm.handlers.set n .unused,
    match shm.mapAt n with
    | some map => releasedSegment shm map
    | none => shm.segment⟩

section Released

variable {shm : Shm} {n : Nat} {a : Nat} {map : MapHandler} {handler : HandlerVariant}

/-- A map goes with what `map_free` does to the segment. -/
theorem released_of_map (hget : shm.handlers[n]? = some (.map map)) :
    released shm n = ⟨shm.config, shm.handlers.set n .unused, releasedSegment shm map⟩ := by
  unfold released
  rw [mapAt_of_getElem hget]

/-- Clearing a slot that is unused changes nothing. -/
theorem released_of_unused (hget : shm.handlers[n]? = some .unused) : released shm n = shm := by
  have hnone : shm.mapAt n = none := by
    refine Option.eq_none_iff_forall_ne_some.mpr fun map hmap => ?_
    obtain ⟨i, hi, hget'⟩ := mem_mapAt.mp hmap
    rw [← Int.ofNat.inj hi, hget] at hget'
    cases hget'
  obtain ⟨hn, hgetElem⟩ := List.getElem?_eq_some_iff.mp hget
  unfold released
  rw [hnone, ← hgetElem, List.set_getElem_self]

/-- `map_free` does not fail on a handler that is well held: there is a count where it asks for one. -/
theorem mapFree_eq (h : WellHeld shm map) : map.mapFree shm.config shm.segment = .ok (releasedSegment shm map) := by
  unfold MapHandler.mapFree releasedSegment
  cases h with
  | empty himpl hcell hinit => simp only [himpl]
  | single himpl hcell hinit hnamed ha hone => simp only [himpl, hcell]
  | counted himpl hcell hinit hnamed ha hcellLt hcount =>
      simp only [himpl, hcell, hcount]
      split <;> rfl

/-- `clear_id_at` of a slot in range. -/
theorem clearIdAt_eq (h : SharingInv shm) (hget : shm.handlers[n]? = some handler) :
    shm.clearIdAt n = .ok (released shm n) := by
  obtain ⟨hin, hslot⟩ := slot_of_getElem hget
  have hput : ∀ segment, Shm.putHandler ⟨shm.config, shm.handlers, segment⟩ n .unused =
      .ok ⟨shm.config, shm.handlers.set n .unused, segment⟩ := fun segment => Shm.putHandler_eq hin
  unfold Shm.clearIdAt
  rw [if_pos hin, hslot]
  -- an unused slot stays what it is, and a map goes
  rcases h.maps handler (List.mem_of_getElem? hget) with rfl | ⟨map, rfl⟩
  · obtain ⟨hn, hgetElem⟩ := List.getElem?_eq_some_iff.mp hget
    rw [released_of_unused hget]
    refine (hput shm.segment).trans ?_
    rw [← hgetElem, List.set_getElem_self]
  · rw [released_of_map hget]
    dsimp only
    rw [mapFree_eq (h.held map (List.mem_of_getElem? hget))]
    exact hput _

/-- The same, where `set_handler` and the links clear a slot that they have looked at before. -/
theorem clearUsed_eq (h : SharingInv shm) (hget : shm.handlers[n]? = some handler) :
    shm.clearUsed n handler = .ok (released shm n) := by
  unfold Shm.clearUsed
  split
  · exact clearIdAt_eq h hget
  · next hunused =>
      obtain rfl := not_not.mp hunused
      rw [released_of_unused hget]

/-- The object is destroyed with the handler at `n`. -/
def Freed (shm : Shm) (n a : Nat) : Prop :=
  ∃ map, shm.handlers[n]? = some (.map map) ∧ map.mapImplPtr = some a ∧ shm.holders a = 1 ∧
    mapFreeOf shm.config map.attr.type = true

/-- Of the names, only the one of the map goes, and only for a type that `map_free` knows. -/
theorem freeImpl_named {config : BuildConfig} {segment : Segment} {name : CStr} :
    (map.freeImpl config segment).named name = some a ↔
      segment.named name = some a ∧ (mapFreeOf config map.attr.type = true → name ≠ map.containerName) := by
  unfold MapHandler.freeImpl
  split
  · next hfree =>
      show Function.update segment.named map.containerName none name = some a ↔ _
      by_cases heq : name = map.containerName
      · rw [heq, Function.update_self]
        exact iff_of_false (by simp) fun h => h.2 hfree rfl
      · rw [Function.update_of_ne heq]
        exact ⟨fun h => ⟨h, fun _ => heq⟩, And.left⟩
  · next hkeep => exact ⟨fun h => ⟨h, fun hfree => absurd hfree hkeep⟩, And.left⟩

/-- Freeing hands out no address. -/
theorem freeImpl_next {config : BuildConfig} {segment : Segment} : (map.freeImpl config segment).next = segment.next := by
  unfold MapHandler.freeImpl
  split <;> rfl

/-- Nor does it count. -/
theorem freeImpl_refcnts {config : BuildConfig} {segment : Segment} :
    (map.freeImpl config segment).refcnts = segment.refcnts := by
  unfold MapHandler.freeImpl
  split <;> rfl

/-- What goes makes no new address. -/
theorem released_next : (released shm n).segment.next = shm.segment.next := by
  unfold released
  dsimp only
  split
  · unfold releasedSegment
    split
    · rfl
    · exact freeImpl_next
    · split
      · rfl
      · exact freeImpl_next
  · rfl

/-- The fds of an object when the one at `n` is gone. -/
theorem holders_released (hget : shm.handlers[n]? = some handler) :
    (released shm n).holders a + (if handler.object = some a then 1 else 0) = shm.holders a :=
  holders_set hget

/-- The fd of an object is one of its holders. -/
theorem holders_pos_of_getElem (hget : shm.handlers[n]? = some (.map map)) (himpl : map.mapImplPtr = some a) :
    0 < shm.holders a := holders_pos.mpr ⟨map, List.mem_of_getElem? hget, himpl⟩

/-- The last handler of an object takes it along, if its type is destroyed. -/
theorem releasedSegment_named (h : SharingInv shm) (hget : shm.handlers[n]? = some (.map map)) {name : CStr} :
    (releasedSegment shm map).named name = some a ↔ shm.segment.named name = some a ∧ ¬ Freed shm n a := by
  have hmem := List.mem_of_getElem? hget
  have hfreed : ∀ b, Freed shm n b ↔ map.mapImplPtr = some b ∧ shm.holders b = 1 ∧
      mapFreeOf shm.config map.attr.type = true := by
    intro b
    constructor
    · rintro ⟨map', hget', hrest⟩
      rw [hget] at hget'
      obtain rfl := HandlerVariant.map.inj (Option.some.inj hget')
      exact hrest
    · intro hrest
      exact ⟨map, hget, hrest⟩
  rw [hfreed]
  -- without its last handler
  have hlast : ∀ {b : Nat} {segment : Segment}, map.mapImplPtr = some b → shm.holders b = 1 →
      segment.named = shm.segment.named → ((map.freeImpl shm.config segment).named name = some a ↔
        shm.segment.named name = some a ∧
          ¬ (map.mapImplPtr = some a ∧ shm.holders a = 1 ∧ mapFreeOf shm.config map.attr.type = true)) := by
    intro b segment himpl hone hsegment
    rw [freeImpl_named, hsegment]
    refine and_congr_right fun hname => ?_
    constructor
    · rintro hne ⟨himpl', -, hfree⟩
      exact hne hfree ((h.name_of hmem himpl').mp hname)
    · intro hnot hfree heq
      have hb : shm.segment.named name = some b := (h.name_of hmem himpl).mpr heq
      obtain rfl := Option.some.inj (hb.symm.trans hname)
      exact hnot ⟨himpl, hone, hfree⟩
  unfold releasedSegment
  cases h.held map hmem with
  | empty himpl hcell hinit =>
      simp only [himpl]
      exact ⟨fun hname => ⟨hname, fun hf => by cases hf.1⟩, And.left⟩
  | single himpl hcell hinit hnamed ha hone =>
      rw [himpl, hcell]
      rw [himpl] at hlast
      exact hlast rfl hone rfl
  | counted himpl hcell hinit hnamed ha hcellLt hcount =>
      rw [himpl, hcell]
      rw [himpl] at hlast
      dsimp only
      split
      · next hmany =>
          refine ⟨fun hname => ⟨hname, ?_⟩, And.left⟩
          rintro ⟨heq, hone, -⟩
          obtain rfl := Option.some.inj heq
          omega
      · next hfew =>
          have hpos := holders_pos_of_getElem hget himpl
          exact hlast rfl (by omega) rfl

/-- Of the objects, the one that is freed loses its name. -/
theorem released_named (h : SharingInv shm) (hget : shm.handlers[n]? = some handler) {name : CStr} :
    (released shm n).segment.named name = some a ↔ shm.segment.named name = some a ∧ ¬ Freed shm n a := by
  rcases h.maps handler (List.mem_of_getElem? hget) with rfl | ⟨map, rfl⟩
  · rw [released_of_unused hget]
    refine ⟨fun hname => ⟨hname, ?_⟩, And.left⟩
    rintro ⟨map, hget', -⟩
    rw [hget] at hget'
    cases hget'
  · rw [released_of_map hget]
    exact releasedSegment_named h hget

/-- Of the fds, only the one that is cleared loses its object. -/
theorem objectAt_released (hget : shm.handlers[n]? = some handler) (fd : Int) :
    (released shm n).objectAt fd = if fd = n then none else shm.objectAt fd := objectAt_set hget fd

/-- Its slot is free after that. -/
theorem unused_released (hget : shm.handlers[n]? = some handler) : (released shm n).handlers[n]? = some .unused := by
  obtain ⟨hn, -⟩ := List.getElem?_eq_some_iff.mp hget
  exact List.getElem?_set_self hn

/-- A map that cannot go leaves its object behind. -/
theorem leaked (h : SharingInv shm) (hget : shm.handlers[n]? = some handler) (hnot : ¬ Droppable shm n) :
    ∃ a name, (released shm n).segment.named name = some a ∧ (released shm n).holders a = 0 := by
  unfold Droppable at hnot
  push Not at hnot
  obtain ⟨map, hmap, a, himpl, hone, hkeep⟩ := hnot
  obtain ⟨j, hj, hget'⟩ := mem_mapAt.mp hmap
  obtain rfl := Int.ofNat.inj hj
  have hname := ((h.held map (List.mem_of_getElem? hget')).named himpl).1
  refine ⟨a, map.containerName, (released_named h hget).mpr ⟨hname, ?_⟩, ?_⟩
  -- it keeps its name, as its type is not freed
  · rintro ⟨map', hget'', -, -, hfree⟩
    rw [hget'] at hget''
    obtain rfl := HandlerVariant.map.inj (Option.some.inj hget'')
    exact hkeep hfree
  -- and its one holder is gone
  · have hcount := holders_released (a := a) hget'
    rw [if_pos (show (HandlerVariant.map map).object = some a from himpl)] at hcount
    omega

/-- Where the map can go, what is left is without it. -/
theorem freed_of_droppable (hdrop : Droppable shm n) (hget : shm.handlers[n]? = some (.map map))
    (himpl : map.mapImplPtr = some a) (hone : shm.holders a = 1) : Freed shm n a :=
  ⟨map, hget, himpl, hone, hdrop map (mapAt_of_getElem hget) a himpl hone⟩

/-- A handler that is left. -/
theorem mem_released (hmem : .map map ∈ (released shm n).handlers) : .map map ∈ shm.handlers := by
  rcases List.mem_or_eq_of_mem_set hmem with hold | heq
  · exact hold
  · cases heq

/-- Only the count of the map that goes is written. -/
theorem releasedSegment_refcnts {cell : Nat} (hne : map.mapRefcntPtr ≠ some cell) :
    (releasedSegment shm map).refcnts cell = shm.segment.refcnts cell := by
  unfold releasedSegment
  split
  · rfl
  · rw [freeImpl_refcnts]
  · next a cell' himpl hcell =>
      have hcellNe : cell ≠ cell' := by
        rintro rfl
        exact hne hcell
      split
      · exact Function.update_of_ne hcellNe ..
      · rw [freeImpl_refcnts]
        exact Function.update_of_ne hcellNe ..

/-- It goes down by one where others hold the object. -/
theorem releasedSegment_counted {cell : Nat} (himpl : map.mapImplPtr = some a) (hcell : map.mapRefcntPtr = some cell)
    (hmany : 1 < shm.holders a) : (releasedSegment shm map).refcnts cell = some (shm.holders a - 1) := by
  unfold releasedSegment
  rw [himpl, hcell]
  dsimp only
  rw [if_pos hmany]
  exact Function.update_self ..

/-- The count of an object that is left. -/
theorem released_refcnts (h : SharingInv shm) (hget : shm.handlers[n]? = some handler)
    (hmem : .map map ∈ (released shm n).handlers) {cell : Nat} (himpl : map.mapImplPtr = some a)
    (hcell : map.mapRefcntPtr = some cell) (hcount : shm.segment.refcnts cell = some (shm.holders a)) :
    (released shm n).segment.refcnts cell = some ((released shm n).holders a) := by
  have hold := mem_released hmem
  have hholders := holders_released (a := a) hget
  rcases h.maps handler (List.mem_of_getElem? hget) with rfl | ⟨map', rfl⟩
  · have hsame : (released shm n).holders a = shm.holders a := by simpa [HandlerVariant.object] using hholders
    rw [hsame, ← hcount]
    rw [released_of_unused hget]
  · have hmem' := List.mem_of_getElem? hget
    have hsegment : (released shm n).segment = releasedSegment shm map' := by rw [released_of_map hget]
    rw [hsegment]
    by_cases himpl' : map'.mapImplPtr = some a
    · -- a copy of the handler that goes
      obtain rfl := h.sameObject map' map a hmem' hold himpl' himpl
      rw [if_pos (show (HandlerVariant.map map').object = some a from himpl')] at hholders
      have hpos := holders_pos.mpr ⟨map', hmem, himpl⟩
      rw [releasedSegment_counted himpl hcell (by omega)]
      congr 1
      omega
    · rw [if_neg (show ¬ (HandlerVariant.map map').object = some a from himpl'), Nat.add_zero] at hholders
      -- the handler of another map, whose count is another cell
      have hcellNe : map'.mapRefcntPtr ≠ some cell := by
        intro hcell'
        obtain rfl := h.sameCell map' map cell hmem' hold hcell' hcell
        exact himpl' himpl
      rw [releasedSegment_refcnts hcellNe, hcount, hholders]

/-- Each handler that is left points to what it pointed to. -/
theorem wellHeld_released (h : SharingInv shm) (hget : shm.handlers[n]? = some handler)
    (hmem : .map map ∈ (released shm n).handlers) : WellHeld (released shm n) map := by
  have hold := mem_released hmem
  -- an object of a handler that is left has not gone
  have hkept : ∀ b, map.mapImplPtr = some b → ¬ Freed shm n b := by
    rintro b himpl ⟨map', hget', himpl', hone, -⟩
    have hpos := holders_pos.mpr ⟨map, hmem, himpl⟩
    have hcount := holders_released (a := b) hget'
    rw [if_pos (show (HandlerVariant.map map').object = some b from himpl')] at hcount
    omega
  have hnamed : ∀ b, map.mapImplPtr = some b → (released shm n).segment.named map.containerName = some b := by
    intro b himpl
    exact (released_named h hget).mpr ⟨((h.held map hold).named himpl).1, hkept b himpl⟩
  cases h.held map hold with
  | empty himpl hcell hinit => exact .empty himpl hcell hinit
  | single himpl hcell hinit hname ha hone =>
      rename_i b
      refine .single himpl hcell hinit (hnamed b himpl) (by rw [released_next]; exact ha) ?_
      have hpos := holders_pos.mpr ⟨map, hmem, himpl⟩
      have hcount := holders_released (a := b) hget
      omega
  | counted himpl hcell hinit hname ha hcellLt hcount =>
      rename_i b cell
      refine .counted himpl hcell hinit (hnamed b himpl) (by rw [released_next]; exact ha)
        (by rw [released_next]; exact hcellLt) ?_
      exact released_refcnts h hget hmem himpl hcell hcount

/-- **The invariant when a handler goes** that can go. -/
theorem sharingInv_released (h : SharingInv shm) (hget : shm.handlers[n]? = some handler) (hdrop : Droppable shm n) :
    SharingInv (released shm n) where
  maps := by
    intro handler' hmem
    rcases List.mem_or_eq_of_mem_set hmem with hold | heq
    · exact h.maps handler' hold
    · exact .inl heq
  held := fun map hmem => wellHeld_released h hget hmem
  sameObject := fun map map' a hmem hmem' => h.sameObject map map' a (mem_released hmem) (mem_released hmem')
  sameCell := fun map map' cell hmem hmem' => h.sameCell map map' cell (mem_released hmem) (mem_released hmem')
  named := by
    intro name a hname
    obtain ⟨hname, hnot⟩ := (released_named h hget).mp hname
    obtain ⟨map, hmem, himpl, hcname⟩ := h.named name a hname
    have hholders := holders_released (a := a) hget
    -- with a name left, the object has a holder left: else it would have been freed
    have hleft : 0 < (released shm n).holders a := by
      have hpos := holders_pos.mpr ⟨map, hmem, himpl⟩
      by_contra hzero
      have hobject : handler.object = some a := by
        by_contra hne
        rw [if_neg hne] at hholders
        omega
      rw [if_pos hobject] at hholders
      rcases h.maps handler (List.mem_of_getElem? hget) with rfl | ⟨map', rfl⟩
      · cases hobject
      · exact hnot (freed_of_droppable hdrop hget hobject (by omega))
    -- and that one is a copy of the handler that had the name
    obtain ⟨map', hmem', himpl'⟩ := holders_pos.mp hleft
    obtain rfl := h.sameObject map map' a hmem (mem_released hmem') himpl himpl'
    exact ⟨map, hmem', himpl, hcname⟩

end Released

/-! ## A map comes

A slot that was free gets a handler. `sharingInv_placed` says what has to hold of it, whether `set_handler` has made its
map or it is a copy of one that is there. -/

section Placed

variable {shm shm' : Shm} {n : Nat} {a : Nat} {map map' : MapHandler} {segment segment' : Segment}

/-- A handler stays well held where its name, its count and the number of its holders stay. -/
theorem WellHeld.mono (h : WellHeld shm map) (hconfig : shm'.config = shm.config)
    (hnext : shm.segment.next ≤ shm'.segment.next)
    (hnamed : ∀ a, shm.segment.named map.containerName = some a → shm'.segment.named map.containerName = some a)
    (hholders : ∀ a, map.mapImplPtr = some a → shm'.holders a = shm.holders a)
    (hcells : ∀ cell, map.mapRefcntPtr = some cell → shm'.segment.refcnts cell = shm.segment.refcnts cell) :
    WellHeld shm' map := by
  cases h with
  | empty himpl hcell hinit => exact .empty himpl hcell (by rw [hconfig]; exact hinit)
  | single himpl hcell hinit hname ha hone =>
      exact .single himpl hcell (by rw [hconfig]; exact hinit) (hnamed _ hname) (Nat.lt_of_lt_of_le ha hnext)
        (by rw [hholders _ himpl]; exact hone)
  | counted himpl hcell hinit hname ha hcellLt hcount =>
      exact .counted himpl hcell (by rw [hconfig]; exact hinit) (hnamed _ hname) (Nat.lt_of_lt_of_le ha hnext)
        (Nat.lt_of_lt_of_le hcellLt hnext) (by rw [hcells _ hcell, hholders _ himpl]; exact hcount)

/-- The table with a handler in a slot that was free. -/
theorem sharingInv_placed (h : SharingInv shm) (hget : shm.handlers[n]? = some .unused)
    (hshm : shm' = ⟨shm.config, shm.handlers.set n (.map map), segment⟩) (hnew : WellHeld shm' map)
    (hold : ∀ map', .map map' ∈ shm.handlers → WellHeld shm' map')
    (hobject : ∀ map' a, .map map' ∈ shm.handlers → map.mapImplPtr = some a → map'.mapImplPtr = some a → map = map')
    (hcell : ∀ map' cell, .map map' ∈ shm.handlers → map.mapRefcntPtr = some cell → map'.mapRefcntPtr = some cell →
      map = map')
    (hnamed : ∀ name a, segment.named name = some a → shm.segment.named name = some a ∨
      map.mapImplPtr = some a ∧ map.containerName = name) : SharingInv shm' := by
  subst hshm
  -- a handler of the new table is the new one or one of the old
  have hmem : ∀ {map'}, .map map' ∈ shm.handlers.set n (.map map) → map' = map ∨ .map map' ∈ shm.handlers := by
    intro map' hmem
    rcases List.mem_or_eq_of_mem_set hmem with hold | heq
    · exact .inr hold
    · exact .inl (HandlerVariant.map.inj heq)
  obtain ⟨hn, -⟩ := List.getElem?_eq_some_iff.mp hget
  constructor
  case maps =>
    intro handler hmem'
    rcases List.mem_or_eq_of_mem_set hmem' with hin | rfl
    · exact h.maps handler hin
    · exact .inr ⟨map, rfl⟩
  case held =>
    intro map' hmem'
    rcases hmem hmem' with rfl | hin
    · exact hnew
    · exact hold map' hin
  -- two of the old ones, twice the new one, or one of each, in either order
  case sameObject =>
    intro map₁ map₂ a hmem₁ hmem₂ himpl₁ himpl₂
    rcases hmem hmem₁ with rfl | hin₁ <;> rcases hmem hmem₂ with rfl | hin₂
    · rfl
    · exact hobject map₂ a hin₂ himpl₁ himpl₂
    · exact (hobject map₁ a hin₁ himpl₂ himpl₁).symm
    · exact h.sameObject map₁ map₂ a hin₁ hin₂ himpl₁ himpl₂
  case sameCell =>
    intro map₁ map₂ cell hmem₁ hmem₂ hcell₁ hcell₂
    rcases hmem hmem₁ with rfl | hin₁ <;> rcases hmem hmem₂ with rfl | hin₂
    · rfl
    · exact hcell map₂ cell hin₂ hcell₁ hcell₂
    · exact (hcell map₁ cell hin₁ hcell₂ hcell₁).symm
    · exact h.sameCell map₁ map₂ cell hin₁ hin₂ hcell₁ hcell₂
  case named =>
    intro name a hname
    rcases hnamed name a hname with hname | ⟨himpl, hcname⟩
    -- the one that had the name is still there: the slot held no map
    · obtain ⟨map', hmem', himpl, hcname⟩ := h.named name a hname
      exact ⟨map', mem_set_of_ne hget hmem' (fun heq => by cases heq), himpl, hcname⟩
    · exact ⟨map, List.mem_of_getElem? (List.getElem?_set_self hn), himpl, hcname⟩

end Placed

/-! ### `set_handler`

`map_init` makes the object under a name that is free, and a count for it if the type has one. The addresses of both are
new, which is what keeps them apart from all that the other handlers hold. -/

section Created

variable {shm shm' : Shm} {n : Nat} {a : Nat} {map map' : MapHandler} {segment' : Segment}

/-- `set_handler` with a new map, in a slot of the list. -/
theorem setMap_eq (env : CreateEnv) (himpl : map.mapImplPtr = none) (hget : shm.handlers[n]? = some .unused) :
    shm.setMap env n map = .ok (if (map.mapInit env shm.config shm.segment).ret.isSome then .returned n else .threw,
      ⟨shm.config, shm.handlers.set n (.map (map.mapInit env shm.config shm.segment).handler),
        (map.mapInit env shm.config shm.segment).segment⟩) := by
  obtain ⟨hin, hfree⟩ := slot_of_getElem hget
  exact Shm.setMap_new himpl hin hfree

/-- What a new map holds is counted once. -/
theorem holders_created (hget : shm.handlers[n]? = some .unused)
    (hinit : Inited shm.config map shm.segment map' segment') (himpl : map.mapImplPtr = none) :
    Shm.holders ⟨shm.config, shm.handlers.set n (.map map'), segment'⟩ a =
      shm.holders a + if mapInitOf shm.config map.attr ≠ .nothing ∧ a = shm.segment.next then 1 else 0 := by
  have hset : Shm.holders ⟨shm.config, shm.handlers.set n (.map map'), segment'⟩ a + _ = _ := holders_set hget
  rw [if_neg (show HandlerVariant.unused.object ≠ some a from by simp [HandlerVariant.object]), Nat.add_zero] at hset
  rw [hset]
  congr 1
  have hobject : (HandlerVariant.map map').object = _ := hinit.object himpl
  rw [hobject]
  by_cases hm : mapInitOf shm.config map.attr = .nothing
  · simp [hm]
  · simp [hm, eq_comm]

/-- The handlers that are there keep what they hold. -/
theorem wellHeld_created (h : SharingInv shm) (hget : shm.handlers[n]? = some .unused)
    (hinit : Inited shm.config map shm.segment map' segment') (himpl : map.mapImplPtr = none) {other : MapHandler}
    (hmem : .map other ∈ shm.handlers) :
    WellHeld ⟨shm.config, shm.handlers.set n (.map map'), segment'⟩ other := by
  have hother := h.held other hmem
  refine hother.mono rfl ?_ (fun a hname => ?_) (fun a hobject => ?_) (fun cell hcell => ?_)
  · -- the segment has handed out no address, one, or two
    unfold Inited at hinit
    split at hinit
    · rw [hinit.2]
    · rw [hinit.2.2]
      exact Nat.le_succ _
    · rw [hinit.2.2]
      exact Nat.le_add_right _ 2
  · -- the new name was free, so it is not the one of this handler
    show segment'.named other.containerName = some a
    rw [hinit.named, if_neg]
    · exact hname
    · rintro ⟨hm, hcname⟩
      rw [hcname, hinit.free hm] at hname
      cases hname
  · -- the new object is none that was there
    have hlt := (hother.named hobject).2
    rw [holders_created hget hinit himpl, if_neg (fun heq => by omega), Nat.add_zero]
  · -- nor is the new cell
    have hlt := hother.cell_lt hcell
    show segment'.refcnts cell = shm.segment.refcnts cell
    unfold Inited at hinit
    split at hinit
    · rw [hinit.2]
    · rw [hinit.2.2]
      rfl
    · rw [hinit.2.2]
      have hne : cell ≠ shm.segment.next + 1 := by omega
      exact Function.update_of_ne hne ..

/-- **The invariant when a map is created** in a free slot. -/
theorem sharingInv_created (h : SharingInv shm) (hget : shm.handlers[n]? = some .unused)
    (hinit : Inited shm.config map shm.segment map' segment') (himpl : map.mapImplPtr = none)
    (hcellNone : map.mapRefcntPtr = none) :
    SharingInv ⟨shm.config, shm.handlers.set n (.map map'), segment'⟩ := by
  have hobject := hinit.object himpl
  have hcname : map'.containerName = map.containerName := by
    unfold Inited at hinit
    split at hinit
    · rw [hinit.1]
    · rw [hinit.2.1]; rfl
    · rw [hinit.2.1]; rfl
  have hheld : ∀ {other : MapHandler}, .map other ∈ shm.handlers → ∀ a, other.mapImplPtr = some a →
      a < shm.segment.next := fun hmem a himpl' => ((h.held _ hmem).named himpl').2
  -- nobody holds the address that comes next
  have hnone : shm.holders shm.segment.next = 0 := by
    by_contra hpos
    obtain ⟨other, hmem, himpl'⟩ := holders_pos.mp (Nat.pos_of_ne_zero hpos)
    exact absurd (hheld hmem _ himpl') (Nat.lt_irrefl _)
  -- after `map_init` the new handler alone does
  have hone := fun hm => (holders_created (a := shm.segment.next) hget hinit himpl).trans (by rw [hnone, if_pos ⟨hm, rfl⟩])
  refine sharingInv_placed h hget rfl ?_ (fun other hmem => wellHeld_created h hget hinit himpl hmem)
    (fun other a hmem himpl₁ himpl₂ => ?_) (fun other cell hmem hcell₁ hcell₂ => ?_) (fun name a hname => ?_)
  · have hname : mapInitOf shm.config map.attr ≠ .nothing → segment'.named map'.containerName = some shm.segment.next := by
      intro hm
      rw [hinit.named, hcname, if_pos ⟨hm, rfl⟩]
    -- by what `map_init` does for the type: nothing, an object, or an object and its count
    cases hm : mapInitOf shm.config map.attr with
    | nothing =>
        unfold Inited at hinit
        rw [hm] at hinit
        obtain ⟨rfl, rfl⟩ := hinit
        exact .empty himpl hcellNone hm
    | uncounted =>
        have hne : mapInitOf shm.config map.attr ≠ .nothing := by rw [hm]; decide
        have hname := hname hne
        have hone := hone hne
        unfold Inited at hinit
        rw [hm] at hinit
        obtain ⟨-, rfl, rfl⟩ := hinit
        exact .single rfl hcellNone hm hname (Nat.lt_succ_self _) hone
    | counted =>
        have hne : mapInitOf shm.config map.attr ≠ .nothing := by rw [hm]; decide
        have hname := hname hne
        have hone := hone hne
        unfold Inited at hinit
        rw [hm] at hinit
        obtain ⟨-, rfl, rfl⟩ := hinit
        refine .counted rfl rfl hm hname (Nat.lt_add_of_pos_right Nat.two_pos) (Nat.lt_succ_self _) ?_
        rw [hone]
        exact Function.update_self ..
  · -- an object that another handler holds is not the new one
    have hlt := hheld hmem a himpl₂
    rw [hobject] at himpl₁
    split at himpl₁
    · cases himpl₁
    · cases himpl₁
      exact absurd hlt (Nat.lt_irrefl _)
  · -- the cell of a new map is new
    exfalso
    have hlt := (h.held other hmem).cell_lt hcell₂
    unfold Inited at hinit
    split at hinit
    · rw [hinit.1, hcellNone] at hcell₁
      cases hcell₁
    · rw [hinit.2.1] at hcell₁
      exact absurd (hcellNone.symm.trans hcell₁) (by simp)
    · rw [hinit.2.1] at hcell₁
      cases hcell₁
      omega
  · -- a name is the new one or was there
    rw [hinit.named] at hname
    split at hname
    · next hnew =>
        right
        cases hname
        rw [hobject, if_neg hnew.1, hcname]
        exact ⟨rfl, hnew.2.symm⟩
    · exact .inl hname

end Created

/-! ## A map is shared -/

section Joined

variable {shm : Shm} {n i : Nat} {a cell : Nat} {map : MapHandler}

/-- The table with a copy of a handler, which its count knows of. -/
def joined (shm : Shm) (n : Nat) (map : MapHandler) (a cell : Nat) : Shm :=
  ⟨shm.config, shm.handlers.set n (.map map), shm.segment.setRefcnt cell (some (shm.holders a + 1))⟩

/-- A copy of a handler is one more holder of its object. -/
theorem holders_joined (hget : shm.handlers[n]? = some .unused) (himpl : map.mapImplPtr = some a) {b : Nat} :
    (joined shm n map a cell).holders b = shm.holders b + if a = b then 1 else 0 := by
  have hset : (joined shm n map a cell).holders b + _ = _ := holders_set hget
  rw [if_neg (show HandlerVariant.unused.object ≠ some b from by simp [HandlerVariant.object]), Nat.add_zero] at hset
  refine hset.trans ?_
  rw [show (HandlerVariant.map map).object = some a from himpl]
  simp only [Option.some.injEq]

/-- **The invariant when a map is shared** by a free slot. -/
theorem sharingInv_joined (h : SharingInv shm) (hget : shm.handlers[n]? = some .unused) (hmem : .map map ∈ shm.handlers)
    (himpl : map.mapImplPtr = some a) (hcell : map.mapRefcntPtr = some cell) : SharingInv (joined shm n map a cell) := by
  -- the copies of the handler, with one more
  have hcopy : WellHeld (joined shm n map a cell) map := by
    cases h.held map hmem with
    | empty himpl' => exact absurd (himpl.symm.trans himpl') (by simp)
    | single _ hnone => exact absurd (hcell.symm.trans hnone) (by simp)
    | counted himpl' hcell' hinit hname ha hcellLt hcount =>
        obtain rfl := Option.some.inj (himpl.symm.trans himpl')
        obtain rfl := Option.some.inj (hcell.symm.trans hcell')
        refine .counted himpl hcell hinit hname ha hcellLt ?_
        rw [holders_joined hget himpl, if_pos rfl]
        exact Function.update_self ..
  refine sharingInv_placed h hget rfl hcopy (fun other hother => ?_) (fun other b hother himpl₁ himpl₂ => ?_)
    (fun other c hother hcell₁ hcell₂ => ?_) (fun name b hname => .inl hname)
  · by_cases heq : other.mapImplPtr = some a
    · rw [h.sameObject other map a hother hmem heq himpl]
      exact hcopy
    · refine (h.held other hother).mono rfl (Nat.le_refl _) (fun _ hname => hname) (fun b himpl' => ?_)
        (fun c hcell' => ?_)
      · have hne : a ≠ b := by
          rintro rfl
          exact heq himpl'
        rw [holders_joined hget himpl, if_neg hne, Nat.add_zero]
      · have hne : c ≠ cell := by
          rintro rfl
          rw [h.sameCell other map c hother hmem hcell' hcell] at heq
          exact heq himpl
        exact Function.update_of_ne hne ..
  · exact h.sameObject map other b hmem hother himpl₁ himpl₂
  · exact h.sameCell map other c hmem hother hcell₁ hcell₂

end Joined

end MapTable

end Handler
