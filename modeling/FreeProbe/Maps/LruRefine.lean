import FreeProbe.Maps.LruVarHashMap
import Mathlib.Data.List.Perm.Basic

/-!
# `Maps.LruRefine` — the LRU map refines an LRU cache

`Represents` couples the linked list and the hash map: both hold the same items, the list in the cache's order. The
list operations keep it (`moveToHead_spec`, `evictEntry_spec`, `insertNewEntry_spec`), so each operation of the map
is one of the cache (`apply_refines`), and so is every sequence of them.
-/

namespace Maps

open Lib.LinkedList

variable {keySize valueSize : Nat}

/-! ## The coupling

Both structures hold the same items: the list in the order of their use, the hash map by their keys, with the address of
the list's entry. -/

/-- A stored key and value, with the address of its list entry. -/
structure LruItem (keySize valueSize : Nat) where
  entry : Nat
  key   : Vector Byte keySize
  value : Vector Byte valueSize

/-- The pair in the hash map. -/
abbrev LruItem.stored (item : LruItem keySize valueSize) : Vector Byte keySize × HashMapValue valueSize :=
  (item.key, ⟨item.value, item.entry⟩)

/-- What the cache knows of it. -/
abbrev LruItem.cached (item : LruItem keySize valueSize) : Vector Byte keySize × Vector Byte valueSize :=
  (item.key, item.value)

/-- The list and the hash map hold the items, each once. -/
structure Represents (map : LruVarHashMap keySize valueSize) (items : List (LruItem keySize valueSize)) : Prop where
  listed    : Listed map.links map.lruLinkListHead map.lruLinkListTail (items.map LruItem.entry)
  keys      : ∀ item ∈ items, map.keys item.entry = item.key
  distinct  : (items.map LruItem.key).Nodup
  stored    : map.mapImpl.Perm (items.map LruItem.stored)
  bound     : items.length ≤ map.maxEntries
  allocated : ∀ item ∈ items, item.entry < map.allocated

/-- The empty map. -/
theorem represents_new (maxEntries : Nat) :
    Represents (LruVarHashMap.new maxEntries : LruVarHashMap keySize valueSize) [] where
  listed := Listed.nil _
  keys := fun _ h => absurd h List.not_mem_nil
  distinct := List.nodup_nil
  stored := List.Perm.refl []
  bound := Nat.zero_le _
  allocated := fun _ h => absurd h List.not_mem_nil

/-! ## Finding a key

By the coupling there is one item of a key, at one place of the list. -/

section Find

variable {map : LruVarHashMap keySize valueSize} {items pre post : List (LruItem keySize valueSize)}
  {item : LruItem keySize valueSize} {key : Vector Byte keySize}

/-- A key of no item is not found. -/
theorem find_none (h : Represents map items) (hkey : key ∉ items.map LruItem.key) : map.find key = none := by
  rw [LruVarHashMap.find, Option.map_eq_none_iff, List.find?_eq_none]
  intro entry hentry
  obtain ⟨i, hi, rfl⟩ := List.mem_map.mp (h.stored.subset hentry)
  simp only [beq_iff_eq]
  exact fun heq => hkey (heq ▸ List.mem_map_of_mem hi)

/-- The items before and after an item have other keys. -/
theorem keys_ne (h : Represents map (pre ++ item :: post)) : ∀ i ∈ pre ++ post, i.key ≠ item.key := by
  have hnodup := h.distinct
  rw [List.map_append, List.map_cons] at hnodup
  have hcons := (List.perm_middle.nodup_iff.mp hnodup)
  rw [← List.map_append, List.nodup_cons] at hcons
  exact fun i hi heq => hcons.1 (heq ▸ List.mem_map_of_mem hi)

/-- A key of an item is found with the item's value and its place in the list. -/
theorem find_some (h : Represents map (pre ++ item :: post)) :
    map.find item.key = some ⟨item.value, item.entry⟩ := by
  have hmem : item.stored ∈ map.mapImpl := h.stored.symm.subset (by simp)
  cases hfind : map.mapImpl.find? fun entry => entry.1 == item.key with
  | none => exact absurd (beq_self_eq_true item.key) (List.find?_eq_none.mp hfind item.stored hmem)
  | some entry =>
      have hkey : entry.1 = item.key := by simpa using List.find?_some hfind
      obtain ⟨i, hi, rfl⟩ := List.mem_map.mp (h.stored.subset (List.mem_of_find?_eq_some hfind))
      have hsame : i = item := by
        by_contra hne
        refine keys_ne h i ?_ hkey
        rcases List.mem_append.mp hi with hi | hi
        · exact List.mem_append_left _ hi
        · exact List.mem_append_right _ ((List.mem_cons.mp hi).resolve_left hne)
      rw [LruVarHashMap.find, hfind, hsame]
      rfl

end Find

/-! ## The list operations

Each is a list, in and out: the pointers are the library's. -/

section ListOperations

variable {map : LruVarHashMap keySize valueSize} {ps qs : List Nat} {p : Nat}

/-- An entry that has one before it is not the head. -/
theorem not_head {links : Nat → Links Nat} {head tail : Option Nat} {a : Nat}
    (h : Listed links head tail (ps ++ a :: p :: qs)) : some p ≠ head := by
  rw [h.head]
  have hnodup := h.nodup
  cases ps with
  | nil =>
      intro heq
      obtain rfl : p = a := by simpa using heq
      simp at hnodup
  | cons q ps =>
      intro heq
      obtain rfl : p = q := by simpa using heq
      simp at hnodup

/-- An entry that has one after it is not the tail. -/
theorem not_tail {links : Nat → Links Nat} {head tail : Option Nat} {b : Nat}
    (h : Listed links head tail (ps ++ p :: b :: qs)) : some p ≠ tail := by
  rw [h.tail]
  intro heq
  have hlast : p ∈ b :: qs := by
    rw [List.getLast?_append, List.getLast?_cons_cons] at heq
    rw [List.getLast?_eq_some_getLast (List.cons_ne_nil b qs), Option.some_or] at heq
    rw [Option.some.inj heq]
    exact List.getLast_mem _
  have hnodup := (List.nodup_append.mp h.nodup).2.1
  exact (List.nodup_cons.mp hnodup).1 hlast

/-- The second half of `move_to_head`, on the list without the entry. -/
theorem pushFront_spec {links : Nat → Links Nat} {head tail : Option Nat} (h : Listed links head tail ps)
    (hne : ps ≠ []) (hnew : p ∉ ps) :
    ∃ hd, head = some hd ∧
      Listed (Lib.LinkedList.setPrev (Lib.LinkedList.setPrev (Lib.LinkedList.setNext links p (some hd)) p none) hd
        (some p)) (some p) tail (p :: ps) := by
  cases ps with
  | nil => exact absurd rfl hne
  | cons hd ps => exact ⟨hd, h.head, h.pushFront hnew⟩

/-- `move_to_head` of any entry of the list makes it the first. -/
theorem moveToHead_spec (h : Listed map.links map.lruLinkListHead map.lruLinkListTail (ps ++ p :: qs)) :
    ∃ links head tail, map.moveToHead p =
        some { map with links := links, lruLinkListHead := head, lruLinkListTail := tail } ∧
      Listed links head tail (p :: (ps ++ qs)) := by
  have hnew : p ∉ ps ++ qs := (List.nodup_cons.mp (List.perm_middle.nodup_iff.mp h.nodup)).1
  obtain ⟨hprev, hnext⟩ := h.links_eq
  -- the code returns at once for the head; else it unlinks the entry, which may be the tail
  rcases List.eq_nil_or_concat ps with rfl | ⟨ps, a, rfl⟩
  · have hhead : some p = map.lruLinkListHead := h.head.symm
    refine ⟨map.links, map.lruLinkListHead, map.lruLinkListTail, ?_, h⟩
    rw [LruVarHashMap.moveToHead, if_pos hhead]
  · rw [List.concat_eq_append] at *
    rw [List.getLast?_concat] at hprev
    have hhead : some p ≠ map.lruLinkListHead := not_head (by simpa using h)
    cases qs with
    | nil =>
        have hunlinked := Listed.unlinkLast (by simpa using h)
        obtain ⟨hd, hhd, hlisted⟩ := pushFront_spec hunlinked (by simp) (by simpa using hnew)
        refine ⟨_, some p, some a, ?_, by simpa using hlisted⟩
        rw [LruVarHashMap.moveToHead, if_neg hhead, hprev, hnext]
        simp [LruVarHashMap.setNext, LruVarHashMap.setPrev, hhd]
    | cons b qs =>
        have hunlinked := Listed.unlinkMiddle (by simpa using h)
        obtain ⟨hd, hhd, hlisted⟩ := pushFront_spec hunlinked (by simp) (by simpa using hnew)
        refine ⟨_, some p, map.lruLinkListTail, ?_, by simpa using hlisted⟩
        rw [LruVarHashMap.moveToHead, if_neg hhead, hprev, hnext]
        simp [LruVarHashMap.setNext, LruVarHashMap.setPrev, hhd]

/-- `evict_entry` takes an entry out of the list, wherever it is. -/
theorem evictEntry_spec (h : Listed map.links map.lruLinkListHead map.lruLinkListTail (ps ++ p :: qs)) :
    ∃ links head tail, map.evictEntry p =
        some { map with links := links, lruLinkListHead := head, lruLinkListTail := tail } ∧
      Listed links head tail (ps ++ qs) := by
  obtain ⟨hprev, hnext⟩ := h.links_eq
  -- the four cases of the code: last or not, and first or not
  cases qs with
  | nil =>
      have htail : some p = map.lruLinkListTail := by rw [h.tail, List.getLast?_concat]
      rcases List.eq_nil_or_concat ps with rfl | ⟨ps, a, rfl⟩
      · have hhead : some p = map.lruLinkListHead := h.head.symm
        refine ⟨map.links, none, none, ?_, Listed.nil map.links⟩
        rw [LruVarHashMap.evictEntry, if_pos htail, if_pos hhead]
      · rw [List.concat_eq_append] at *
        rw [List.getLast?_concat] at hprev
        have hhead : some p ≠ map.lruLinkListHead := not_head (by simpa using h)
        refine ⟨_, map.lruLinkListHead, some a, ?_, by simpa using Listed.unlinkLast (by simpa using h)⟩
        rw [LruVarHashMap.evictEntry, if_pos htail, if_neg hhead, hprev]
        rfl
  | cons b qs =>
      have htail : some p ≠ map.lruLinkListTail := not_tail h
      rcases List.eq_nil_or_concat ps with rfl | ⟨ps, a, rfl⟩
      · have hhead : some p = map.lruLinkListHead := h.head.symm
        refine ⟨_, some b, map.lruLinkListTail, ?_, Listed.unlinkFirst h⟩
        rw [LruVarHashMap.evictEntry, if_neg htail, if_pos hhead, hnext]
        rfl
      · rw [List.concat_eq_append] at *
        rw [List.getLast?_concat] at hprev
        have hhead : some p ≠ map.lruLinkListHead := not_head (by simpa using h)
        refine ⟨_, map.lruLinkListHead, map.lruLinkListTail, ?_, by simpa using Listed.unlinkMiddle (by simpa using h)⟩
        rw [LruVarHashMap.evictEntry, if_neg htail, if_neg hhead, hprev, hnext]
        rfl

/-- `insert_new_entry` puts a new entry in front. -/
theorem insertNewEntry_spec {key : Vector Byte keySize}
    (h : Listed map.links map.lruLinkListHead map.lruLinkListTail ps) (hnew : map.allocated ∉ ps) :
    ∃ links head tail, map.insertNewEntry key =
        (map.allocated, { map with
          allocated := map.allocated + 1, keys := Function.update map.keys map.allocated key, links := links,
          lruLinkListHead := head, lruLinkListTail := tail }) ∧
      Listed links head tail (map.allocated :: ps) := by
  let links : Nat → Links Nat := Function.update map.links map.allocated ⟨none, none⟩
  -- the new entry is not in the list, so initialising its links does not touch the list
  have hself : links map.allocated = ⟨none, none⟩ := Function.update_self ..
  have hlinks : Listed links map.lruLinkListHead map.lruLinkListTail ps := by
    refine ⟨h.nodup, h.head, h.tail, segment_congr (fun q hq => ?_) h.linked⟩
    have hne : q ≠ map.allocated := fun heq => hnew (heq ▸ hq)
    exact Function.update_of_ne hne _ _
  -- into the empty list, where it is the tail as well, or in front of the head
  cases ps with
  | nil =>
      have hhead : map.lruLinkListHead = none := h.head
      refine ⟨links, some map.allocated, some map.allocated, ?_, List.nodup_singleton _, rfl, rfl, ?_, ?_, trivial⟩
      · simp only [LruVarHashMap.insertNewEntry, hhead, links]
      · rw [hself]
      · rw [hself]
        rfl
  | cons hd ps =>
      have hhead : map.lruLinkListHead = some hd := h.head
      have hlisted := hlinks.pushFront hnew
      have hprev : (Lib.LinkedList.setNext links map.allocated (some hd) map.allocated).prev = none := by
        rw [setNext_self, hself]
      rw [Lib.LinkedList.setPrev_same hprev] at hlisted
      refine ⟨_, some map.allocated, map.lruLinkListTail, ?_, hlisted⟩
      simp only [LruVarHashMap.insertNewEntry, hhead]
      rfl

end ListOperations

/-! ## The coupling, operation by operation

What the map's operations do to the items. -/

section Steps

variable {map : LruVarHashMap keySize valueSize} {items pre post : List (LruItem keySize valueSize)}
  {item : LruItem keySize valueSize} {key : Vector Byte keySize} {value : Vector Byte valueSize}

/-- The items in another order, with the list in that order. -/
theorem Represents.reorder {items' : List (LruItem keySize valueSize)} (h : Represents map items)
    (hperm : items'.Perm items) {links : Nat → Links Nat} {head tail : Option Nat}
    (hlisted : Listed links head tail (items'.map LruItem.entry)) :
    Represents { map with links := links, lruLinkListHead := head, lruLinkListTail := tail } items' where
  listed := hlisted
  keys := fun i hi => h.keys i (hperm.subset hi)
  distinct := (hperm.map LruItem.key).nodup_iff.mpr h.distinct
  stored := h.stored.trans (hperm.map LruItem.stored).symm
  bound := hperm.length_eq ▸ h.bound
  allocated := fun i hi => h.allocated i (hperm.subset hi)

/-- An item that is used becomes the most recent one. -/
theorem Represents.moveToHead (h : Represents map (pre ++ item :: post)) :
    ∃ map', map.moveToHead item.entry = some map' ∧ Represents map' (item :: (pre ++ post)) ∧
      map'.maxEntries = map.maxEntries := by
  have hlisted := h.listed
  rw [List.map_append, List.map_cons] at hlisted
  obtain ⟨links, head, tail, hmove, hlisted'⟩ := moveToHead_spec hlisted
  refine ⟨_, hmove, h.reorder List.perm_middle.symm ?_, rfl⟩
  rw [List.map_cons, List.map_append]
  exact hlisted'

/-- An item gets another value and stays where it is. -/
theorem Represents.assign (h : Represents map (pre ++ item :: post)) (value : Vector Byte valueSize) :
    Represents (map.assign item.key value) (pre ++ { item with value := value } :: post) := by
  have hsame : (pre ++ { item with value := value } :: post).map LruItem.entry =
      (pre ++ item :: post).map LruItem.entry ∧
      (pre ++ { item with value := value } :: post).map LruItem.key = (pre ++ item :: post).map LruItem.key := by
    simp
  -- the pairs of the other keys are not touched
  have hkeep : ∀ is : List (LruItem keySize valueSize), (∀ i ∈ is, i.key ≠ item.key) →
      (is.map LruItem.stored).map (fun entry =>
        if entry.1 = item.key then (item.key, { entry.2 with value := value }) else entry) =
      is.map LruItem.stored := by
    intro is hne
    rw [List.map_map]
    exact List.map_congr_left fun i hi => if_neg (hne i hi)
  refine ⟨?_, ?_, ?_, ?_, ?_, ?_⟩
  · rw [hsame.1]
    exact h.listed
  · intro i hi
    rcases List.mem_append.mp hi with hi | hi
    · exact h.keys i (List.mem_append_left _ hi)
    · rcases List.mem_cons.mp hi with rfl | hi
      · exact h.keys item (by simp)
      · exact h.keys i (by simp [hi])
  · rw [hsame.2]
    exact h.distinct
  · refine (h.stored.map _).trans (List.Perm.of_eq ?_)
    have hne := keys_ne h
    rw [List.map_append, List.map_cons, List.map_append, List.map_cons,
      hkeep pre fun i hi => hne i (List.mem_append_left _ hi),
      hkeep post fun i hi => hne i (List.mem_append_right _ hi), if_pos rfl, List.map_append, List.map_cons]
  · change _ ≤ map.maxEntries
    simpa using h.bound
  · intro i hi
    rcases List.mem_append.mp hi with hi | hi
    · exact h.allocated i (List.mem_append_left _ hi)
    · rcases List.mem_cons.mp hi with rfl | hi
      · exact h.allocated item (by simp)
      · exact h.allocated i (by simp [hi])

/-- An item out of both structures. -/
theorem Represents.erase (h : Represents map (pre ++ item :: post)) {links : Nat → Links Nat} {head tail : Option Nat}
    (hlisted : Listed links head tail ((pre ++ post).map LruItem.entry)) :
    Represents { map.erase item.key with links := links, lruLinkListHead := head, lruLinkListTail := tail }
      (pre ++ post) := by
  have hsub : (pre ++ post).Sublist (pre ++ item :: post) := by simp
  refine ⟨hlisted, fun i hi => h.keys i (hsub.subset hi), h.distinct.sublist (hsub.map _), ?_, ?_,
    fun i hi => h.allocated i (hsub.subset hi)⟩
  · have hne := keys_ne h
    refine (h.stored.filter _).trans (List.Perm.of_eq ?_)
    rw [List.map_append, List.map_cons, List.filter_append, List.filter_cons_of_neg (by simp), ← List.filter_append,
      ← List.map_append, List.filter_eq_self]
    intro entry hentry
    obtain ⟨i, hi, rfl⟩ := List.mem_map.mp hentry
    simpa using hne i hi
  · exact Nat.le_trans hsub.length_le h.bound

/-- A new item is the most recent one. -/
theorem Represents.insert (h : Represents map items) (hkey : key ∉ items.map LruItem.key)
    (hroom : items.length < map.maxEntries) (value : Vector Byte valueSize) :
    ∃ map', (map.insertNewEntry key).2.emplace key ⟨value, (map.insertNewEntry key).1⟩ = map' ∧
      Represents map' (⟨map.allocated, key, value⟩ :: items) ∧ map'.maxEntries = map.maxEntries := by
  -- its entry was allocated after all the others
  have hnew : map.allocated ∉ items.map LruItem.entry := by
    intro hmem
    obtain ⟨i, hi, heq⟩ := List.mem_map.mp hmem
    exact Nat.ne_of_lt (h.allocated i hi) heq
  obtain ⟨links, head, tail, hinsert, hlisted⟩ := @insertNewEntry_spec _ _ map _ key h.listed hnew
  have hfind : (map.find key).isSome = false := by rw [find_none h hkey, Option.isSome_none]
  have hemplace : ∀ map' : LruVarHashMap keySize valueSize, map'.mapImpl = map.mapImpl →
      map'.emplace key ⟨value, map.allocated⟩ =
        { map' with mapImpl := (key, ⟨value, map.allocated⟩) :: map.mapImpl } := by
    intro map' himpl
    rw [LruVarHashMap.emplace, LruVarHashMap.find, himpl]
    exact if_neg (Bool.eq_false_iff.mp hfind)
  let inserted : LruVarHashMap keySize valueSize := { map with
    allocated := map.allocated + 1, keys := Function.update map.keys map.allocated key, links := links,
    lruLinkListHead := head, lruLinkListTail := tail }
  refine ⟨{ inserted with mapImpl := (key, ⟨value, map.allocated⟩) :: map.mapImpl }, ?_, ?_, rfl⟩
  · rw [hinsert]
    exact hemplace inserted rfl
  refine ⟨hlisted, ?_, List.nodup_cons.mpr ⟨hkey, h.distinct⟩, h.stored.cons _, hroom, ?_⟩
  · intro i hi
    rcases List.mem_cons.mp hi with rfl | hi
    · exact Function.update_self map.allocated key map.keys
    · have hne : i.entry ≠ map.allocated := Nat.ne_of_lt (h.allocated i hi)
      exact (Function.update_of_ne hne key map.keys).trans (h.keys i hi)
  · intro i hi
    rcases List.mem_cons.mp hi with rfl | hi
    · exact Nat.lt_succ_self map.allocated
    · exact Nat.lt_succ_of_lt (h.allocated i hi)

/-! ## The cache

The abstract cache finds the same items. -/

/-- The cache has no other keys than the items. -/
theorem cache_find_none (hkey : key ∉ items.map LruItem.key) : LruCache.find (items.map LruItem.cached) key = none := by
  rw [LruCache.find, Option.map_eq_none_iff, List.find?_eq_none]
  intro entry hentry
  obtain ⟨i, hi, rfl⟩ := List.mem_map.mp hentry
  simp only [beq_iff_eq]
  exact fun heq => hkey (heq ▸ List.mem_map_of_mem hi)

/-- And their values. -/
theorem cache_find_some (h : Represents map (pre ++ item :: post)) :
    LruCache.find ((pre ++ item :: post).map LruItem.cached) item.key = some item.value := by
  have hne := keys_ne h
  have hpre : List.find? (fun entry => entry.1 == item.key) (pre.map LruItem.cached) = none := by
    rw [List.find?_eq_none]
    intro entry hentry
    obtain ⟨i, hi, rfl⟩ := List.mem_map.mp hentry
    simpa using hne i (List.mem_append_left _ hi)
  simp [LruCache.find, List.find?_append, hpre]

/-- Taking the key out of the cache takes the item out. -/
theorem cache_without (h : Represents map (pre ++ item :: post)) :
    LruCache.without ((pre ++ item :: post).map LruItem.cached) item.key = (pre ++ post).map LruItem.cached := by
  have hne := keys_ne h
  rw [LruCache.without, List.map_append, List.map_cons, List.filter_append, List.filter_cons_of_neg (by simp),
    ← List.filter_append, ← List.map_append, List.filter_eq_self]
  intro entry hentry
  obtain ⟨i, hi, rfl⟩ := List.mem_map.mp hentry
  simpa using hne i hi

end Steps

/-! ## Refinement

One operation beside one of the cache, by whether the key is stored and by what the flags ask. -/

/-- One operation of the map beside one of the cache. -/
structure LruStep (map : LruVarHashMap keySize valueSize) (items : List (LruItem keySize valueSize))
    (op : LruOp keySize valueSize) (map' : LruVarHashMap keySize valueSize)
    (items' : List (LruItem keySize valueSize)) : Prop where
  result : map.apply op = some ((LruCache.apply map.maxEntries (items.map LruItem.cached) op).1, map')
  after  : Represents map' items'
  cached : items'.map LruItem.cached = (LruCache.apply map.maxEntries (items.map LruItem.cached) op).2
  bound  : map'.maxEntries = map.maxEntries

section Refinement

variable {map : LruVarHashMap keySize valueSize} {items : List (LruItem keySize valueSize)}

/-- A key is stored with its item, or not at all. -/
theorem key_cases (items : List (LruItem keySize valueSize)) (key : Vector Byte keySize) :
    key ∉ items.map LruItem.key ∨ ∃ pre item post, items = pre ++ item :: post ∧ item.key = key := by
  by_cases hkey : key ∈ items.map LruItem.key
  · obtain ⟨item, hitem, rfl⟩ := List.mem_map.mp hkey
    obtain ⟨pre, post, rfl⟩ := List.append_of_mem hitem
    exact Or.inr ⟨pre, item, post, rfl, rfl⟩
  · exact Or.inl hkey

/-- **`elem_lookup`**. -/
theorem lookup_refines (h : Represents map items) (key : Vector Byte keySize) :
    ∃ map' items', LruStep map items (.lookup key) map' items' := by
  rcases key_cases items key with hkey | ⟨pre, item, post, rfl, rfl⟩
  · refine ⟨map, items, ?_, h, ?_, rfl⟩
    · simp [LruVarHashMap.apply, LruVarHashMap.elemLookup, find_none h hkey, LruCache.apply, cache_find_none hkey,
        Except.map]
    · simp [LruCache.apply, cache_find_none hkey]
  · obtain ⟨map', hmove, hafter, hbound⟩ := h.moveToHead
    refine ⟨map', item :: (pre ++ post), ?_, hafter, ?_, hbound⟩
    · simp only [LruVarHashMap.apply, LruVarHashMap.elemLookup, find_some h, hmove, LruCache.apply, cache_find_some h]
      rfl
    · simp only [LruCache.apply, cache_find_some h, cache_without h]
      rfl

/-- **`elem_delete`**. -/
theorem delete_refines (h : Represents map items) (key : Vector Byte keySize) :
    ∃ map' items', LruStep map items (.delete key) map' items' := by
  rcases key_cases items key with hkey | ⟨pre, item, post, rfl, rfl⟩
  · refine ⟨map, items, ?_, h, ?_, rfl⟩
    · simp [LruVarHashMap.apply, LruVarHashMap.elemDelete, find_none h hkey, LruCache.apply, cache_find_none hkey,
        Except.map]
    · simp [LruCache.apply, cache_find_none hkey]
  · have hlisted := h.listed
    rw [List.map_append, List.map_cons] at hlisted
    obtain ⟨links, head, tail, hevict, hlisted'⟩ := evictEntry_spec hlisted
    rw [← List.map_append] at hlisted'
    refine ⟨_, pre ++ post, ?_, h.erase hlisted', ?_, rfl⟩
    · simp only [LruVarHashMap.apply, LruVarHashMap.elemDelete, find_some h, hevict, LruCache.apply, cache_find_some h]
      rfl
    · simp only [LruCache.apply, cache_find_some h, cache_without h]
      rfl

/-- The three flags that an update takes. -/
theorem isGoodUpdateFlag_iff {flags : BitVec 64} :
    isGoodUpdateFlag flags = true ↔ flags = BPF_ANY ∨ flags = BPF_EXIST ∨ flags = BPF_NOEXIST := by
  simp [isGoodUpdateFlag, or_assoc]

/-- An operation that fails changes nothing. -/
theorem LruStep.failed {op : LruOp keySize valueSize} {e : Errno} (h : Represents map items)
    (hmap : map.apply op = some (.error e, map))
    (hcache : LruCache.apply map.maxEntries (items.map LruItem.cached) op = (.error e, items.map LruItem.cached)) :
    LruStep map items op map items :=
  ⟨by rw [hmap, hcache], h, by rw [hcache], rfl⟩

/-- An update that goes through. -/
theorem LruStep.updated {key : Vector Byte keySize} {value : Vector Byte valueSize} {flags : BitVec 64}
    {map' : LruVarHashMap keySize valueSize} {items' : List (LruItem keySize valueSize)}
    (hmap : map.elemUpdate key value flags = some (.ok (), map')) (hafter : Represents map' items')
    (hcache : LruCache.apply map.maxEntries (items.map LruItem.cached) (.update key value flags) =
      (.ok none, items'.map LruItem.cached)) (hbound : map'.maxEntries = map.maxEntries) :
    LruStep map items (.update key value flags) map' items' := by
  refine ⟨?_, hafter, by rw [hcache], hbound⟩
  rw [LruVarHashMap.apply, hmap, hcache]
  rfl

/-- An update of a stored key. -/
theorem update_stored {pre post : List (LruItem keySize valueSize)} {item : LruItem keySize valueSize}
    (h : Represents map (pre ++ item :: post)) (value : Vector Byte valueSize) (flags : BitVec 64)
    (hflags : isGoodUpdateFlag flags = true) :
    ∃ map' items', LruStep map (pre ++ item :: post) (.update item.key value flags) map' items' := by
  have hcache : LruCache.apply map.maxEntries ((pre ++ item :: post).map LruItem.cached)
      (.update item.key value flags) = if flags = BPF_NOEXIST then
        (.error .eexist, (pre ++ item :: post).map LruItem.cached)
      else (.ok none, (item.key, value) :: (pre ++ post).map LruItem.cached) := by
    rw [LruCache.apply, if_neg (not_not.mpr (isGoodUpdateFlag_iff.mp hflags)), cache_find_some h, cache_without h]
    rfl
  -- `BPF_NOEXIST` fails; with the other flags the value is stored and the item moved to the front
  by_cases hnoexist : flags = BPF_NOEXIST
  · rw [if_pos hnoexist] at hcache
    refine ⟨map, _, .failed h ?_ hcache⟩
    rw [LruVarHashMap.apply, LruVarHashMap.elemUpdate, hflags, find_some h]
    simp only [hnoexist]
    rfl
  · rw [if_neg hnoexist] at hcache
    obtain ⟨map', hmove, hafter, hbound⟩ := (h.assign value).moveToHead
    refine ⟨map', _, .updated ?_ hafter hcache hbound⟩
    rw [LruVarHashMap.elemUpdate, hflags, find_some h]
    simp only [Bool.not_true, Bool.false_eq_true, if_false, hnoexist, false_and, Option.isNone_some, and_false, hmove]
    rfl

/-- A new key, where there is room or the last item makes room. -/
theorem update_new (h : Represents map items) (hmax : 0 < map.maxEntries) {key : Vector Byte keySize}
    (hkey : key ∉ items.map LruItem.key) (value : Vector Byte valueSize) (flags : BitVec 64)
    (hflags : isGoodUpdateFlag flags = true) :
    ∃ map' items', LruStep map items (.update key value flags) map' items' := by
  have hlength : map.mapImpl.length = items.length := by rw [h.stored.length_eq, List.length_map]
  have hcache : LruCache.apply map.maxEntries (items.map LruItem.cached) (.update key value flags) =
      if flags = BPF_EXIST then (.error .enoent, items.map LruItem.cached)
      else if items.length = map.maxEntries then (.ok none, (key, value) :: (items.map LruItem.cached).dropLast)
      else (.ok none, (key, value) :: items.map LruItem.cached) := by
    rw [LruCache.apply, if_neg (not_not.mpr (isGoodUpdateFlag_iff.mp hflags)), cache_find_none hkey, List.length_map]
    rfl
  -- `BPF_EXIST` fails; with the other flags the item is new
  by_cases hexist : flags = BPF_EXIST
  · rw [if_pos hexist] at hcache
    refine ⟨map, _, .failed h ?_ hcache⟩
    rw [LruVarHashMap.apply, LruVarHashMap.elemUpdate, hflags, find_none h hkey]
    simp only [hexist]
    rfl
  · rw [if_neg hexist] at hcache
    by_cases hfull : items.length = map.maxEntries
    · -- the last item is the tail of the list
      rw [if_pos hfull] at hcache
      obtain ⟨init, last, rfl⟩ : ∃ init last, items = init ++ [last] := by
        rcases List.eq_nil_or_concat items with rfl | ⟨init, last, rfl⟩
        · rw [List.length_nil] at hfull
          omega
        · exact ⟨init, last, List.concat_eq_append⟩
      have hlisted := h.listed
      rw [List.map_append, List.map_singleton] at hlisted
      have htail : map.lruLinkListTail = some last.entry := by rw [hlisted.tail, List.getLast?_concat]
      have hlastKey : map.keys last.entry = last.key := h.keys last (by simp)
      obtain ⟨links, head, tail, hevict, hlisted'⟩ :=
        @evictEntry_spec _ _ (map.erase last.key) (init.map LruItem.entry) [] last.entry hlisted
      have herased := h.erase (by simpa using hlisted')
      rw [List.append_nil] at herased
      have hkey' : key ∉ init.map LruItem.key := by
        intro hmem
        exact hkey (by rw [List.map_append]; exact List.mem_append_left _ hmem)
      have hroom : init.length < map.maxEntries := by
        rw [← hfull, List.length_append]
        exact Nat.lt_succ_self _
      obtain ⟨map', hinsert, hafter, hbound⟩ := herased.insert hkey' hroom value
      rw [List.map_append, List.map_singleton, List.dropLast_concat] at hcache
      refine ⟨map', _, .updated ?_ hafter (by rw [List.map_append]; exact hcache) hbound⟩
      rw [LruVarHashMap.elemUpdate, hflags, find_none h hkey]
      simp only [Bool.not_true, Bool.false_eq_true, if_false, Option.isSome_none, and_false, hexist, false_and,
        hlength, hfull, if_true, htail, Option.bind_eq_bind, Option.bind_some, hlastKey, hevict, hinsert]
      rfl
    · rw [if_neg hfull] at hcache
      have hroom : items.length < map.maxEntries := Nat.lt_of_le_of_ne h.bound hfull
      obtain ⟨map', hinsert, hafter, hbound⟩ := h.insert hkey hroom value
      refine ⟨map', _, .updated ?_ hafter hcache hbound⟩
      rw [LruVarHashMap.elemUpdate, hflags, find_none h hkey]
      simp only [Bool.not_true, Bool.false_eq_true, if_false, Option.isSome_none, and_false, hexist, false_and,
        hlength, hfull, Option.bind_eq_bind, Option.bind_some, hinsert]
      rfl

/-- **`elem_update`**, of a key that is there or not. -/
theorem update_refines (h : Represents map items) (hmax : 0 < map.maxEntries) (key : Vector Byte keySize)
    (value : Vector Byte valueSize) (flags : BitVec 64) :
    ∃ map' items', LruStep map items (.update key value flags) map' items' := by
  by_cases hflags : isGoodUpdateFlag flags = true
  · rcases key_cases items key with hkey | ⟨pre, item, post, rfl, rfl⟩
    · exact update_new h hmax hkey value flags hflags
    · exact update_stored h value flags hflags
  · refine ⟨map, items, .failed h ?_ (if_pos (mt isGoodUpdateFlag_iff.mpr hflags))⟩
    rw [LruVarHashMap.apply, LruVarHashMap.elemUpdate, if_pos (by simpa using hflags)]
    rfl

/-- Every operation of the map is one of the cache. -/
theorem apply_refines (h : Represents map items) (hmax : 0 < map.maxEntries) (op : LruOp keySize valueSize) :
    ∃ map' items', LruStep map items op map' items' := by
  cases op with
  | lookup key => exact lookup_refines h key
  | update key value flags => exact update_refines h hmax key value flags
  | delete key => exact delete_refines h key

end Refinement

/-! ## The order is the order of the last uses

The cache keeps a list. That its order is that of the last uses is a theorem about the cache alone. -/

section Recency

variable {history : LruHistory keySize valueSize} {event : LruOp keySize valueSize × LruReturn valueSize}
  {key key' : Vector Byte keySize} {cache : LruCache keySize valueSize}

/-- The key of the last event is used after all others. -/
theorem usedAfter_last (hused : LruOp.used event = some key) : UsedAfter (history ++ [event]) key key' :=
  ⟨history, event, [], rfl, hused, fun _ h => absurd h List.not_mem_nil⟩

/-- A use of another key changes nothing between two keys. -/
theorem UsedAfter.append (h : UsedAfter history key key') (hother : LruOp.used event ≠ some key') :
    UsedAfter (history ++ [event]) key key' := by
  obtain ⟨pre, e, post, rfl, hused, hpost⟩ := h
  refine ⟨pre, e, post ++ [event], by simp, hused, ?_⟩
  intro e' he'
  rcases List.mem_append.mp he' with he' | he'
  · exact hpost e' he'
  · rw [List.mem_singleton.mp he']
    exact hother

/-- The keys of a cache, in the order of their last uses. -/
def Recent (history : LruHistory keySize valueSize) (cache : LruCache keySize valueSize) : Prop :=
  (cache.map Prod.fst).Pairwise (UsedAfter history)

/-- An event that uses no key of the cache keeps the order. -/
theorem Recent.append (h : Recent history cache)
    (hother : ∀ entry ∈ cache, LruOp.used event ≠ some entry.1) : Recent (history ++ [event]) cache := by
  refine List.Pairwise.imp_of_mem ?_ h
  intro k k' _ hk' huse
  obtain ⟨entry, hentry, rfl⟩ := List.mem_map.mp hk'
  exact huse.append (hother entry hentry)

/-- A part of the cache is in order. -/
theorem Recent.sublist {cache' : LruCache keySize valueSize} (h : Recent history cache)
    (hsub : cache'.Sublist cache) : Recent history cache' :=
  List.Pairwise.sublist (hsub.map _) h

/-- A key that is used goes before the others. -/
theorem Recent.cons (h : Recent history cache) (hused : LruOp.used event = some key)
    (hother : ∀ entry ∈ cache, entry.1 ≠ key) (value : Vector Byte valueSize) :
    Recent (history ++ [event]) ((key, value) :: cache) := by
  refine List.Pairwise.cons (fun _ _ => usedAfter_last hused) (h.append ?_)
  intro entry hentry heq
  exact hother entry hentry (Option.some.inj (heq.symm.trans hused))

/-- The cache without a key is a part of it. -/
theorem without_sublist (cache : LruCache keySize valueSize) (key : Vector Byte keySize) :
    (cache.without key).Sublist cache := List.filter_sublist

/-- And has no entry of the key. -/
theorem without_ne : ∀ entry ∈ cache.without key, entry.1 ≠ key := by
  intro entry hentry
  simpa using (List.mem_filter.mp hentry).2

/-- Nor has a cache in which the key is not found. -/
theorem find_none_ne (h : cache.find key = none) : ∀ entry ∈ cache, entry.1 ≠ key := by
  intro entry hentry
  simpa using List.find?_eq_none.mp (Option.map_eq_none_iff.mp h) entry hentry

/-- **Each operation keeps the cache in the order of use.** -/
theorem apply_recent (h : Recent history cache) (maxEntries : Nat) (op : LruOp keySize valueSize) :
    Recent (history ++ [(op, (LruCache.apply maxEntries cache op).1)]) (LruCache.apply maxEntries cache op).2 := by
  -- an operation that fails uses no key
  have hunused : ∀ e, LruOp.used (op, (.error e : LruReturn valueSize)) = none := by
    intro e
    cases op <;> rfl
  have hfailed : ∀ e, Recent (history ++ [(op, .error e)]) cache := by
    intro e
    exact h.append fun _ _ => by simp [hunused]
  cases op with
  | lookup key =>
      cases hfind : cache.find key with
      | none => simpa only [LruCache.apply, hfind] using hfailed _
      | some value =>
          simp only [LruCache.apply, hfind]
          exact (h.sublist (without_sublist cache key)).cons rfl without_ne value
  | update key value flags =>
      rw [LruCache.apply]
      split
      · exact hfailed _
      split
      · split
        · exact hfailed _
        · exact (h.sublist (without_sublist cache key)).cons rfl without_ne value
      rename_i hfind
      have hne := find_none_ne (by simpa using hfind : cache.find key = none)
      split
      · exact hfailed _
      split
      · exact (h.sublist (List.dropLast_sublist cache)).cons rfl
          (fun entry hentry => hne entry (List.dropLast_subset cache hentry)) value
      · exact h.cons rfl hne value
  | delete key =>
      rw [LruCache.apply]
      split
      · exact (h.sublist (without_sublist cache key)).append fun _ _ => by simp [LruOp.used]
      · exact hfailed _

end Recency

/-! ## Runs -/

/-- The map holds what the cache holds. -/
def Holds (maxEntries : Nat) (map : LruVarHashMap keySize valueSize) (cache : LruCache keySize valueSize) : Prop :=
  ∃ items, Represents map items ∧ items.map LruItem.cached = cache ∧ map.maxEntries = maxEntries

/-- **Each operation of the map is that of the cache.** -/
theorem holds_refines {maxEntries : Nat} (hmax : 0 < maxEntries) :
    Lib.Refines (@LruVarHashMap.apply keySize valueSize) (LruCache.apply maxEntries) (Holds maxEntries) := by
  rintro map cache op ⟨items, h, rfl, rfl⟩
  obtain ⟨map', items', hstep⟩ := apply_refines h hmax op
  exact ⟨map', hstep.result, items', hstep.after, hstep.cached, hstep.bound⟩

/-- Any run keeps the cache in the order of use. -/
theorem runRef_recent {history : LruHistory keySize valueSize} {cache : LruCache keySize valueSize} {maxEntries : Nat}
    (h : Recent history cache) (ops : List (LruOp keySize valueSize)) :
    Recent (history ++ ops.zip (Lib.runRef (LruCache.apply maxEntries) cache ops).1)
      (Lib.runRef (LruCache.apply maxEntries) cache ops).2 := by
  induction ops generalizing history cache with
  | nil => simpa [Lib.runRef] using h
  | cons op ops ih => simpa [Lib.runRef] using ih (apply_recent h maxEntries op)

/-- An operation that fails leaves the map as it was. -/
theorem apply_error {map map' : LruVarHashMap keySize valueSize} {op : LruOp keySize valueSize} {e : Errno}
    (h : map.apply op = some (.error e, map')) : map' = map := by
  -- each path that ends with an error returns before anything is written
  cases op with
  | lookup key =>
      simp only [LruVarHashMap.apply, LruVarHashMap.elemLookup] at h
      split at h
      · simp only [Option.bind_eq_bind, Option.bind_assoc] at h
        exact absurd h (bind_ok_ne fun _ => ⟨_, rfl⟩)
      · exact (Prod.mk.inj (Option.some.inj h)).2.symm
  | update key value flags =>
      simp only [LruVarHashMap.apply, LruVarHashMap.elemUpdate] at h
      split at h
      · exact (Prod.mk.inj (Option.some.inj h)).2.symm
      split at h
      · exact (Prod.mk.inj (Option.some.inj h)).2.symm
      split at h
      · exact (Prod.mk.inj (Option.some.inj h)).2.symm
      split at h
      · simp only [Option.bind_eq_bind, Option.bind_assoc] at h
        exact absurd h (bind_ok_ne fun _ => ⟨_, rfl⟩)
      · simp only [Option.bind_eq_bind] at h
        split at h
        · simp only [Option.bind_assoc] at h
          obtain ⟨tail, -, h⟩ := Option.bind_eq_some_iff.mp h
          exact absurd h (bind_ok_ne fun _ => ⟨_, rfl⟩)
        · simp only [Option.bind_assoc] at h
          exact absurd h (bind_ok_ne fun _ => ⟨_, rfl⟩)
  | delete key =>
      simp only [LruVarHashMap.apply, LruVarHashMap.elemDelete] at h
      split at h
      · simp only [Option.bind_eq_bind, Option.bind_assoc] at h
        exact absurd h (bind_ok_ne fun _ => ⟨_, rfl⟩)
      · exact (Prod.mk.inj (Option.some.inj h)).2.symm

/-- A new key in a full cache. -/
theorem apply_evicts {cache : LruCache keySize valueSize} {maxEntries : Nat} {key : Vector Byte keySize}
    {value : Vector Byte valueSize} {flags : BitVec 64} (hfind : cache.find key = none)
    (hfull : List.length cache = maxEntries)
    (hok : (LruCache.apply maxEntries cache (.update key value flags)).1 = .ok none) :
    (LruCache.apply maxEntries cache (.update key value flags)).2 = (key, value) :: List.dropLast cache := by
  simp only [LruCache.apply, hfind, Option.isSome_none, Bool.false_eq_true, if_false, hfull, if_true] at hok ⊢
  split at hok
  · cases hok
  split at hok
  · cases hok
  rename_i hgood hexist
  rw [if_neg hgood, if_neg hexist]

/-- **The LRU map refines an LRU cache.** After every sequence of operations on a new map, none of which follows a
    null pointer, the results are the cache's, and list and hash map hold the cache's keys and values, in the order of
    their last uses. What fails then changes nothing, and a new key in a full map takes the place of the last one. -/
theorem lruVarHashMap_refines (maxEntries : Nat) (hmax : 0 < maxEntries) (ops : List (LruOp keySize valueSize)) :
    ∃ rs map items, Lib.runAll LruVarHashMap.apply (LruVarHashMap.new maxEntries) ops = some (rs, map) ∧
      Lib.runRef (LruCache.apply maxEntries) [] ops = (rs, items.map LruItem.cached) ∧ Represents map items ∧
      items.length ≤ maxEntries ∧ Recent (ops.zip rs) (items.map LruItem.cached) ∧
      (∀ op e map', map.apply op = some (.error e, map') → map' = map) ∧
      (∀ key value flags map', items.length = maxEntries → key ∉ items.map LruItem.key →
        map.apply (.update key value flags) = some (.ok none, map') →
        ∃ items', Represents map' items' ∧
          items'.map LruItem.cached = (key, value) :: items.dropLast.map LruItem.cached) := by
  have hstart : Holds maxEntries (LruVarHashMap.new maxEntries : LruVarHashMap keySize valueSize) [] :=
    ⟨[], represents_new maxEntries, rfl, rfl⟩
  obtain ⟨map, hrun, items, hafter, hcached, hentries⟩ := Lib.runAll_refines (holds_refines hmax) hstart ops
  have hrecent := @runRef_recent keySize valueSize [] [] maxEntries List.Pairwise.nil ops
  rw [← hcached, List.nil_append] at hrecent
  refine ⟨_, map, items, hrun, by rw [hcached], hafter, ?_, hrecent, fun _ _ _ h => apply_error h, ?_⟩
  · rw [← hentries]
    exact hafter.bound
  · -- an update of the full map with a new key evicts the last item
    intro key value flags map' hfull hkey hupdate
    obtain ⟨map'', items', hstep⟩ := apply_refines hafter (by rw [hentries]; exact hmax) (.update key value flags)
    have hresult := hstep.result
    rw [hupdate] at hresult
    obtain ⟨hr, rfl⟩ := Prod.mk.inj (Option.some.inj hresult)
    refine ⟨items', hstep.after, hstep.cached.trans ?_⟩
    rw [List.map_dropLast]
    exact apply_evicts (cache_find_none hkey) (by simpa using hfull.trans hentries.symm) hr.symm

/-- Two keys fill the map; the first is looked up, so a third key evicts the second. -/
def evicting : List (LruOp 1 1) :=
  [.update (single 1) (single 10) BPF_ANY, .update (single 2) (single 20) BPF_ANY, .lookup (single 1),
    .update (single 3) (single 30) BPF_ANY]

/-- Two entries, and an update that evicts. -/
theorem lruVarHashMap_refines_evicting :
    0 < 2 ∧ ∃ rs map items, Lib.runAll LruVarHashMap.apply (LruVarHashMap.new 2) evicting = some (rs, map) ∧
      Represents map items ∧
      items.map LruItem.cached = [(single 3, single 30), (single 1, single 10)] := by
  obtain ⟨rs, map, items, hrun, hcache, hafter, -⟩ := lruVarHashMap_refines 2 (by decide) evicting
  have hend : (Lib.runRef (LruCache.apply 2) [] evicting).2 = [(single 3, single 30), (single 1, single 10)] := by
    decide
  rw [hcache] at hend
  exact ⟨by decide, rs, map, items, hrun, hafter, hend⟩

end Maps
