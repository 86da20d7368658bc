import FreeProbe.Lib.LinkedList
import FreeProbe.Lib.Machine
import FreeProbe.Maps.Common

/-!
# `Maps.LruVarHashMap` — `lru_var_hash_map_impl`

The LRU map of the runtime: a hash map from keys to values and list entries, and the entries in a doubly linked
list, the most recently used one at the head. An entry is an address; `construct` gives one that no entry had. The
hash map is its key-value pairs, in no order that matters. A null pointer that is followed ends an operation with
`none`.
-/

namespace Maps

open Lib.LinkedList

/-- `hash_map_value` -/
structure HashMapValue (valueSize : Nat) where
  value           : Vector Byte valueSize
  linkedListEntry : Nat
deriving DecidableEq

/-- `lru_linklist_entry` has a key and the links; they are kept by the entry's address. `allocated` is the number of
    entries constructed so far. -/
structure LruVarHashMap (keySize valueSize : Nat) where
  maxEntries : Nat
  mapImpl    : List (Vector Byte keySize × HashMapValue valueSize)
  keys       : Nat → Vector Byte keySize
  links      : Nat → Links Nat
  allocated  : Nat
  lruLinkListHead : Option Nat
  lruLinkListTail : Option Nat

def isGoodUpdateFlag (flags : BitVec 64) : Bool := flags == BPF_ANY || flags == BPF_EXIST || flags == BPF_NOEXIST

namespace LruVarHashMap

variable {keySize valueSize : Nat}

/-- The constructor. -/
def new (maxEntries : Nat) : LruVarHashMap keySize valueSize where
  maxEntries := maxEntries
  mapImpl := []
  keys := fun _ => Vector.replicate keySize 0
  links := fun _ => ⟨none, none⟩
  allocated := 0
  lruLinkListHead := none
  lruLinkListTail := none

/-! ## `map_impl` -/

def find (map : LruVarHashMap keySize valueSize) (key : Vector Byte keySize) : Option (HashMapValue valueSize) :=
  (map.mapImpl.find? fun entry => entry.1 == key).map Prod.snd

def erase (map : LruVarHashMap keySize valueSize) (key : Vector Byte keySize) : LruVarHashMap keySize valueSize :=
  { map with mapImpl := map.mapImpl.filter fun entry => entry.1 != key }

/-- `itr->second.value.assign` -/
def assign (map : LruVarHashMap keySize valueSize) (key : Vector Byte keySize) (value : Vector Byte valueSize) :
    LruVarHashMap keySize valueSize :=
  { map with
    mapImpl := map.mapImpl.map fun entry => if entry.1 = key then (key, { entry.2 with value := value }) else entry }

def emplace (map : LruVarHashMap keySize valueSize) (key : Vector Byte keySize) (value : HashMapValue valueSize) :
    LruVarHashMap keySize valueSize :=
  if (map.find key).isSome then map else { map with mapImpl := (key, value) :: map.mapImpl }

/-! ## The list -/

def setNext (map : LruVarHashMap keySize valueSize) (entry : Nat) (next : Option Nat) :
    LruVarHashMap keySize valueSize := { map with links := Lib.LinkedList.setNext map.links entry next }

def setPrev (map : LruVarHashMap keySize valueSize) (entry : Nat) (prev : Option Nat) :
    LruVarHashMap keySize valueSize := { map with links := Lib.LinkedList.setPrev map.links entry prev }

def moveToHead (map : LruVarHashMap keySize valueSize) (entry : Nat) : Option (LruVarHashMap keySize valueSize) :=
  if some entry = map.lruLinkListHead then some map
  else do
    let prev ← (map.links entry).prev
    let next := (map.links entry).next
    let map := map.setNext prev next
    let map :=
      match next with
      | some next => map.setPrev next (some prev)
      | none => { map with lruLinkListTail := some prev }
    let head ← map.lruLinkListHead
    let map := map.setNext entry (some head)
    let map := map.setPrev entry none
    let map := map.setPrev head (some entry)
    return { map with lruLinkListHead := some entry }

/-- `insert_new_entry`: the new entry's address, and the map with it. -/
def insertNewEntry (map : LruVarHashMap keySize valueSize) (key : Vector Byte keySize) :
    Nat × LruVarHashMap keySize valueSize :=
  let entry := map.allocated
  let map := { map with
    allocated := entry + 1
    keys := Function.update map.keys entry key
    links := Function.update map.links entry ⟨none, none⟩ }
  match map.lruLinkListHead with
  | none => (entry, { map with lruLinkListHead := some entry, lruLinkListTail := some entry })
  | some head =>
    (entry, { (map.setNext entry (some head)).setPrev head (some entry) with lruLinkListHead := some entry })

def evictEntry (map : LruVarHashMap keySize valueSize) (entry : Nat) : Option (LruVarHashMap keySize valueSize) :=
  if some entry = map.lruLinkListTail then
    if some entry = map.lruLinkListHead then some { map with lruLinkListHead := none, lruLinkListTail := none }
    else do
      let prev ← (map.links entry).prev
      return { map.setNext prev none with lruLinkListTail := some prev }
  else if some entry = map.lruLinkListHead then do
    let next ← (map.links entry).next
    return { map.setPrev next none with lruLinkListHead := some next }
  else do
    let prev ← (map.links entry).prev
    let next ← (map.links entry).next
    return (map.setNext prev (some next)).setPrev next (some prev)

/-! ## The operations -/

/-- The value that `elem_lookup` returns a pointer to. -/
def elemLookup (map : LruVarHashMap keySize valueSize) (key : Vector Byte keySize) :
    Option (Except Errno (Vector Byte valueSize) × LruVarHashMap keySize valueSize) :=
  match map.find key with
  | some itr => do return (.ok itr.value, ← map.moveToHead itr.linkedListEntry)
  | none => some (.error .enoent, map)

def elemUpdate (map : LruVarHashMap keySize valueSize) (key : Vector Byte keySize) (value : Vector Byte valueSize)
    (flags : BitVec 64) : Option (Except Errno Unit × LruVarHashMap keySize valueSize) :=
  if !isGoodUpdateFlag flags then some (.error .einval, map)
  else
    let itr := map.find key
    if flags = BPF_NOEXIST ∧ itr.isSome then some (.error .eexist, map)
    else if flags = BPF_EXIST ∧ itr.isNone then some (.error .enoent, map)
    else
      match itr with
      | some itr => do return (.ok (), ← (map.assign key value).moveToHead itr.linkedListEntry)
      | none => do
        let map ←
          if map.mapImpl.length = map.maxEntries then do
            let tail ← map.lruLinkListTail
            (map.erase (map.keys tail)).evictEntry tail
          else some map
        let (entry, map) := map.insertNewEntry key
        return (.ok (), map.emplace key ⟨value, entry⟩)

def elemDelete (map : LruVarHashMap keySize valueSize) (key : Vector Byte keySize) :
    Option (Except Errno Unit × LruVarHashMap keySize valueSize) :=
  match map.find key with
  | some itr => do return (.ok (), (← map.evictEntry itr.linkedListEntry).erase key)
  | none => some (.error .enoent, map)

end LruVarHashMap

/-! ## Sequences of operations -/

inductive LruOp (keySize valueSize : Nat) where
  | lookup (key : Vector Byte keySize)
  | update (key : Vector Byte keySize) (value : Vector Byte valueSize) (flags : BitVec 64)
  | delete (key : Vector Byte keySize)
deriving DecidableEq

/-- What an operation returns: a lookup's value, or nothing more than success. -/
abbrev LruReturn (valueSize : Nat) := Except Errno (Option (Vector Byte valueSize))

variable {keySize valueSize : Nat}

def LruVarHashMap.apply (map : LruVarHashMap keySize valueSize) :
    LruOp keySize valueSize → Option (LruReturn valueSize × LruVarHashMap keySize valueSize)
  | .lookup key => do
    let (r, map) ← map.elemLookup key
    return (r.map some, map)
  | .update key value flags => do
    let (r, map) ← map.elemUpdate key value flags
    return (r.map fun _ => none, map)
  | .delete key => do
    let (r, map) ← map.elemDelete key
    return (r.map fun _ => none, map)

/-! ## An LRU cache -/

/-- The stored keys and values, the most recently used first. -/
abbrev LruCache (keySize valueSize : Nat) := List (Vector Byte keySize × Vector Byte valueSize)

namespace LruCache

def find (cache : LruCache keySize valueSize) (key : Vector Byte keySize) : Option (Vector Byte valueSize) :=
  (List.find? (fun entry => entry.1 == key) cache).map Prod.snd

def without (cache : LruCache keySize valueSize) (key : Vector Byte keySize) : LruCache keySize valueSize :=
  List.filter (fun entry => entry.1 != key) cache

/-- One operation. A key that is used goes to the front; a new key in a full cache takes the place of the last. -/
def apply (maxEntries : Nat) (cache : LruCache keySize valueSize) :
    LruOp keySize valueSize → LruReturn valueSize × LruCache keySize valueSize
  | .lookup key =>
    match cache.find key with
    | some value => (.ok (some value), (key, value) :: cache.without key)
    | none => (.error .enoent, cache)
  | .update key value flags =>
    if ¬ (flags = BPF_ANY ∨ flags = BPF_EXIST ∨ flags = BPF_NOEXIST) then (.error .einval, cache)
    else if (cache.find key).isSome then
      if flags = BPF_NOEXIST then (.error .eexist, cache) else (.ok none, (key, value) :: cache.without key)
    else if flags = BPF_EXIST then (.error .enoent, cache)
    else if List.length cache = maxEntries then (.ok none, (key, value) :: List.dropLast cache)
    else (.ok none, (key, value) :: cache)
  | .delete key =>
    if (cache.find key).isSome then (.ok none, cache.without key) else (.error .enoent, cache)

end LruCache

/-! ## Recency -/

/-- Operations and what they returned, the first one first. -/
abbrev LruHistory (keySize valueSize : Nat) := List (LruOp keySize valueSize × LruReturn valueSize)

/-- The key that a successful lookup or update used. -/
def LruOp.used : LruOp keySize valueSize × LruReturn valueSize → Option (Vector Byte keySize)
  | (.lookup key, .ok _) => some key
  | (.update key _ _, .ok _) => some key
  | _ => none

/-- The last use of `key'`, if there is one, comes before a use of `key`. -/
def UsedAfter (history : LruHistory keySize valueSize) (key key' : Vector Byte keySize) : Prop :=
  ∃ pre event post, history = pre ++ event :: post ∧ LruOp.used event = some key ∧
    ∀ e ∈ post, LruOp.used e ≠ some key'

end Maps
