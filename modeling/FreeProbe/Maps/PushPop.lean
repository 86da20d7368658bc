import FreeProbe.Lib.Machine
import FreeProbe.Maps.Common

/-!
# `Maps.PushPop` — the operations of the queue map and of the stack map

The two maps have the same operations and differ in which stored element comes out next. A null `value` pointer is
`none` where it is read from and `false` where it is written to.
-/

namespace Maps

inductive PushPopOp (valueSize : Nat) where
  | push (value : Option (Vector Byte valueSize)) (flags : BitVec 64)
  | pop (value : Bool)
  | peek (value : Bool)
  | update (value : Option (Vector Byte valueSize)) (flags : BitVec 64)
  | delete
  | lookup
deriving DecidableEq

/-- What an operation returns: the bytes that a pop, a peek or a lookup gives, or nothing more than success. -/
abbrev PushPopReturn := Except Errno (Option (List Byte))

/-- The flags that `map_push_elem` refuses. -/
theorem badPushFlags_iff {flags : BitVec 64} :
    flags ≠ 0 ∧ flags ≠ BPF_ANY ∧ flags ≠ BPF_EXIST ↔ ¬ (flags = 0 ∨ flags = BPF_EXIST) := by
  rw [not_or]
  exact ⟨fun h => ⟨h.1, h.2.2⟩, fun h => ⟨h.1, h.1, h.2⟩⟩

/-! ## A bounded sequence -/

/-- Which of the stored elements comes out next. -/
inductive Discipline where
  | fifo
  | lifo
deriving DecidableEq

/-- The stored elements, the oldest first. -/
abbrev Stored (valueSize : Nat) := List (Vector Byte valueSize)

namespace Discipline

variable {valueSize : Nat}

def next : Discipline → Stored valueSize → Option (Vector Byte valueSize)
  | fifo, stored => stored.head?
  | lifo, stored => stored.getLast?

def rest : Discipline → Stored valueSize → Stored valueSize
  | fifo, stored => stored.tail
  | lifo, stored => stored.dropLast

/-- A new element where there is room, or in the place of the oldest one. -/
def insert (maxEntries : Nat) (stored : Stored valueSize) (flags : BitVec 64) (value : Vector Byte valueSize) :
    PushPopReturn × Stored valueSize :=
  if stored.length < maxEntries then (.ok none, stored ++ [value])
  else if flags = BPF_EXIST then (.ok none, stored.tail ++ [value])
  else (.error .e2big, stored)

/-- What an operation gives and what it leaves, where it needs a stored element. -/
def take (discipline : Discipline) (stored : Stored valueSize)
    (f : Vector Byte valueSize → PushPopReturn × Stored valueSize) : PushPopReturn × Stored valueSize :=
  match discipline.next stored with
  | some value => f value
  | none => (.error .enoent, stored)

/-- One operation. -/
def apply (discipline : Discipline) (maxEntries : Nat) (stored : Stored valueSize) :
    PushPopOp valueSize → PushPopReturn × Stored valueSize
  | .push none _ => (.error .einval, stored)
  | .push (some value) flags =>
    if flags = 0 ∨ flags = BPF_EXIST then insert maxEntries stored flags value else (.error .einval, stored)
  | .update none _ => (.error .einval, stored)
  | .update (some value) flags => insert maxEntries stored flags value
  | .pop false => (.error .einval, stored)
  | .pop true => discipline.take stored fun value => (.ok (some value.toList), discipline.rest stored)
  | .peek false => (.error .einval, stored)
  | .peek true => discipline.take stored fun value => (.ok (some value.toList), stored)
  | .delete => discipline.take stored fun _ => (.ok none, discipline.rest stored)
  | .lookup => discipline.take stored fun value => (.ok (some value.toList), stored)

variable {discipline : Discipline} {maxEntries : Nat} {stored : Stored valueSize}

theorem next_nil : discipline.next ([] : Stored valueSize) = none := by cases discipline <;> rfl

/-- Taking an element fails only where there is none. -/
theorem take_nil (f : Vector Byte valueSize → PushPopReturn × Stored valueSize) :
    discipline.take [] f = (.error .enoent, []) := by
  rw [take, next_nil]

end Discipline

end Maps
