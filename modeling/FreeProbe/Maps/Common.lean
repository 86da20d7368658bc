import Mathlib.Data.BitVec

/-!
# `Maps.Common` — what the map implementations share

A key or a value is a fixed number of bytes, and an operation that fails sets `errno` and leaves an error
result.
-/

namespace Maps

abbrev Byte := BitVec 8

/-- A key or a value of one byte. -/
abbrev single (b : Byte) : Vector Byte 1 := Vector.replicate 1 b

/-- The values of `errno` the maps set. -/
inductive Errno where
  | einval
  | enoent
  | enospc
  | enomem
  | eexist
  | e2big
deriving DecidableEq, Repr

/-- A sequence of fallible steps that succeeds, taken apart. -/
theorem bind_ok {α β : Type} {x : Except Errno α} {f : α → Except Errno β} {r : β} (h : x >>= f = .ok r) :
    ∃ a, x = .ok a ∧ f a = .ok r := by
  cases x with
  | error e => cases h
  | ok a => exact ⟨a, rfl, h⟩

/-- What may get stuck on its way to a success does not end in an error. -/
theorem bind_ok_ne {α β σ : Type} {x : Option α} {f : α → Except Errno β × σ} {s : σ} {e : Errno}
    (hok : ∀ a, ∃ v, (f a).1 = .ok v) : x.bind (fun a => some (f a)) ≠ some (.error e, s) := by
  intro heq
  obtain ⟨a, -, heq⟩ := Option.bind_eq_some_iff.mp heq
  obtain ⟨v, hv⟩ := hok a
  rw [Option.some.inj heq] at hv
  cases hv

/-! ## The update flags -/

def BPF_ANY : BitVec 64 := 0

def BPF_NOEXIST : BitVec 64 := 1

def BPF_EXIST : BitVec 64 := 2

/-- `check_update_flags` looks at the low 32 bits. -/
def checkUpdateFlags (flags : BitVec 64) : Bool :=
  let baseFlags := flags &&& 0xFFFFFFFF
  baseFlags == BPF_ANY || baseFlags == BPF_NOEXIST || baseFlags == BPF_EXIST

end Maps
