import Mathlib.Logic.Function.Basic

/-!
# `Lib.Sharing` — objects that are shared by their holders

A holder refers to an object or to none; an object that exists has a value, which all its holders see. In an owned state
the objects that exist are those with a holder: one goes when its last holder is dropped, and with no step before.
-/

namespace Lib

/-- What each holder refers to, and the values of the objects that exist. -/
@[ext]
structure Sharing (H A V : Type*) where
  object : H → Option A
  value  : A → Option V

namespace Sharing

variable {H A V : Type*} {s s' : Sharing H A V} {h : H}

/-- Some holder refers to the object. -/
def Held (s : Sharing H A V) (a : A) : Prop := ∃ h, s.object h = some a

/-- The object exists. -/
def Exists (s : Sharing H A V) (a : A) : Prop := ∃ v, s.value a = some v

/-- The objects that exist are those that are held. -/
def Owned (s : Sharing H A V) : Prop := ∀ a, s.Exists a ↔ s.Held a

section Operations

variable [DecidableEq H]

open Classical in
/-- The holder lets go, and objects without a holder are destroyed. -/
noncomputable def drop (s : Sharing H A V) (h : H) : Sharing H A V :=
  let object := Function.update s.object h none
  ⟨object, fun a => if ∃ h', object h' = some a then s.value a else none⟩

/-- A holder without an object joins another. -/
def join (s : Sharing H A V) (old new : H) : Sharing H A V :=
  { s with object := Function.update s.object new (s.object old) }

/-- A holder exchanges what it has for what another has. -/
noncomputable def share (s : Sharing H A V) (old new : H) : Sharing H A V :=
  if old = new then s else (s.drop new).join old new

open Classical in
/-- An owned state after a holder has let go, in which no value has changed, is the one after the drop. -/
theorem eq_drop (ho : s'.Owned) (hobject : ∀ h', s'.object h' = if h' = h then none else s.object h')
    (hvalue : ∀ a, s'.Exists a → s'.value a = s.value a) : s' = s.drop h := by
  have hobj : s'.object = Function.update s.object h none := by
    funext h'
    rw [hobject, Function.update_apply]
  refine Sharing.ext hobj ?_
  funext a
  show s'.value a = if ∃ h', Function.update s.object h none h' = some a then s.value a else none
  rw [← hobj]
  by_cases hheld : ∃ h', s'.object h' = some a
  · rw [if_pos hheld]
    exact hvalue a ((ho a).mpr hheld)
  · rw [if_neg hheld]
    refine Option.eq_none_iff_forall_ne_some.mpr fun v hv => ?_
    exact hheld ((ho a).mp ⟨v, hv⟩)

variable [DecidableEq A]

/-- A new object, at the address `a`, of a holder that has none. -/
def put (s : Sharing H A V) (h : H) (a : A) (v : V) : Sharing H A V :=
  ⟨Function.update s.object h (some a), Function.update s.value a (some v)⟩

/-- A holder exchanges what it has for a new object. -/
noncomputable def create (s : Sharing H A V) (h : H) (a : A) (v : V) : Sharing H A V := (s.drop h).put h a v

/-- A write through a holder. -/
def write (s : Sharing H A V) (h : H) (f : V → V) : Sharing H A V :=
  match s.object h with
  | none => s
  | some a => { s with value := Function.update s.value a ((s.value a).map f) }

end Operations

end Sharing

end Lib
