import Mathlib.Data.BitVec

/-!
# `Lib.Llvm` — straight-line integer code of LLVM

Values as an IR builder makes them, over slots of memory (`alloca`) that are loaded and stored. All the instructions of
a value are executed before it is used: both arms of a `select` are, whichever is chosen, so what the language leaves
undefined for one of them is undefined for the whole.
-/

namespace Lib.Llvm

/-- The binary operators. -/
inductive BinOp where
  | add | sub | mul | udiv | sdiv | urem | srem | shl | lshr | ashr | and | or | xor
deriving DecidableEq, Repr

/-- The result of an instruction without flags; none where the language gives undefined behaviour or poison. -/
def BinOp.eval {w : Nat} (op : BinOp) (x y : BitVec w) : Option (BitVec w) :=
  match op with
  | .add => some (x + y)
  | .sub => some (x - y)
  | .mul => some (x * y)
  | .udiv => if y = 0 then none else some (x / y)
  | .sdiv => if y = 0 ∨ x = BitVec.intMin w ∧ y = -1 then none else some (x.sdiv y)
  | .urem => if y = 0 then none else some (x % y)
  | .srem => if y = 0 ∨ x = BitVec.intMin w ∧ y = -1 then none else some (x.srem y)
  | .shl => if y.toNat < w then some (x <<< y.toNat) else none
  | .lshr => if y.toNat < w then some (x >>> y.toNat) else none
  | .ashr => if y.toNat < w then some (x.sshiftRight y.toNat) else none
  | .and => some (x &&& y)
  | .or => some (x ||| y)
  | .xor => some (x ^^^ y)

/-- Values of type `i w`. A cast to the same type is the value itself, without an instruction. -/
inductive Value (ρ : Type) : Nat → Type where
  | const {w : Nat} (x : BitVec w) : Value ρ w
  | load (w : Nat) (slot : ρ) : Value ρ w
  | bin {w : Nat} (op : BinOp) (x y : Value ρ w) : Value ρ w
  | icmpEq {w : Nat} (x y : Value ρ w) : Value ρ 1
  | select {w : Nat} (cond : Value ρ 1) (x y : Value ρ w) : Value ρ w
  | trunc {w : Nat} (v : Nat) (x : Value ρ w) : Value ρ v
  | zext {w : Nat} (v : Nat) (x : Value ρ w) : Value ρ v
  | sext {w : Nat} (v : Nat) (x : Value ρ w) : Value ρ v

variable {ρ : Type} {n w : Nat}

/-- A value in a state of the slots; a load reads the low end of its slot. -/
def Value.eval (slots : ρ → BitVec n) : {w : Nat} → Value ρ w → Option (BitVec w)
  | _, .const x => some x
  | _, .load w slot => some ((slots slot).setWidth w)
  | _, .bin op x y => do op.eval (← x.eval slots) (← y.eval slots)
  | _, .icmpEq x y => do
    let x ← x.eval slots
    let y ← y.eval slots
    return if x = y then 1 else 0
  | _, .select cond x y => do
    let cond ← cond.eval slots
    let x ← x.eval slots
    let y ← y.eval slots
    return if cond = 1 then x else y
  | _, .trunc v x => do return (← x.eval slots).setWidth v
  | _, .zext v x => do return (← x.eval slots).setWidth v
  | _, .sext v x => do return (← x.eval slots).signExtend v

/-- The last instruction of a block: a value is stored in a slot. -/
structure Store (ρ : Type) where
  slot  : ρ
  width : Nat
  value : Value ρ width

/-- The low end of a slot is overwritten. -/
def storeLow (old : BitVec n) (x : BitVec w) : BitVec n := (old >>> w) <<< w ||| x.setWidth n

/-- A store to a slot, of a value of any width up to it. -/
def Store.run [DecidableEq ρ] (store : Store ρ) (slots : ρ → BitVec n) : Option (ρ → BitVec n) := do
  let x ← store.value.eval slots
  return fun slot => if slot = store.slot then storeLow (slots slot) x else slots slot

/-! ## Branches -/

/-- The predicates of `icmp`. -/
inductive Predicate where
  | eq | ne | ugt | uge | ult | ule | sgt | sge | slt | sle
deriving DecidableEq, Repr

/-- The predicates of `icmp`. -/
def Predicate.eval {w : Nat} (pred : Predicate) (x y : BitVec w) : Bool :=
  match pred with
  | .eq => x == y
  | .ne => x != y
  | .ugt => y.ult x
  | .uge => y.ule x
  | .ult => x.ult y
  | .ule => x.ule y
  | .sgt => y.slt x
  | .sge => y.sle x
  | .slt => x.slt y
  | .sle => x.sle y

/-- A conditional branch on the comparison of two values. -/
structure CondBr (ρ : Type) where
  pred  : Predicate
  width : Nat
  x     : Value ρ width
  y     : Value ρ width

/-- Whether it is taken. -/
def CondBr.taken (br : CondBr ρ) (slots : ρ → BitVec n) : Option Bool := do
  return br.pred.eval (← br.x.eval slots) (← br.y.eval slots)

/-! ## Evaluation -/

/-- A division by zero is undefined. -/
theorem BinOp.eval_udiv (x y : BitVec w) : BinOp.udiv.eval x y = if y = 0 then none else some (x / y) := rfl

/-- So is its remainder. -/
theorem BinOp.eval_urem (x y : BitVec w) : BinOp.urem.eval x y = if y = 0 then none else some (x % y) := rfl

/-- A shift by the width or more has no value. -/
theorem BinOp.eval_shl (x y : BitVec w) : BinOp.shl.eval x y = if y.toNat < w then some (x <<< y.toNat) else none := rfl

theorem BinOp.eval_ashr (x y : BitVec w) :
    BinOp.ashr.eval x y = if y.toNat < w then some (x.sshiftRight y.toNat) else none := rfl

theorem BinOp.eval_lshr (x y : BitVec w) : BinOp.lshr.eval x y = if y.toNat < w then some (x >>> y.toNat) else none := rfl

/-- The signed division overflows for one pair. -/
theorem BinOp.eval_sdiv (x y : BitVec w) :
    BinOp.sdiv.eval x y = if y = 0 ∨ x = BitVec.intMin w ∧ y = -1 then none else some (x.sdiv y) := rfl

theorem BinOp.eval_srem (x y : BitVec w) :
    BinOp.srem.eval x y = if y = 0 ∨ x = BitVec.intMin w ∧ y = -1 then none else some (x.srem y) := rfl

section Eval
variable {slots : ρ → BitVec n} {v : Nat} {x y : Value ρ w} {a b : BitVec w}

/-- A constant. -/
@[simp] theorem eval_const (a : BitVec w) : (Value.const a : Value ρ w).eval slots = some a := rfl

/-- A slot, or its low part. -/
@[simp] theorem eval_load (w : Nat) (slot : ρ) : (Value.load w slot).eval slots = some ((slots slot).setWidth w) := rfl

/-- An operator on two values. -/
theorem eval_bin {op : BinOp} (hx : x.eval slots = some a) (hy : y.eval slots = some b) :
    (Value.bin op x y).eval slots = op.eval a b := by
  show (x.eval slots >>= fun a => y.eval slots >>= fun b => op.eval a b) = _
  rw [hx, hy]
  rfl

/-- A comparison is one bit. -/
theorem eval_icmpEq (hx : x.eval slots = some a) (hy : y.eval slots = some b) :
    (Value.icmpEq x y).eval slots = some (if a = b then 1 else 0) := by
  show (x.eval slots >>= fun a => y.eval slots >>= fun b => some (if a = b then (1 : BitVec 1) else 0)) = _
  rw [hx, hy]
  rfl

/-- Only one of a select's values is the result, but both are evaluated. -/
theorem eval_select {cond : Value ρ 1} {p : Prop} [Decidable p] (hcond : cond.eval slots = some (if p then 1 else 0))
    (hx : x.eval slots = some a) : (Value.select cond x y).eval slots = (y.eval slots).map fun b => if p then a else b := by
  show (cond.eval slots >>= fun c => x.eval slots >>= fun a => y.eval slots >>= fun b => some (if c = 1 then a else b)) = _
  rw [hcond, hx]
  by_cases hp : p <;> cases y.eval slots <;> simp [hp]

/-- The low part. -/
theorem eval_trunc (hx : x.eval slots = some a) : (Value.trunc v x).eval slots = some (a.setWidth v) := by
  show (x.eval slots >>= fun a => some (a.setWidth v)) = _
  rw [hx]
  rfl

theorem eval_zext (hx : x.eval slots = some a) : (Value.zext v x).eval slots = some (a.setWidth v) := by
  show (x.eval slots >>= fun a => some (a.setWidth v)) = _
  rw [hx]
  rfl

theorem eval_sext (hx : x.eval slots = some a) : (Value.sext v x).eval slots = some (a.signExtend v) := by
  show (x.eval slots >>= fun a => some (a.signExtend v)) = _
  rw [hx]
  rfl

/-- Which way a branch goes. -/
theorem taken_eq {pred : Predicate} (hx : x.eval slots = some a) (hy : y.eval slots = some b) :
    (CondBr.mk pred w x y).taken slots = some (pred.eval a b) := by
  show (x.eval slots >>= fun a => y.eval slots >>= fun b => some (pred.eval a b)) = _
  rw [hx, hy]
  rfl

end Eval

/-- A store of the whole slot. -/
theorem storeLow_of_le (hle : n ≤ w) (old : BitVec n) (x : BitVec w) : storeLow old x = x.setWidth n := by
  unfold storeLow
  rw [BitVec.ushiftRight_eq_zero hle, BitVec.zero_shiftLeft, BitVec.zero_or]

end Lib.Llvm
