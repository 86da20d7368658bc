import FreeProbe.Lib.Llvm
import FreeProbe.Lib.Memory

/-!
# `Lib.LlvmAtomic` — LLVM code on shared memory

Straight-line code whose instructions access memory that other threads change by atomic operations of their own. The
slots are the thread's; what the others do lies between its accesses, any number of operations before each.

An access promises an alignment. What becomes of a promise that the address does not keep is a parameter
(`undefinedAt`): the language leaves it undefined, a target may not.
-/

namespace Lib.Llvm

/-! ## Memory -/

/-- Bytes at addresses. -/
abbrev Mem := BitVec 64 → BitVec 8

/-- The little-endian number at an address. -/
def Mem.read (mem : Mem) (addr : BitVec 64) (w : Nat) : BitVec w :=
  BitVec.ofNat w (Memory.leNat ((List.range (w / 8)).map fun i => mem (addr + BitVec.ofNat 64 i)))

def Mem.write (mem : Mem) (addr : BitVec 64) {w : Nat} (x : BitVec w) : Mem :=
  fun a => if (a - addr).toNat < w / 8 then BitVec.ofNat 8 (x.toNat / 2 ^ (8 * (a - addr).toNat)) else mem a

/-! ## Atomic operations -/

inductive RmwOp where
  | add | and | or | xor | xchg
deriving DecidableEq, Repr

def RmwOp.eval {w : Nat} (op : RmwOp) (old x : BitVec w) : BitVec w :=
  match op with
  | .add => old + x
  | .and => old &&& x
  | .or => old ||| x
  | .xor => old ^^^ x
  | .xchg => x

/-- The value a `cmpxchg` leaves. -/
def cmpxchgEval {w : Nat} (old cmp new : BitVec w) : BitVec w := if old = cmp then new else old

/-- An atomic operation of another thread. -/
inductive AtomicOp where
  | rmw (op : RmwOp) (w : Nat) (addr : BitVec 64) (x : BitVec w)
  | cmpxchg (w : Nat) (addr : BitVec 64) (cmp new : BitVec w)

def AtomicOp.run (mem : Mem) : AtomicOp → Mem
  | .rmw op w addr x => mem.write addr (op.eval (mem.read addr w) x)
  | .cmpxchg w addr cmp new => mem.write addr (cmpxchgEval (mem.read addr w) cmp new)

/-- Some of them, one after the other. -/
def runOthers (mem : Mem) (ops : List AtomicOp) : Mem := ops.foldl AtomicOp.run mem

/-! ## Code -/

/-- A continuation gets the result of its instruction. -/
inductive MemCode (ρ : Type) where
  | done
  | rmw {w : Nat} (op : RmwOp) (align : Nat) (ptr : Value ρ 64) (x : Value ρ w) (next : BitVec w → MemCode ρ)
  | cmpxchg {w : Nat} (align : Nat) (ptr : Value ρ 64) (cmp new : Value ρ w) (next : BitVec w → MemCode ρ)
  | load (w align : Nat) (ptr : Value ρ 64) (next : BitVec w → MemCode ρ)
  | store (store : Store ρ) (next : MemCode ρ)

/-- An access to the memory: whether it is atomic, and the memory right before and after it. -/
structure Access where
  atomic : Bool
  addr   : BitVec 64
  before : Mem
  after  : Mem

structure Outcome (ρ : Type) (n : Nat) where
  slots    : ρ → BitVec n
  accesses : List Access

def Outcome.push {ρ : Type} {n : Nat} (a : Access) (o : Outcome ρ n) : Outcome ρ n :=
  { o with accesses := a :: o.accesses }

section Run

variable {ρ : Type} [DecidableEq ρ] {n : Nat} (undefinedAt : Nat → BitVec 64 → Bool)

/-- A run beside the other threads: `others 0` are their operations before the next access, `others 1` those between
    it and the one after, and so on. -/
def MemCode.run : MemCode ρ → (ρ → BitVec n) → Mem → (Nat → List AtomicOp) → Option (Outcome ρ n)
  | .done, slots, _, _ => some ⟨slots, []⟩
  | .rmw op align ptr x next, slots, mem, others => do
    let addr ← ptr.eval slots
    let x ← x.eval slots
    if undefinedAt align addr then none
    else
      let before := runOthers mem (others 0)
      let old := before.read addr _
      let after := before.write addr (op.eval old x)
      return (← (next old).run slots after fun i => others (i + 1)).push ⟨true, addr, before, after⟩
  | .cmpxchg align ptr cmp new next, slots, mem, others => do
    let addr ← ptr.eval slots
    let cmp ← cmp.eval slots
    let new ← new.eval slots
    if undefinedAt align addr then none
    else
      let before := runOthers mem (others 0)
      let old := before.read addr _
      let after := before.write addr (cmpxchgEval old cmp new)
      return (← (next old).run slots after fun i => others (i + 1)).push ⟨true, addr, before, after⟩
  | .load w align ptr next, slots, mem, others => do
    let addr ← ptr.eval slots
    if undefinedAt align addr then none
    else
      let before := runOthers mem (others 0)
      return (← (next (before.read addr w)).run slots before fun i => others (i + 1)).push ⟨false, addr, before, before⟩
  | .store st next, slots, mem, others => do
    next.run (← st.run slots) mem others

variable {undefinedAt} {slots slots' : ρ → BitVec n} {mem : Mem} {others : Nat → List AtomicOp} {ptr : Value ρ 64}
  {addr : BitVec 64} {align w : Nat}

-- its equations, one for each instruction, are generated here, once for the lemmas below
attribute [local simp] MemCode.run

/-- A promise that is not kept. -/
theorem run_undefined {op : RmwOp} {x : Value ρ w} {a : BitVec w} {next : BitVec w → MemCode ρ}
    (hptr : ptr.eval slots = some addr) (hx : x.eval slots = some a) (h : undefinedAt align addr = true) :
    (MemCode.rmw op align ptr x next).run undefinedAt slots mem others = none := by
  rw [MemCode.run, hptr, hx]
  exact if_pos h

theorem run_rmw {op : RmwOp} {x : Value ρ w} {a : BitVec w} {next : BitVec w → MemCode ρ}
    (hptr : ptr.eval slots = some addr) (hx : x.eval slots = some a) (h : undefinedAt align addr = false) :
    (MemCode.rmw op align ptr x next).run undefinedAt slots mem others =
      let before := runOthers mem (others 0)
      let after := before.write addr (op.eval (before.read addr w) a)
      ((next (before.read addr w)).run undefinedAt slots after fun i => others (i + 1)).map
        (Outcome.push ⟨true, addr, before, after⟩) := by
  rw [MemCode.run, hptr, hx]
  refine (if_neg (by rw [h]; decide)).trans ?_
  rw [Option.map_eq_bind]
  rfl

theorem run_cmpxchg {cmp new : Value ρ w} {a b : BitVec w} {next : BitVec w → MemCode ρ}
    (hptr : ptr.eval slots = some addr) (hcmp : cmp.eval slots = some a) (hnew : new.eval slots = some b)
    (h : undefinedAt align addr = false) :
    (MemCode.cmpxchg align ptr cmp new next).run undefinedAt slots mem others =
      let before := runOthers mem (others 0)
      let after := before.write addr (cmpxchgEval (before.read addr w) a b)
      ((next (before.read addr w)).run undefinedAt slots after fun i => others (i + 1)).map
        (Outcome.push ⟨true, addr, before, after⟩) := by
  rw [MemCode.run, hptr, hcmp, hnew]
  refine (if_neg (by rw [h]; decide)).trans ?_
  rw [Option.map_eq_bind]
  rfl

theorem run_load {next : BitVec w → MemCode ρ} (hptr : ptr.eval slots = some addr)
    (h : undefinedAt align addr = false) :
    (MemCode.load w align ptr next).run undefinedAt slots mem others =
      let before := runOthers mem (others 0)
      ((next (before.read addr w)).run undefinedAt slots before fun i => others (i + 1)).map
        (Outcome.push ⟨false, addr, before, before⟩) := by
  rw [MemCode.run, hptr]
  refine (if_neg (by rw [h]; decide)).trans ?_
  rw [Option.map_eq_bind]
  rfl

theorem run_load_undefined {next : BitVec w → MemCode ρ} (hptr : ptr.eval slots = some addr)
    (h : undefinedAt align addr = true) :
    (MemCode.load w align ptr next).run undefinedAt slots mem others = none := by
  rw [MemCode.run, hptr]
  exact if_pos h

theorem run_store {store : Store ρ} {next : MemCode ρ} (h : store.run slots = some slots') :
    (MemCode.store store next).run undefinedAt slots mem others = next.run undefinedAt slots' mem others := by
  rw [MemCode.run, h]
  rfl

end Run

end Lib.Llvm
