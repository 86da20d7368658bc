import Mathlib.Data.BitVec
import Mathlib.Logic.Function.Iterate
import Mathlib.Tactic.IntervalCases

/-!
# `Lib.X86` — a fragment of x86-64 user mode

Sixteen general registers, RFLAGS split into its six status flags and the rest, a flat byte memory and the
FS base. The fragment is what short hand-written stubs use: pushes and pops, loads and stores of one byte
or one quadword, a few 32- and 64-bit arithmetic instructions with the flags they set, and jumps to a label
or to an absolute address.

* **Memory**: `read64`/`write64` with the read-over-write rules and the frame rule (`write64_frame`).
* **Flags**: `addFlags`, `subFlags`, `incFlags`, `andFlags`; `lt_subFlags` reads a signed comparison back.
* **Code**: a list of instructions in which a label is a pseudo-instruction of no effect, and `stepCode`.
-/

namespace X86

abbrev Byte := BitVec 8
abbrev Word := BitVec 64

/-- Byte-addressed memory. -/
abbrev Mem := Word → Byte

inductive Reg where
  | rax | rcx | rdx | rbx | rsp | rbp | rsi | rdi
  | r8 | r9 | r10 | r11 | r12 | r13 | r14 | r15
deriving DecidableEq, Repr

/-- RFLAGS: the six status flags, and everything else in `system`. -/
structure Flags where
  cf : Bool
  pf : Bool
  af : Bool
  zf : Bool
  sf : Bool
  of : Bool
  system : Word
deriving DecidableEq, Repr

/-- What belongs to one thread. -/
structure Cpu where
  regs   : Reg → Word
  flags  : Flags
  fsBase : Word

/-- One thread's registers over the memory. -/
structure State extends Cpu where
  mem : Mem

/-! ## Memory -/

/-- Write one byte. -/
def Mem.writeByte (m : Mem) (a : Word) (v : Byte) : Mem := fun x => if x = a then v else m x

/-- `a` is one of the `n` bytes from `base` on (addresses wrap). -/
def InRange (base : Word) (n : Nat) (a : Word) : Prop := (a - base).toNat < n

instance (base : Word) (n : Nat) (a : Word) : Decidable (InRange base n a) :=
  inferInstanceAs (Decidable (_ < _))

/-- The `i`-th byte of a quadword, counted from the low end. -/
def byteOf (v : Word) (i : Nat) : Byte := v.extractLsb' (8 * i) 8

/-- Little-endian quadword store. -/
def Mem.write64 (m : Mem) (a : Word) (v : Word) : Mem :=
  fun x => if InRange a 8 x then byteOf v (x - a).toNat else m x

/-- Little-endian quadword load. -/
def Mem.read64 (m : Mem) (a : Word) : Word :=
  m (a + 7) ++ m (a + 6) ++ m (a + 5) ++ m (a + 4) ++ m (a + 3) ++ m (a + 2) ++ m (a + 1) ++ m (a + 0)

theorem writeByte_same (m : Mem) (a : Word) (v : Byte) : m.writeByte a v a = v := by
  simp [Mem.writeByte]

theorem writeByte_frame {m : Mem} {a x : Word} {v : Byte} (h : x ≠ a) : m.writeByte a v x = m x := by
  simp [Mem.writeByte, h]

/-- **The frame rule of a quadword store.** -/
theorem write64_frame {m : Mem} {a x v : Word} (h : ¬ InRange a 8 x) : m.write64 a v x = m x := by
  simp [Mem.write64, h]

theorem inRange_add {a : Word} {n k : Nat} (hk : k < n) (hn : n ≤ 2 ^ 64) :
    InRange a n (a + BitVec.ofNat 64 k) := by
  have hk' : k < 2 ^ 64 := Nat.lt_of_lt_of_le hk hn
  simp only [InRange, add_sub_cancel_left, BitVec.toNat_ofNat]
  rwa [Nat.mod_eq_of_lt hk']

/-- Bit `i` of a loaded quadword is bit `i % 8` of the byte at offset `i / 8`. -/
theorem getLsbD_read64 {m : Mem} {a : Word} {i : Nat} (hi : i < 64) :
    (m.read64 a).getLsbD i = (m (a + BitVec.ofNat 64 (i / 8))).getLsbD (i % 8) := by
  have hdiv : i = 8 * (i / 8) + i % 8 := (Nat.div_add_mod i 8).symm
  have hmod : i % 8 < 8 := Nat.mod_lt i (by decide)
  have hq : i / 8 < 8 := by omega
  generalize i / 8 = q at *
  generalize i % 8 = r at *
  subst hdiv
  unfold Mem.read64
  simp only [BitVec.getLsbD_append]
  interval_cases q <;> simp <;> grind

/-- A load reads only its eight bytes. -/
theorem read64_congr {m m' : Mem} {a : Word} (h : ∀ x, InRange a 8 x → m x = m' x) :
    m.read64 a = m'.read64 a := by
  apply BitVec.eq_of_getLsbD_eq
  intro i hi
  rw [getLsbD_read64 hi, getLsbD_read64 hi, h _ (inRange_add (by omega) (by decide))]

/-- **Read-over-write, same address.** -/
theorem read64_write64 (m : Mem) (a v : Word) : (m.write64 a v).read64 a = v := by
  apply BitVec.eq_of_getLsbD_eq
  intro i hi
  have hin : InRange a 8 (a + BitVec.ofNat 64 (i / 8)) := inRange_add (by omega) (by decide)
  have hoff : (i / 8) % 2 ^ 64 = i / 8 := Nat.mod_eq_of_lt (by omega)
  rw [getLsbD_read64 hi]
  simp only [Mem.write64, hin, ↓reduceIte, add_sub_cancel_left, BitVec.toNat_ofNat, hoff, byteOf,
    BitVec.getLsbD_extractLsb', Nat.mod_lt i (by decide : 8 > 0), decide_true, Bool.true_and,
    Nat.div_add_mod]

/-- **Read-over-write, disjoint addresses.** -/
theorem read64_write64_frame {m : Mem} {a b v : Word} (h : ∀ x, InRange b 8 x → ¬ InRange a 8 x) :
    (m.write64 a v).read64 b = m.read64 b :=
  read64_congr fun x hx => write64_frame (h x hx)

theorem read64_writeByte_frame {m : Mem} {a b : Word} {v : Byte} (h : ¬ InRange b 8 a) :
    (m.writeByte a v).read64 b = m.read64 b :=
  read64_congr fun _ hx => writeByte_frame (fun he => h (he ▸ hx))

/-! ## Flags -/

/-- PF: the low byte has an even number of ones. -/
def parity (r : Word) : Bool :=
  !(r.getLsbD 0 ^^ r.getLsbD 1 ^^ r.getLsbD 2 ^^ r.getLsbD 3 ^^ r.getLsbD 4 ^^ r.getLsbD 5
    ^^ r.getLsbD 6 ^^ r.getLsbD 7)

/-- Flags of the 64-bit `a + b`. -/
def addFlags (a b : Word) (f : Flags) : Flags :=
  { f with
    cf := (a + b).ult a
    pf := parity (a + b)
    af := decide (16 ≤ a.toNat % 16 + b.toNat % 16)
    zf := a + b == 0
    sf := (a + b).msb
    of := a.msb == b.msb && (a + b).msb != a.msb }

/-- Flags of the 64-bit `a - b`, which `CMP` sets too. -/
def subFlags (a b : Word) (f : Flags) : Flags :=
  { f with
    cf := a.ult b
    pf := parity (a - b)
    af := decide (a.toNat % 16 < b.toNat % 16)
    zf := a - b == 0
    sf := (a - b).msb
    of := a.msb != b.msb && (a - b).msb != a.msb }

/-- Flags of the 32-bit `a + 1`: `INC` leaves CF alone. -/
def incFlags (a : BitVec 32) (f : Flags) : Flags :=
  { f with
    pf := parity ((a + 1).setWidth 64)
    af := decide (a.toNat % 16 = 15)
    zf := a + 1 == 0
    sf := (a + 1).msb
    of := !a.msb && (a + 1).msb }

/-- Flags of the 64-bit `a & b`. AF is undefined after `AND`; it is cleared here. -/
def andFlags (a b : Word) (f : Flags) : Flags :=
  { f with
    cf := false
    pf := parity (a &&& b)
    af := false
    zf := a &&& b == 0
    sf := (a &&& b).msb
    of := false }

@[simp] theorem system_addFlags (a b : Word) (f : Flags) : (addFlags a b f).system = f.system := rfl
@[simp] theorem system_subFlags (a b : Word) (f : Flags) : (subFlags a b f).system = f.system := rfl
@[simp] theorem system_incFlags (a : BitVec 32) (f : Flags) : (incFlags a f).system = f.system := by
  simp only [incFlags]
@[simp] theorem system_andFlags (a b : Word) (f : Flags) : (andFlags a b f).system = f.system := rfl

/-- `ADD` overwrites every status flag, so only the rest of its input matters. -/
theorem addFlags_congr {a b : Word} {f g : Flags} (h : f.system = g.system) :
    addFlags a b f = addFlags a b g := by
  simp [addFlags, h]

/-- `CMP` overwrites every status flag, so only the rest of its input matters. -/
theorem subFlags_congr {a b : Word} {f g : Flags} (h : f.system = g.system) :
    subFlags a b f = subFlags a b g := by
  simp [subFlags, h]

/-- The condition of `JL`. -/
def Flags.lt (f : Flags) : Bool := f.sf != f.of

/-- **`CMP; JL` on small operands is `<`.** -/
theorem lt_subFlags {a b : Word} (f : Flags) (ha : a.toNat < 2 ^ 63) (hb : b.toNat < 2 ^ 63) :
    (subFlags a b f).lt = decide (a.toNat < b.toNat) := by
  have hma : a.msb = false := by rw [BitVec.msb_eq_decide]; simpa using ha
  have hmb : b.msb = false := by rw [BitVec.msb_eq_decide]; simpa using hb
  have hsub : (a - b).msb = decide (2 ^ 63 ≤ (2 ^ 64 - b.toNat + a.toNat) % 2 ^ 64) := by
    rw [BitVec.msb_eq_decide, BitVec.toNat_sub]
  simp only [Flags.lt, subFlags, hma, hmb, bne_self_eq_false, Bool.false_and, Bool.bne_false, hsub,
    decide_eq_decide]
  omega

/-! ## Instructions -/

/-- The fragment, over labels `L`. -/
inductive Insn (L : Type) where
  | label (l : L)
  /-- `push qword [addr]` -/
  | pushMem (addr : Word)
  | pushReg (r : Reg)
  | popReg (r : Reg)
  /-- `mov r64, qword [base + off]` -/
  | movRegMem (dst base : Reg) (off : Word)
  /-- `mov r64, qword fs:[off]` -/
  | movRegFs (dst : Reg) (off : Word)
  /-- `and r64, imm` -/
  | andRegImm (r : Reg) (imm : Word)
  /-- `movzx r32, byte [base + index]` -/
  | movzxRegByte (dst base index : Reg)
  /-- `inc r32` -/
  | incReg32 (r : Reg)
  /-- `mov byte [base + index], r8`, the low byte of `src` -/
  | movByteReg (base index src : Reg)
  /-- `mov byte [base + index], imm` -/
  | movByteImm (base index : Reg) (imm : Byte)
  /-- `cmp r64, imm` -/
  | cmpRegImm (r : Reg) (imm : Word)
  /-- `add r64, imm` -/
  | addRegImm (r : Reg) (imm : Word)
  | jl (l : L)
  | jmp (l : L)
  | jmpAddress (addr : Word)
deriving Repr

/-- Where control goes after an instruction. -/
inductive Next (L : Type) where
  | fall
  | goto (l : L)
  | leave (addr : Word)

namespace State

/-- Two states that agree on what the fragment can observe are equal. -/
theorem ext_fields {s s' : State} (hregs : ∀ r, s.regs r = s'.regs r) (hflags : s.flags = s'.flags)
    (hfs : s.fsBase = s'.fsBase) (hmem : s.mem = s'.mem) : s = s' := by
  obtain ⟨⟨regs, flags, fsBase⟩, mem⟩ := s
  obtain ⟨⟨regs', flags', fsBase'⟩, mem'⟩ := s'
  obtain rfl : regs = regs' := funext hregs
  obtain rfl : flags = flags' := hflags
  obtain rfl : fsBase = fsBase' := hfs
  obtain rfl : mem = mem' := hmem
  rfl

/-- Set one register. -/
def setReg (s : State) (r : Reg) (v : Word) : State :=
  { s with regs := fun q => if q = r then v else s.regs q }

def setFlags (s : State) (f : Flags) : State := { s with flags := f }

def setMem (s : State) (m : Mem) : State := { s with mem := m }

/-- Push a quadword. -/
def push (s : State) (v : Word) : State :=
  (s.setReg .rsp (s.regs .rsp - 8)).setMem (s.mem.write64 (s.regs .rsp - 8) v)

@[simp] theorem setReg_regs (s : State) (r q : Reg) (v : Word) :
    (s.setReg r v).regs q = if q = r then v else s.regs q := rfl
@[simp] theorem setReg_mem (s : State) (r : Reg) (v : Word) : (s.setReg r v).mem = s.mem := rfl
@[simp] theorem setReg_flags (s : State) (r : Reg) (v : Word) : (s.setReg r v).flags = s.flags := rfl
@[simp] theorem setReg_fsBase (s : State) (r : Reg) (v : Word) : (s.setReg r v).fsBase = s.fsBase := rfl
@[simp] theorem setFlags_regs (s : State) (f : Flags) : (s.setFlags f).regs = s.regs := rfl
@[simp] theorem setFlags_mem (s : State) (f : Flags) : (s.setFlags f).mem = s.mem := rfl
@[simp] theorem setFlags_flags (s : State) (f : Flags) : (s.setFlags f).flags = f := rfl
@[simp] theorem setFlags_fsBase (s : State) (f : Flags) : (s.setFlags f).fsBase = s.fsBase := rfl
@[simp] theorem setMem_regs (s : State) (m : Mem) : (s.setMem m).regs = s.regs := rfl
@[simp] theorem setMem_mem (s : State) (m : Mem) : (s.setMem m).mem = m := rfl
@[simp] theorem setMem_flags (s : State) (m : Mem) : (s.setMem m).flags = s.flags := rfl
@[simp] theorem setMem_fsBase (s : State) (m : Mem) : (s.setMem m).fsBase = s.fsBase := rfl
@[simp] theorem push_regs (s : State) (v : Word) (q : Reg) :
    (s.push v).regs q = if q = .rsp then s.regs .rsp - 8 else s.regs q := rfl
@[simp] theorem push_mem (s : State) (v : Word) :
    (s.push v).mem = s.mem.write64 (s.regs .rsp - 8) v := rfl
@[simp] theorem push_flags (s : State) (v : Word) : (s.push v).flags = s.flags := rfl
@[simp] theorem push_fsBase (s : State) (v : Word) : (s.push v).fsBase = s.fsBase := rfl

end State

variable {L : Type}

/-- One instruction. -/
def Insn.exec : Insn L → State → State × Next L
  | .label _, s => (s, .fall)
  | .pushMem a, s => (s.push (s.mem.read64 a), .fall)
  | .pushReg r, s => (s.push (s.regs r), .fall)
  | .popReg r, s =>
      ((s.setReg .rsp (s.regs .rsp + 8)).setReg r (s.mem.read64 (s.regs .rsp)), .fall)
  | .movRegMem d b off, s => (s.setReg d (s.mem.read64 (s.regs b + off)), .fall)
  | .movRegFs d off, s => (s.setReg d (s.mem.read64 (s.fsBase + off)), .fall)
  | .andRegImm r imm, s =>
      ((s.setReg r (s.regs r &&& imm)).setFlags (andFlags (s.regs r) imm s.flags), .fall)
  | .movzxRegByte d b i, s =>
      (s.setReg d ((s.mem (s.regs b + s.regs i)).setWidth 64), .fall)
  | .incReg32 r, s =>
      ((s.setReg r (((s.regs r).setWidth 32 + 1).setWidth 64)).setFlags
        (incFlags ((s.regs r).setWidth 32) s.flags), .fall)
  | .movByteReg b i src, s =>
      (s.setMem (s.mem.writeByte (s.regs b + s.regs i) ((s.regs src).setWidth 8)), .fall)
  | .movByteImm b i imm, s => (s.setMem (s.mem.writeByte (s.regs b + s.regs i) imm), .fall)
  | .cmpRegImm r imm, s => (s.setFlags (subFlags (s.regs r) imm s.flags), .fall)
  | .addRegImm r imm, s =>
      ((s.setReg r (s.regs r + imm)).setFlags (addFlags (s.regs r) imm s.flags), .fall)
  | .jl l, s => (s, if s.flags.lt then .goto l else .fall)
  | .jmp l, s => (s, .goto l)
  | .jmpAddress a, s => (s, .leave a)

/-! ## Code -/

/-- The program counter: an index into the code, or an address outside it. -/
inductive Pc where
  | inside (i : Nat)
  | outside (addr : Word)
deriving DecidableEq, Repr

/-- A thread at a program counter. -/
structure Config where
  pc : Pc
  st : State

variable [DecidableEq L]

/-- The index of a label's definition (the length of the code when it has none). -/
def labelIndex (code : List (Insn L)) (l : L) : Nat :=
  code.findIdx fun ins => match ins with
    | .label k => decide (k = l)
    | _ => false

/-- The program counter after an instruction at `i`. -/
def nextPc (code : List (Insn L)) (i : Nat) : Next L → Pc
  | .fall => .inside (i + 1)
  | .goto l => .inside (labelIndex code l)
  | .leave a => .outside a

/-- One step; a thread outside the code, or past its end, stays put. -/
def stepCode (code : List (Insn L)) (c : Config) : Config :=
  match c.pc with
  | .outside _ => c
  | .inside i =>
    match code[i]? with
    | none => c
    | some ins => ⟨nextPc code i (ins.exec c.st).2, (ins.exec c.st).1⟩

/-- Stepping at an index whose instruction is known. -/
theorem stepCode_inside {code : List (Insn L)} {i : Nat} (ins : Insn L) (h : code[i]? = some ins)
    (s : State) : stepCode code ⟨.inside i, s⟩ = ⟨nextPc code i (ins.exec s).2, (ins.exec s).1⟩ := by
  simp only [stepCode, h]

/-! ## Straight-line code -/

/-- Control falls through. -/
def Insn.isStraight : Insn L → Bool
  | .jl _ | .jmp _ | .jmpAddress _ => false
  | _ => true

/-- The effect of a straight-line sequence. -/
def execAll (seg : List (Insn L)) (s : State) : State := seg.foldl (fun s ins => (ins.exec s).1) s

omit [DecidableEq L] in
theorem exec_isStraight {ins : Insn L} (h : ins.isStraight = true) (s : State) :
    (ins.exec s).2 = .fall := by
  cases ins <;> first | rfl | cases h

/-- **The straight-line rule.** A straight segment of the code runs as one block. -/
theorem stepCode_straight {code seg : List (Insn L)} {i : Nat} (hseg : seg <+: code.drop i)
    (hstraight : seg.all Insn.isStraight = true) (s : State) :
    (stepCode code)^[seg.length] ⟨.inside i, s⟩ = ⟨.inside (i + seg.length), execAll seg s⟩ := by
  induction seg generalizing i s with
  | nil => rfl
  | cons ins seg ih =>
      obtain ⟨rest, hrest⟩ := hseg
      have hi : code[i]? = some ins := by
        have := congrArg (·[0]?) hrest
        simpa [List.getElem?_drop] using this.symm
      have hdrop : seg <+: code.drop (i + 1) := by
        refine ⟨rest, ?_⟩
        have := congrArg List.tail hrest
        simpa [List.tail_drop] using this
      simp only [List.all_cons, Bool.and_eq_true] at hstraight
      rw [List.length_cons, Function.iterate_succ_apply, stepCode_inside ins hi,
        exec_isStraight hstraight.1]
      simp only [nextPc]
      rw [ih hdrop hstraight.2, Nat.add_assoc, Nat.add_comm 1]
      rfl

end X86
