import FreeProbe.Lib.X86
import Mathlib.Logic.Relation
import Mathlib.Tactic.Abel

/-!
# `Lib.X86Text` — code at addresses, calls and system calls

The fragment of `Lib.X86` with a program counter that is an address: a text gives the instruction at an address and the
address after it, so calls, returns and jumps through registers go where the machine's words say. A system call is
answered by a kernel, which sees the call and the stack pointer and may write memory.

* **Runs**: `Reaches`, with the rule of straight-line code (`reaches_codeAt`) and determinism (`reaches_unique`).
* **Stack words**: `below a k` is the `k`-th quadword under `a`, with its read-over-write rules.
* **Memory**: `EqOutside`, two memories that agree outside a range.
* **The calling convention**: `calleeSaved`.
-/

namespace X86

/-! ## Instructions -/

inductive TextInsn where
  | nop
  | pushReg (r : Reg)
  /-- `push qword [base + off]` -/
  | pushMem (base : Reg) (off : Word)
  | popReg (r : Reg)
  | movReg (dst src : Reg)
  | movImm (dst : Reg) (imm : Word)
  /-- `mov r64, qword [base + off]` -/
  | movMem (dst base : Reg) (off : Word)
  | andImm (r : Reg) (imm : Word)
  | cmpImm (r : Reg) (imm : Word)
  | leave
  | je (addr : Word)
  | jmp (addr : Word)
  | jmpReg (r : Reg)
  | call (addr : Word)
  | callReg (r : Reg)
  | ret
  | syscall
deriving DecidableEq, Repr

/-- The instruction at an address, and the address of the next one. -/
abbrev Text := Word → Option (TextInsn × Word)

/-- The effect of an instruction that falls through. -/
def TextInsn.effect : TextInsn → State → State
  | .pushReg r, s => s.push (s.regs r)
  | .pushMem base off, s => s.push (s.mem.read64 (s.regs base + off))
  | .popReg r, s => (s.setReg .rsp (s.regs .rsp + 8)).setReg r (s.mem.read64 (s.regs .rsp))
  | .movReg dst src, s => s.setReg dst (s.regs src)
  | .movImm dst imm, s => s.setReg dst imm
  | .movMem dst base off, s => s.setReg dst (s.mem.read64 (s.regs base + off))
  | .andImm r imm, s => (s.setReg r (s.regs r &&& imm)).setFlags (andFlags (s.regs r) imm s.flags)
  | .cmpImm r imm, s => s.setFlags (subFlags (s.regs r) imm s.flags)
  | .leave, s => (s.setReg .rsp (s.regs .rbp + 8)).setReg .rbp (s.mem.read64 (s.regs .rbp))
  | _, s => s

/-- Control falls through. -/
def TextInsn.falls : TextInsn → Bool
  | .je _ | .jmp _ | .jmpReg _ | .call _ | .callReg _ | .ret | .syscall => false
  | _ => true

/-! ## System calls -/

/-- A system call: its number and its six arguments. -/
structure SystemCall where
  nr   : Word
  arg1 : Word
  arg2 : Word
  arg3 : Word
  arg4 : Word
  arg5 : Word
  arg6 : Word
deriving DecidableEq, Repr

/-- The system call that the registers ask for. -/
def SystemCall.ofRegs (regs : Reg → Word) : SystemCall :=
  ⟨regs .rax, regs .rdi, regs .rsi, regs .rdx, regs .r10, regs .r8, regs .r9⟩

/-- What the kernel sees on entry. -/
structure Trap where
  call : SystemCall
  rsp  : Word
deriving DecidableEq, Repr

/-- The value the kernel returns and the memory it leaves. -/
abbrev Kernel := Trap → Mem → Word × Mem

/-- RFLAGS as `syscall` saves it. -/
def Flags.toWord (f : Flags) : Word :=
  f.system + BitVec.ofNat 64 (f.cf.toNat + 4 * f.pf.toNat + 16 * f.af.toNat + 64 * f.zf.toNat + 128 * f.sf.toNat +
    2048 * f.of.toNat)

/-- The kernel answers the trap: RAX, RCX and R11 are written. -/
def State.trap (kernel : Kernel) (next : Word) (s : State) : State :=
  let answer := kernel ⟨.ofRegs s.regs, s.regs .rsp⟩ s.mem
  (((s.setReg .rcx next).setReg .r11 s.flags.toWord).setReg .rax answer.1).setMem answer.2

/-! ## Runs -/

/-- A thread at a program counter, and its system calls so far. -/
structure Thread where
  pc    : Word
  st    : State
  traps : List Trap

/-- One instruction, with the address of the next one. -/
def Thread.exec (kernel : Kernel) (c : Thread) (next : Word) : TextInsn → Thread
  | .je addr => ⟨if c.st.flags.zf then addr else next, c.st, c.traps⟩
  | .jmp addr => ⟨addr, c.st, c.traps⟩
  | .jmpReg r => ⟨c.st.regs r, c.st, c.traps⟩
  | .call addr => ⟨addr, c.st.push next, c.traps⟩
  | .callReg r => ⟨c.st.regs r, c.st.push next, c.traps⟩
  | .ret => ⟨c.st.mem.read64 (c.st.regs .rsp), c.st.setReg .rsp (c.st.regs .rsp + 8), c.traps⟩
  | .syscall => ⟨next, c.st.trap kernel next, c.traps ++ [⟨.ofRegs c.st.regs, c.st.regs .rsp⟩]⟩
  | ins => ⟨next, ins.effect c.st, c.traps⟩

/-- One step; where the text has no instruction there is none. -/
def Thread.step (kernel : Kernel) (text : Text) (c : Thread) : Option Thread :=
  match text c.pc with
  | none => none
  | some (ins, next) => some (c.exec kernel next ins)

/-- Some steps lead from one to the other. -/
def Reaches (kernel : Kernel) (text : Text) : Thread → Thread → Prop :=
  Relation.ReflTransGen fun c c' => c.step kernel text = some c'

variable {kernel : Kernel} {text : Text} {c c' c'' : Thread}

theorem Reaches.refl : Reaches kernel text c c := Relation.ReflTransGen.refl

theorem Reaches.trans (h : Reaches kernel text c c') (h' : Reaches kernel text c' c'') : Reaches kernel text c c'' :=
  Relation.ReflTransGen.trans h h'

/-- One step, then the rest. -/
theorem Reaches.head (h : c.step kernel text = some c') (h' : Reaches kernel text c' c'') :
    Reaches kernel text c c'' :=
  Relation.ReflTransGen.head h h'

theorem step_at {a next : Word} {ins : TextInsn} {s : State} {traps : List Trap} (h : text a = some (ins, next)) :
    Thread.step kernel text ⟨a, s, traps⟩ = some (Thread.exec kernel ⟨a, s, traps⟩ next ins) := by
  unfold Thread.step
  rw [h]

theorem step_none (h : text c.pc = none) : c.step kernel text = none := by
  unfold Thread.step
  rw [h]

/-- **Determinism.** Two runs that end where the text does end in the same thread. -/
theorem reaches_unique (h : Reaches kernel text c c') (hend : text c'.pc = none) (h' : Reaches kernel text c c'')
    (hend' : text c''.pc = none) : c' = c'' := by
  have hstuck : ∀ {d d' : Thread}, text d.pc = none → Reaches kernel text d d' → d' = d := by
    intro d d' hd hreach
    rcases Relation.ReflTransGen.cases_head hreach with rfl | ⟨e, hstep, -⟩
    · rfl
    · rw [step_none hd] at hstep
      cases hstep
  induction h using Relation.ReflTransGen.head_induction_on with
  | refl => exact (hstuck hend h').symm
  | head hstep _ ih =>
      rcases Relation.ReflTransGen.cases_head h' with rfl | ⟨e, hstep', hrest⟩
      · rw [step_none hend'] at hstep
        cases hstep
      · rw [hstep] at hstep'
        cases hstep'
        exact ih hrest

/-- The thread after so many steps, if it gets that far. -/
def Thread.steps (kernel : Kernel) (text : Text) : Nat → Thread → Option Thread
  | 0, c => some c
  | n + 1, c => (c.step kernel text).bind (Thread.steps kernel text n)

theorem reaches_of_steps {n : Nat} (h : c.steps kernel text n = some c') : Reaches kernel text c c' := by
  induction n generalizing c with
  | zero =>
      cases h
      exact Reaches.refl
  | succ n ih =>
      obtain ⟨d, hstep, hrest⟩ := Option.bind_eq_some_iff.mp h
      exact Reaches.head hstep (ih hrest)

/-! ## Straight-line code -/

/-- The instructions stand one after the other, from `a` up to `b`. -/
def CodeAt (text : Text) : Word → List TextInsn → Word → Prop
  | a, [], b => a = b
  | a, ins :: rest, b => ∃ next, text a = some (ins, next) ∧ CodeAt text next rest b

/-- The effect of a straight-line sequence. -/
def effects (seg : List TextInsn) (s : State) : State := seg.foldl (fun s ins => ins.effect s) s

theorem effects_append (seg seg' : List TextInsn) (s : State) :
    effects (seg ++ seg') s = effects seg' (effects seg s) :=
  List.foldl_append

theorem step_falls {a next : Word} {ins : TextInsn} {s : State} {traps : List Trap} (h : text a = some (ins, next))
    (hfalls : ins.falls = true) :
    Thread.step kernel text ⟨a, s, traps⟩ = some ⟨next, ins.effect s, traps⟩ := by
  rw [step_at h]
  cases ins <;> first | rfl | cases hfalls

/-- **The straight-line rule.** -/
theorem reaches_codeAt {seg : List TextInsn} {a b : Word} {s : State} {traps : List Trap} (h : CodeAt text a seg b)
    (hfalls : seg.all TextInsn.falls = true) :
    Reaches kernel text ⟨a, s, traps⟩ ⟨b, effects seg s, traps⟩ := by
  induction seg generalizing a s with
  | nil =>
      cases h
      exact Reaches.refl
  | cons ins rest ih =>
      obtain ⟨next, hins, hrest⟩ := h
      simp only [List.all_cons, Bool.and_eq_true] at hfalls
      exact Reaches.head (step_falls hins hfalls.1) (ih hrest hfalls.2)

theorem codeAt_append {seg seg' : List TextInsn} {a b : Word} (h : CodeAt text a (seg ++ seg') b) :
    ∃ middle, CodeAt text a seg middle ∧ CodeAt text middle seg' b := by
  induction seg generalizing a with
  | nil => exact ⟨a, rfl, h⟩
  | cons ins rest ih =>
      obtain ⟨next, hins, hrest⟩ := h
      obtain ⟨middle, hseg, hseg'⟩ := ih hrest
      exact ⟨middle, ⟨next, hins, hseg⟩, hseg'⟩

/-! ## Memory outside a range -/

/-- Two memories that agree outside the `n` bytes from `base` on. -/
def EqOutside (base : Word) (n : Nat) (m m' : Mem) : Prop := ∀ x, ¬ InRange base n x → m' x = m x

theorem EqOutside.refl {base : Word} {n : Nat} {m : Mem} : EqOutside base n m m := fun _ _ => rfl

theorem EqOutside.trans {base : Word} {n : Nat} {m m' m'' : Mem} (h : EqOutside base n m m')
    (h' : EqOutside base n m' m'') : EqOutside base n m m'' :=
  fun x hx => (h' x hx).trans (h x hx)

/-- A range may be widened. -/
theorem EqOutside.mono {base base' : Word} {n n' : Nat} {m m' : Mem} (h : EqOutside base n m m')
    (hsub : ∀ x, InRange base n x → InRange base' n' x) : EqOutside base' n' m m' :=
  fun x hx => h x fun hin => hx (hsub x hin)

/-- A load outside the range. -/
theorem EqOutside.read64 {base a : Word} {n : Nat} {m m' : Mem} (h : EqOutside base n m m')
    (hout : ∀ x, InRange a 8 x → ¬ InRange base n x) : m'.read64 a = m.read64 a :=
  read64_congr fun x hx => h x (hout x hx)

/-- A range that ends at most `r` bytes above `a` lies in the `q` bytes below `a` and those `r`, if it begins there. -/
theorem inRange_around {a x : Word} {p q n r : Nat} (h : InRange (a - BitVec.ofNat 64 p) n x) (hn : n ≤ p + r)
    (hp : p ≤ q) (hq : q + r < 2 ^ 64) : InRange (a - BitVec.ofNat 64 q) (q + r) x := by
  have hsplit : x - (a - BitVec.ofNat 64 q) = x - (a - BitVec.ofNat 64 p) + BitVec.ofNat 64 (q - p) := by
    obtain ⟨k, rfl⟩ := Nat.exists_eq_add_of_le hp
    rw [Nat.add_sub_cancel_left, BitVec.ofNat_add]
    abel
  unfold InRange at *
  rw [hsplit, BitVec.toNat_add, BitVec.toNat_ofNat]
  omega

theorem inRange_below {a x : Word} {p q n : Nat} (h : InRange (a - BitVec.ofNat 64 p) n x) (hn : n ≤ p) (hp : p ≤ q)
    (hq : q < 2 ^ 64) : InRange (a - BitVec.ofNat 64 q) q x := by
  have hnone : n ≤ p + 0 := hn
  exact inRange_around h hnone hp hq

/-! ## Stack words -/

/-- The `k`-th quadword below `a`. -/
def below (a : Word) (k : Nat) : Word := a - BitVec.ofNat 64 (8 * k)

@[simp] theorem below_zero (a : Word) : below a 0 = a := by
  simp [below]

theorem below_sub (a : Word) (k : Nat) : below a k - 8 = below a (k + 1) := by
  have h : BitVec.ofNat 64 (8 * (k + 1)) = BitVec.ofNat 64 (8 * k) + 8#64 := by
    rw [Nat.mul_succ, BitVec.ofNat_add]
  unfold below
  rw [h]
  abel

theorem below_add (a : Word) (k j : Nat) : below a (k + j) + BitVec.ofNat 64 (8 * j) = below a k := by
  have h : BitVec.ofNat 64 (8 * (k + j)) = BitVec.ofNat 64 (8 * k) + BitVec.ofNat 64 (8 * j) := by
    rw [Nat.mul_add, BitVec.ofNat_add]
  unfold below
  rw [h]
  abel

/-- Different quadwords below `a` are apart. -/
theorem below_apart {a x : Word} {i j : Nat} (hi : i < 2 ^ 32) (hj : j < 2 ^ 32) (hne : i ≠ j)
    (h : InRange (below a i) 8 x) : ¬ InRange (below a j) 8 x := by
  have hi' : (BitVec.ofNat 64 (8 * i)).toNat = 8 * i := by rw [BitVec.toNat_ofNat]; omega
  have hj' : (BitVec.ofNat 64 (8 * j)).toNat = 8 * j := by rw [BitVec.toNat_ofNat]; omega
  unfold InRange below at *
  bv_omega

theorem read64_below_same (m : Mem) (a v : Word) (k : Nat) : (m.write64 (below a k) v).read64 (below a k) = v :=
  read64_write64 m _ v

theorem read64_below_apart {m : Mem} {a v : Word} {i j : Nat} (hi : i < 2 ^ 32) (hj : j < 2 ^ 32) (hne : i ≠ j) :
    (m.write64 (below a j) v).read64 (below a i) = m.read64 (below a i) :=
  read64_write64_frame fun _ hx => below_apart hi hj hne hx

/-- A push onto a stack of words below `a`. -/
theorem push_below {s : State} {a v : Word} {k : Nat} (h : s.regs .rsp = below a k) :
    (s.push v).regs .rsp = below a (k + 1) ∧ (s.push v).mem = s.mem.write64 (below a (k + 1)) v ∧
      ∀ r, r ≠ .rsp → (s.push v).regs r = s.regs r := by
  refine ⟨?_, ?_, fun r hr => ?_⟩
  · rw [State.push_regs, if_pos rfl, h, below_sub]
  · rw [State.push_mem, h, below_sub]
  · rw [State.push_regs, if_neg hr]

/-- The memory after pushes of `vs` onto a stack of `k` words below `a`. -/
def pushed (a : Word) (m : Mem) : Nat → List Word → Mem
  | _, [] => m
  | k, v :: vs => pushed a (m.write64 (below a (k + 1)) v) (k + 1) vs

/-- **A run of pushes.** -/
theorem effects_pushReg {rs : List Reg} (hrs : .rsp ∉ rs) {s : State} {a : Word} {k : Nat}
    (h : s.regs .rsp = below a k) :
    (effects (rs.map .pushReg) s).regs .rsp = below a (k + rs.length) ∧
      (effects (rs.map .pushReg) s).mem = pushed a s.mem k (rs.map s.regs) ∧
      ∀ r, r ≠ .rsp → (effects (rs.map .pushReg) s).regs r = s.regs r := by
  induction rs generalizing s k with
  | nil => exact ⟨h, rfl, fun _ _ => rfl⟩
  | cons r rs ih =>
      obtain ⟨hrsp, hmem, hregs⟩ := push_below (v := s.regs r) h
      have hrs' : .rsp ∉ rs := fun hr => hrs (List.mem_cons_of_mem _ hr)
      obtain ⟨hrsp', hmem', hregs'⟩ := ih hrs' hrsp
      have hvs : rs.map (s.push (s.regs r)).regs = rs.map s.regs :=
        List.map_congr_left fun q hq => hregs q fun he => hrs' (he ▸ hq)
      refine ⟨?_, ?_, fun q hq => (hregs' q hq).trans (hregs q hq)⟩
      · have hlen : k + (r :: rs).length = k + 1 + rs.length := by
          rw [List.length_cons]
          omega
        rw [hlen]
        exact hrsp'
      · rw [hmem, hvs] at hmem'
        exact hmem'

/-- Pushes change the words they write only. -/
theorem pushed_frame {a x : Word} {vs : List Word} {m : Mem} {k : Nat}
    (h : ∀ i, k < i → i ≤ k + vs.length → ¬ InRange (below a i) 8 x) : pushed a m k vs x = m x := by
  induction vs generalizing m k with
  | nil => rfl
  | cons v vs ih =>
      have hrest := ih (m := m.write64 (below a (k + 1)) v) (k := k + 1) fun i hi hi' =>
        h i (by omega) (by rw [List.length_cons]; omega)
      exact hrest.trans (write64_frame (h (k + 1) (Nat.lt_succ_self k) (by rw [List.length_cons]; omega)))

/-- The words above a run of pushes. -/
theorem read64_pushed_above {a : Word} {vs : List Word} {m : Mem} {k i : Nat} (hi : i ≤ k)
    (hk : k + vs.length < 2 ^ 32) : (pushed a m k vs).read64 (below a i) = m.read64 (below a i) :=
  read64_congr fun _ hx => pushed_frame fun j hj hj' => below_apart (by omega) (by omega) (by omega) hx

/-- The `i`-th word pushed. -/
theorem read64_pushed {a v : Word} {vs : List Word} {m : Mem} {k i : Nat} (hi : vs[i]? = some v)
    (hk : k + vs.length < 2 ^ 32) : (pushed a m k vs).read64 (below a (k + i + 1)) = v := by
  induction vs generalizing m k i with
  | nil => cases hi
  | cons w vs ih =>
      rw [List.length_cons] at hk
      cases i with
      | zero =>
          cases hi
          rw [show k + 0 + 1 = k + 1 from rfl, pushed, read64_pushed_above (Nat.le_refl _) (by omega), read64_below_same]
      | succ i =>
          rw [List.getElem?_cons_succ] at hi
          have hrest := ih (m := m.write64 (below a (k + 1)) w) hi (k := k + 1) (by omega)
          rwa [show k + 1 + i + 1 = k + (i + 1) + 1 by omega] at hrest

/-! ## Alignment -/

theorem toNat_and_neg16 (a : Word) : (a &&& -16#64).toNat = a.toNat / 16 * 16 := by
  have hmask : (-16#64 : Word) = BitVec.allOnes 64 <<< 4 := by decide
  rw [hmask, ← BitVec.shiftLeft_ushiftRight, BitVec.toNat_shiftLeft, BitVec.toNat_ushiftRight, Nat.shiftLeft_eq,
    Nat.shiftRight_eq_div_pow]
  have ha := a.isLt
  omega

/-- `and r64, -16` rounds down to a multiple of 16. -/
theorem and_neg16 (a : Word) : ∃ d, d < 16 ∧ a &&& -16#64 = a - BitVec.ofNat 64 d ∧ (a &&& -16#64).toNat % 16 = 0 := by
  have h := toNat_and_neg16 a
  refine ⟨a.toNat % 16, Nat.mod_lt _ (by decide), ?_, by omega⟩
  apply BitVec.eq_of_toNat_eq
  have ha := a.isLt
  rw [h, BitVec.toNat_sub, BitVec.toNat_ofNat]
  omega

/-! ## The calling convention -/

/-- The registers that a C function hands back, RSP apart. -/
def calleeSaved : List Reg := [.rbx, .rbp, .r12, .r13, .r14, .r15]

end X86
