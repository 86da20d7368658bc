import FreeProbe.Lib.Machine
import Mathlib.Data.BitVec
import Mathlib.Logic.Function.Basic

/-!
# `Vm.LlvmVm` — `llvmbpf_vm` and its compiled function

The VM keeps the loaded instructions and, once there is one, the compiled function. Whatever asks for a function takes
the one that is there. The JIT is a parameter: it makes an instance of instructions or of an object, with the functions
that are registered, and finds the entry in an instance; both can fail. An instance whose entry is not found is kept.

A session is the VM beside what was loaded last and beside what the function was made of. Nothing takes a compiled
function away: it is what runs from then on, whatever is loaded, unloaded and registered behind it.
-/

namespace LlvmVm

open Lib

/-- A byte of code or of an object. -/
abbrev Byte := BitVec 8

/-- The largest number of external functions. -/
def MAX_EXT_FUNCS : Nat := 8192
-- what an operation fails with
def EINVAL : Int := 22
def E2BIG : Int := 7
def EEXIST : Int := 17

/-- `external_function` -/
structure ExternalFunction where
  name : List Byte
  fn   : BitVec 64
deriving DecidableEq

/-- The external functions by index. -/
abbrev ExtFuncs := Nat → Option ExternalFunction

/-- `addIRModule` of the module that is generated for instructions, `addObjectFile`, `lookup("bpf_main")`, and a call of
    the function that is found. -/
structure Llvm (Jit Code : Type) where
  addModule : List Byte → ExtFuncs → Option Jit
  addObject : List Byte → ExtFuncs → Option Jit
  lookup    : Jit → Option Code
  call      : Code → BitVec 64 → BitVec 64 → BitVec 64

/-- `llvmbpf_vm` with the JIT instance of its context; the instructions are their bytes. -/
structure Vm (Jit Code : Type) where
  extFuncs       : ExtFuncs
  instructions   : List Byte
  jittedFunction : Option Code
  jit            : Option Jit

variable {Jit Code : Type}

/-- What an operation gives: an error number, nothing in place of a function, a function, or the value of a run of one. -/
inductive Result (Code : Type) where
  | ok
  | error (errno : Int)
  | nothing
  | function (code : Code)
  | ran (code : Code) (value : BitVec 64)
deriving DecidableEq

namespace Vm

/-- `register_external_function` -/
def register_external_function (vm : Vm Jit Code) (index : Nat) (name : List Byte) (fn : BitVec 64) :
    Result Code × Vm Jit Code :=
  if MAX_EXT_FUNCS ≤ index then (.error (-E2BIG), vm)
  else if (vm.extFuncs index).isSome then (.error (-EEXIST), vm)
  else (.ok, { vm with extFuncs := Function.update vm.extFuncs index (some ⟨name, fn⟩) })

/-- `load_code`: a length that is no multiple of eight is refused. -/
def load_code (vm : Vm Jit Code) (code : List Byte) : Result Code × Vm Jit Code :=
  if code.length % 8 ≠ 0 then (.error (-EINVAL), vm) else (.ok, { vm with instructions := code })

/-- `unload_code` clears the instructions, and nothing else. -/
def unload_code (vm : Vm Jit Code) : Result Code × Vm Jit Code := (.ok, { vm with instructions := [] })

/-- No module is generated without instructions. -/
def do_jit_compile (llvm : Llvm Jit Code) (vm : Vm Jit Code) : Option Jit :=
  if vm.instructions = [] then none else llvm.addModule vm.instructions vm.extFuncs

/-- `compile`: what has been compiled is kept, whatever the instructions are now. -/
def compile (llvm : Llvm Jit Code) (vm : Vm Jit Code) : Option Code × Vm Jit Code :=
  match vm.jittedFunction with
  | some code => (some code, vm)
  | none =>
    match vm.do_jit_compile llvm with
    | none => (none, vm)
    | some jit => (llvm.lookup jit, { vm with jit := some jit, jittedFunction := llvm.lookup jit })

/-- `exec`: compiles if nothing has been, and runs. -/
def exec (llvm : Llvm Jit Code) (vm : Vm Jit Code) (mem memLen : BitVec 64) : Result Code × Vm Jit Code :=
  match vm.compile llvm with
  | (none, vm) => (.error (-1), vm)
  | (some code, vm) => (.ran code (llvm.call code mem memLen), vm)

/-- The context throws where it has an instance. -/
def load_aot_object (llvm : Llvm Jit Code) (vm : Vm Jit Code) (object : List Byte) : Result Code × Vm Jit Code :=
  match vm.jittedFunction with
  | some _ => (.nothing, vm)
  | none =>
    if vm.jit.isSome then (.nothing, vm)
    else
      match llvm.addObject object vm.extFuncs with
      | none => (.nothing, vm)
      | some jit =>
        match llvm.lookup jit with
        | none => (.nothing, { vm with jit := some jit })
        | some code => (.function code, { vm with jit := some jit, jittedFunction := some code })

end Vm

/-- What a user does with a machine. -/
inductive Op where
  | register (index : Nat) (name : List Byte) (fn : BitVec 64)
  | loadCode (code : List Byte)
  | unloadCode
  | compile
  | loadAotObject (object : List Byte)
  | exec (mem memLen : BitVec 64)
deriving DecidableEq

/-- It runs the program. -/
def Op.isExec : Op → Bool
  | .exec .. => true
  | _ => false

/-- What can be loaded. -/
inductive Program where
  | code (bytes : List Byte)
  | object (bytes : List Byte)
deriving DecidableEq

/-- `loaded` is what was loaded last and not unloaded. `made` is there with the function: what was loaded when the
    function was made, and the functions that were registered then. -/
structure Session (Jit Code : Type) where
  vm     : Vm Jit Code
  loaded : Option Program
  made   : Option (ExtFuncs × Program)

namespace Session

/-- A new machine. -/
def empty : Session Jit Code := ⟨⟨fun _ => none, [], none, none⟩, none, none⟩

/-- What an operation leaves. A function that is there for the first time was made just now. -/
def next (s : Session Jit Code) (vm : Vm Jit Code) (loaded : Option Program) : Session Jit Code :=
  ⟨vm, loaded,
    if s.vm.jittedFunction.isNone && vm.jittedFunction.isSome then loaded.map (vm.extFuncs, ·) else s.made⟩

/-- One operation, and what the machine should run after it. -/
def apply (llvm : Llvm Jit Code) (s : Session Jit Code) : Op → Result Code × Session Jit Code
  | .register index name fn =>
    let r := s.vm.register_external_function index name fn
    (r.1, s.next r.2 s.loaded)
  | .loadCode code =>
    let r := s.vm.load_code code
    (r.1, s.next r.2 (if code.length % 8 = 0 then some (.code code) else s.loaded))
  | .unloadCode =>
    let r := s.vm.unload_code
    (r.1, s.next r.2 none)
  | .compile =>
    let r := s.vm.compile llvm
    (match r.1 with
      | none => .nothing
      | some code => .function code, s.next r.2 s.loaded)
  | .loadAotObject object =>
    let r := s.vm.load_aot_object llvm object
    (r.1, s.next r.2 (match r.1 with
      | .function _ => some (.object object)
      | _ => s.loaded))
  | .exec mem memLen =>
    let r := s.vm.exec llvm mem memLen
    (r.1, s.next r.2 s.loaded)

/-- The same as a step. -/
def step (llvm : Llvm Jit Code) (s : Session Jit Code) (op : Op) : Option (Result Code × Session Jit Code) :=
  some (s.apply llvm op)

/-- What the runs in a list of operations give. -/
def runs (llvm : Llvm Jit Code) (s : Session Jit Code) : List Op → List (Result Code)
  | [] => []
  | op :: ops =>
    let r := s.apply llvm op
    if op.isExec then r.1 :: runs llvm r.2 ops else runs llvm r.2 ops

/-- After some operations. -/
def after (llvm : Llvm Jit Code) (s : Session Jit Code) (ops : List Op) : Session Jit Code :=
  ops.foldl (fun s op => (s.apply llvm op).2) s

end Session

/-! ## What the VM is for -/

/-- The function that a program is compiled to. -/
def Llvm.compiled (llvm : Llvm Jit Code) (extFuncs : ExtFuncs) : Program → Option Code
  | .code bytes => if bytes = [] then none else (llvm.addModule bytes extFuncs).bind llvm.lookup
  | .object bytes => (llvm.addObject bytes extFuncs).bind llvm.lookup

/-- The function of what is loaded, with the functions that are registered. -/
def Session.current (llvm : Llvm Jit Code) (s : Session Jit Code) : Option Code :=
  s.loaded.bind (llvm.compiled s.vm.extFuncs)

/-- A function that is run or handed out is that of what is loaded; there is none where nothing is. -/
def Runs (llvm : Llvm Jit Code) (s : Session Jit Code) : Op → Prop
  | .exec mem memLen => ∀ code value, (s.apply llvm (.exec mem memLen)).1 = .ran code value → s.current llvm = some code
  | .compile => ∀ code, (s.apply llvm .compile).1 = .function code → s.current llvm = some code
  | _ => True

/-- The operation failed. -/
def Result.failed : Result Code → Bool
  | .error _ => true
  | .nothing => true
  | _ => false

/-- A load, a compilation or a registration that fails makes no difference to the runs behind it. -/
def Harmless (llvm : Llvm Jit Code) (s : Session Jit Code) (ops : List Op) : Prop :=
  ∀ before op behind, ops = before ++ op :: behind → op.isExec = false →
    ((s.after llvm before).apply llvm op).1.failed = true →
      ((s.after llvm before).apply llvm op).2.runs llvm behind = (s.after llvm before).runs llvm behind

/-! ## Steps -/

section
variable {llvm : Llvm Jit Code} {s s' : Session Jit Code}

/-- The instructions are what is loaded. -/
def Uncompiled (vm : Vm Jit Code) (loaded : Option Program) : Prop :=
  match loaded with
  | none => vm.instructions = []
  | some (.code bytes) => vm.instructions = bytes
  | some (.object _) => False

/-- As long as there is no function, the instructions are what is loaded; a function is that of what it was made of. -/
structure Session.Held (llvm : Llvm Jit Code) (s : Session Jit Code) : Prop where
  uncompiled : s.vm.jittedFunction = none → Uncompiled s.vm s.loaded
  unmade     : s.vm.jittedFunction = none → s.made = none
  made       : ∀ code, s.vm.jittedFunction = some code →
    ∃ made, s.made = some made ∧ llvm.compiled made.1 made.2 = some code

/-- What is there is not compiled again. -/
theorem compile_some {code : Code} (h : s.vm.jittedFunction = some code) : s.vm.compile llvm = (some code, s.vm) := by
  rw [Vm.compile, h]

/-- A first compilation is that of what is loaded. -/
theorem compile_none (huncompiled : Uncompiled s.vm s.loaded) (h : s.vm.jittedFunction = none) :
    (s.vm.compile llvm).1 = s.current llvm ∧ (s.vm.compile llvm).2.jittedFunction = s.current llvm := by
  have hcurrent : s.current llvm = (s.vm.do_jit_compile llvm).bind llvm.lookup := by
    unfold Session.current Vm.do_jit_compile
    unfold Uncompiled at huncompiled
    cases hloaded : s.loaded with
    | none =>
      rw [hloaded] at huncompiled
      rw [if_pos huncompiled]
      rfl
    | some program =>
      rw [hloaded] at huncompiled
      cases program with
      | code bytes =>
        subst huncompiled
        simp only [Option.bind_some, Llvm.compiled]
        split <;> rfl
      | object bytes => exact huncompiled.elim
  rw [Vm.compile, h]
  simp only
  cases hjit : s.vm.do_jit_compile llvm with
  | none =>
    rw [hjit] at hcurrent
    exact ⟨hcurrent.symm, h.trans hcurrent.symm⟩
  | some jit =>
    rw [hjit] at hcurrent
    exact ⟨hcurrent.symm, hcurrent.symm⟩

/-- A compilation changes the function and the instance alone. -/
theorem compile_rest : (s.vm.compile llvm).2.extFuncs = s.vm.extFuncs ∧
    (s.vm.compile llvm).2.instructions = s.vm.instructions := by
  unfold Vm.compile
  split
  · exact ⟨rfl, rfl⟩
  · split <;> exact ⟨rfl, rfl⟩

/-- Since the function was made, what was loaded, unloaded and registered has not changed what is compiled. -/
def Session.Fresh (llvm : Llvm Jit Code) (s : Session Jit Code) : Prop :=
  ∀ made ∈ s.made, s.current llvm = llvm.compiled made.1 made.2

/-- **The condition on an operation.** A run or a compilation with a function at hand comes where what is loaded by
    then, with the functions registered by then, compiles to the same as when the function was made. -/
def Fresh (llvm : Llvm Jit Code) (s : Session Jit Code) : Op → Prop
  | .exec .. => s.Fresh llvm
  | .compile => s.Fresh llvm
  | _ => True

/-- What a compilation hands out is the function of what is loaded, where nothing has changed since it was made. -/
theorem handed_out_iff (hheld : s.Held llvm) :
    (∀ code, (s.vm.compile llvm).1 = some code → s.current llvm = some code) ↔ s.Fresh llvm := by
  cases hcompiled : s.vm.jittedFunction with
  | none =>
    refine iff_of_true ?_ ?_
    · intro code hcode
      rw [← (compile_none (hheld.uncompiled hcompiled) hcompiled).1, hcode]
    · intro made hmade
      rw [hheld.unmade hcompiled] at hmade
      cases hmade
  | some code =>
    obtain ⟨made, hmade, hcode⟩ := hheld.made code hcompiled
    rw [compile_some hcompiled, Session.Fresh, hmade]
    constructor
    · intro h made' hmade'
      cases hmade'
      rw [h code rfl, hcode]
    · intro h code' hcode'
      cases hcode'
      rw [h made rfl, hcode]

/-- A run is one of what `compile` gives. -/
theorem exec_ran_iff {mem memLen : BitVec 64} {code : Code} :
    (∃ value, (s.apply llvm (.exec mem memLen)).1 = .ran code value) ↔ (s.vm.compile llvm).1 = some code := by
  simp only [Session.apply, Vm.exec]
  cases s.vm.compile llvm with
  | mk found vm => cases found <;> simp

/-- And so is the function that `compile` returns. -/
theorem compile_function_iff {code : Code} :
    (s.apply llvm .compile).1 = .function code ↔ (s.vm.compile llvm).1 = some code := by
  simp only [Session.apply]
  cases s.vm.compile llvm with
  | mk found vm => cases found <;> simp

/-- An operation runs what is loaded exactly when it is fresh. -/
theorem runs_iff (hheld : s.Held llvm) (op : Op) : Runs llvm s op ↔ Fresh llvm s op := by
  cases op with
  | exec mem memLen =>
    refine Iff.trans ?_ (handed_out_iff hheld)
    constructor
    · intro h code hcode
      obtain ⟨value, hran⟩ := exec_ran_iff.mpr hcode
      exact h code value hran
    · intro h code value hran
      exact h code (exec_ran_iff.mp ⟨value, hran⟩)
  | compile =>
    refine Iff.trans ?_ (handed_out_iff hheld)
    exact forall_congr' fun code => imp_congr_left compile_function_iff
  | register index name fn => exact Iff.rfl
  | loadCode code => exact Iff.rfl
  | unloadCode => exact Iff.rfl
  | loadAotObject object => exact Iff.rfl

/-- A new machine holds nothing. -/
theorem held_empty : (Session.empty : Session Jit Code).Held llvm where
  uncompiled := fun _ => rfl
  unmade := fun _ => rfl
  made := fun code hcode => by cases hcode

/-- A function stays, and one that is there for the first time is that of what is loaded. -/
theorem held_next (hheld : s.Held llvm) {vm : Vm Jit Code} {loaded : Option Program}
    (huncompiled : vm.jittedFunction = none → Uncompiled vm loaded)
    (hkept : ∀ code, s.vm.jittedFunction = some code → vm.jittedFunction = some code)
    (hmade : ∀ code, s.vm.jittedFunction = none → vm.jittedFunction = some code →
      ∃ program, loaded = some program ∧ llvm.compiled vm.extFuncs program = some code) :
    (s.next vm loaded).Held llvm where
  uncompiled := huncompiled
  unmade := by
    intro hnone
    cases hbefore : s.vm.jittedFunction with
    | none =>
      have hvm : vm.jittedFunction = none := hnone
      rw [Session.next, hbefore, hvm]
      exact hheld.unmade hbefore
    | some code =>
      have hvm : vm.jittedFunction = none := hnone
      rw [hkept code hbefore] at hvm
      cases hvm
  made := by
    intro code hcode
    have hvm : vm.jittedFunction = some code := hcode
    cases hbefore : s.vm.jittedFunction with
    | none =>
      obtain ⟨program, hloaded, hcompiled⟩ := hmade code hbefore hvm
      refine ⟨(vm.extFuncs, program), ?_, hcompiled⟩
      rw [Session.next, hbefore, hvm, hloaded]
      rfl
    | some code' =>
      obtain rfl : code' = code := Option.some.inj ((hkept code' hbefore).symm.trans hvm)
      obtain ⟨made, hmade, hcompiled⟩ := hheld.made _ hbefore
      refine ⟨made, ?_, hcompiled⟩
      rw [Session.next, hbefore]
      exact hmade

/-- An operation that makes no function. -/
theorem held_next_same (hheld : s.Held llvm) {vm : Vm Jit Code} {loaded : Option Program}
    (hsame : vm.jittedFunction = s.vm.jittedFunction)
    (huncompiled : vm.jittedFunction = none → Uncompiled vm loaded) : (s.next vm loaded).Held llvm := by
  refine held_next hheld huncompiled (fun code hcode => hsame.trans hcode) fun code hnone hcode => ?_
  rw [hsame, hnone] at hcode
  cases hcode

variable (llvm) in
/-- Compiling keeps track of what was compiled. -/
theorem held_compile (hheld : s.Held llvm) : (s.next (s.vm.compile llvm).2 s.loaded).Held llvm := by
  cases hcompiled : s.vm.jittedFunction with
  | none =>
    have huncompiled := hheld.uncompiled hcompiled
    refine held_next hheld (fun _ => ?_) (fun code hcode => ?_) fun code _ hcode => ?_
    · unfold Uncompiled at huncompiled ⊢
      rw [compile_rest.2]
      exact huncompiled
    · rw [hcompiled] at hcode
      cases hcode
    · rw [(compile_none huncompiled hcompiled).2] at hcode
      rw [compile_rest.1]
      exact Option.bind_eq_some_iff.mp hcode
  | some code =>
    rw [compile_some hcompiled]
    exact held_next_same hheld rfl hheld.uncompiled

/-- What is loaded stays what would be compiled, and the function that of what it was made of. -/
theorem held_step (hheld : s.Held llvm) (op : Op) : (s.apply llvm op).2.Held llvm := by
  -- by the operation; only `compile`, `exec` and an object change what is cached
  cases op with
  | register index name fn =>
    simp only [Session.apply, Vm.register_external_function]
    split
    · exact held_next_same hheld rfl hheld.uncompiled
    · split <;> exact held_next_same hheld rfl hheld.uncompiled
  | loadCode code =>
    simp only [Session.apply, Vm.load_code]
    by_cases hlength : code.length % 8 = 0
    · rw [if_neg (not_not.mpr hlength), if_pos hlength]
      exact held_next_same hheld rfl fun _ => rfl
    · rw [if_pos hlength, if_neg hlength]
      exact held_next_same hheld rfl hheld.uncompiled
  | unloadCode => exact held_next_same hheld rfl fun _ => rfl
  | compile => exact held_compile llvm hheld
  | exec mem memLen =>
    have h := held_compile llvm hheld
    simp only [Session.apply, Vm.exec]
    cases hcompile : s.vm.compile llvm with
    | mk found vm =>
      rw [hcompile] at h
      cases found <;> exact h
  | loadAotObject object =>
    simp only [Session.apply, Vm.load_aot_object]
    cases hcompiled : s.vm.jittedFunction with
    | some code => exact held_next_same hheld rfl hheld.uncompiled
    | none =>
      dsimp only
      split
      · exact held_next_same hheld rfl hheld.uncompiled
      · cases hobject : llvm.addObject object s.vm.extFuncs with
        | none => exact held_next_same hheld rfl hheld.uncompiled
        | some jit =>
          cases hlookup : llvm.lookup jit with
          | none =>
            simp only [hlookup]
            exact held_next_same hheld hcompiled.symm fun _ => hheld.uncompiled hcompiled
          | some code =>
            simp only [hlookup]
            refine held_next hheld (fun hnone => by cases hnone) (fun code' hcode' => ?_) fun code' _ hcode' => ?_
            · rw [hcompiled] at hcode'
              cases hcode'
            · cases hcode'
              refine ⟨.object object, rfl, ?_⟩
              rw [Llvm.compiled, hobject, Option.bind_some, hlookup]

/-! ## The operations in between -/

/-- Loads, unloads and registrations. -/
def Op.changes : Op → Bool
  | .register .. => true
  | .loadCode _ => true
  | .unloadCode => true
  | _ => false

/-- A function that was just made is fresh. -/
theorem fresh_made (hnone : s.vm.jittedFunction = none) {vm : Vm Jit Code} {loaded : Option Program}
    (hsome : vm.jittedFunction.isSome) : (s.next vm loaded).Fresh llvm := by
  intro made hmade
  rw [Session.next, hnone, hsome] at hmade
  obtain ⟨program, hloaded, rfl⟩ := Option.map_eq_some_iff.mp hmade
  have hnext : (s.next vm loaded).loaded = some program := hloaded
  rw [Session.current, hnext]
  rfl

/-- Compilations, runs and AOT loads, which are turned down, leave a function fresh. -/
theorem fresh_step {code : Code} (hcompiled : s.vm.jittedFunction = some code) (hfresh : s.Fresh llvm) {op : Op}
    (hop : op.changes = false) :
    (s.apply llvm op).2.vm.jittedFunction = some code ∧ (s.apply llvm op).2.Fresh llvm := by
  have hsame : (s.apply llvm op).2 = s.next s.vm s.loaded := by
    cases op with
    | register index name fn => cases hop
    | loadCode bytes => cases hop
    | unloadCode => cases hop
    | compile => simp only [Session.apply, compile_some hcompiled]
    | exec mem memLen => simp only [Session.apply, Vm.exec, compile_some hcompiled]
    | loadAotObject object => simp only [Session.apply, Vm.load_aot_object, hcompiled]
  have hnext : s.next s.vm s.loaded = s := by
    rw [Session.next, hcompiled]
    rfl
  rw [hsame, hnext]
  exact ⟨hcompiled, hfresh⟩

/-- **Where nothing is loaded, unloaded or registered since a function was made, it is fresh.** -/
theorem fresh_after {code : Code} (hcompiled : s.vm.jittedFunction = some code) (hfresh : s.Fresh llvm)
    {between : List Op} (hbetween : ∀ op ∈ between, op.changes = false) : (s.after llvm between).Fresh llvm := by
  induction between generalizing s with
  | nil => exact hfresh
  | cons op between ih =>
    obtain ⟨hop, hrest⟩ := List.forall_mem_cons.mp hbetween
    obtain ⟨hcompiled', hfresh'⟩ := fresh_step hcompiled hfresh hop
    exact ih hcompiled' hfresh' hrest

/-! ## Runs without an operation that fails -/

/-- An object is not loaded while an instance is there that no function was found in. -/
def Unlinked (s : Session Jit Code) : Op → Prop
  | .loadAotObject _ => s.vm.jittedFunction = none → s.vm.jit = none
  | _ => True

/-- Two VMs that differ in an instance that the second does not have. -/
structure Alike (vm vm' : Vm Jit Code) : Prop where
  extFuncs       : vm.extFuncs = vm'.extFuncs
  instructions   : vm.instructions = vm'.instructions
  jittedFunction : vm.jittedFunction = vm'.jittedFunction
  jit            : vm.jit = none → vm'.jit = none

/-- A machine and itself. -/
theorem Alike.refl (vm : Vm Jit Code) : Alike vm vm := ⟨rfl, rfl, rfl, id⟩

variable (llvm) in
/-- Machines that are alike compile to the same. -/
theorem alike_compile {vm vm' : Vm Jit Code} (h : Alike vm vm') :
    (vm.compile llvm).1 = (vm'.compile llvm).1 ∧ Alike (vm.compile llvm).2 (vm'.compile llvm).2 := by
  have hjit : vm.do_jit_compile llvm = vm'.do_jit_compile llvm := by
    rw [Vm.do_jit_compile, Vm.do_jit_compile, h.instructions, h.extFuncs]
  rw [Vm.compile, Vm.compile, ← h.jittedFunction, ← hjit]
  cases hcompiled : vm.jittedFunction with
  | some code => exact ⟨rfl, h⟩
  | none =>
    cases vm.do_jit_compile llvm with
    | none => exact ⟨rfl, h⟩
    | some jit => exact ⟨rfl, h.extFuncs, h.instructions, rfl, id⟩

/-- And load an object to the same. -/
theorem alike_load_aot_object {vm vm' : Vm Jit Code} (h : Alike vm vm') (hjit : vm.jittedFunction = none → vm.jit = none)
    (object : List Byte) : (vm.load_aot_object llvm object).1 = (vm'.load_aot_object llvm object).1 ∧
      Alike (vm.load_aot_object llvm object).2 (vm'.load_aot_object llvm object).2 := by
  rw [Vm.load_aot_object, Vm.load_aot_object, ← h.jittedFunction, ← h.extFuncs]
  cases hcompiled : vm.jittedFunction with
  | some code => exact ⟨rfl, h⟩
  | none =>
    have hnone := hjit hcompiled
    simp only [hnone, h.jit hnone, Option.isSome_none, Bool.false_eq_true, if_false]
    cases llvm.addObject object vm.extFuncs with
    | none => exact ⟨rfl, h⟩
    | some jit =>
      cases hlookup : llvm.lookup jit with
      | none =>
        simp only [hlookup]
        exact ⟨trivial, rfl, h.instructions, rfl, id⟩
      | some code =>
        simp only [hlookup]
        exact ⟨trivial, rfl, h.instructions, rfl, id⟩

variable (llvm) in
/-- An operation does not see the difference. -/
theorem alike_step (h : Alike s.vm s'.vm) {op : Op} (hunlinked : Unlinked s op) :
    (s.apply llvm op).1 = (s'.apply llvm op).1 ∧ Alike (s.apply llvm op).2.vm (s'.apply llvm op).2.vm := by
  cases op with
  | register index name fn =>
    simp only [Session.apply, Vm.register_external_function, ← h.extFuncs]
    split
    · exact ⟨rfl, h⟩
    · split
      · exact ⟨rfl, h⟩
      · exact ⟨rfl, rfl, h.instructions, h.jittedFunction, h.jit⟩
  | loadCode code =>
    simp only [Session.apply, Vm.load_code]
    split
    · exact ⟨rfl, h⟩
    · exact ⟨rfl, h.extFuncs, rfl, h.jittedFunction, h.jit⟩
  | unloadCode => exact ⟨rfl, h.extFuncs, rfl, h.jittedFunction, h.jit⟩
  | compile =>
    obtain ⟨hfound, hafter⟩ := alike_compile llvm h
    simp only [Session.apply, hfound]
    exact ⟨trivial, hafter⟩
  | loadAotObject object => exact alike_load_aot_object h hunlinked object
  | exec mem memLen =>
    obtain ⟨hfound, hafter⟩ := alike_compile llvm h
    simp only [Session.apply, Vm.exec]
    cases hcompile : s.vm.compile llvm with
    | mk found vm =>
      cases hcompile' : s'.vm.compile llvm with
      | mk found' vm' =>
        rw [hcompile, hcompile'] at hfound hafter
        cases hfound
        cases found with
        | none => exact ⟨rfl, hafter⟩
        | some code => exact ⟨rfl, hafter⟩

/-- Nor do the runs of a whole list. -/
theorem alike_runs (h : Alike s.vm s'.vm) {ops : List Op} (hunlinked : AllSteps (Session.step llvm) Unlinked s ops) :
    s.runs llvm ops = s'.runs llvm ops := by
  induction ops generalizing s s' with
  | nil => rfl
  | cons op ops ih =>
    obtain ⟨hop, hops⟩ := hunlinked
    obtain ⟨hresult, hafter⟩ := alike_step llvm h hop
    have hrest := ih hafter (hops _ rfl)
    rw [Session.runs, Session.runs, hresult, hrest]

/-- What an operation that fails leaves is an instance at most. -/
theorem alike_failed {op : Op} (hexec : op.isExec = false) (hfailed : (s.apply llvm op).1.failed = true) :
    Alike (s.apply llvm op).2.vm s.vm := by
  -- by the operation; each error is returned before anything is stored
  cases op with
  | register index name fn =>
    simp only [Session.apply, Vm.register_external_function] at hfailed ⊢
    split
    · exact Alike.refl _
    · split
      · exact Alike.refl _
      · next hsize hfree =>
        rw [if_neg hsize, if_neg hfree] at hfailed
        cases hfailed
  | loadCode code =>
    simp only [Session.apply, Vm.load_code] at hfailed ⊢
    split
    · exact Alike.refl _
    · next hlength =>
      rw [if_neg hlength] at hfailed
      cases hfailed
  | unloadCode => cases hfailed
  | compile =>
    simp only [Session.apply, Vm.compile] at hfailed ⊢
    cases hcompiled : s.vm.jittedFunction with
    | some code => exact Alike.refl _
    | none =>
      cases hjit : s.vm.do_jit_compile llvm with
      | none => exact Alike.refl _
      | some jit =>
        cases hlookup : llvm.lookup jit with
        | none =>
          simp only [hlookup]
          exact ⟨rfl, rfl, hcompiled.symm, fun hnone => by cases hnone⟩
        | some code => simp [hcompiled, hjit, hlookup, Result.failed] at hfailed
  | loadAotObject object =>
    simp only [Session.apply, Vm.load_aot_object] at hfailed ⊢
    cases hcompiled : s.vm.jittedFunction with
    | some code => exact Alike.refl _
    | none =>
      by_cases hsome : s.vm.jit.isSome = true
      · simp only [if_pos hsome]
        exact Alike.refl _
      · simp only [if_neg hsome]
        cases hobject : llvm.addObject object s.vm.extFuncs with
        | none => exact Alike.refl _
        | some jit =>
          cases hlookup : llvm.lookup jit with
          | none =>
            simp only [hlookup]
            exact ⟨rfl, rfl, hcompiled.symm ▸ rfl, fun hnone => by cases hnone⟩
          | some code => simp [hcompiled, hsome, hobject, hlookup, Result.failed] at hfailed
  | exec mem memLen => cases hexec

/-- The steps behind the first ones. -/
theorem allSteps_behind {C : Session Jit Code → Op → Prop} {before ops : List Op}
    (h : AllSteps (Session.step llvm) C s (before ++ ops)) : AllSteps (Session.step llvm) C (s.after llvm before) ops := by
  induction before generalizing s with
  | nil => exact h
  | cons op before ih => exact ih (h.2 _ rfl)

end

/-- **The VM runs what is loaded** exactly where each run and each compilation that finds a function comes before a load,
    an unload or a registration that changes what is compiled; and what fails is harmless where no object is loaded while an instance is there that no function was found
    in. -/
theorem vm_runs_iff (llvm : Llvm Jit Code) (ops : List Op) :
    (AllSteps (Session.step llvm) (Runs llvm) .empty ops ↔ AllSteps (Session.step llvm) (Fresh llvm) .empty ops) ∧
      (AllSteps (Session.step llvm) Unlinked .empty ops → Harmless llvm .empty ops) := by
  constructor
  · have hstep : ∀ (s : Session Jit Code) (op : Op), s.Held llvm → (Runs llvm s op ↔ Fresh llvm s op) :=
      fun s op hheld => runs_iff hheld op
    refine allSteps_iff_of_invariant hstep ?_ held_empty ops
    intro s op hheld _ next hnext
    cases hnext
    exact held_step hheld op
  · intro hunlinked before op behind hops hexec hfailed
    rw [hops] at hunlinked
    have hbehind := (allSteps_behind hunlinked).2 _ rfl
    exact alike_runs (alike_failed hexec hfailed) hbehind

/-- A JIT whose functions are the bytes they are made of; those that begin with a zero have no entry. -/
def copying : Llvm (List Byte) (List Byte) where
  addModule bytes _ := some bytes
  addObject bytes _ := some bytes
  lookup bytes := if bytes.head? = some 0 then none else some bytes
  call _ _ _ := 0

/-- What is loaded over a function, and what is unloaded, is not what runs. -/
theorem not_runs_reloaded :
    ¬ AllSteps (Session.step copying) (Runs copying) .empty
        [.loadCode (.replicate 8 1), .exec 0 0, .loadCode (.replicate 8 2), .exec 0 0] ∧
      ¬ AllSteps (Session.step copying) (Runs copying) .empty [.loadCode (.replicate 8 1), .exec 0 0, .unloadCode, .exec 0 0] ∧
      ¬ Harmless copying .empty [.loadCode (.replicate 8 0), .compile, .loadAotObject [1], .exec 0 0] := by
  refine ⟨fun h => ?_, fun h => ?_, fun h => ?_⟩
  · exact absurd ((((h.2 _ rfl).2 _ rfl).2 _ rfl).1 (.replicate 8 1) 0 (by decide)) (by decide)
  · exact absurd ((((h.2 _ rfl).2 _ rfl).2 _ rfl).1 (.replicate 8 1) 0 (by decide)) (by decide)
  · exact absurd (h [.loadCode (.replicate 8 0)] .compile [.loadAotObject [1], .exec 0 0] rfl rfl (by decide)) (by decide)

end LlvmVm
