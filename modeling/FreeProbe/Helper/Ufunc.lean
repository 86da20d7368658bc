import FreeProbe.Lib.Machine
import Mathlib.Data.BitVec
import Mathlib.Data.List.Find
import Mathlib.Data.List.Range
import Mathlib.Logic.Function.Basic

/-!
# `Helper.Ufunc` — the table of ufuncs

`bpftime_ufunc_register_ufunc` writes a function at the index that its caller asks for and does not count it;
`bpftime_ufunc_resolve_from_info` writes one at the counter. A name is looked for below the counter, and a call by id
reads the table. A write behind the table has no next state.

A session is the table beside what was registered: the indices that hold a function, and for each name the function that
was registered for it last.
-/

namespace Ufunc

open Lib

/-- The slots of the table. -/
def MAX_UFUNC_FUNCS : Nat := 8192 * 4
/-- The arguments that an entry has types for. -/
def MAX_ARGS_COUNT : Nat := 6

/-- `ufunc_types` -/
inductive UfuncType where
  | unknown | void
  | int8 | uint8 | int16 | uint16 | int32 | uint32 | int64 | uint64
  | float | double | pointer | struct
deriving DecidableEq, Repr

/-- The types whose values are handed on; the others, and those that are not known, give a zero. -/
def UfuncType.converted : UfuncType → Bool
  | .int8 | .uint8 | .int16 | .uint16 | .int32 | .uint32 | .int64 | .uint64 | .double | .pointer => true
  | .unknown | .void | .float | .struct => false

/-- `to_arg_val`: a type that the function does not convert leaves zero. -/
def to_arg_val (type : UfuncType) (val : BitVec 64) : BitVec 64 := if type.converted then val else 0

/-- `from_arg_val`, the same for what the function returns. -/
def from_arg_val (type : UfuncType) (val : BitVec 64) : BitVec 64 := if type.converted then val else 0

/-- `ebpf_ufunc_func_info`: the name up to its 0, and the function's address. -/
structure FuncInfo where
  name       : List (BitVec 8)
  func       : BitVec 64
  retType    : UfuncType
  argTypes   : Nat → UfuncType
  numArgs    : BitVec 32
  id         : BitVec 32
  isAttached : Bool

/-- `bpftime_ufunc_ctx` -/
structure Ctx where
  ufuncFuncs   : Nat → FuncInfo
  ufuncFuncCnt : Nat

namespace Ctx

/-- `__ebpf_call_find_ufunc_id`, where it finds one. -/
def find (ctx : Ctx) (name : List (BitVec 8)) : Option Nat :=
  (List.range ctx.ufuncFuncCnt).find? fun i => (ctx.ufuncFuncs i).name = name

/-- `ebpf_call_find_ufunc_id`: the index of the first entry of that name. -/
def ebpf_call_find_ufunc_id (ctx : Ctx) : Option (List (BitVec 8)) → Int
  | none => -1
  | some name =>
    match ctx.find name with
    | none => -1
    | some i => i

/-- An entry is written to the table, if the index is one of its slots. -/
def write (ctx : Ctx) (i : Nat) (info : FuncInfo) : Option Ctx :=
  if i < MAX_UFUNC_FUNCS then some { ctx with ufuncFuncs := Function.update ctx.ufuncFuncs i info } else none

/-- `bpftime_ufunc_register_ufunc`: the index is the caller's, and the count is not moved. -/
def bpftime_ufunc_register_ufunc (ctx : Ctx) (id : BitVec 64) (info : FuncInfo) : Option Ctx := ctx.write id.toNat info

/-- `addr` is what the resolver finds for the name. -/
def bpftime_ufunc_resolve_from_info (ctx : Ctx) (info : FuncInfo) (addr : BitVec 64) : Option (Int × Ctx) :=
  if addr = 0 then some (-1, ctx)
  else if ctx.ufuncFuncCnt = MAX_UFUNC_FUNCS - 1 then some (-1, ctx)
  else do
    let ctx' ← ctx.write ctx.ufuncFuncCnt { info with func := addr }
    return (0, { ctx' with ufuncFuncCnt := ctx.ufuncFuncCnt + 1 })

end Ctx

/-- What a call of the dispatcher returns, and the call that it makes. -/
structure Dispatched where
  ret    : BitVec 64
  called : Option (BitVec 64 × List (BitVec 64))
deriving DecidableEq

/-- What a function returns for its arguments. -/
abbrev Functions := BitVec 64 → List (BitVec 64) → BitVec 64

/-- `args[0]` to `args[4]`, of which those that are declared are read from the caller's list. -/
def FuncInfo.args (info : FuncInfo) (raw : Nat → BitVec 64) : List (BitVec 64) :=
  (List.range 5).map fun (i : Nat) => if (i : Int) < info.numArgs.toInt then to_arg_val (info.argTypes i) (raw i) else 0

/-- The dispatcher from the entry on. -/
def FuncInfo.dispatch (functions : Functions) (info : FuncInfo) (raw : Nat → BitVec 64) : Dispatched :=
  if info.func = 0 then ⟨0, none⟩
  else if info.isAttached then ⟨0, none⟩
  else if MAX_ARGS_COUNT < (info.numArgs.signExtend 64).toNat then ⟨-1, none⟩
  else ⟨from_arg_val info.retType (functions info.func (info.args raw)), some (info.func, info.args raw)⟩

/-- `ebpf_call_ufunc_dispatcher`: no index is checked but against the count. -/
def Ctx.ebpf_call_ufunc_dispatcher (functions : Functions) (ctx : Ctx) (id : BitVec 64) (raw : Nat → BitVec 64) : Dispatched :=
  if MAX_UFUNC_FUNCS ≤ id.toNat then ⟨-1, none⟩ else (ctx.ufuncFuncs id.toNat).dispatch functions raw

/-! ## Sessions -/

/-- What registers a function. -/
inductive Op where
  | register (id : BitVec 64) (info : FuncInfo)
  | resolve (info : FuncInfo) (addr : BitVec 64)

/-- `taken` has the indices that functions were registered at, `latest` the function that each name was registered for. -/
structure Session where
  ctx    : Ctx
  taken  : List Nat
  latest : List (BitVec 8) → Option FuncInfo

namespace Session

/-- A table of zeros. -/
def empty : Session := ⟨⟨fun _ => ⟨[], 0, .unknown, fun _ => .unknown, 0, 0, false⟩, 0⟩, [], fun _ => none⟩

/-- The entry is now the latest of its name, and its slot is taken. -/
def note (s : Session) (ctx : Ctx) (i : Nat) (info : FuncInfo) : Session :=
  ⟨ctx, i :: s.taken, Function.update s.latest info.name (some info)⟩

/-- One registration, as a step: outside of the table there is none. -/
def step (s : Session) : Op → Option (Int × Session)
  | .register id info => do
    let ctx ← s.ctx.bpftime_ufunc_register_ufunc id info
    return (0, s.note ctx id.toNat info)
  | .resolve info addr => do
    let r ← s.ctx.bpftime_ufunc_resolve_from_info info addr
    return if r.1 = 0 then (0, s.note r.2 s.ctx.ufuncFuncCnt { info with func := addr }) else (r.1, s)

end Session

/-! ## What the table is for -/

/-- The call of a function with the arguments that it declares, and no more than zeros behind them. -/
def FuncInfo.Called (info : FuncInfo) (raw : Nat → BitVec 64) (d : Dispatched) : Prop :=
  ∃ n : Nat, info.numArgs.toInt = n ∧ d.called = some (info.func,
    ((List.range n).map fun i => to_arg_val (info.argTypes i) (raw i)) ++ List.replicate (5 - n) 0)

/-- A name that is found leads to the call of the function that was registered for it last. -/
def Session.Calls (functions : Functions) (s : Session) : Prop :=
  ∀ name, s.ctx.ebpf_call_find_ufunc_id (some name) ≠ -1 → ∃ info ∈ s.latest name, ∀ raw,
    info.Called raw (s.ctx.ebpf_call_ufunc_dispatcher functions (BitVec.ofInt 64 (s.ctx.ebpf_call_find_ufunc_id (some name))) raw)

/-- An operation stays inside of the table, replaces no function of another name, and leaves a table that calls. -/
structure Sound (functions : Functions) (s : Session) (op : Op) : Prop where
  inside : (s.step op).isSome = true
  kept   : ∀ next ∈ s.step op, ∀ i ∈ s.taken, (next.2.ctx.ufuncFuncs i).name = (s.ctx.ufuncFuncs i).name
  calls  : ∀ next ∈ s.step op, next.2.Calls functions

/-! ## Entries -/

section Entries
variable {functions : Functions} {info entry : FuncInfo} {raw : Nat → BitVec 64}

/-- The argument is declared, and of a type whose values are handed on. -/
def FuncInfo.passes (info : FuncInfo) (i : Nat) : Bool := decide ((i : Int) < info.numArgs.toInt) && (info.argTypes i).converted

/-- A function that the dispatcher calls as it is declared. -/
def FuncInfo.Callable (info : FuncInfo) : Prop :=
  info.func ≠ 0 ∧ info.isAttached = false ∧ 0 ≤ info.numArgs.toInt ∧ info.numArgs.toInt ≤ 5

/-- An entry whose call is the one that a function declares: it is one that the dispatcher lets through, has the same
    address and hands the same arguments on. -/
def FuncInfo.SameCall (entry info : FuncInfo) : Prop :=
  entry.func = info.func ∧ entry.func ≠ 0 ∧ entry.isAttached = false ∧
    (0 ≤ entry.numArgs.toInt ∧ entry.numArgs.toInt ≤ 6) ∧ (0 ≤ info.numArgs.toInt ∧ info.numArgs.toInt ≤ 5) ∧
    ∀ i < 5, entry.passes i = info.passes i

instance FuncInfo.Callable.decidable (info : FuncInfo) : Decidable info.Callable := inferInstanceAs (Decidable (_ ∧ _ ∧ _ ∧ _))

instance FuncInfo.SameCall.decidable (entry info : FuncInfo) : Decidable (entry.SameCall info) :=
  inferInstanceAs (Decidable (_ ∧ _ ∧ _ ∧ _ ∧ _ ∧ _))

/-- An entry makes its own call when it can be called at all. -/
theorem FuncInfo.SameCall.self_iff : info.SameCall info ↔ info.Callable := by
  constructor
  · rintro ⟨-, hfunc, hattached, -, hargs, -⟩
    exact ⟨hfunc, hattached, hargs⟩
  · rintro ⟨hfunc, hattached, hlow, hhigh⟩
    exact ⟨rfl, hfunc, hattached, ⟨hlow, by omega⟩, ⟨hlow, hhigh⟩, fun _ _ => rfl⟩

/-- The five arguments, by what is handed on. -/
theorem args_eq_passes (info : FuncInfo) (raw : Nat → BitVec 64) :
    info.args raw = (List.range 5).map fun i => if info.passes i then raw i else 0 := by
  refine List.map_congr_left fun i _ => ?_
  unfold FuncInfo.passes to_arg_val
  by_cases hdeclared : (i : Int) < info.numArgs.toInt
  · simp [hdeclared]
  · simp [hdeclared]

/-- The arguments that are declared, and zeros. -/
theorem args_eq {n : Nat} (hn : info.numArgs.toInt = n) (hmax : n ≤ 5) :
    info.args raw = ((List.range n).map fun i => to_arg_val (info.argTypes i) (raw i)) ++ List.replicate (5 - n) 0 := by
  refine List.ext_getElem (by simp [FuncInfo.args]; omega) fun i hi hi' => ?_
  simp only [FuncInfo.args, List.getElem_map, List.getElem_range, hn, Int.ofNat_lt]
  by_cases hin : i < n
  · rw [if_pos hin, List.getElem_append_left (by simpa using hin)]
    simp
  · rw [if_neg hin, List.getElem_append_right (by simpa using hin)]
    simp

/-- Entries hand the same on for every list of arguments only if they hand on the same places. -/
theorem passes_eq_of_args (h : ∀ raw, entry.args raw = info.args raw) {i : Nat} (hi : i < 5) : entry.passes i = info.passes i := by
  have hargs := h fun _ => 1
  rw [args_eq_passes, args_eq_passes] at hargs
  have hcell := congrArg (fun args => args[i]?) hargs
  simp only [List.getElem?_map, List.getElem?_range hi, Option.map_some, Option.some.injEq] at hcell
  cases hentry : entry.passes i <;> cases hinfo : info.passes i <;> simp [hentry, hinfo] at hcell ⊢

/-- An entry that does for every argument what the function declares. -/
def FuncInfo.Stands (functions : Functions) (entry info : FuncInfo) : Prop :=
  ∀ raw, info.Called raw (entry.dispatch functions raw)

/-- The dispatcher's test of the number of arguments, which it makes of an unsigned number. -/
theorem numArgs_le_max (entry : FuncInfo) :
    ¬ MAX_ARGS_COUNT < (entry.numArgs.signExtend 64).toNat ↔ 0 ≤ entry.numArgs.toInt ∧ entry.numArgs.toInt ≤ 6 := by
  have hlow := BitVec.le_toInt entry.numArgs
  have hhigh := @BitVec.toInt_lt 32 entry.numArgs
  rw [BitVec.signExtend, BitVec.toNat_ofInt, MAX_ARGS_COUNT]
  omega

/-- **An entry stands for a function** exactly if its call is the same. -/
theorem stands_iff : entry.Stands functions info ↔ entry.SameCall info := by
  constructor
  · intro h
    -- the dispatcher looks at the entry, whatever the arguments are
    have hcalls : entry.func ≠ 0 ∧ entry.isAttached = false ∧ (0 ≤ entry.numArgs.toInt ∧ entry.numArgs.toInt ≤ 6) ∧
        ∀ raw, ∃ n : Nat, info.numArgs.toInt = n ∧ some (entry.func, entry.args raw) = some (info.func,
          ((List.range n).map fun i => to_arg_val (info.argTypes i) (raw i)) ++ List.replicate (5 - n) 0) := by
      by_cases hfunc : entry.func = 0
      · obtain ⟨n, -, hcalled⟩ := h fun _ => 0
        rw [FuncInfo.dispatch, if_pos hfunc] at hcalled
        cases hcalled
      by_cases hattached : entry.isAttached = true
      · obtain ⟨n, -, hcalled⟩ := h fun _ => 0
        rw [FuncInfo.dispatch, if_neg hfunc, if_pos hattached] at hcalled
        cases hcalled
      by_cases hmax : MAX_ARGS_COUNT < (entry.numArgs.signExtend 64).toNat
      · obtain ⟨n, -, hcalled⟩ := h fun _ => 0
        rw [FuncInfo.dispatch, if_neg hfunc, if_neg hattached, if_pos hmax] at hcalled
        cases hcalled
      refine ⟨hfunc, by simpa using hattached, (numArgs_le_max entry).mp hmax, fun raw => ?_⟩
      obtain ⟨n, hn, hcalled⟩ := h raw
      rw [FuncInfo.dispatch, if_neg hfunc, if_neg hattached, if_neg hmax] at hcalled
      exact ⟨n, hn, hcalled⟩
    obtain ⟨hfunc, hattached, hentry, hcalled⟩ := hcalls
    have hdeclared : 0 ≤ info.numArgs.toInt ∧ info.numArgs.toInt ≤ 5 := by
      -- five arguments are passed, whatever is declared
      obtain ⟨n, hn, hargs⟩ := hcalled fun _ => 0
      have hlength := congrArg (fun call => call.elim 0 fun c => c.2.length) hargs
      simp only [FuncInfo.args, Option.elim_some, List.length_map, List.length_range, List.length_append,
        List.length_replicate] at hlength
      omega
    obtain ⟨n, hn⟩ := Int.eq_ofNat_of_zero_le hdeclared.1
    have hsame : ∀ raw, entry.func = info.func ∧ entry.args raw = info.args raw := by
      intro raw
      obtain ⟨m, hm, hargs⟩ := hcalled raw
      rw [Option.some.injEq, Prod.mk.injEq, ← args_eq hm (by omega)] at hargs
      exact hargs
    exact ⟨(hsame fun _ => 0).1, hfunc, hattached, hentry, hdeclared,
      fun i hi => passes_eq_of_args (fun raw => (hsame raw).2) hi⟩
  · rintro ⟨haddr, hfunc, hattached, hentry, ⟨hlow, hhigh⟩, hpasses⟩ raw
    obtain ⟨n, hn⟩ := Int.eq_ofNat_of_zero_le hlow
    have hargs : entry.args raw = info.args raw := by
      rw [args_eq_passes, args_eq_passes]
      refine List.map_congr_left fun i hi => ?_
      rw [hpasses i (List.mem_range.mp hi)]
    refine ⟨n, hn, ?_⟩
    rw [FuncInfo.dispatch, if_neg hfunc, if_neg (by rw [hattached]; decide), if_neg ((numArgs_le_max entry).mpr hentry),
      hargs, haddr, args_eq hn (by omega)]

end Entries

/-! ## The table after a registration -/

section Placement
variable {functions : Functions} {s : Session} {info : FuncInfo} {name : List (BitVec 8)} {i j cnt : Nat}

/-- The table with a function at an index, and with a counter. -/
def Ctx.placed (ctx : Ctx) (i cnt : Nat) (info : FuncInfo) : Ctx := ⟨Function.update ctx.ufuncFuncs i info, cnt⟩

/-- What is counted was registered, and the counter is below its limit. -/
structure Session.Counted (s : Session) : Prop where
  taken : ∀ i < s.ctx.ufuncFuncCnt, i ∈ s.taken
  below : s.ctx.ufuncFuncCnt < MAX_UFUNC_FUNCS

/-- The entry is where it was written. -/
@[simp] theorem placed_self (ctx : Ctx) : (ctx.placed i cnt info).ufuncFuncs i = info := Function.update_self ..

/-- The others stay. -/
theorem placed_of_ne (ctx : Ctx) (h : j ≠ i) : (ctx.placed i cnt info).ufuncFuncs j = ctx.ufuncFuncs j :=
  Function.update_of_ne h ..

/-- It is the latest of its name. -/
@[simp] theorem note_latest_self (ctx : Ctx) : (s.note ctx i info).latest info.name = some info := Function.update_self ..

/-- The other names keep theirs. -/
theorem note_latest_of_ne (ctx : Ctx) (h : name ≠ info.name) : (s.note ctx i info).latest name = s.latest name :=
  Function.update_of_ne h ..

/-- What is found is counted. -/
theorem find_lt {ctx : Ctx} (h : ctx.find name = some i) : i < ctx.ufuncFuncCnt :=
  List.mem_range.mp (List.mem_of_find?_eq_some h)

/-- And has the name. -/
theorem find_name {ctx : Ctx} (h : ctx.find name = some i) : (ctx.ufuncFuncs i).name = name := by
  simpa using List.find?_some h

/-- The dispatcher on what a search has found. -/
theorem calls_iff (hbelow : s.ctx.ufuncFuncCnt < MAX_UFUNC_FUNCS) :
    s.Calls functions ↔ ∀ name i, s.ctx.find name = some i → ∃ info ∈ s.latest name,
      (s.ctx.ufuncFuncs i).Stands functions info := by
  have hdispatch : ∀ name i, s.ctx.find name = some i → ∀ raw,
      s.ctx.ebpf_call_ufunc_dispatcher functions (BitVec.ofInt 64 (s.ctx.ebpf_call_find_ufunc_id (some name))) raw =
        (s.ctx.ufuncFuncs i).dispatch functions raw := by
    intro name i hfind raw
    have hlt := find_lt hfind
    have hid : (BitVec.ofInt 64 (i : Int)).toNat = i := by
      rw [BitVec.toNat_ofInt]
      unfold MAX_UFUNC_FUNCS at hbelow
      omega
    simp only [Ctx.ebpf_call_find_ufunc_id, hfind, Ctx.ebpf_call_ufunc_dispatcher, hid]
    rw [if_neg (by omega)]
  constructor
  · intro h name i hfind
    obtain ⟨info, hinfo, hcalled⟩ := h name (by simp [Ctx.ebpf_call_find_ufunc_id, hfind])
    exact ⟨info, hinfo, fun raw => hdispatch name i hfind raw ▸ hcalled raw⟩
  · intro h name hfound
    cases hfind : s.ctx.find name with
    | none => exact absurd (by simp [Ctx.ebpf_call_find_ufunc_id, hfind]) hfound
    | some i =>
      obtain ⟨info, hinfo, hstands⟩ := h name i hfind
      exact ⟨info, hinfo, fun raw => (hdispatch name i hfind raw).symm ▸ hstands raw⟩

/-- A search for another name, which the index does not have and has not had. -/
theorem find_placed_of_ne (hcounted : s.Counted) (hslot : cnt = s.ctx.ufuncFuncCnt ∨ i = s.ctx.ufuncFuncCnt ∧ cnt = i + 1)
    (hname : i ∈ s.taken → (s.ctx.ufuncFuncs i).name = info.name) (hne : name ≠ info.name) :
    (s.ctx.placed i cnt info).find name = s.ctx.find name := by
  have hsame : ∀ j ∈ List.range s.ctx.ufuncFuncCnt, decide (((s.ctx.placed i cnt info).ufuncFuncs j).name = name) =
      decide ((s.ctx.ufuncFuncs j).name = name) := by
    intro j hj
    by_cases hij : j = i
    · subst hij
      rw [placed_self, hname (hcounted.taken j (List.mem_range.mp hj))]
    · rw [placed_of_ne _ hij]
  have hbelow := List.find?_congr hsame
  rcases hslot with rfl | ⟨rfl, rfl⟩
  · exact hbelow
  · have hlast : decide (((s.ctx.placed s.ctx.ufuncFuncCnt (s.ctx.ufuncFuncCnt + 1) info).ufuncFuncs
        s.ctx.ufuncFuncCnt).name = name) = false := by
      rw [placed_self]
      exact decide_eq_false (Ne.symm hne)
    rw [Ctx.find, show (s.ctx.placed _ (s.ctx.ufuncFuncCnt + 1) info).ufuncFuncCnt = s.ctx.ufuncFuncCnt + 1 from rfl,
      List.range_succ, List.find?_append, hbelow, List.find?_singleton, hlast]
    exact Option.or_none

/-- The table calls after a registration where it does so for the name that was registered. -/
theorem calls_placed_iff (hcounted : s.Counted) (hcalls : s.Calls functions) (hcnt : cnt < MAX_UFUNC_FUNCS)
    (hslot : cnt = s.ctx.ufuncFuncCnt ∨ i = s.ctx.ufuncFuncCnt ∧ cnt = i + 1)
    (hname : i ∈ s.taken → (s.ctx.ufuncFuncs i).name = info.name) :
    (s.note (s.ctx.placed i cnt info) i info).Calls functions ↔
      ∀ j, (s.ctx.placed i cnt info).find info.name = some j →
        ((s.ctx.placed i cnt info).ufuncFuncs j).Stands functions info := by
  rw [calls_iff (s := s.note (s.ctx.placed i cnt info) i info) hcnt]
  have hbefore := (calls_iff hcounted.below).mp hcalls
  constructor
  · intro h j hfind
    obtain ⟨info', hinfo, hstands⟩ := h info.name j hfind
    rw [note_latest_self, Option.mem_some_iff] at hinfo
    exact hinfo ▸ hstands
  · intro h name j hfind
    by_cases hne : name = info.name
    · subst hne
      exact ⟨info, note_latest_self _, h j hfind⟩
    · -- the entry of another name is where it was
      have hfound := (find_placed_of_ne hcounted hslot hname hne).symm.trans hfind
      obtain ⟨info', hinfo, hstands⟩ := hbefore name j hfound
      have hij : j ≠ i := by
        rintro rfl
        have hplaced : ((s.ctx.placed j cnt info).ufuncFuncs j).name = name := find_name hfind
        rw [placed_self] at hplaced
        exact hne hplaced.symm
      refine ⟨info', by rw [note_latest_of_ne _ hne]; exact hinfo, ?_⟩
      show ((s.ctx.placed i cnt info).ufuncFuncs j).Stands functions info'
      rw [placed_of_ne _ hij]
      exact hstands

/-- The names of the functions that were registered are kept. -/
theorem kept_placed_iff : (∀ j ∈ s.taken, ((s.ctx.placed i cnt info).ufuncFuncs j).name = (s.ctx.ufuncFuncs j).name) ↔
    (i ∈ s.taken → (s.ctx.ufuncFuncs i).name = info.name) := by
  constructor
  · intro h hi
    have hi' := h i hi
    rw [placed_self] at hi'
    exact hi'.symm
  · intro h j hj
    by_cases hij : j = i
    · subst hij
      rw [placed_self, h hj]
    · rw [placed_of_ne _ hij]

/-! ## Operations -/

/-- The entry is the first that has the name. -/
def Ctx.IsFirst (ctx : Ctx) (name : List (BitVec 8)) (j : Nat) : Prop :=
  (ctx.ufuncFuncs j).name = name ∧ ∀ k < j, (ctx.ufuncFuncs k).name ≠ name

/-- **A function can be put at an index**, where `cnt` entries are counted then: a function that is there has its name; if
    an entry before the index is counted and has the name, the first one makes the same call; and if none has, and the
    index is counted, the function can be called. -/
structure Session.Fits (s : Session) (i cnt : Nat) (info : FuncInfo) : Prop where
  name    : i ∈ s.taken → (s.ctx.ufuncFuncs i).name = info.name
  earlier : ∀ j < cnt, j < i → s.ctx.IsFirst info.name j → (s.ctx.ufuncFuncs j).SameCall info
  own     : i < cnt → (∀ j < i, (s.ctx.ufuncFuncs j).name ≠ info.name) → info.Callable

/-- **The condition on a registration**: the index is in the table, and the entry fits there. -/
def Careful (s : Session) : Op → Prop
  | .register id info => id.toNat < MAX_UFUNC_FUNCS ∧ s.Fits id.toNat s.ctx.ufuncFuncCnt info
  | .resolve info addr => addr ≠ 0 → s.ctx.ufuncFuncCnt ≠ MAX_UFUNC_FUNCS - 1 →
    s.Fits s.ctx.ufuncFuncCnt (s.ctx.ufuncFuncCnt + 1) { info with func := addr }

/-- What a search for the name finds after the registration. -/
theorem find_placed_iff : (s.ctx.placed i cnt info).find info.name = some j ↔
    j < cnt ∧ (j = i ∨ j < i ∧ (s.ctx.ufuncFuncs j).name = info.name) ∧ ∀ k < j, k < i → (s.ctx.ufuncFuncs k).name ≠ info.name := by
  rw [Ctx.find, List.find?_range_eq_some, List.mem_range]
  show (decide (((s.ctx.placed i cnt info).ufuncFuncs j).name = info.name) = true ∧ j < cnt ∧ _) ↔ _
  constructor
  · rintro ⟨hname, hcnt, hfirst⟩
    have hle : j ≤ i := by
      by_contra hlt
      have hnot := hfirst i (Nat.lt_of_not_le hlt)
      simp at hnot
    refine ⟨hcnt, ?_, fun k hk hki => ?_⟩
    · rcases Nat.lt_or_eq_of_le hle with hlt | heq
      · rw [placed_of_ne _ (Nat.ne_of_lt hlt)] at hname
        exact .inr ⟨hlt, by simpa using hname⟩
      · exact .inl heq
    · have hnot := hfirst k hk
      rw [placed_of_ne _ (Nat.ne_of_lt hki)] at hnot
      simpa using hnot
  · rintro ⟨hcnt, hplace, hfirst⟩
    refine ⟨?_, hcnt, fun k hk => ?_⟩
    · rcases hplace with rfl | ⟨hlt, hname⟩
      · simp
      · rw [placed_of_ne _ (Nat.ne_of_lt hlt)]
        simpa using hname
    · have hki : k < i := by
        rcases hplace with rfl | ⟨hlt, -⟩
        · exact hk
        · exact Nat.lt_trans hk hlt
      rw [placed_of_ne _ (Nat.ne_of_lt hki)]
      simpa using hfirst k hk hki

/-- The table calls for a name after its registration exactly if the function fits. -/
theorem found_stands_iff : (∀ j, (s.ctx.placed i cnt info).find info.name = some j →
      ((s.ctx.placed i cnt info).ufuncFuncs j).Stands functions info) ↔
    (∀ j < cnt, j < i → s.ctx.IsFirst info.name j → (s.ctx.ufuncFuncs j).SameCall info) ∧
      (i < cnt → (∀ j < i, (s.ctx.ufuncFuncs j).name ≠ info.name) → info.Callable) := by
  constructor
  · intro h
    refine ⟨fun j hcnt hji hfirst => ?_, fun hcnt hnone => ?_⟩
    · have hstands := h j (find_placed_iff.mpr ⟨hcnt, .inr ⟨hji, hfirst.1⟩, fun k hk _ => hfirst.2 k hk⟩)
      rw [placed_of_ne _ (Nat.ne_of_lt hji)] at hstands
      exact stands_iff.mp hstands
    · have hstands := h i (find_placed_iff.mpr ⟨hcnt, .inl rfl, fun k hk _ => hnone k hk⟩)
      rw [placed_self] at hstands
      exact FuncInfo.SameCall.self_iff.mp (stands_iff.mp hstands)
  · rintro ⟨hearlier, hown⟩ j hfind
    obtain ⟨hcnt, hplace, hfirst⟩ := find_placed_iff.mp hfind
    rcases hplace with rfl | ⟨hji, hname⟩
    · rw [placed_self]
      exact stands_iff.mpr (FuncInfo.SameCall.self_iff.mpr (hown hcnt fun k hk => hfirst k hk hk))
    · rw [placed_of_ne _ (Nat.ne_of_lt hji)]
      exact stands_iff.mpr (hearlier j hcnt hji ⟨hname, fun k hk => hfirst k hk (Nat.lt_trans hk hji)⟩)

/-- A registration at a slot of the table. -/
theorem step_register {id : BitVec 64} (h : id.toNat < MAX_UFUNC_FUNCS) :
    s.step (.register id info) = some (0, s.note (s.ctx.placed id.toNat s.ctx.ufuncFuncCnt info) id.toNat info) := by
  simp only [Session.step, Ctx.bpftime_ufunc_register_ufunc, Ctx.write, if_pos h]
  rfl

/-- One outside of it writes past the array. -/
theorem step_register_outside {id : BitVec 64} (h : ¬ id.toNat < MAX_UFUNC_FUNCS) : s.step (.register id info) = none := by
  simp only [Session.step, Ctx.bpftime_ufunc_register_ufunc, Ctx.write, if_neg h]
  rfl

/-- A resolution takes the next slot and moves the count. -/
theorem step_resolve {addr : BitVec 64} (hcounted : s.Counted) (haddr : addr ≠ 0)
    (hroom : s.ctx.ufuncFuncCnt ≠ MAX_UFUNC_FUNCS - 1) :
    s.step (.resolve info addr) = some (0, s.note (s.ctx.placed s.ctx.ufuncFuncCnt (s.ctx.ufuncFuncCnt + 1)
      { info with func := addr }) s.ctx.ufuncFuncCnt { info with func := addr }) := by
  simp only [Session.step, Ctx.bpftime_ufunc_resolve_from_info, if_neg haddr, if_neg hroom, Ctx.write,
    if_pos hcounted.below]
  rfl

/-- Without an address or without room it changes nothing. -/
theorem step_resolve_fails {addr : BitVec 64} (h : addr = 0 ∨ s.ctx.ufuncFuncCnt = MAX_UFUNC_FUNCS - 1) :
    s.step (.resolve info addr) = some (-1, s) := by
  simp only [Session.step, Ctx.bpftime_ufunc_resolve_from_info]
  by_cases haddr : addr = 0
  · rw [if_pos haddr]
    rfl
  · rw [if_neg haddr, if_pos (h.resolve_left haddr)]
    rfl

/-- A registration that is made is sound where the function fits. -/
theorem sound_placed_iff {op : Op} (hcounted : s.Counted) (hcalls : s.Calls functions) (hcnt : cnt < MAX_UFUNC_FUNCS)
    (hslot : cnt = s.ctx.ufuncFuncCnt ∨ i = s.ctx.ufuncFuncCnt ∧ cnt = i + 1)
    (hstep : s.step op = some (0, s.note (s.ctx.placed i cnt info) i info)) :
    Sound functions s op ↔ s.Fits i cnt info := by
  constructor
  · intro h
    have hname := kept_placed_iff.mp (h.kept _ hstep)
    have hstands := (calls_placed_iff hcounted hcalls hcnt hslot hname).mp (h.calls _ hstep)
    obtain ⟨hearlier, hown⟩ := found_stands_iff.mp hstands
    exact ⟨hname, hearlier, hown⟩
  · rintro ⟨hname, hearlier, hown⟩
    have hstands : ∀ j, (s.ctx.placed i cnt info).find info.name = some j →
        ((s.ctx.placed i cnt info).ufuncFuncs j).Stands functions info := found_stands_iff.mpr ⟨hearlier, hown⟩
    refine ⟨by rw [hstep]; rfl, fun next hnext => ?_, fun next hnext => ?_⟩
    · rw [Option.mem_def, hstep, Option.some.injEq] at hnext
      subst hnext
      exact kept_placed_iff.mpr hname
    · rw [Option.mem_def, hstep, Option.some.injEq] at hnext
      subst hnext
      exact (calls_placed_iff hcounted hcalls hcnt hslot hname).mpr hstands

/-- **A registration is sound exactly when it is careful.** -/
theorem sound_iff (hcounted : s.Counted) (hcalls : s.Calls functions) (op : Op) :
    Sound functions s op ↔ Careful s op := by
  cases op with
  | register id info =>
    by_cases hid : id.toNat < MAX_UFUNC_FUNCS
    · rw [sound_placed_iff hcounted hcalls hcounted.below (Or.inl rfl) (step_register hid)]
      exact (and_iff_right hid).symm
    · refine iff_of_false (fun h => ?_) fun h => hid h.1
      have hinside := h.inside
      rw [step_register_outside hid] at hinside
      cases hinside
  | resolve info addr =>
    by_cases hfails : addr = 0 ∨ s.ctx.ufuncFuncCnt = MAX_UFUNC_FUNCS - 1
    · have hstep : s.step (.resolve info addr) = some (-1, s) := step_resolve_fails hfails
      refine iff_of_true ⟨by rw [hstep]; rfl, fun next hnext => ?_, fun next hnext => ?_⟩ fun haddr hroom => ?_
      · rw [Option.mem_def, hstep, Option.some.injEq] at hnext
        subst hnext
        exact fun _ _ => rfl
      · rw [Option.mem_def, hstep, Option.some.injEq] at hnext
        subst hnext
        exact hcalls
      · exact absurd hfails (not_or.mpr ⟨haddr, hroom⟩)
    · obtain ⟨haddr, hroom⟩ := not_or.mp hfails
      have hbelow := hcounted.below
      have hcnt : s.ctx.ufuncFuncCnt + 1 < MAX_UFUNC_FUNCS := by omega
      rw [sound_placed_iff hcounted hcalls hcnt (Or.inr ⟨rfl, rfl⟩) (step_resolve hcounted haddr hroom)]
      exact ⟨fun h _ _ => h, fun h => h haddr hroom⟩

/-- What is counted stays registered. -/
theorem counted_step (hcounted : s.Counted) {op : Op} {next : Int × Session} (hnext : s.step op = some next) :
    next.2.Counted := by
  -- a registration leaves the count, a resolution moves it onto the slot that it has just taken
  cases op with
  | register id info =>
    by_cases hid : id.toNat < MAX_UFUNC_FUNCS
    · rw [step_register hid] at hnext
      cases hnext
      exact ⟨fun i hi => List.mem_cons_of_mem _ (hcounted.taken i hi), hcounted.below⟩
    · rw [step_register_outside hid] at hnext
      cases hnext
  | resolve info addr =>
    by_cases hfails : addr = 0 ∨ s.ctx.ufuncFuncCnt = MAX_UFUNC_FUNCS - 1
    · rw [step_resolve_fails hfails] at hnext
      cases hnext
      exact hcounted
    · obtain ⟨haddr, hroom⟩ := not_or.mp hfails
      have hbelow := hcounted.below
      rw [step_resolve hcounted haddr hroom] at hnext
      cases hnext
      refine ⟨fun i hi => ?_, by show s.ctx.ufuncFuncCnt + 1 < _; omega⟩
      rcases Nat.lt_succ_iff_lt_or_eq.mp hi with hi | rfl
      · exact List.mem_cons_of_mem _ (hcounted.taken i hi)
      · exact List.mem_cons_self ..

/-- An empty table counts no entries. -/
theorem counted_empty : Session.empty.Counted := ⟨fun i hi => absurd hi (Nat.not_lt_zero i), by decide⟩

/-- And has none to find. -/
theorem calls_empty : Session.empty.Calls functions := fun _ hfound => absurd rfl hfound

end Placement

/-- **The table is consistent all along a run** exactly where each registration is careful. -/
theorem sound_run_iff (functions : Functions) (ops : List Op) :
    AllSteps Session.step (Sound functions) .empty ops ↔ AllSteps Session.step Careful .empty ops := by
  have hstep : ∀ (s : Session) (op : Op), s.Counted ∧ s.Calls functions → (Sound functions s op ↔ Careful s op) :=
    fun s op h => sound_iff h.1 h.2 op
  refine allSteps_iff_of_invariant hstep ?_ ⟨counted_empty, calls_empty⟩ ops
  intro s op h hcareful next hnext
  exact ⟨counted_step h.1 hnext, ((sound_iff h.1 h.2 op).mpr hcareful).calls next hnext⟩

/-- A function with arguments of 32 bits. -/
def intFunc (name : List (BitVec 8)) (numArgs : BitVec 32) : FuncInfo := ⟨name, 100, .int32, fun _ => .int32, numArgs, 0, false⟩

/-- The index behind the table; a resolved function in the place of a registered one; a function of six arguments. -/
theorem not_sound :
    ¬ AllSteps Session.step (Sound fun _ _ => 0) .empty [.register 32768 (intFunc [102] 2)] ∧
      ¬ AllSteps Session.step (Sound fun _ _ => 0) .empty [.register 0 (intFunc [102] 2), .resolve (intFunc [103] 1) 200] ∧
      ¬ AllSteps Session.step (Sound fun _ _ => 0) .empty [.resolve (intFunc [102] 6) 100] := by
  refine ⟨fun h => ?_, fun h => ?_, fun h => ?_⟩
  · exact absurd h.1.inside (by decide)
  · exact absurd ((h.2 _ rfl).1.kept _ rfl 0 (by decide)) (by decide)
  · have hfits := (sound_iff counted_empty calls_empty _).mp h.1 (by decide) (by decide)
    exact absurd (hfits.own (by decide) fun j hj => absurd hj (Nat.not_lt_zero j)) (by decide)

end Ufunc
