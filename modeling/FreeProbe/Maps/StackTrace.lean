import FreeProbe.Lib.Machine
import Mathlib.Data.BitVec
import Mathlib.Tactic.Common

/-!
# `Maps.StackTrace` — `stack_trace_map_impl`

A stack is kept in the bucket of its hash, and the bucket is its id. `fill_stack_trace` decides by three flags what
becomes of a bucket that is taken: a fill that compares by content is meant to return the id under which a lookup finds
exactly the stack that was filled.

`hash_combine` is Boost's, and a parameter here.
-/

namespace Maps

open Lib

/-- The frames of a stack. -/
abbrev Stk := List (BitVec 64)

/-- The map: a stack for some of the indices. -/
structure StackTraceMap where
  maxStackEntries : BitVec 64
  maxEntries      : BitVec 64
  data            : BitVec 32 → Option Stk

/-- The operations of a user, and the fill of `bpf_get_stackid`. -/
inductive StackTraceOp where
  | lookup (key : Option (BitVec 32))
  | update
  | delete (key : Option (BitVec 32))
  | getNextKey
  | fill (stk : Stk) (discardOldOne compareOnlyByHash : Bool)

/-- What an operation returns: a pointer, as the stack it points at, or a number. -/
inductive StackTraceResult where
  | found (stk : Option Stk)
  | number (ret : Int)
deriving DecidableEq

namespace StackTraceMap

/-- The error number of an update by hand. -/
def ENOTSUP : Int := 95

/-- The constructor; `none` is a throw. -/
def new (keySize valueSize maxEntries : BitVec 32) : Option StackTraceMap :=
  if keySize ≠ 4 then none
  else if valueSize % 8 ≠ 0 then none
  else some {
    maxStackEntries := (valueSize / 8).setWidth 64
    maxEntries := maxEntries.setWidth 64
    data := fun _ => none }

/-- `hash_stack_trace`: the length, then the frames. -/
def hashStackTrace (hashCombine : BitVec 64 → BitVec 64 → BitVec 64) (stk : Stk) : BitVec 64 :=
  stk.foldl hashCombine (hashCombine 0 (BitVec.ofNat 64 stk.length))

/-- `elem_lookup` -/
def elemLookup (map : StackTraceMap) : Option (BitVec 32) → Option Stk
  | none => none
  | some index => map.data index

/-- `elem_update`: a stack cannot be put by hand. -/
def elemUpdate (map : StackTraceMap) : Int × StackTraceMap := (-ENOTSUP, map)

/-- One entry is changed. -/
def setAt (map : StackTraceMap) (index : BitVec 32) (entry : Option Stk) : StackTraceMap :=
  { map with data := Function.update map.data index entry }

/-- `elem_delete` -/
def elemDelete (map : StackTraceMap) : Option (BitVec 32) → Int × StackTraceMap
  | none => (-1, map)
  | some index => if (map.data index).isSome then (0, map.setAt index none) else (-1, map)

/-- `map_get_next_key`: there is no iteration. -/
def mapGetNextKey (map : StackTraceMap) : Int × StackTraceMap := (-1, map)

/-- `equals`: two stacks of different lengths are compared again, by content; two of one length are not. -/
def equalStacks (stored stk : Stk) (compareOnlyByHash : Bool) : Bool :=
  if !compareOnlyByHash then
    let equals := stored.length == stk.length
    if !equals then equals && stk.isPrefixOf stored else equals
  else true

/-- `to_put_hash`, as `data` takes it. -/
def bucket (hashCombine : BitVec 64 → BitVec 64 → BitVec 64) (map : StackTraceMap) (stk : Stk) : BitVec 32 :=
  (hashStackTrace hashCombine stk % map.maxEntries).setWidth 32

/-- `fill_stack_trace`; the division by `max_entries` faults where it is 0. -/
def fillStackTrace (hashCombine : BitVec 64 → BitVec 64 → BitVec 64) (map : StackTraceMap) (stk : Stk)
    (discardOldOne compareOnlyByHash : Bool) : Option (Int × StackTraceMap) :=
  if map.maxEntries = 0 then none
  else
    let toPutHash := map.bucket hashCombine stk
    match map.data toPutHash with
    | none => some (toPutHash.toInt, map.setAt toPutHash (some stk))
    | some stored =>
      if equalStacks stored stk compareOnlyByHash then some (toPutHash.toInt, map)
      else if discardOldOne then some (toPutHash.toInt, map.setAt toPutHash (some stk))
      else some (toPutHash.toInt, map)

/-- One operation. The fill fails where its hash is not defined. -/
def apply (hashCombine : BitVec 64 → BitVec 64 → BitVec 64) (map : StackTraceMap) :
    StackTraceOp → Option (StackTraceResult × StackTraceMap)
  | .lookup key => some (.found (map.elemLookup key), map)
  | .update => some (.number map.elemUpdate.1, map.elemUpdate.2)
  | .delete key => some (.number (map.elemDelete key).1, (map.elemDelete key).2)
  | .getNextKey => some (.number map.mapGetNextKey.1, map.mapGetNextKey.2)
  | .fill stk discardOldOne compareOnlyByHash =>
    (map.fillStackTrace hashCombine stk discardOldOne compareOnlyByHash).map fun out => (.number out.1, out.2)

/-! ## Where the stacks are -/

section

variable {hashCombine : BitVec 64 → BitVec 64 → BitVec 64} {map : StackTraceMap} {stk : Stk}

/-- The entry, and the others. -/
@[simp] theorem setAt_data (index k : BitVec 32) (entry : Option Stk) :
    (map.setAt index entry).data k = if k = index then entry else map.data k := by
  simp [setAt, Function.update_apply]

/-- The capacity stays. -/
@[simp] theorem setAt_maxEntries (index : BitVec 32) (entry : Option Stk) :
    (map.setAt index entry).maxEntries = map.maxEntries := rfl

/-- And so does the place of a stack. -/
@[simp] theorem bucket_setAt (index : BitVec 32) (entry : Option Stk) :
    (map.setAt index entry).bucket hashCombine stk = map.bucket hashCombine stk := rfl

/-- Comparing by content compares the lengths. -/
theorem equalStacks_content (stored : Stk) : equalStacks stored stk false = (stored.length == stk.length) := by
  by_cases h : stored.length = stk.length <;> simp [equalStacks, h]

/-- **What a fill does.** It returns the bucket, and changes at most the entry there, to the stack. -/
theorem fillStackTrace_cases {discardOldOne compareOnlyByHash : Bool} {out : Int × StackTraceMap}
    (h : map.fillStackTrace hashCombine stk discardOldOne compareOnlyByHash = some out) :
    out.1 = (map.bucket hashCombine stk).toInt ∧
      (out.2 = map ∧ (map.data (map.bucket hashCombine stk)).isSome ∨
        out.2 = map.setAt (map.bucket hashCombine stk) (some stk)) := by
  unfold fillStackTrace at h
  split at h
  · cases h
  · cases hstored : map.data (map.bucket hashCombine stk) with
    | none =>
        simp only [hstored, Option.some.injEq] at h
        subst h
        exact ⟨rfl, .inr rfl⟩
    | some stored =>
        simp only [hstored] at h
        split at h
        · rw [Option.some.injEq] at h
          subst h
          exact ⟨rfl, .inl ⟨rfl, rfl⟩⟩
        · split at h <;> rw [Option.some.injEq] at h <;> subst h
          · exact ⟨rfl, .inr rfl⟩
          · exact ⟨rfl, .inl ⟨rfl, rfl⟩⟩

/-- A delete changes nothing, or empties one entry. -/
theorem elemDelete_cases (index : BitVec 32) :
    (map.elemDelete (some index)).2 = map ∨ (map.elemDelete (some index)).2 = map.setAt index none := by
  by_cases h : (map.data index).isSome
  · exact .inr (by simp [elemDelete, h])
  · exact .inl (by simp [elemDelete, h])

/-- Each stack is kept in the bucket of its own hash. -/
def Placed (hashCombine : BitVec 64 → BitVec 64 → BitVec 64) (map : StackTraceMap) : Prop :=
  ∀ index stk, map.data index = some stk → map.bucket hashCombine stk = index

/-- A new map is empty. -/
theorem placed_new {keySize valueSize maxEntries : BitVec 32} (h : new keySize valueSize maxEntries = some map) :
    Placed hashCombine map := by
  unfold new at h
  split at h
  · cases h
  · split at h
    · cases h
    · rw [Option.some.injEq] at h
      subst h
      intro index stk hstk
      cases hstk

/-- Emptying an entry keeps the others in their place. -/
theorem Placed.setAt_none (h : Placed hashCombine map) (index : BitVec 32) :
    Placed hashCombine (map.setAt index none) := by
  intro k stk hstk
  rw [setAt_data] at hstk
  split at hstk
  · cases hstk
  · exact h k stk hstk

/-- A stack is put into its place. -/
theorem Placed.setAt_bucket (h : Placed hashCombine map) (stk : Stk) :
    Placed hashCombine (map.setAt (map.bucket hashCombine stk) (some stk)) := by
  intro k other hother
  rw [setAt_data] at hother
  split at hother
  · next hk =>
      rw [Option.some.injEq] at hother
      subst hother
      exact hk.symm
  · exact h k other hother

/-- One operation keeps the stacks in their buckets. -/
theorem Placed.step (h : Placed hashCombine map) {op : StackTraceOp} {next : StackTraceResult × StackTraceMap}
    (hstep : map.apply hashCombine op = some next) : Placed hashCombine next.2 := by
  cases op with
  | lookup key => cases hstep; exact h
  | update => cases hstep; exact h
  | getNextKey => cases hstep; exact h
  | delete key =>
      cases hstep
      cases key with
      | none => exact h
      | some index =>
          rcases elemDelete_cases index with hmap | hmap
          · exact hmap ▸ h
          · exact hmap ▸ h.setAt_none index
  | fill stk discardOldOne compareOnlyByHash =>
      obtain ⟨out, hout, rfl⟩ := Option.map_eq_some_iff.mp hstep
      obtain ⟨-, ⟨hmap, -⟩ | hmap⟩ := fillStackTrace_cases hout
      · exact hmap ▸ h
      · exact hmap ▸ h.setAt_bucket stk

/-- In every run, no stack is found under two ids. -/
theorem placed_run {keySize valueSize maxEntries : BitVec 32} (h : new keySize valueSize maxEntries = some map)
    (ops : List StackTraceOp) :
    AllSteps (apply hashCombine) (fun map _ => ∀ index index' stk, map.data index = some stk → map.data index' = some stk →
      index = index') map ops := by
  have hkeeps : ∀ (m : StackTraceMap) (op : StackTraceOp), Placed hashCombine m → True →
      ∀ next ∈ m.apply hashCombine op, Placed hashCombine next.2 :=
    fun m op hm _ next hnext => hm.step hnext
  refine allSteps_of_invariant (fun m op hm _ index index' stk hstk hstk' => ?_) hkeeps (placed_new h)
    (allSteps_of_forall (fun _ _ => trivial) map ops)
  exact (hm index stk hstk).symm.trans (hm index' stk hstk')

/-! ## Ids name their stacks -/

/-- After a fill that returned `id`, a lookup finds exactly the stack that was filled, and a different stack that had the
id before is no longer kept. -/
def NamesStack (map map' : StackTraceMap) (stk : Stk) (id : Int) : Prop :=
  map'.elemLookup (some (BitVec.ofInt 32 id)) = some stk ∧
    ∀ first, first ≠ stk → map.elemLookup (some (BitVec.ofInt 32 id)) = some first →
      map'.elemLookup (some (BitVec.ofInt 32 id)) ≠ some first

/-- A fill that compares by content names its stack, whenever it returns an id. -/
def Names (hashCombine : BitVec 64 → BitVec 64 → BitVec 64) (map : StackTraceMap) : StackTraceOp → Prop
  | .fill stk discardOldOne false => ∀ out ∈ map.fillStackTrace hashCombine stk discardOldOne false,
      0 ≤ out.1 → NamesStack map out.2 stk out.1
  | _ => True

/-- The stack finds its bucket free or its own, or taken by a stack of another length that it may discard. A bucket from
`2 ^ 31` on is no id. -/
def FindsRoom (hashCombine : BitVec 64 → BitVec 64 → BitVec 64) (map : StackTraceMap) : StackTraceOp → Prop
  | .fill stk discardOldOne false =>
    map.maxEntries ≠ 0 → (map.bucket hashCombine stk).toNat < 2 ^ 31 →
      ∀ stored ∈ map.data (map.bucket hashCombine stk), stored = stk ∨ stored.length ≠ stk.length ∧ discardOldOne
  | _ => True

/-- An index, out of the number that was returned for it. -/
theorem ofInt_bucket (index : BitVec 32) : BitVec.ofInt 32 index.toInt = index := BitVec.ofInt_toInt

/-- It is an error number from 2^31 on. -/
theorem bucket_nonneg_iff (index : BitVec 32) : 0 ≤ index.toInt ↔ index.toNat < 2 ^ 31 := by
  rw [BitVec.toInt_eq_toNat_cond]
  have := index.isLt
  split <;> omega

/-- A map that finds the stack under an id after the fill has no other stack there. -/
theorem namesStack_iff (map' : StackTraceMap) (index : BitVec 32) :
    NamesStack map map' stk index.toInt ↔ map'.data index = some stk := by
  unfold NamesStack elemLookup
  rw [ofInt_bucket]
  refine ⟨And.left, fun h => ⟨h, fun first hne _ hfirst => hne ?_⟩⟩
  exact (Option.some.inj (h.symm.trans hfirst)).symm

/-- What a fill by content leaves in its bucket. -/
theorem fillStackTrace_content (hashCombine : BitVec 64 → BitVec 64 → BitVec 64) (stk : Stk) (h : map.maxEntries ≠ 0#64) (discardOldOne : Bool) :
    ∃ map', map.fillStackTrace hashCombine stk discardOldOne false = some ((map.bucket hashCombine stk).toInt, map') ∧
      (map'.data (map.bucket hashCombine stk) = some stk ↔ ∀ stored ∈ map.data (map.bucket hashCombine stk),
        stored = stk ∨ stored.length ≠ stk.length ∧ discardOldOne) := by
  cases hstored : map.data (map.bucket hashCombine stk) with
  | none =>
      refine ⟨map.setAt (map.bucket hashCombine stk) (some stk), ?_, ?_⟩
      · simp [fillStackTrace, h, hstored]
      · simp
  | some stored =>
      by_cases hlen : stored.length = stk.length
      · -- taken for the same stack, whatever the frames are
        refine ⟨map, ?_, ?_⟩
        · simp [fillStackTrace, h, hstored, equalStacks_content, hlen]
        · simp [hstored, hlen]
      · have hne : stored ≠ stk := fun heq => hlen (heq ▸ rfl)
        cases discardOldOne with
        | true =>
            refine ⟨map.setAt (map.bucket hashCombine stk) (some stk), ?_, ?_⟩
            · simp [fillStackTrace, h, hstored, equalStacks_content, hlen]
            · simp [hlen]
        | false =>
            refine ⟨map, ?_, ?_⟩
            · simp [fillStackTrace, h, hstored, equalStacks_content, hlen]
            · simp [hstored, hne]

/-- **One fill by content.** It names its stack just where the stack finds room. -/
theorem names_iff_findsRoom (op : StackTraceOp) : Names hashCombine map op ↔ FindsRoom hashCombine map op := by
  cases op with
  | fill stk discardOldOne compareOnlyByHash =>
      cases compareOnlyByHash with
      | true => exact Iff.rfl
      | false =>
          simp only [Names, FindsRoom]
          by_cases hzero : map.maxEntries = 0
          · simp [fillStackTrace, hzero]
          · obtain ⟨map', hfill, hdata⟩ := fillStackTrace_content hashCombine stk hzero discardOldOne
            simp only [hfill, Option.mem_some_iff, forall_eq', bucket_nonneg_iff, namesStack_iff, hdata, hzero, ne_eq,
              not_false_eq_true, forall_const]
  | _ => exact Iff.rfl

/-- **Stack ids name their stack.** In every run of a map, each fill by content returns an id under which exactly its
stack is found, if and only if each such stack finds room. -/
theorem stackIds_name_iff (map : StackTraceMap) (ops : List StackTraceOp) :
    AllSteps (apply hashCombine) (Names hashCombine) map ops ↔ AllSteps (apply hashCombine) (FindsRoom hashCombine) map ops :=
  allSteps_congr (fun _ op => names_iff_findsRoom op) map ops

end

/-- `hash_combine` of 64-bit values, as Boost has it. -/
def boostHashCombine (h k : BitVec 64) : BitVec 64 :=
  let k := k * 0xc6a4a7935bd1e995
  let k := (k ^^^ k >>> 47) * 0xc6a4a7935bd1e995
  (h ^^^ k) * 0xc6a4a7935bd1e995 + 0xe6546b64

/-- In a map of one bucket, the stack `[2]` gets the id of the stack `[1]`, which is what a lookup finds. -/
theorem not_stackIds_name : ¬ ∀ (map : StackTraceMap) (ops : List StackTraceOp),
    (∃ keySize valueSize maxEntries, new keySize valueSize maxEntries = some map) →
    AllSteps (apply boostHashCombine) (Names boostHashCombine) map ops := by
  intro hall
  have hnew : new 4 2040 1 = some ⟨255, 1, fun _ => none⟩ := rfl
  obtain ⟨-, hsecond⟩ := hall _ [.fill [1] false false, .fill [2] false false] ⟨4, 2040, 1, hnew⟩
  have hroom := names_iff_findsRoom _ |>.mp (hsecond _ rfl).1
  have hstored := hroom (by decide) (by decide) [1] rfl
  revert hstored
  decide

end StackTraceMap

end Maps
