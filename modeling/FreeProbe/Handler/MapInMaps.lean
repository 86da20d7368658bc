import FreeProbe.Handler.Manager
import FreeProbe.Lib.Machine
import FreeProbe.Maps.ArrayMap

/-!
# `Handler.MapInMaps` — `array_map_of_maps_impl`

An array of maps keeps the fds of the inner maps, four bytes each, in an array map; a helper's lookup makes a handle of
the fd, which the other helpers take apart again. The fd is resolved when the handle is used: the array holds no
reference to the inner map, and `elem_lookup` reads through what the array map's lookup returns without a look at it.
The table of handlers beside it goes through any operations of the shared memory, whose faults end a run. A map object
is known by its address in the segment, which is given out once.
-/

namespace Handler

open Lib Lib.Memory

/-- What the last successful update of a key has stored: the fd, and the map object that it named. -/
structure StoredMap where
  fd     : BitVec 32
  object : Option Nat
deriving DecidableEq

/-- The table of handlers, the array of maps, and what has been stored in it. -/
structure OuterWorld (maxEntries : BitVec 32) where
  shm    : Shm
  outer  : Maps.ArrayMap 4 maxEntries
  stored : BitVec 32 → Option StoredMap

inductive OuterOp where
  | shm (op : ShmOp)
  /-- `bpf(BPF_MAP_UPDATE_ELEM)` -/
  | update (key : BitVec 32) (value : Vector Maps.Byte (4 : BitVec 32).toNat) (flags : BitVec 64)
  /-- `bpf_map_update_elem` of a program -/
  | updateFromHelper (key : BitVec 32) (value : Vector Maps.Byte (4 : BitVec 32).toNat) (flags : BitVec 64)
  | lookup (key : BitVec 32)

inductive OuterReport where
  | shm (result : Option Int)
  | updated (result : Except Maps.Errno Unit)
  | handle (handle : BitVec 64)

/-- `*(int *)` -/
def intAt (bytes : List Maps.Byte) : BitVec 32 := BitVec.ofNat 32 (leNat bytes)

/-- `map >> 32`, as the helpers pass it on to an `int fd`. -/
def handleFd (handle : BitVec 64) : Int := ((handle >>> 32).setWidth 32).toInt

namespace OuterWorld

variable {maxEntries : BitVec 32}

def new (config : BuildConfig) (maxFdCount : Nat) (maxEntries : BitVec 32) : OuterWorld maxEntries :=
  ⟨.new config maxFdCount, .new 4 maxEntries, fun _ => none⟩

/-- `array_map_of_maps_impl::elem_lookup`; a null pointer cannot be read. -/
def elemLookup (w : OuterWorld maxEntries) (key : BitVec 32) : Option (BitVec 64) :=
  match w.outer.elemLookup key with
  | .error _ => none
  | .ok keyVal => do
    let mapId := intAt (← w.outer.data.read keyVal 4)
    return mapId.signExtend 64 <<< 32

def elemUpdate (w : OuterWorld maxEntries) (key : BitVec 32) (value : Vector Maps.Byte (4 : BitVec 32).toNat)
    (flags : BitVec 64) : Option (OuterReport × OuterWorld maxEntries) := do
  let (result, outer) ← w.outer.elemUpdate key value flags
  let fd := intAt value.toList
  let stored := match result with
    | .ok _ => Function.update w.stored key (some ⟨fd, w.shm.objectAt fd.toInt⟩)
    | .error _ => w.stored
  return (.updated result, { w with outer := outer, stored := stored })

def apply (w : OuterWorld maxEntries) : OuterOp → Option (OuterReport × OuterWorld maxEntries)
  | .shm op => do
    let (result, shm) ← w.shm.apply op
    return (.shm result, { w with shm := shm })
  | .update key value flags => w.elemUpdate key value flags
  -- an array of maps is updated by system calls only
  | .updateFromHelper _ _ _ => some (.updated (.error .einval), w)
  | .lookup key => do return (.handle (← w.elemLookup key), w)

/-! ## What a lookup is to find -/

/-- The map object that a lookup of the key is to give a handle of. -/
def expected (w : OuterWorld maxEntries) (key : BitVec 32) : Option Nat :=
  if key < maxEntries then (w.stored key).bind fun stored => stored.object else none

/-- The handle is one that the helpers resolve to the object, or NULL where there is none. -/
def Resolves (shm : Shm) (handle : BitVec 64) : Option Nat → Prop
  | none => handle = 0
  | some object => handle ≠ 0 ∧ shm.objectAt (handleFd handle) = some object

/-- **A lookup** gives a handle of the very object that was stored at the key, and NULL if there is none. -/
def LookupLawful (w : OuterWorld maxEntries) : OuterOp → Prop
  | .lookup key => ∃ handle, w.elemLookup key = some handle ∧ Resolves w.shm handle (w.expected key)
  | _ => True

/-! ## The condition -/

/-- The fd is not 0 and names the object, or it is 0 where there is none to name. -/
def StillNames (shm : Shm) (fd : BitVec 32) : Option Nat → Prop
  | none => fd = 0
  | some object => fd ≠ 0 ∧ shm.objectAt fd.toInt = some object

/-- **The condition on a step.** A lookup's key is in range, and the fd stored there, if one is, still names its map. -/
def LookupFits (w : OuterWorld maxEntries) : OuterOp → Prop
  | .lookup key => key < maxEntries ∧ ∀ stored ∈ w.stored key, StillNames w.shm stored.fd stored.object
  | _ => True

instance (shm : Shm) (fd : BitVec 32) : ∀ object, Decidable (StillNames shm fd object)
  | none => inferInstanceAs (Decidable (_ = _))
  | some _ => inferInstanceAs (Decidable (_ ∧ _))

instance (w : OuterWorld maxEntries) : ∀ op, Decidable (LookupFits w op)
  | .lookup key => inferInstanceAs (Decidable (_ ∧ ∀ stored ∈ w.stored key, _))
  | .shm _ | .update _ _ _ | .updateFromHelper _ _ _ => inferInstanceAs (Decidable True)

/-! ## The slots -/

/-- The four bytes of a key in range lie in the vector, apart from those of another key. -/
theorem slot_inside (hmax : 4 * maxEntries.toNat < 2 ^ 32) {key : BitVec 32} (hkey : key < maxEntries) :
    (key * 4#32).toNat = 4 * key.toNat ∧ 4 * key.toNat + 4 ≤ (4#32 * maxEntries).toNat := by
  have hlt : key.toNat < maxEntries.toNat := hkey
  rw [BitVec.toNat_mul, BitVec.toNat_mul]
  have hfour : (4#32).toNat = 4 := rfl
  rw [hfour, Nat.mod_eq_of_lt (by omega), Nat.mod_eq_of_lt hmax]
  omega

/-- What an array of maps holds at a key in range: the fd that was stored, 0 at first. -/
structure OuterInv (w : OuterWorld maxEntries) : Prop where
  size  : w.outer.data.size = (4#32 * maxEntries).toNat
  holds : ∀ key < maxEntries, intAt (load w.outer.data.cells (4 * key.toNat) 4) =
    (w.stored key).elim 0 fun stored => stored.fd

theorem outerInv_new (config : BuildConfig) (maxFdCount : Nat) (maxEntries : BitVec 32) :
    OuterInv (.new config maxFdCount maxEntries) := by
  refine ⟨rfl, fun key _ => ?_⟩
  show intAt (load (fun _ => 0) (4 * key.toNat) 4) = 0
  rfl

/-- What a lookup reads. -/
theorem elemLookup_eq (hmax : 4 * maxEntries.toNat < 2 ^ 32) {w : OuterWorld maxEntries} (hw : OuterInv w) {key : BitVec 32}
    (hkey : key < maxEntries) :
    w.elemLookup key = some (((w.stored key).elim 0 fun stored => stored.fd).signExtend 64 <<< 32) := by
  obtain ⟨hoffset, hin⟩ := slot_inside hmax hkey
  have hlookup : w.outer.elemLookup key = .ok (4 * key.toNat) := by
    unfold Maps.ArrayMap.elemLookup
    rw [if_neg (BitVec.not_le.mpr hkey)]
    exact congrArg _ hoffset
  unfold elemLookup
  rw [hlookup]
  dsimp only
  rw [Buffer.read_eq (by rw [hw.size]; exact hin)]
  show some (BitVec.signExtend 64 (intAt (load w.outer.data.cells (4 * key.toNat) 4)) <<< 32) = _
  rw [hw.holds key hkey]

/-- The fd in a handle. -/
theorem handle_low (fd : BitVec 32) : ((fd.signExtend 64 <<< 32) >>> 32).setWidth 32 = fd := by
  refine BitVec.eq_of_getLsbD_eq fun i hi => ?_
  have hhigh : 32 + i < 64 := by omega
  have hlow : ¬ 32 + i < 32 := by omega
  rw [BitVec.getLsbD_setWidth, BitVec.getLsbD_ushiftRight, BitVec.getLsbD_shiftLeft, Nat.add_sub_cancel_left,
    BitVec.getLsbD_signExtend]
  simp [hi, hhigh, hlow, Nat.lt_of_lt_of_le hi (by decide : 32 ≤ 64)]

theorem handleFd_eq (fd : BitVec 32) : handleFd (fd.signExtend 64 <<< 32) = fd.toInt :=
  congrArg BitVec.toInt (handle_low fd)

theorem handle_eq_zero (fd : BitVec 32) : fd.signExtend 64 <<< 32 = 0 ↔ fd = 0 := by
  constructor
  · intro h
    have hlow := handle_low fd
    rw [h] at hlow
    rw [← hlow]
    rfl
  · rintro rfl
    rfl

/-! ## Steps -/

/-- **A lookup** gives the stored map object exactly if it meets the condition. -/
theorem lookupLawful_iff (hmax : 4 * maxEntries.toNat < 2 ^ 32) {w : OuterWorld maxEntries} (hw : OuterInv w) (op : OuterOp) :
    LookupLawful w op ↔ LookupFits w op := by
  cases op with
  | shm op => exact ⟨fun _ => trivial, fun _ => trivial⟩
  | update key value flags => exact ⟨fun _ => trivial, fun _ => trivial⟩
  | updateFromHelper key value flags => exact ⟨fun _ => trivial, fun _ => trivial⟩
  | lookup key =>
      by_cases hkey : key < maxEntries
      · have hlookup := elemLookup_eq hmax hw hkey
        have hexpected : w.expected key = (w.stored key).bind fun stored => stored.object := if_pos hkey
        simp only [LookupLawful, LookupFits, hlookup, hexpected, Option.some.injEq, exists_eq_left', hkey, true_and]
        cases hstored : w.stored key with
        | none => simp [Resolves]
        | some stored =>
            obtain ⟨fd, object⟩ := stored
            simp only [Option.elim_some, Option.bind_some, Option.mem_def, Option.some.injEq, forall_eq']
            cases object with
            | none => exact handle_eq_zero fd
            | some object =>
                simp only [StillNames, Resolves]
                rw [handleFd_eq, ne_eq, handle_eq_zero]
      · -- the null pointer is read
        have hlookup : w.elemLookup key = none := by
          unfold elemLookup Maps.ArrayMap.elemLookup
          rw [if_pos (BitVec.not_lt.mp hkey)]
        simp [LookupLawful, LookupFits, hlookup, hkey]

/-- A store in the slot of a key. -/
theorem outerInv_update (hmax : 4 * maxEntries.toNat < 2 ^ 32) {w : OuterWorld maxEntries} (hw : OuterInv w)
    {key : BitVec 32} {value : Vector Maps.Byte (4 : BitVec 32).toNat} {flags : BitVec 64}
    {next : OuterReport × OuterWorld maxEntries} (hstep : w.elemUpdate key value flags = some next) : OuterInv next.2 := by
  unfold elemUpdate Maps.ArrayMap.elemUpdate at hstep
  cases hcheck : Maps.checkUpdate maxEntries key flags with
  | error e =>
      rw [hcheck] at hstep
      cases hstep
      exact ⟨hw.size, hw.holds⟩
  | ok u =>
      have hkey : key < maxEntries := by
        unfold Maps.checkUpdate at hcheck
        split at hcheck
        · cases hcheck
        · split at hcheck
          · cases hcheck
          · split at hcheck
            · cases hcheck
            · next hle => exact BitVec.not_le.mp hle
      obtain ⟨hoffset, hin⟩ := slot_inside hmax hkey
      have hlength : value.toList.length = 4 := by
        rw [Vector.length_toList]
        rfl
      have hwrite : w.outer.data.write (key * 4).toNat value.toList =
          some { w.outer.data with cells := store w.outer.data.cells (4 * key.toNat) value.toList } := by
        rw [show (key * 4).toNat = 4 * key.toNat from hoffset, Buffer.write_eq (by rw [hw.size, hlength]; exact hin)]
      rw [hcheck] at hstep
      simp only [hwrite] at hstep
      cases hstep
      refine ⟨hw.size, fun key' hkey' => ?_⟩
      show intAt (load (store w.outer.data.cells (4 * key.toNat) value.toList) (4 * key'.toNat) 4) =
        (Function.update w.stored key _ key').elim 0 fun stored => stored.fd
      by_cases heq : key' = key
      · have hload : load (store w.outer.data.cells (4 * key.toNat) value.toList) (4 * key.toNat) 4 = value.toList := by
          have h : load (store w.outer.data.cells (4 * key.toNat) value.toList) (4 * key.toNat) value.toList.length =
              value.toList := load_store
          rwa [hlength] at h
        rw [heq, Function.update_self, hload]
        rfl
      · have hne : key'.toNat ≠ key.toNat := fun h => heq (BitVec.eq_of_toNat_eq h)
        rw [Function.update_of_ne heq, load_store_disjoint (by rw [hlength]; omega)]
        exact hw.holds key' hkey'

theorem outerInv_apply (hmax : 4 * maxEntries.toNat < 2 ^ 32) {w : OuterWorld maxEntries} (hw : OuterInv w) {op : OuterOp}
    {next : OuterReport × OuterWorld maxEntries} (hstep : w.apply op = some next) : OuterInv next.2 := by
  cases op with
  | shm op =>
      obtain ⟨result, -, heq⟩ := Option.bind_eq_some_iff.mp hstep
      cases heq
      exact ⟨hw.size, hw.holds⟩
  | update key value flags => exact outerInv_update hmax hw hstep
  | updateFromHelper key value flags =>
      cases hstep
      exact hw
  | lookup key =>
      obtain ⟨handle, -, heq⟩ := Option.bind_eq_some_iff.mp hstep
      cases heq
      exact hw

/-! ## Runs -/

/-- **The lookups of a run give the stored map objects exactly if they meet the condition.** -/
theorem mapInMaps_lawful_iff (config : BuildConfig) (maxFdCount : Nat) (maxEntries : BitVec 32)
    (hmax : 4 * maxEntries.toNat < 2 ^ 32) (ops : List OuterOp) :
    AllSteps apply LookupLawful (.new config maxFdCount maxEntries) ops ↔
      AllSteps apply LookupFits (.new config maxFdCount maxEntries) ops :=
  allSteps_iff_of_invariant (I := OuterInv) (C := LookupLawful) (D := LookupFits)
    (fun _ op hw => lookupLawful_iff hmax hw op)
    (fun _ _ hw _ _ hnext => outerInv_apply hmax hw hnext) (outerInv_new config maxFdCount maxEntries) ops

/-- The lookup of an inner map that is there. -/
theorem mapInMaps_lawful_iff_stored :
    AllSteps apply LookupLawful (.new ⟨true, false⟩ 8 2)
        [.shm (.addBpfMap .ample 4 (-1) (cstr "m") ⟨1, 4, 4, 4, 0, 0, 0, 0, 0, 0, 0, 0, 0⟩),
          .update 1 ⟨#[4, 0, 0, 0], rfl⟩ 0, .lookup 1] ↔
      AllSteps apply LookupFits (.new ⟨true, false⟩ 8 2)
        [.shm (.addBpfMap .ample 4 (-1) (cstr "m") ⟨1, 4, 4, 4, 0, 0, 0, 0, 0, 0, 0, 0, 0⟩),
          .update 1 ⟨#[4, 0, 0, 0], rfl⟩ 0, .lookup 1] :=
  mapInMaps_lawful_iff _ _ _ (by decide) _

/-- A lookup out of range reads through the null pointer. -/
theorem mapInMaps_not_lawful :
    ¬ ∀ config maxFdCount maxEntries ops,
      AllSteps apply LookupLawful (OuterWorld.new config maxFdCount maxEntries) ops := by
  intro h
  obtain ⟨⟨handle, hlookup, -⟩, -⟩ := h ⟨true, false⟩ 8 1 [.lookup 1]
  have hnone : (OuterWorld.new ⟨true, false⟩ 8 1).elemLookup 1 = none := by decide
  rw [hnone] at hlookup
  cases hlookup

end OuterWorld

end Handler
