import FreeProbe.Handler.MapTable
import FreeProbe.Lib.Machine
import FreeProbe.Lib.Sharing

/-!
# `Handler.MapSharing` — maps under several fds

`dup_bpf_map` copies the handler of a map with its two pointers and counts the copy; `clear_id_at` takes one from the
count and destroys the object, by its name, where none is left. Whether the object is destroyed depends on its type, and
whether it is shared on what `map_init` does for its type; a source fd that is overwritten is cleared before it is read.
-/

namespace Handler

open Lib MapTable

variable {V : Type}

/-- The handlers, and what is in each map object by its address. -/
structure MapsWorld (V : Type) where
  shm      : Shm
  contents : Nat → V

/-- The operations on maps, an operation on the elements of the map of an fd the last of them. -/
inductive MapsOp (V : Type) where
  | create (env : CreateEnv) (fd fake : Int) (name : CStr) (attr : MapAttr)
  | dup (env : CreateEnv) (oldfd newfd fake : Int)
  | close (fd : Int)
  | access (fd : Int) (f : V → V)

namespace MapsWorld

section Steps

-- what a new map holds
variable (fresh : MapAttr → V)

/-- A new shared memory; `memory` is what lies at the addresses that are not in use. -/
def new (config : BuildConfig) (maxFdCount : Nat) (memory : Nat → V) : MapsWorld V := ⟨.new config maxFdCount, memory⟩

/-- After an operation of the shared memory; a map that it has constructed is as new. -/
def withShm (w : MapsWorld V) (attr : MapAttr) (shm : Shm) : MapsWorld V :=
  ⟨shm, fun a => if a < w.shm.segment.next then w.contents a else fresh attr⟩

/-- What an operation leaves when it returns. -/
def returned (w : MapsWorld V) (attr : MapAttr) : Except Fault (CreateResult × Shm) → Option (Option Int × MapsWorld V)
  | .ok (.returned r, shm) => some (some r, w.withShm fresh attr shm)
  | .ok (.threw, _) | .error _ => none

/-- An operation that goes through; one whose `map_init` throws does not. -/
def apply (w : MapsWorld V) : MapsOp V → Option (Option Int × MapsWorld V)
  | .create env fd fake name attr => w.returned fresh attr (w.shm.addBpfMap env fd fake name attr)
  | .dup env oldfd newfd fake =>
    match w.shm.mapAt oldfd with
    | some map => w.returned fresh map.attr (w.shm.dupBpfMap env oldfd newfd fake)
    | none => some (some (-1), w)
  | .close fd => do
    let (r, shm) ← w.shm.apply (.closeFd fd)
    return (r, { w with shm := shm })
  | .access fd f =>
    match w.shm.objectAt fd with
    | none => some (some (-1), w)
    | some a => some (some 0, { w with contents := Function.update w.contents a (f (w.contents a)) })

/-! ## The maps under the fds

A map object is named in the shared memory, and counted by its fds. The fds of a map share its contents. -/

open Classical in
/-- The map objects under the fds. -/
noncomputable def sharing (w : MapsWorld V) : Sharing Int Nat V :=
  ⟨w.shm.objectAt, fun a => if ∃ name, w.shm.segment.named name = some a then some (w.contents a) else none⟩

/-- What the maps under the fds are after an operation. -/
def Expected (w : MapsWorld V) (s : Sharing Int Nat V) : MapsOp V → Prop
  | .create _ fd fake _ attr =>
    let fd := Shm.fdOrFake fd fake
    if mapInitOf w.shm.config attr = .nothing then s = w.sharing.drop fd
    else ∃ a, ¬ w.sharing.Exists a ∧ s = w.sharing.create fd a (fresh attr)
  | .dup _ oldfd newfd fake =>
    s = if w.shm.isMapFd oldfd then w.sharing.share oldfd (Shm.fdOrFake newfd fake) else w.sharing
  | .close fd => s = w.sharing.drop fd
  | .access fd f => s = w.sharing.write fd f

/-- **An operation shares maps lawfully**: it goes through, the objects that exist are those that an fd names, each
    counted as often as it is named, and the maps under the fds are as they are to be. -/
def SharesLawfully (w : MapsWorld V) (op : MapsOp V) : Prop :=
  ∃ next, w.apply fresh op = some next ∧ next.2.sharing.Owned ∧ CountsHolders next.2.shm ∧
    w.Expected fresh next.2.sharing op

end Steps

/-! ## The condition -/

/-- No map has the name of a new one, or only the one whose place it takes. -/
def NameFree (shm : Shm) (fd : Int) (map : MapHandler) : Prop :=
  ∀ a ∈ shm.segment.named map.containerName, shm.objectAt fd = some a ∧ shm.holders a = 1

/-- **The condition on a step.** What takes a slot takes one of the table, whose map can go; the constructor of a new map
    takes its arguments and gets what it asks for, and the name of the map is free; a map is not duplicated onto its own
    fd, and `map_init` has given it a reference count. -/
def SharingFits (w : MapsWorld V) : MapsOp V → Prop
  | .create env fd fake name attr =>
    let fd := Shm.fdOrFake fd fake
    w.shm.InRange fd ∧ Droppable w.shm fd ∧
      (mapInitOf w.shm.config attr ≠ .nothing → Constructs env w.shm.config attr ∧ NameFree w.shm fd (.new name attr))
  | .dup _ oldfd newfd fake =>
    let newfd := Shm.fdOrFake newfd fake
    ∀ map ∈ w.shm.mapAt oldfd, newfd ≠ oldfd ∧ w.shm.InRange newfd ∧ Droppable w.shm newfd ∧
      mapInitOf w.shm.config map.attr ≠ .uncounted
  | .close fd => Droppable w.shm fd
  | .access _ _ => True

instance (shm : Shm) (fd : Int) (map : MapHandler) : Decidable (NameFree shm fd map) :=
  inferInstanceAs (Decidable (∀ a ∈ shm.segment.named map.containerName, _))

/-! ## What the maps under the fds are

The abstract table has the object of each fd and the contents of each object. Here it is read off the handlers and the
segment. -/

section Sharing

variable {w : MapsWorld V} {shm : Shm} {contents contents' : Nat → V} {n i : Nat} {a cell : Nat}
  {map map' : MapHandler} {handler : HandlerVariant} {segment' : Segment} {fresh : MapAttr → V}

/-- A map that exists has its contents. -/
theorem value_of_exists (h : ∃ name, w.shm.segment.named name = some a) : w.sharing.value a = some (w.contents a) :=
  if_pos h

/-- One that does not has none. -/
theorem value_of_not_exists (h : ¬ ∃ name, w.shm.segment.named name = some a) : w.sharing.value a = none := if_neg h

/-- A map exists while its object has a name. -/
theorem exists_iff : w.sharing.Exists a ↔ ∃ name, w.shm.segment.named name = some a := by
  constructor
  · rintro ⟨v, hv⟩
    by_contra hnot
    rw [value_of_not_exists hnot] at hv
    cases hv
  · intro h
    exact ⟨_, value_of_exists h⟩

/-- Each map belongs to an fd. -/
theorem owned_of_inv (h : SharingInv w.shm) : w.sharing.Owned := by
  intro a
  rw [exists_iff, h.exists_iff]
  exact held_iff_holders.symm

/-- A handler that can go drops its map. -/
theorem sharing_released (h : SharingInv shm) (hget : shm.handlers[n]? = some handler) (hdrop : Droppable shm n) :
    (⟨released shm n, contents⟩ : MapsWorld V).sharing = (⟨shm, contents⟩ : MapsWorld V).sharing.drop n := by
  refine Sharing.eq_drop (owned_of_inv (sharingInv_released h hget hdrop)) (fun fd => ?_) (fun a ha => ?_)
  · exact objectAt_released hget fd
  · obtain ⟨name, hname⟩ := exists_iff.mp ha
    have hold := ((released_named h hget).mp hname).1
    rw [value_of_exists ⟨name, hname⟩, value_of_exists (by exact ⟨name, hold⟩)]

/-- A map in a free slot is a new object, if its type has objects. -/
theorem sharing_created {w' : MapsWorld V} (h : SharingInv w.shm) (hget : w.shm.handlers[n]? = some .unused)
    (hinit : Inited w.shm.config map w.shm.segment map' segment') (himpl : map.mapImplPtr = none)
    (hshm : w'.shm = ⟨w.shm.config, w.shm.handlers.set n (.map map'), segment'⟩)
    (hcontents : ∀ a, w'.contents a = if a < w.shm.segment.next then w.contents a else fresh map.attr) :
    w'.sharing = if mapInitOf w.shm.config map.attr = .nothing then w.sharing
      else w.sharing.put n w.shm.segment.next (fresh map.attr) := by
  have hnamed : ∀ name, w'.shm.segment.named name =
      if mapInitOf w.shm.config map.attr ≠ .nothing ∧ name = map.containerName then some w.shm.segment.next
      else w.shm.segment.named name := by
    intro name
    rw [hshm]
    exact hinit.named
  have hobject : ∀ fd, w'.shm.objectAt fd = if fd = n then map'.mapImplPtr else w.shm.objectAt fd := by
    intro fd
    rw [hshm]
    exact objectAt_set hget fd
  have hnone : w.shm.objectAt n = none := objectAt_of_getElem hget
  rw [hinit.object himpl] at hobject
  -- an object that was there is still there, and as it was
  have hold : ∀ a, (∃ name, w.shm.segment.named name = some a) → w'.contents a = w.contents a := by
    rintro a ⟨name, hname⟩
    rw [hcontents, if_pos (h.object_lt hname)]
  by_cases hm : mapInitOf w.shm.config map.attr = .nothing
  · rw [if_pos hm]
    have hsame : w'.shm.segment.named = w.shm.segment.named := by
      funext name
      rw [hnamed, if_neg (fun hnot => hnot.1 hm)]
    refine Sharing.ext (funext fun fd => ?_) (funext fun a => ?_)
    · refine (hobject fd).trans ?_
      rw [if_pos hm]
      show _ = w.shm.objectAt fd
      split
      · next heq => rw [heq]; exact hnone.symm
      · rfl
    · by_cases hex : ∃ name, w.shm.segment.named name = some a
      · rw [value_of_exists (by rw [hsame]; exact hex), value_of_exists hex, hold a hex]
      · rw [value_of_not_exists (by rw [hsame]; exact hex), value_of_not_exists hex]
  · rw [if_neg hm]
    refine Sharing.ext (funext fun fd => ?_) (funext fun a => ?_)
    · refine (hobject fd).trans ?_
      rw [if_neg hm]
      show _ = Function.update w.shm.objectAt n (some w.shm.segment.next) fd
      rw [Function.update_apply]
    · show _ = Function.update w.sharing.value w.shm.segment.next (some (fresh map.attr)) a
      by_cases heq : a = w.shm.segment.next
      · rw [heq, Function.update_self, value_of_exists, hcontents, if_neg (Nat.lt_irrefl _)]
        exact ⟨map.containerName, by rw [hnamed, if_pos ⟨hm, rfl⟩]⟩
      · rw [Function.update_of_ne heq]
        have hiff : (∃ name, w'.shm.segment.named name = some a) ↔ ∃ name, w.shm.segment.named name = some a := by
          refine exists_congr fun name => ?_
          rw [hnamed]
          split
          · next hnew =>
              refine iff_of_false (fun hsome => heq (Option.some.inj hsome).symm) fun hsome => ?_
              rw [hnew.2, hinit.free hm] at hsome
              cases hsome
          · rfl
        by_cases hex : ∃ name, w.shm.segment.named name = some a
        · rw [value_of_exists (hiff.mpr hex), value_of_exists hex, hold a hex]
        · rw [value_of_not_exists (fun hnot => hex (hiff.mp hnot)), value_of_not_exists hex]

/-- A copy of a handler in a free slot joins its map. -/
theorem sharing_joined {w' : MapsWorld V} (h : SharingInv w.shm) (hget : w.shm.handlers[n]? = some .unused)
    (hi : w.shm.handlers[i]? = some (.map map)) (hshm : w'.shm = joined w.shm n map a cell)
    (hcontents : ∀ a < w.shm.segment.next, w'.contents a = w.contents a) : w'.sharing = w.sharing.join i n := by
  have hnamed : w'.shm.segment.named = w.shm.segment.named := by rw [hshm]; rfl
  refine Sharing.ext (funext fun fd => ?_) (funext fun b => ?_)
  · show w'.shm.objectAt fd = Function.update w.shm.objectAt n (w.shm.objectAt i) fd
    rw [hshm, Function.update_apply, objectAt_of_getElem hi]
    exact objectAt_set hget fd
  · show w'.sharing.value b = w.sharing.value b
    by_cases hex : ∃ name, w.shm.segment.named name = some b
    · obtain ⟨name, hname⟩ := hex
      rw [value_of_exists (by rw [hnamed]; exact ⟨name, hname⟩), value_of_exists ⟨name, hname⟩,
        hcontents b (h.object_lt hname)]
    · rw [value_of_not_exists (by rw [hnamed]; exact hex), value_of_not_exists hex]

end Sharing

/-! ## Steps

An operation is exact for a condition: without the condition it is not lawful, and with it the invariant goes on to
hold. -/

section Step

variable {w w' : MapsWorld V} {fresh : MapAttr → V} {shm : Shm} {n i : Nat} {a : Nat} {map map' : MapHandler}
  {handler : HandlerVariant} {segment' : Segment} {op : MapsOp V} {next : Option Int × MapsWorld V}

/-- The condition is what the operation needs, and is enough for it to keep the invariant. -/
structure ExactFor (fresh : MapAttr → V) (w : MapsWorld V) (op : MapsOp V) (C : Prop) : Prop where
  needed : SharesLawfully fresh w op → C
  enough : C → ∃ next, w.apply fresh op = some next ∧ SharingInv next.2.shm ∧ w.Expected fresh next.2.sharing op

/-- An operation that is exact for a condition is lawful when it holds. -/
theorem ExactFor.iff {C : Prop} (h : ExactFor fresh w op C) : SharesLawfully fresh w op ↔ C := by
  refine ⟨h.needed, fun hC => ?_⟩
  obtain ⟨next, happly, hinv, hexpected⟩ := h.enough hC
  exact ⟨next, happly, owned_of_inv hinv, countsHolders_of_inv hinv, hexpected⟩

/-- An object that no fd names. -/
theorem not_owned {name : CStr} (hname : w.shm.segment.named name = some a) (hzero : w.shm.holders a = 0) :
    ¬ w.sharing.Owned := by
  intro howned
  have hheld : ∃ fd, w.shm.objectAt fd = some a := (howned a).mp (exists_iff.mpr ⟨name, hname⟩)
  have hpos := held_iff_holders.mp hheld
  omega

/-! ### Close -/

/-- `close` releases what the fd has. -/
theorem apply_close (h : SharingInv w.shm) (hget : w.shm.handlers[n]? = some handler) :
    w.apply fresh (.close n) = some (none, ⟨released w.shm n, w.contents⟩) := by
  show (do
    let (r, shm) ← ((w.shm.closeFd n).map fun shm => ((none : Option Int), shm)).toOption
    return (r, { w with shm := shm })) = _
  unfold Shm.closeFd
  rw [clearIdAt_eq h hget]
  rfl

/-- `close` of no fd changes nothing. -/
theorem apply_close_outOfRange {fd : Int} (hin : ¬ w.shm.InRange fd) : w.apply fresh (.close fd) = some (none, w) := by
  show (do
    let (r, shm) ← ((w.shm.closeFd fd).map fun shm => ((none : Option Int), shm)).toOption
    return (r, { w with shm := shm })) = _
  unfold Shm.closeFd Shm.clearIdAt
  rw [if_neg hin]
  rfl

/-- **`close`** is lawful where the fd can let go of its map. -/
theorem close_exact (h : SharingInv w.shm) (fd : Int) : ExactFor fresh w (.close fd) (Droppable w.shm fd) := by
  by_cases hin : w.shm.InRange fd
  · obtain ⟨n, handler, rfl, hget⟩ := getElem_of_inRange hin
    constructor
    · rintro ⟨next, happly, howned, -⟩
      rw [apply_close h hget] at happly
      cases happly
      by_contra hnot
      obtain ⟨a, name, hname, hzero⟩ := leaked h hget hnot
      exact not_owned (w := ⟨released w.shm n, w.contents⟩) hname hzero howned
    · intro hdrop
      exact ⟨_, apply_close h hget, sharingInv_released h hget hdrop, sharing_released h hget hdrop⟩
  · constructor
    · intro _ map hmap
      rw [mapAt_outOfRange hin] at hmap
      cases hmap
    · intro _
      refine ⟨_, apply_close_outOfRange hin, h, Sharing.eq_drop (owned_of_inv h) (fun fd' => ?_) fun _ _ => rfl⟩
      split
      · next heq =>
          rw [heq]
          exact if_neg hin
      · rfl

/-! ### Create -/

/-- The clearing before an fd is set releases what it has. -/
theorem clearedFor_eq (h : SharingInv shm) (hget : shm.handlers[n]? = some handler) :
    shm.clearedFor n = .ok (released shm n) := by
  obtain ⟨hin, hslot⟩ := slot_of_getElem hget
  unfold Shm.clearedFor
  rw [Shm.getHandler_eq hin, hslot]
  exact clearUsed_eq h hget

/-- `add_bpf_map` sets the slot that it has cleared. -/
theorem apply_create (h : SharingInv w.shm) {env : CreateEnv} {fd fake : Int} {name : CStr} {attr : MapAttr}
    (hfd : Shm.fdOrFake fd fake = n) (hget : w.shm.handlers[n]? = some handler) :
    w.apply fresh (.create env fd fake name attr) =
      w.returned fresh attr ((released w.shm n).setMap env n (.new name attr)) := by
  show w.returned fresh attr (w.shm.addBpfMap env fd fake name attr) = _
  unfold Shm.addBpfMap
  dsimp only
  rw [hfd, clearedFor_eq h hget]
  rfl

/-- It does not check the fd. -/
theorem apply_create_outOfRange {env : CreateEnv} {fd fake : Int} {name : CStr} {attr : MapAttr}
    (hin : ¬ w.shm.InRange (Shm.fdOrFake fd fake)) : w.apply fresh (.create env fd fake name attr) = none := by
  have hadd : w.shm.addBpfMap env fd fake name attr = .error .outOfRange := by
    unfold Shm.addBpfMap Shm.clearedFor Shm.getHandler
    dsimp only
    rw [if_neg hin]
    rfl
  show w.returned fresh attr (w.shm.addBpfMap env fd fake name attr) = _
  rw [hadd]
  rfl

/-- A new map in a slot that has been cleared. -/
theorem returned_setMap (env : CreateEnv) (himpl : map.mapImplPtr = none) (attr : MapAttr)
    (hget : w.shm.handlers[n]? = some handler) :
    w.returned fresh attr ((released w.shm n).setMap env n map) =
      if (map.mapInit env w.shm.config (released w.shm n).segment).ret.isSome then
        some (some (n : Int), w.withShm fresh attr ⟨w.shm.config, (released w.shm n).handlers.set n
          (.map (map.mapInit env w.shm.config (released w.shm n).segment).handler),
          (map.mapInit env w.shm.config (released w.shm n).segment).segment⟩)
      else none := by
  rw [setMap_eq env himpl (unused_released hget)]
  show w.returned fresh attr (.ok (if (map.mapInit env w.shm.config (released w.shm n).segment).ret.isSome then _ else _, _)) = _
  cases (map.mapInit env w.shm.config (released w.shm n).segment).ret <;> rfl

/-- An object that was left behind is left behind by a creation, too. -/
theorem droppable_of_created (h : SharingInv w.shm) (hget : w.shm.handlers[n]? = some handler)
    (hinit : Inited (released w.shm n).config map (released w.shm n).segment map' segment') (himpl : map.mapImplPtr = none)
    (hshm : w'.shm = ⟨w.shm.config, (released w.shm n).handlers.set n (.map map'), segment'⟩)
    (howned : w'.sharing.Owned) : Droppable w.shm n := by
  by_contra hnot
  obtain ⟨a, name, hname, hzero⟩ := leaked h hget hnot
  have hlt := h.object_lt ((released_named h hget).mp hname).1
  have hnamed : w'.shm.segment.named name = some a := by
    rw [hshm]
    show segment'.named name = some a
    rw [hinit.named, if_neg]
    · exact hname
    · rintro ⟨hm, rfl⟩
      rw [hinit.free hm] at hname
      cases hname
  have hholders : w'.shm.holders a = 0 := by
    have hcount := holders_created (a := a) (unused_released hget) hinit himpl
    rw [released_next, if_neg (fun heq => by omega), hzero] at hcount
    rw [hshm]
    exact hcount
  exact not_owned hnamed hholders howned

/-- What the maps are when one is created where another has gone. -/
theorem sharing_withShm (fresh : MapAttr → V) (h : SharingInv (released w.shm n)) (hget : w.shm.handlers[n]? = some handler)
    (hinit : Inited (released w.shm n).config map (released w.shm n).segment map' segment')
    (himpl : map.mapImplPtr = none) :
    (w.withShm fresh map.attr ⟨w.shm.config, (released w.shm n).handlers.set n (.map map'), segment'⟩).sharing =
      if mapInitOf w.shm.config map.attr = .nothing then (⟨released w.shm n, w.contents⟩ : MapsWorld V).sharing
      else (⟨released w.shm n, w.contents⟩ : MapsWorld V).sharing.put n w.shm.segment.next (fresh map.attr) := by
  rw [← released_next]
  refine sharing_created (w := ⟨released w.shm n, w.contents⟩) h (unused_released hget) hinit himpl rfl fun a => ?_
  rw [released_next]
  rfl

/-- A creation that goes through and makes the map that it is to make has found what it needs. -/
theorem create_needed (h : SharingInv w.shm) {env : CreateEnv} {fd fake : Int} {name : CStr} {attr : MapAttr}
    (hlawful : SharesLawfully fresh w (.create env fd fake name attr)) : SharingFits w (.create env fd fake name attr) := by
  obtain ⟨next, happly, howned, -, hexpected⟩ := hlawful
  have hin : w.shm.InRange (Shm.fdOrFake fd fake) := by
    by_contra hnot
    rw [apply_create_outOfRange hnot] at happly
    cases happly
  obtain ⟨n, handler, hfd, hget⟩ := getElem_of_inRange hin
  rw [apply_create h hfd hget, returned_setMap env rfl attr hget] at happly
  split at happly
  swap
  · cases happly
  next hret =>
  cases happly
  -- the new map has an object, if its type has one
  have hconstructs : mapInitOf w.shm.config attr ≠ .nothing → Constructs env w.shm.config attr ∧
      (released w.shm n).segment.named (MapHandler.new name attr).containerName = none := by
    intro hm
    have hnew : (MapHandler.new name attr).mapImplPtr = none := rfl
    refine (constructs_of_mapInit hnew hret).resolve_right fun hnone => ?_
    have hobject : ∃ a, ¬ w.sharing.Exists a ∧ _ = w.sharing.create (Shm.fdOrFake fd fake) a (fresh attr) :=
      (if_neg hm).mp hexpected
    obtain ⟨a, -, hcreate⟩ := hobject
    have hsome := congrArg (fun s => s.object n) hcreate
    rw [hfd] at hsome
    have hleft (segment : Segment) : Shm.objectAt ⟨w.shm.config, (released w.shm n).handlers.set n
        (.map ((MapHandler.new name attr).mapInit env w.shm.config (released w.shm n).segment).handler), segment⟩ n = none :=
      (objectAt_set (unused_released hget) n).trans ((if_pos rfl).trans hnone)
    have hright : (w.sharing.create (n : Int) a (fresh attr)).object n = some a := Function.update_self ..
    exact absurd ((hleft _).symm.trans (hsome.trans hright)) (by simp)
  have hinit := (newMap_of_constructs hconstructs).2
  refine ⟨hin, ?_, fun hm => ⟨(hconstructs hm).1, fun a hname => ?_⟩⟩
  · rw [hfd]
    exact droppable_of_created h hget hinit rfl rfl howned
  · -- the name was free when the map came
    have hfreed : Freed w.shm n a := by
      by_contra hnot
      have hleft := (released_named h hget).mpr ⟨hname, hnot⟩
      rw [(hconstructs hm).2] at hleft
      cases hleft
    obtain ⟨map, hget', himpl, hone, -⟩ := hfreed
    rw [hfd, objectAt_of_getElem hget']
    exact ⟨himpl, hone⟩

/-- **`add_bpf_map`** is lawful where its condition holds. -/
theorem create_exact (h : SharingInv w.shm) (env : CreateEnv) (fd fake : Int) (name : CStr) (attr : MapAttr) :
    ExactFor fresh w (.create env fd fake name attr) (SharingFits w (.create env fd fake name attr)) := by
  refine ⟨create_needed h, ?_⟩
  rintro ⟨hin, hdrop, hname⟩
  obtain ⟨n, handler, hfd, hget⟩ := getElem_of_inRange hin
  rw [hfd] at hdrop hname
  have hreleased := sharingInv_released h hget hdrop
  -- the name is free after the clearing, if the map that had it goes with the fd
  have hconstructs : mapInitOf w.shm.config attr ≠ .nothing → Constructs env w.shm.config attr ∧
      (released w.shm n).segment.named (MapHandler.new name attr).containerName = none := by
    intro hm
    refine ⟨(hname hm).1, Option.eq_none_iff_forall_ne_some.mpr fun a hleft => ?_⟩
    obtain ⟨hold, hnot⟩ := (released_named h hget).mp hleft
    obtain ⟨hobject, hone⟩ := (hname hm).2 a hold
    obtain ⟨j, hj, map, hget', himpl⟩ := objectAt_eq_some.mp hobject
    obtain rfl := Int.ofNat.inj hj
    exact hnot (freed_of_droppable hdrop hget' himpl hone)
  obtain ⟨hret, hinit⟩ := newMap_of_constructs hconstructs
  have happly : w.apply fresh (.create env fd fake name attr) =
      w.returned fresh attr ((released w.shm n).setMap env n (.new name attr)) := apply_create h hfd hget
  rw [returned_setMap env rfl attr hget, if_pos hret] at happly
  refine ⟨_, happly, sharingInv_created hreleased (unused_released hget) hinit rfl rfl, ?_⟩
  have hsharing := sharing_withShm fresh hreleased hget hinit rfl
  rw [sharing_released h hget hdrop] at hsharing
  show if mapInitOf w.shm.config attr = .nothing then _ = w.sharing.drop (Shm.fdOrFake fd fake) else
    ∃ a, ¬ w.sharing.Exists a ∧ _ = w.sharing.create (Shm.fdOrFake fd fake) a (fresh attr)
  rw [hfd]
  split
  · next hm => exact hsharing.trans (if_pos hm)
  · next hm =>
      refine ⟨w.shm.segment.next, ?_, hsharing.trans (if_neg hm)⟩
      rw [exists_iff]
      rintro ⟨name', hname'⟩
      exact absurd (h.object_lt hname') (Nat.lt_irrefl _)

/-! ### Dup -/

/-- A handler of the table, as a duplicate that shares its map. -/
theorem dup_eq {cell : Nat} (himpl : map.mapImplPtr = some a) (hcell : map.mapRefcntPtr = some cell) :
    (⟨map.attr, map.name, some a, some cell⟩ : MapHandler) = map := by
  rw [← himpl, ← hcell]

section Dup

variable {env : CreateEnv} {newfd fake : Int}

/-- `dup_bpf_map` to an fd out of the table. -/
theorem dupBpfMap_outOfRange (hi : shm.handlers[i]? = some (.map map)) (hin : ¬ shm.InRange (Shm.fdOrFake newfd fake)) :
    shm.dupBpfMap env i newfd fake = .error .outOfRange := by
  obtain ⟨hinOld, hslotOld⟩ := slot_of_getElem hi
  unfold Shm.dupBpfMap
  rw [isMapFd_eq, mapAt_of_getElem hi, if_neg (by simp), Shm.getHandler_eq hinOld]
  dsimp only
  unfold Shm.clearedFor Shm.getHandler
  rw [if_neg hin]
  rfl

/-- What `dup_bpf_map` does after it has cleared the slot. -/
theorem dupBpfMap_eq (h : SharingInv shm) (hi : shm.handlers[i]? = some (.map map))
    (hfd : Shm.fdOrFake newfd fake = n) (hget : shm.handlers[n]? = some handler) :
    shm.dupBpfMap env i newfd fake =
      if (n : Int) = i then .error .dangling
      else
        match map.mapImplPtr, map.mapRefcntPtr with
        | some impl, some cell =>
          match (released shm n).segment.refcnts cell with
          | none => .error .dangling
          | some count =>
            let dup : MapHandler := ⟨map.attr, map.name, some impl, some cell⟩
            { released shm n with segment := (released shm n).segment.setRefcnt cell (some (count + 1)) }.setMap env n dup
        | _, _ => (released shm n).setMap env n (.new (cstr "dup_" ++ map.name) map.attr) := by
  obtain ⟨hinOld, hslotOld⟩ := slot_of_getElem hi
  unfold Shm.dupBpfMap
  rw [isMapFd_eq, mapAt_of_getElem hi, if_neg (by simp), Shm.getHandler_eq hinOld, hslotOld, hfd]
  show (shm.clearedFor n >>= fun shm => _) = _
  rw [clearedFor_eq h hget]
  rfl

/-- The handler that is duplicated is left when another slot is cleared. -/
theorem source_released (hi : shm.handlers[i]? = some (.map map)) (hne : n ≠ i) :
    (released shm n).handlers[i]? = some (.map map) := (List.getElem?_set_ne hne).trans hi

/-- A map with a reference count is shared. -/
theorem dupBpfMap_counted (h : SharingInv shm) (hi : shm.handlers[i]? = some (.map map))
    (hfd : Shm.fdOrFake newfd fake = n) (hget : shm.handlers[n]? = some handler) (hne : n ≠ i) {cell : Nat}
    (himpl : map.mapImplPtr = some a) (hcell : map.mapRefcntPtr = some cell) :
    shm.dupBpfMap env i newfd fake = .ok (.returned n, joined (released shm n) n map a cell) := by
  have hcast : (n : Int) ≠ i := fun heq => hne (Int.ofNat.inj heq)
  have hmem := List.mem_of_getElem? (source_released hi hne)
  have hcount : (released shm n).segment.refcnts cell = some ((released shm n).holders a) := by
    cases wellHeld_released h hget hmem with
    | empty himpl' => exact absurd (himpl.symm.trans himpl') (by simp)
    | single _ hnone => exact absurd (hcell.symm.trans hnone) (by simp)
    | counted himpl' hcell' _ _ _ _ hcount =>
        obtain rfl := Option.some.inj (himpl.symm.trans himpl')
        obtain rfl := Option.some.inj (hcell.symm.trans hcell')
        exact hcount
  rw [dupBpfMap_eq h hi hfd hget, if_neg hcast, himpl, hcell]
  dsimp only
  rw [hcount]
  dsimp only
  rw [dup_eq himpl hcell]
  obtain ⟨hin, hfree⟩ := slot_of_getElem (unused_released hget)
  exact Shm.setMap_shared himpl hin hfree

/-- One without is created anew. -/
theorem dupBpfMap_uncounted (h : SharingInv shm) (hi : shm.handlers[i]? = some (.map map))
    (hfd : Shm.fdOrFake newfd fake = n) (hget : shm.handlers[n]? = some handler) (hne : n ≠ i)
    (hcell : map.mapRefcntPtr = none) :
    shm.dupBpfMap env i newfd fake = (released shm n).setMap env n (.new (cstr "dup_" ++ map.name) map.attr) := by
  have hcast : (n : Int) ≠ i := fun heq => hne (Int.ofNat.inj heq)
  rw [dupBpfMap_eq h hi hfd hget, if_neg hcast, hcell]
  cases map.mapImplPtr <;> rfl

/-- `dup_bpf_map` of a map. -/
theorem apply_dup (hi : w.shm.handlers[i]? = some (.map map)) :
    w.apply fresh (.dup env i newfd fake) = w.returned fresh map.attr (w.shm.dupBpfMap env i newfd fake) := by
  show (match w.shm.mapAt i with
    | some map => w.returned fresh map.attr (w.shm.dupBpfMap env i newfd fake)
    | none => some (some (-1), w)) = _
  rw [mapAt_of_getElem hi]

/-- What is expected of a duplication to another slot: its old map goes, and it joins the source's. -/
theorem dup_expected (hi : w.shm.handlers[i]? = some (.map map)) (hfd : Shm.fdOrFake newfd fake = n) (hne : n ≠ i)
    (s : Sharing Int Nat V) : w.Expected fresh s (.dup env i newfd fake) ↔ s = (w.sharing.drop n).join i n := by
  have hcast : (i : Int) ≠ n := fun heq => hne (Int.ofNat.inj heq).symm
  show s = (if w.shm.isMapFd i then w.sharing.share i (Shm.fdOrFake newfd fake) else w.sharing) ↔ _
  rw [isMapFd_eq, mapAt_of_getElem hi, if_pos Option.isSome_some, hfd]
  unfold Sharing.share
  rw [if_neg hcast]

/-- A map with a reference count is shared, if the old map of the slot can go. -/
theorem dup_exact_counted (h : SharingInv w.shm) (hi : w.shm.handlers[i]? = some (.map map))
    (hfd : Shm.fdOrFake newfd fake = n) (hget : w.shm.handlers[n]? = some handler) (hne : n ≠ i) {cell : Nat}
    (himpl : map.mapImplPtr = some a) (hcell : map.mapRefcntPtr = some cell) :
    ExactFor fresh w (.dup env i newfd fake) (Droppable w.shm n) := by
  have hleft := source_released hi hne
  have hunused := unused_released hget
  have happly : w.apply fresh (.dup env i newfd fake) = w.returned fresh map.attr (w.shm.dupBpfMap env i newfd fake) :=
    apply_dup hi
  rw [dupBpfMap_counted h hi hfd hget hne himpl hcell] at happly
  constructor
  · rintro ⟨next, hnext, howned, -⟩
    rw [happly] at hnext
    cases hnext
    by_contra hnot
    obtain ⟨b, name, hname, hzero⟩ := leaked h hget hnot
    have hpos := holders_pos.mpr ⟨map, List.mem_of_getElem? hleft, himpl⟩
    have hab : a ≠ b := by
      rintro rfl
      omega
    have hholders : (joined (released w.shm n) n map a cell).holders b = 0 := by
      rw [holders_joined hunused himpl, if_neg hab, hzero]
    exact not_owned (w := w.withShm fresh map.attr (joined (released w.shm n) n map a cell)) hname hholders howned
  · intro hdrop
    have hreleased := sharingInv_released h hget hdrop
    refine ⟨_, happly,
      sharingInv_joined hreleased hunused (List.mem_of_getElem? hleft) himpl hcell, (dup_expected hi hfd hne _).mpr ?_⟩
    rw [← sharing_released h hget hdrop]
    refine sharing_joined hreleased hunused hleft rfl fun b hb => ?_
    rw [released_next] at hb
    exact if_pos hb

/-- A map of a type without objects is created anew, which is the same: neither fd has an object. -/
theorem dup_exact_empty (h : SharingInv w.shm) (hi : w.shm.handlers[i]? = some (.map map))
    (hfd : Shm.fdOrFake newfd fake = n) (hget : w.shm.handlers[n]? = some handler) (hne : n ≠ i)
    (himpl : map.mapImplPtr = none) (hcell : map.mapRefcntPtr = none) (hinit : mapInitOf w.shm.config map.attr = .nothing) :
    ExactFor fresh w (.dup env i newfd fake) (Droppable w.shm n) := by
  have hcast : (i : Int) ≠ n := fun heq => hne (Int.ofNat.inj heq).symm
  have happly : w.apply fresh (.dup env i newfd fake) = w.returned fresh map.attr (w.shm.dupBpfMap env i newfd fake) :=
    apply_dup hi
  have hconstructs : mapInitOf w.shm.config map.attr ≠ .nothing → Constructs env w.shm.config map.attr ∧
      (released w.shm n).segment.named (MapHandler.new (cstr "dup_" ++ map.name) map.attr).containerName = none :=
    fun hm => absurd hinit hm
  obtain ⟨hret, hinited⟩ := newMap_of_constructs hconstructs
  rw [dupBpfMap_uncounted h hi hfd hget hne hcell, returned_setMap env rfl map.attr hget, if_pos hret] at happly
  constructor
  · rintro ⟨next, hnext, howned, -⟩
    rw [happly] at hnext
    cases hnext
    exact droppable_of_created h hget hinited rfl rfl howned
  · intro hdrop
    have hreleased := sharingInv_released h hget hdrop
    refine ⟨_, happly, sharingInv_created hreleased (unused_released hget) hinited rfl rfl,
      (dup_expected hi hfd hne _).mpr ?_⟩
    refine (sharing_withShm fresh hreleased hget hinited rfl).trans ((if_pos hinit).trans ?_)
    rw [sharing_released h hget hdrop]
    refine Sharing.ext (funext fun fd => ?_) rfl
    show Function.update w.shm.objectAt n none fd =
      Function.update (Function.update w.shm.objectAt n none) n (Function.update w.shm.objectAt n none i) fd
    rw [Function.update_of_ne hcast, objectAt_of_getElem hi, Function.update_idem]
    exact congrArg (Function.update w.shm.objectAt n · fd) himpl.symm

/-- A map without a reference count is created anew, and the new one is another map. -/
theorem not_lawful_dup_single (h : SharingInv w.shm) (hi : w.shm.handlers[i]? = some (.map map))
    (hfd : Shm.fdOrFake newfd fake = n) (hget : w.shm.handlers[n]? = some handler) (hne : n ≠ i)
    (himpl : map.mapImplPtr = some a) (hcell : map.mapRefcntPtr = none)
    (hinit : mapInitOf w.shm.config map.attr = .uncounted) (ha : a < w.shm.segment.next) :
    ¬ SharesLawfully fresh w (.dup env i newfd fake) := by
  have hcast : (i : Int) ≠ n := fun heq => hne (Int.ofNat.inj heq).symm
  have happly : w.apply fresh (.dup env i newfd fake) = w.returned fresh map.attr (w.shm.dupBpfMap env i newfd fake) :=
    apply_dup hi
  rw [dupBpfMap_uncounted h hi hfd hget hne hcell, returned_setMap env rfl map.attr hget] at happly
  rintro ⟨next, hnext, -, -, hexp⟩
  rw [happly] at hnext
  split at hnext
  swap
  · cases hnext
  next hret =>
  cases hnext
  have hexp := congrArg (fun s => s.object n) ((dup_expected hi hfd hne _).mp hexp)
  have hjoin : ((w.sharing.drop n).join i n).object n = some a := by
    show Function.update (Function.update w.shm.objectAt n none) n (Function.update w.shm.objectAt n none i) n = some a
    rw [Function.update_self, Function.update_of_ne hcast, objectAt_of_getElem hi]
    exact himpl
  have hnew (map' : MapHandler) (segment : Segment) :
      Shm.objectAt ⟨w.shm.config, (released w.shm n).handlers.set n (.map map'), segment⟩ n = map'.mapImplPtr :=
    (objectAt_set (unused_released hget) n).trans (if_pos rfl)
  have hobject := (hnew _ _).symm.trans (hexp.trans hjoin)
  -- the new object is behind all others, and the source's is one of them
  rcases constructs_of_mapInit rfl hret with hconstructs | hnone
  · have hinited := (mapInit_of_constructs fun _ => hconstructs).2
    have hfresh := (hinited.object rfl).trans (if_neg (show mapInitOf w.shm.config map.attr ≠ .nothing by rw [hinit]; decide))
    have heq : (released w.shm n).segment.next = a := Option.some.inj (hfresh.symm.trans hobject)
    rw [released_next] at heq
    omega
  · exact absurd (hnone.symm.trans hobject) (by simp)

/-- The step where the slot is in range and another's, by what the source's pointers point to. -/
theorem dup_exact_of_slots (h : SharingInv w.shm) (hi : w.shm.handlers[i]? = some (.map map))
    (hfd : Shm.fdOrFake newfd fake = n) (hget : w.shm.handlers[n]? = some handler) (hne : n ≠ i) :
    ExactFor fresh w (.dup env i newfd fake) (Droppable w.shm n ∧ mapInitOf w.shm.config map.attr ≠ .uncounted) := by
  cases h.held map (List.mem_of_getElem? hi) with
  | counted himpl hcell hinit hname ha hcellLt hcount =>
      rw [and_iff_left (by rw [hinit]; decide)]
      exact dup_exact_counted h hi hfd hget hne himpl hcell
  | empty himpl hcell hinit =>
      rw [and_iff_left (by rw [hinit]; decide)]
      exact dup_exact_empty h hi hfd hget hne himpl hcell hinit
  | single himpl hcell hinit hname ha hone =>
      exact ⟨fun hlawful => absurd hlawful (not_lawful_dup_single h hi hfd hget hne himpl hcell hinit ha),
        fun hfits => absurd hinit hfits.2⟩

/-- **`dup_bpf_map`** is lawful where its condition holds. -/
theorem dup_exact (h : SharingInv w.shm) (env : CreateEnv) (oldfd newfd fake : Int) :
    ExactFor fresh w (.dup env oldfd newfd fake) (SharingFits w (.dup env oldfd newfd fake)) := by
  cases hmap : w.shm.mapAt oldfd with
  | none =>
      have hnot : w.shm.isMapFd oldfd = false := by
        rw [isMapFd_eq, hmap]
        rfl
      have happly : w.apply fresh (.dup env oldfd newfd fake) = some (some (-1), w) := by
        show (match w.shm.mapAt oldfd with
          | some map => w.returned fresh map.attr (w.shm.dupBpfMap env oldfd newfd fake)
          | none => some (some (-1), w)) = _
        rw [hmap]
      constructor
      · intro _ map hmem
        rw [hmap] at hmem
        cases hmem
      · intro _
        refine ⟨_, happly, h, ?_⟩
        show w.sharing = if w.shm.isMapFd oldfd = true then _ else w.sharing
        rw [hnot, if_neg Bool.false_ne_true]
  | some map =>
      obtain ⟨i, rfl, hi⟩ := mem_mapAt.mp hmap
      have hfits : SharingFits w (.dup env i newfd fake) ↔ Shm.fdOrFake newfd fake ≠ i ∧
          w.shm.InRange (Shm.fdOrFake newfd fake) ∧ Droppable w.shm (Shm.fdOrFake newfd fake) ∧
            mapInitOf w.shm.config map.attr ≠ .uncounted := by
        unfold SharingFits
        simp only [hmap, Option.mem_some_iff, forall_eq']
      rw [hfits]
      by_cases hin : w.shm.InRange (Shm.fdOrFake newfd fake)
      swap
      · refine ⟨fun ⟨next, happly, _⟩ => ?_, fun hall => absurd hall.2.1 hin⟩
        rw [apply_dup hi, dupBpfMap_outOfRange hi hin] at happly
        cases happly
      obtain ⟨n, handler, hfd, hget⟩ := getElem_of_inRange hin
      rw [hfd] at hin ⊢
      -- the source is the fd that is cleared, or another one
      by_cases heq : n = i
      · -- the source is cleared before it is read
        have hcast : (n : Int) = i := by rw [heq]
        refine ⟨fun ⟨next, happly, _⟩ => ?_, fun hall => absurd hcast hall.1⟩
        rw [apply_dup hi, dupBpfMap_eq h hi hfd hget, if_pos hcast] at happly
        cases happly
      · have hcast : (n : Int) ≠ i := fun hcast => heq (Int.ofNat.inj hcast)
        have hexact : ExactFor fresh w (.dup env i newfd fake) _ := dup_exact_of_slots h hi hfd hget heq
        exact ⟨fun hlawful => ⟨hcast, hin, hexact.needed hlawful⟩, fun hall => hexact.enough hall.2.2⟩

end Dup

/-! ### Access -/

/-- **An access** to the map under an fd is always lawful. -/
theorem access_exact (h : SharingInv w.shm) (fd : Int) (f : V → V) : ExactFor fresh w (.access fd f) True := by
  refine ⟨fun _ => trivial, fun _ => ?_⟩
  cases hobject : w.shm.objectAt fd with
  | none =>
      refine ⟨(some (-1), w), ?_, h, ?_⟩
      · show (match w.shm.objectAt fd with | none => _ | some a => _) = _
        rw [hobject]
      · show w.sharing = w.sharing.write fd f
        unfold Sharing.write
        rw [show w.sharing.object fd = none from hobject]
  | some a =>
      refine ⟨(some 0, { w with contents := Function.update w.contents a (f (w.contents a)) }), ?_, h, ?_⟩
      · show (match w.shm.objectAt fd with | none => _ | some a => _) = _
        rw [hobject]
      · show _ = w.sharing.write fd f
        unfold Sharing.write
        rw [show w.sharing.object fd = some a from hobject]
        have hex : ∃ name, w.shm.segment.named name = some a := h.exists_iff.mpr (held_iff_holders.mp ⟨fd, hobject⟩)
        refine Sharing.ext rfl (funext fun b => ?_)
        show _ = Function.update w.sharing.value a ((w.sharing.value a).map f) b
        by_cases hab : b = a
        · rw [hab, Function.update_self, value_of_exists hex, value_of_exists (by exact hex)]
          exact congrArg some (Function.update_self ..)
        · rw [Function.update_of_ne hab]
          by_cases hexb : ∃ name, w.shm.segment.named name = some b
          · rw [value_of_exists hexb, value_of_exists (by exact hexb)]
            exact congrArg some (Function.update_of_ne hab ..)
          · rw [value_of_not_exists hexb, value_of_not_exists (by exact hexb)]

/-- **The condition is exact** for every operation. -/
theorem sharing_exact (h : SharingInv w.shm) (op : MapsOp V) : ExactFor fresh w op (SharingFits w op) := by
  cases op with
  | create env fd fake name attr => exact create_exact h env fd fake name attr
  | dup env oldfd newfd fake => exact dup_exact h env oldfd newfd fake
  | close fd => exact close_exact h fd
  | access fd f => exact access_exact h fd f

/-- The invariant along a run. -/
theorem sharingInv_apply (h : SharingInv w.shm) (hfits : SharingFits w op) (hnext : next ∈ w.apply fresh op) :
    SharingInv next.2.shm := by
  obtain ⟨next', happly, hinv, -⟩ := (sharing_exact h op).enough hfits
  obtain rfl := Option.some.inj (hnext.symm.trans happly)
  exact hinv

end Step

/-! ## Runs -/

/-- **Maps are shared lawfully** by every operation of a run exactly if every operation meets the condition. -/
theorem mapSharing_lawful_iff (config : BuildConfig) (maxFdCount : Nat) (fresh : MapAttr → V) (memory : Nat → V)
    (ops : List (MapsOp V)) :
    AllSteps (apply fresh) (SharesLawfully fresh) (.new config maxFdCount memory) ops ↔
      AllSteps (apply fresh) SharingFits (.new config maxFdCount memory) ops :=
  allSteps_iff_of_invariant (I := fun w => SharingInv w.shm) (fun _ op h => (sharing_exact h op).iff)
    (fun _ _ h hfits _ hnext => sharingInv_apply h hfits hnext) (sharingInv_new config maxFdCount) ops

/-- A hash map that is duplicated onto its own fd. -/
theorem mapSharing_not_lawful :
    ¬ AllSteps (apply fun _ => ()) (SharesLawfully fun _ => ()) (.new ⟨true, false⟩ 8 fun _ => ())
      [.create .ample 4 (-1) (cstr "m") ⟨1, 4, 4, 4, 0, 0, 0, 0, 0, 0, 0, 0, 0⟩, .dup .ample 4 4 (-1)] := by
  rintro ⟨-, hafter⟩
  obtain ⟨⟨next, happly, -⟩, -⟩ := hafter _ rfl
  cases happly

end MapsWorld

end Handler
