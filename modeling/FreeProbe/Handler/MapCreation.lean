import FreeProbe.Handler.MapTable
import FreeProbe.Lib.Machine

/-!
# `Handler.MapCreation` — what a map creation leaves behind

`add_bpf_map` puts the new handler into its slot, and `set_handler` then calls `map_init`, which constructs the object or
returns an error. The return value is dropped, and a constructor that throws leaves the handler where it is.
-/

namespace Handler

open Lib MapTable

/-! ## All or nothing

A creation gives an fd with a map behind it, or leaves the slot free. -/

/-- What a creation leaves: an fd of a map of this type with an object of its own, or a free slot. -/
def Settled (shm' : Shm) (name : CStr) (attr : MapAttr) (fd : Int) : CreateResult → Prop
  | .returned r =>
    if 0 ≤ r then ∃ map ∈ shm'.mapAt r, map.attr = attr ∧ map.name = name ∧
      ∃ a ∈ map.mapImplPtr, shm'.segment.named map.containerName = some a
    else shm'.slot fd = .unused
  | .threw => shm'.slot fd = .unused

/-- The creation stays in the table and is all or nothing, however it ends. -/
def AllOrNothing (env : CreateEnv) (shm : Shm) (fd fake : Int) (name : CStr) (attr : MapAttr) : Prop :=
  ∃ out, shm.addBpfMap env fd fake name attr = .ok out ∧ Settled out.2 name attr (Shm.fdOrFake fd fake) out.1

/-- The type is built in, with arguments that `map_init` and the constructor take, the name is free, and there is what the
constructor and the reference count ask for. -/
structure Creatable (env : CreateEnv) (shm : Shm) (name : CStr) (attr : MapAttr) : Prop where
  builtin    : mapInitOf shm.config attr ≠ .nothing
  constructs : Constructs env shm.config attr
  free       : shm.segment.named (MapHandler.new name attr).containerName = none

/-! ## What `set_handler` leaves

The handler is assigned first and initialised then, and the result of that is not looked at. -/

section Set

variable {env : CreateEnv} {shm shm' : Shm} {n : Nat} {name : CStr} {attr : MapAttr}

/-- **One creation in a free slot.** It settles just where the map can be created. -/
theorem settled_iff (hget : shm.handlers[n]? = some .unused) : (∃ out, shm.setMap env n (.new name attr) = .ok out ∧
    Settled out.2 name attr n out.1) ↔ Creatable env shm name attr := by
  have hiff := construction_iff env shm.config (.new name attr) shm.segment
  obtain ⟨hlt, -⟩ := List.getElem?_eq_some_iff.mp hget
  rw [setMap_eq env rfl hget]
  simp only [Except.ok.injEq, exists_eq_left']
  set out := (MapHandler.new name attr).mapInit env shm.config shm.segment with hout
  have hgetNew : (shm.handlers.set n (.map out.handler))[n]? = some (.map out.handler) := List.getElem?_set_self hlt
  have hmap : Shm.mapAt ⟨shm.config, shm.handlers.set n (.map out.handler), out.segment⟩ n = some out.handler :=
    mapAt_of_getElem hgetNew
  have hused : Shm.slot ⟨shm.config, shm.handlers.set n (.map out.handler), out.segment⟩ n ≠ .unused := by
    rw [(slot_of_getElem hgetNew).2]
    exact fun heq => by cases heq
  -- an object was constructed, or the constructor threw
  by_cases hcons : construction env shm.config (.new name attr) shm.segment = some .constructed
  · obtain ⟨hattr, hname, himpl, hnamed, hret⟩ := mapInit_with hcons
    obtain ⟨hbuiltin, hfree, hchecked, hgranted⟩ := hiff.mp hcons
    by_cases hrefcnt : mapInitOf shm.config attr = .counted → env.refcnt = true
    · rw [if_pos (hret.mpr hrefcnt)]
      refine iff_of_true ?_ ⟨hbuiltin, ⟨hchecked, hgranted, hrefcnt⟩, hfree⟩
      rw [Settled, if_pos (Int.natCast_nonneg n)]
      refine ⟨out.handler, hmap, hattr, hname, shm.segment.next, himpl, ?_⟩
      rw [MapHandler.containerName, hname]
      exact hnamed
    · rw [if_neg (mt hret.mp hrefcnt)]
      exact iff_of_false hused fun hall => hrefcnt hall.constructs.refcnt
  · have hnone := mapInit_without (show (MapHandler.new name attr).mapImplPtr = none from rfl) hcons
    refine iff_of_false ?_ fun hall =>
      hcons (hiff.mpr ⟨hall.builtin, hall.free, hall.constructs.checked, hall.constructs.granted⟩)
    split
    · rw [Settled, if_pos (Int.natCast_nonneg n)]
      rintro ⟨map, hmem, -, -, a, ha, -⟩
      rw [hmap] at hmem
      cases hmem
      rw [← hout] at hnone
      rw [hnone] at ha
      cases ha
    · exact hused

/-- Setting a slot leaves the configuration. -/
theorem putHandler_config (shm : Shm) {fd : Int} {handler : HandlerVariant} (h : shm.putHandler fd handler = .ok shm') :
    shm'.config = shm.config := by
  unfold Shm.putHandler at h
  split at h
  · cases h
    rfl
  · cases h

/-- So does clearing one. -/
theorem clearIdAt_config {fd : Int} (h : shm.clearIdAt fd = .ok shm') : shm'.config = shm.config := by
  unfold Shm.clearIdAt at h
  split at h
  swap
  · cases h
    rfl
  cases hslot : shm.slot fd with
  | map map =>
      simp only [hslot] at h
      obtain ⟨segment, -, hput⟩ := Shm.bind_ok h
      exact putHandler_config ⟨shm.config, shm.handlers, segment⟩ hput
  | perfEvent perf =>
      simp only [hslot] at h
      exact putHandler_config (shm.clearLinks _) h
  | prog prog =>
      simp only [hslot] at h
      exact putHandler_config (shm.clearLinks _) h
  | _ =>
      simp only [hslot] at h
      exact putHandler_config shm h

/-- What is left when the handler at an fd goes: its slot is free, and no map is new. -/
theorem clearIdAt_left (h : shm.clearIdAt n = .ok shm') (hin : shm.InRange n) :
    shm'.handlers[n]? = some .unused ∧ ∀ map, .map map ∈ shm'.handlers → .map map ∈ shm.handlers := by
  rcases Shm.clearIdAt_ok h with ⟨hout, -⟩ | ⟨-, hhandlers⟩
  · exact absurd hin hout
  obtain ⟨i, hi, hlt⟩ := Shm.inRange_iff.mp hin
  cases hi
  -- the links that go with the fd are not maps
  have hlinks : ∀ (toFd : LinkHandler → Bool) (map : MapHandler),
      .map map ∈ (shm.clearLinks toFd).handlers → .map map ∈ shm.handlers := by
    intro toFd map hmem
    obtain ⟨handler, hhandler, heq⟩ := List.mem_map.mp hmem
    cases handler with
    | link link =>
        dsimp only at heq
        split at heq <;> cases heq
    | _ => exact heq ▸ hhandler
  rw [hhandlers]
  constructor
  · have hlen : n < (shm.cleared n).length := by rwa [Shm.length_cleared]
    unfold Shm.cleared at hlen ⊢
    rw [List.length_set] at hlen
    exact List.getElem?_set_self hlen
  · intro map hmem
    unfold Shm.cleared at hmem
    rcases List.mem_or_eq_of_mem_set hmem with hmem | heq
    · split at hmem
      · exact hlinks _ map hmem
      · exact hlinks _ map hmem
      · exact hmem
    · cases heq

/-- The table that the old handler of a slot leaves. -/
theorem clearUsed_left {fd : Int} {old : HandlerVariant} (hold : shm.getHandler fd = .ok old)
    (hclear : shm.clearUsed fd old = .ok shm') : ∃ i : Nat, fd = i ∧ shm'.handlers[i]? = some .unused ∧
      shm'.config = shm.config ∧ ∀ map, .map map ∈ shm'.handlers → .map map ∈ shm.handlers := by
  by_cases hin : shm.InRange fd
  swap
  · rw [Shm.getHandler, if_neg hin] at hold
    cases hold
  rw [Shm.getHandler_eq hin, Except.ok.injEq] at hold
  subst hold
  obtain ⟨i, rfl, hi⟩ := Shm.inRange_iff.mp hin
  refine ⟨i, rfl, ?_⟩
  unfold Shm.clearUsed at hclear
  split at hclear
  · obtain ⟨hfree, hmaps⟩ := clearIdAt_left hclear hin
    exact ⟨hfree, clearIdAt_config hclear, hmaps⟩
  · next hunused =>
      rw [Except.ok.injEq] at hclear
      subst hclear
      rw [Shm.getElem_slot hi, not_not.mp hunused]
      exact ⟨rfl, rfl, fun map hmem => hmem⟩

/-- After the clearing the slot is free, and no map has come. -/
theorem clearedFor_left {fd : Int} (h : shm.clearedFor fd = .ok shm') : ∃ i : Nat, fd = i ∧
    shm'.handlers[i]? = some .unused ∧ shm'.config = shm.config ∧
      ∀ map, .map map ∈ shm'.handlers → .map map ∈ shm.handlers := by
  obtain ⟨old, hold, hclear⟩ := Shm.bind_ok h
  exact clearUsed_left hold hclear

/-- `add_bpf_map` is the clearing and then `set_handler`. -/
theorem addBpfMap_cleared {fd fake : Int} {left : Shm} (h : shm.clearedFor (Shm.fdOrFake fd fake) = .ok left) :
    shm.addBpfMap env fd fake name attr = left.setMap env (Shm.fdOrFake fd fake) (.new name attr) := by
  unfold Shm.addBpfMap
  dsimp only
  rw [h]
  rfl

/-- A fault in the clearing is one of `add_bpf_map`. -/
theorem addBpfMap_fault {fd fake : Int} {fault : Fault} (h : shm.clearedFor (Shm.fdOrFake fd fake) = .error fault) :
    shm.addBpfMap env fd fake name attr = .error fault := by
  unfold Shm.addBpfMap
  dsimp only
  rw [h]
  rfl

/-- **One creation.** It is all or nothing just where the map can be created in the table that the old handler left. -/
theorem allOrNothing_iff (fd fake : Int) : AllOrNothing env shm fd fake name attr ↔
    ∃ left, shm.clearedFor (Shm.fdOrFake fd fake) = .ok left ∧ Creatable env left name attr := by
  unfold AllOrNothing
  cases hclear : shm.clearedFor (Shm.fdOrFake fd fake) with
  | error e =>
      rw [addBpfMap_fault hclear]
      exact iff_of_false (fun ⟨out, hout, _⟩ => by cases hout) (fun ⟨left, hleft, _⟩ => by cases hleft)
  | ok left =>
      obtain ⟨i, hfd, hget, -⟩ := clearedFor_left hclear
      rw [addBpfMap_cleared hclear, hfd]
      simp only [Except.ok.injEq, exists_eq_left']
      exact settled_iff hget

end Set

/-! ## Runs

Between two creations other handlers come and go. What is behind an fd changes only by what is done to it. -/

/-- Operations on a table: creations, copies of a map, handlers of other kinds that are put, and handlers that go. -/
inductive CreationOp where
  | create (env : CreateEnv) (fd fake : Int) (name : CStr) (attr : MapAttr)
  | dup (env : CreateEnv) (oldfd newfd fake : Int)
  | put (fd : Int) (handler : HandlerVariant) (other : handler.isMap = false)
  | close (fd : Int)

/-- The operations that put maps into the table, and take them out. -/
def applyCreation (shm : Shm) : CreationOp → Option (Unit × Shm)
  | .create env fd fake name attr => (shm.addBpfMap env fd fake name attr).toOption.map fun out => ((), out.2)
  | .dup env oldfd newfd fake => (shm.dupBpfMap env oldfd newfd fake).toOption.map fun out => ((), out.2)
  | .put fd handler _ => (shm.setHandler fd handler).toOption.map fun out => ((), out.2)
  | .close fd => (shm.closeFd fd).toOption.map fun shm => ((), shm)

/-- A creation is all or nothing, and so is the copy of a map that cannot be shared, which is a map of its own. -/
def CreatesWhole (shm : Shm) : CreationOp → Prop
  | .create env fd fake name attr => AllOrNothing env shm fd fake name attr
  | .dup env oldfd newfd fake =>
    let fd := Shm.fdOrFake newfd fake
    ∀ map ∈ shm.mapAt oldfd, map.canShareMapImpl = false → fd ≠ oldfd →
      ∃ out, shm.dupBpfMap env oldfd newfd fake = .ok out ∧ Settled out.2 (cstr "dup_" ++ map.name) map.attr fd out.1
  | _ => True

/-- The fd is in the table, and when its old handler is gone its map can be created. -/
def CanCreate (shm : Shm) : CreationOp → Prop
  | .create env fd fake name attr =>
    ∃ left, shm.clearedFor (Shm.fdOrFake fd fake) = .ok left ∧ Creatable env left name attr
  | .dup env oldfd newfd fake =>
    let fd := Shm.fdOrFake newfd fake
    ∀ map ∈ shm.mapAt oldfd, map.canShareMapImpl = false → fd ≠ oldfd →
      ∃ left, shm.clearedFor fd = .ok left ∧ Creatable env left (cstr "dup_" ++ map.name) map.attr
  | _ => True

/-- Each map in the table has an object, of a type that `map_init` makes one for. -/
structure Backed (config : BuildConfig) (shm : Shm) : Prop where
  built : shm.config = config
  maps  : ∀ map, .map map ∈ shm.handlers → map.mapImplPtr.isSome ∧ mapInitOf config map.attr ≠ .nothing

section Runs

variable {config : BuildConfig} {shm shm' : Shm}

/-- A table without maps. -/
theorem backed_new (config : BuildConfig) (maxFdCount : Nat) : Backed config (.new config maxFdCount) := by
  refine ⟨rfl, fun map hmem => ?_⟩
  cases List.eq_of_mem_replicate hmem

/-- What is left of a table stays backed. -/
theorem Backed.left (h : Backed config shm) (hconfig : shm'.config = shm.config)
    (hmaps : ∀ map, .map map ∈ shm'.handlers → .map map ∈ shm.handlers) : Backed config shm' :=
  ⟨hconfig.trans h.built, fun map hmem => h.maps map (hmaps map hmem)⟩

/-- A slot that is set to a handler with an object, or to no map. -/
theorem Backed.set (h : Backed config shm) {n : Nat} {handler : HandlerVariant} {segment : Segment}
    (hhandler : ∀ map, handler = .map map → map.mapImplPtr.isSome ∧ mapInitOf config map.attr ≠ .nothing) :
    Backed config ⟨shm.config, shm.handlers.set n handler, segment⟩ := by
  refine ⟨h.built, fun map hmem => ?_⟩
  rcases List.mem_or_eq_of_mem_set hmem with hmem | heq
  · exact h.maps map hmem
  · exact hhandler map heq.symm

/-- A creation that is granted leaves a map with its object. -/
theorem Backed.create (h : Backed config shm) {env : CreateEnv} {fd fake : Int} {name : CStr} {attr : MapAttr}
    (hcan : ∃ left, shm.clearedFor (Shm.fdOrFake fd fake) = .ok left ∧ Creatable env left name attr)
    {out : CreateResult × Shm} (hout : shm.addBpfMap env fd fake name attr = .ok out) : Backed config out.2 := by
  obtain ⟨left, hclear, hcreatable⟩ := hcan
  obtain ⟨i, hfd, hget, hconfig, hmaps⟩ := clearedFor_left hclear
  have hleft := h.left hconfig hmaps
  rw [addBpfMap_cleared hclear, hfd, setMap_eq env rfl hget] at hout
  cases hout
  refine hleft.set fun map heq => ?_
  obtain rfl := HandlerVariant.map.inj heq
  have hcons := (construction_iff _ _ (.new name attr) _).mpr
    ⟨hcreatable.builtin, hcreatable.free, hcreatable.constructs.checked, hcreatable.constructs.granted⟩
  obtain ⟨hattr, -, himpl, -⟩ := mapInit_with hcons
  rw [himpl, hattr, ← hleft.built]
  exact ⟨rfl, hcreatable.builtin⟩

/-- A handler of another kind. -/
theorem Backed.setHandler (h : Backed config shm) {fd r : Int} {handler : HandlerVariant} (hmap : handler.isMap = false)
    (hset : shm.setHandler fd handler = .ok (r, shm')) : Backed config shm' := by
  by_cases hall : shm.isAllocated fd = true
  · rw [Shm.setHandler_allocated hall] at hset
    cases hset
    exact h
  by_cases hunused : handler = .unused
  · unfold Shm.setHandler at hset
    rw [if_neg hall, if_pos hunused] at hset
    cases hset
    exact h
  by_cases hin : shm.InRange fd
  swap
  · rw [Shm.setHandler_outOfRange hunused hin] at hset
    cases hset
  rw [Shm.setHandler_free hunused hin (Shm.free_of_not_isAllocated hall hin)] at hset
  cases hset
  refine h.set fun map heq => ?_
  subst heq
  cases hmap

/-- A copy of a handler with an object. -/
theorem Backed.setMap (h : Backed config shm) {env : CreateEnv} {fd : Int} {map : MapHandler} {result : CreateResult}
    {impl : Nat} (himpl : map.mapImplPtr = some impl) (hbuiltin : mapInitOf config map.attr ≠ .nothing)
    (hset : shm.setMap env fd map = .ok (result, shm')) : Backed config shm' := by
  by_cases hall : shm.isAllocated fd = true
  · rw [Shm.setMap_allocated hall] at hset
    cases hset
    exact h
  by_cases hin : shm.InRange fd
  swap
  · rw [Shm.setMap_outOfRange hin] at hset
    cases hset
  rw [Shm.setMap_shared himpl hin (Shm.free_of_not_isAllocated hall hin)] at hset
  cases hset
  refine h.set fun map' heq => ?_
  obtain rfl := HandlerVariant.map.inj heq
  exact ⟨by rw [himpl]; rfl, hbuiltin⟩

/-- A map that cannot be shared is copied by a creation. -/
theorem dupBpfMap_unshared {env : CreateEnv} {oldfd newfd fake : Int} {map : MapHandler} (hmap : shm.mapAt oldfd = some map)
    (hshare : map.canShareMapImpl = false) (hne : Shm.fdOrFake newfd fake ≠ oldfd) :
    shm.dupBpfMap env oldfd newfd fake = shm.addBpfMap env newfd fake (cstr "dup_" ++ map.name) map.attr := by
  obtain ⟨n, rfl, hget⟩ := mem_mapAt.mp hmap
  obtain ⟨hin, hslot⟩ := slot_of_getElem hget
  unfold Shm.dupBpfMap Shm.addBpfMap
  rw [isMapFd_eq, hmap, if_neg (by simp), Shm.getHandler_eq hin, hslot]
  dsimp only
  show (shm.clearedFor (Shm.fdOrFake newfd fake) >>= fun left => _) = _
  cases shm.clearedFor (Shm.fdOrFake newfd fake) with
  | error e => rfl
  | ok left =>
      show (if Shm.fdOrFake newfd fake = n then _ else _) = left.setMap env (Shm.fdOrFake newfd fake) _
      rw [if_neg hne]
      unfold MapHandler.canShareMapImpl at hshare
      cases himpl : map.mapImplPtr with
      | none => rfl
      | some impl =>
          cases hcell : map.mapRefcntPtr with
          | none => rfl
          | some cell =>
              rw [himpl, hcell] at hshare
              cases hshare

/-- So does a duplication. -/
theorem Backed.dup (h : Backed config shm) {env : CreateEnv} {oldfd newfd fake : Int}
    (hcan : CanCreate shm (.dup env oldfd newfd fake)) {out : CreateResult × Shm}
    (hdup : shm.dupBpfMap env oldfd newfd fake = .ok out) : Backed config out.2 := by
  cases hmap : shm.mapAt oldfd with
  | none =>
      unfold Shm.dupBpfMap at hdup
      rw [isMapFd_eq, hmap, if_pos (by simp)] at hdup
      cases hdup
      exact h
  | some map =>
      obtain ⟨n, rfl, hget⟩ := mem_mapAt.mp hmap
      obtain ⟨hin, hslot⟩ := slot_of_getElem hget
      -- onto itself
      by_cases heq : Shm.fdOrFake newfd fake = n
      · -- the source is cleared before it is read
        unfold Shm.dupBpfMap at hdup
        rw [isMapFd_eq, hmap, if_neg (by simp), Shm.getHandler_eq hin, hslot] at hdup
        obtain ⟨left, -, hdup⟩ := Shm.bind_ok (x := shm.clearedFor (Shm.fdOrFake newfd fake)) hdup
        rw [heq] at hdup
        dsimp only at hdup
        rw [if_pos rfl] at hdup
        cases hdup
      -- a type that is not shared is refused
      by_cases hshare : map.canShareMapImpl = false
      · rw [dupBpfMap_unshared hmap hshare heq] at hdup
        exact h.create (hcan map hmap hshare heq) hdup
      unfold Shm.dupBpfMap at hdup
      rw [isMapFd_eq, hmap, if_neg (by simp), Shm.getHandler_eq hin, hslot] at hdup
      obtain ⟨left, hclear, hdup⟩ := Shm.bind_ok (x := shm.clearedFor (Shm.fdOrFake newfd fake)) hdup
      obtain ⟨i, -, -, hconfig, hmaps⟩ := clearedFor_left hclear
      have hleft := h.left hconfig hmaps
      have hsegment : ∀ segment, Backed config ⟨left.config, left.handlers, segment⟩ :=
        fun segment => ⟨hleft.built, hleft.maps⟩
      dsimp only at hdup
      rw [if_neg heq] at hdup
      split at hdup
      · split at hdup
        · cases hdup
        · have hshared (impl cell : Nat) :
              (MapHandler.mk map.attr map.name (some impl) (some cell)).mapImplPtr = some impl := rfl
          exact (hsegment _).setMap (hshared _ _) (h.maps map (List.mem_of_getElem? hget)).2 hdup
      · next himpl =>
          refine absurd ?_ hshare
          unfold MapHandler.canShareMapImpl
          cases himpl' : map.mapImplPtr with
          | none => rfl
          | some impl =>
              cases hcell : map.mapRefcntPtr with
              | none => rfl
              | some cell => exact absurd hcell (himpl impl cell himpl')

/-- A step that is taken has a result. -/
theorem mem_toOption_map {α β : Type} {x : Except Fault α} {f : α → β} {b : β}
    (h : b ∈ x.toOption.map f) : ∃ a, x = .ok a ∧ f a = b := by
  cases x with
  | error e => cases h
  | ok a => exact ⟨a, rfl, Option.some.inj h⟩

/-- One operation keeps an object behind each map. -/
theorem Backed.step (h : Backed config shm) (op : CreationOp) (hcan : CanCreate shm op) :
    ∀ next ∈ applyCreation shm op, Backed config next.2 := by
  intro next hnext
  cases op with
  | create env fd fake name attr =>
      obtain ⟨out, hout, rfl⟩ := mem_toOption_map hnext
      exact h.create hcan hout
  | dup env oldfd newfd fake =>
      obtain ⟨out, hout, rfl⟩ := mem_toOption_map hnext
      exact h.dup hcan hout
  | put fd handler other =>
      obtain ⟨out, hout, rfl⟩ := mem_toOption_map hnext
      exact h.setHandler other hout
  | close fd =>
      obtain ⟨left, hleft, rfl⟩ := mem_toOption_map hnext
      by_cases hin : shm.InRange fd
      · obtain ⟨n, rfl, hn⟩ := Shm.inRange_iff.mp hin
        exact h.left (clearIdAt_config hleft) (clearIdAt_left hleft hin).2
      · rcases Shm.clearIdAt_ok hleft with ⟨-, hsame⟩ | ⟨hin', -⟩
        · exact hsame ▸ h
        · exact absurd hin' hin

/-- An fd that is reported as a map has an object. -/
theorem Backed.isMapFd (h : Backed config shm) {fd : Int} (hmap : shm.isMapFd fd = true) : (shm.objectAt fd).isSome := by
  rw [isMapFd_eq] at hmap
  obtain ⟨map, hmap⟩ := Option.isSome_iff_exists.mp hmap
  obtain ⟨n, rfl, hget⟩ := mem_mapAt.mp hmap
  rw [objectAt_of_getElem hget]
  exact (h.maps map (List.mem_of_getElem? hget)).1

end Runs

/-- **Map creation is all or nothing** in every run on a new table if and only if each map can be created: its fd is in the
table, its type is built in, its arguments pass, its name is free, and its constructor gets what it asks for. Then every fd
that is reported as a map has an object, in every state of the run. -/
theorem mapCreation_whole_iff (config : BuildConfig) (maxFdCount : Nat) (ops : List CreationOp) :
    (AllSteps applyCreation CreatesWhole (.new config maxFdCount) ops ↔
      AllSteps applyCreation CanCreate (.new config maxFdCount) ops) ∧
    (AllSteps applyCreation CanCreate (.new config maxFdCount) ops →
      AllSteps applyCreation (fun shm _ => ∀ fd, shm.isMapFd fd = true → (shm.objectAt fd).isSome)
        (.new config maxFdCount) ops) := by
  constructor
  · refine allSteps_congr (fun shm op => ?_) _ ops
    cases op with
    | create env fd fake name attr => exact allOrNothing_iff fd fake
    | dup env oldfd newfd fake =>
        refine forall₂_congr fun map hmap => forall₂_congr fun hshare hne => ?_
        rw [dupBpfMap_unshared hmap hshare hne]
        exact allOrNothing_iff newfd fake
    | _ => exact Iff.rfl
  · have hkeeps : ∀ (shm : Shm) (op : CreationOp), Backed config shm → CanCreate shm op →
        ∀ next ∈ applyCreation shm op, Backed config next.2 := fun shm op h => h.step op
    have hobjects : ∀ (shm : Shm) (op : CreationOp), Backed config shm → CanCreate shm op →
        ∀ fd, shm.isMapFd fd = true → (shm.objectAt fd).isSome := fun _ _ h _ _ hmap => h.isMapFd hmap
    exact allSteps_of_invariant hobjects hkeeps (backed_new config maxFdCount)

/-- A ring buffer of 3 entries, as `bpftime_maps_create` is asked for it. -/
def threeEntries : MapAttr := ⟨BPF_MAP_TYPE_RINGBUF, 0, 0, 3, 0, 0, 0, 0, 0, 0, 0, 0, 1024⟩

/-- It gets an fd, and no object. -/
theorem mapCreation_not_whole : ¬ ∀ (config : BuildConfig) (maxFdCount : Nat) (ops : List CreationOp),
    AllSteps applyCreation CreatesWhole (.new config maxFdCount) ops := by
  intro hall
  have hcreate := (hall ⟨true, false⟩ 4 [.create .ample 3 (-1) [] threeEntries]).1
  obtain ⟨left, hleft, hcan⟩ := (allOrNothing_iff 3 (-1)).mp hcreate
  cases hleft
  exact hcan.builtin (by decide)

end Handler
