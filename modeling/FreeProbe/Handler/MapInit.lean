import FreeProbe.Maps.Common
import Mathlib.Logic.Function.Basic

/-!
# `Handler.MapInit` — `bpf_map_handler`

The attributes of a map, the part of the shared memory segment that maps live in (the named objects and the reference
counts), and what `map_init` and `map_free` do to it. `map_init` constructs the object of a map under the name of its
container; it throws where the name is taken, where the constructor does not take the arguments, and where something that
it asks the segment, the kernel or the GPU driver for is not to be had. What these answer is a `CreateEnv`.
-/

namespace Handler

/-- The bytes of a C string, without the 0 at its end. -/
abbrev CStr := List Maps.Byte

def cstr (s : String) : CStr := s.toList.map fun c => BitVec.ofNat 8 c.toNat

/-! ## The handler of a map -/

/-- `bpf_map_attr` -/
structure MapAttr where
  type                  : BitVec 32
  keySize               : BitVec 32
  valueSize             : BitVec 32
  maxEnts               : BitVec 32
  flags                 : BitVec 64
  ifindex               : BitVec 32
  btfVmlinuxValueTypeId : BitVec 32
  btfId                 : BitVec 32
  btfKeyTypeId          : BitVec 32
  btfValueTypeId        : BitVec 32
  mapExtra              : BitVec 64
  kernelBpfMapId        : BitVec 32
  gpuThreadCount        : BitVec 64
deriving DecidableEq

/-- `bpf_map_handler`: the two pointers are the object and the reference count they point to. -/
structure MapHandler where
  attr         : MapAttr
  name         : CStr
  mapImplPtr   : Option Nat
  mapRefcntPtr : Option Nat
deriving DecidableEq

/-- `bpf_map_handler::bpf_map_handler` -/
def MapHandler.new (name : CStr) (attr : MapAttr) : MapHandler := ⟨attr, name, none, none⟩

def MapHandler.containerName (handler : MapHandler) : CStr := cstr "ebpf_map_fd_" ++ handler.name

/-! ## The segment -/

/-- What ends an operation: an index outside of the table, or a read of what is gone. -/
inductive Fault where
  | outOfRange
  | dangling
deriving DecidableEq

/-- What the code is built with: `BPFTIME_BUILD_WITH_LIBBPF` and `BPFTIME_ENABLE_CUDA_ATTACH`. -/
structure BuildConfig where
  libbpf : Bool
  cuda   : Bool
deriving DecidableEq

/-- The named objects, the reference counts, and the next address that was never used. -/
structure Segment where
  named   : CStr → Option Nat
  refcnts : Nat → Option Nat
  next    : Nat

namespace Segment

def empty : Segment := ⟨fun _ => none, fun _ => none, 0⟩

/-- `memory.construct<T>(name)(..)`, once the constructor has run: the segment with one more object. -/
def constructed (segment : Segment) (name : CStr) : Segment :=
  { segment with named := Function.update segment.named name (some segment.next), next := segment.next + 1 }

/-- `memory.construct<map_refcount_t>(anonymous_instance)(1)` -/
def constructRefcnt (segment : Segment) : Nat × Segment :=
  (segment.next,
    { segment with refcnts := Function.update segment.refcnts segment.next (some 1), next := segment.next + 1 })

/-- `memory.destroy<T>(name)` -/
def destroy (segment : Segment) (name : CStr) : Segment :=
  { segment with named := Function.update segment.named name none }

def setRefcnt (segment : Segment) (cell : Nat) (count : Option Nat) : Segment :=
  { segment with refcnts := Function.update segment.refcnts cell count }

end Segment

/-! ## `map_init` -/

/-- What `map_init` does for a type. -/
inductive MapInit where
  | counted
  | uncounted
  | nothing
deriving DecidableEq

/-- `BPF_MAP_TYPE_HASH`, `ARRAY`, `PERF_EVENT_ARRAY`, `PERCPU_HASH`, `PERCPU_ARRAY`, `LRU_HASH`, `LPM_TRIE`,
    `ARRAY_OF_MAPS`, `QUEUE` and `STACK`. -/
def plainTypes : List (BitVec 32) := [1, 2, 4, 5, 6, 9, 11, 12, 22, 23]

def BPF_MAP_TYPE_RINGBUF : BitVec 32 := 27
def BPF_MAP_TYPE_BLOOM_FILTER : BitVec 32 := 30

/-- `PROG_ARRAY`, `STACK_TRACE` and the `KERNEL_USER` types. -/
def libbpfTypes : List (BitVec 32) := [3, 7, 1001, 1002, 1006, 1004]

/-- The GPU types with a reference count: `GPU_HASH_MAP`, `PERGPUTD_ARRAY_MAP`, `GPU_ARRAY_MAP`,
    `GPU_KERNEL_SHARED_ARRAY_MAP` and `GPU_RINGBUF_MAP`. -/
def gpuTypes : List (BitVec 32) := [1501, 1502, 1503, 1504, 1527]

/-- `PERGPUTD_ARRAY_HOST_MAP` and `GPU_ARRAY_HOST_MAP`. -/
def gpuHostTypes : List (BitVec 32) := [1512, 1513]

/-- The bits set in `max_entries`. -/
def popCnt (n : BitVec 32) : Nat := ((List.range 32).filter n.getLsbD).length

def mapInitOf (config : BuildConfig) (attr : MapAttr) : MapInit :=
  if attr.type ∈ plainTypes then .counted
  else if attr.type = BPF_MAP_TYPE_RINGBUF then if popCnt attr.maxEnts = 1 then .counted else .nothing
  else if attr.type = BPF_MAP_TYPE_BLOOM_FILTER then if attr.keySize = 0 then .counted else .nothing
  else if config.libbpf ∧ attr.type ∈ libbpfTypes then .counted
  else if config.cuda ∧ attr.type ∈ gpuTypes then .counted
  else if config.cuda ∧ attr.type ∈ gpuHostTypes then .uncounted
  else .nothing

/-- How a constructor ends. -/
inductive ConstructResult where
  | constructed
  | badAlloc
  | thrown
deriving DecidableEq

/-- What a creation gets from outside: `BPFTIME_MAP_GPU_THREAD_COUNT` and the number it is, how the constructor ends with so
many threads once its own checks are passed, whether there is memory for the reference count, and what `alloc_map` returns
where types that are not built in are allowed. -/
structure CreateEnv where
  threadCountEnv : Option (Option (BitVec 64))
  construct      : Nat → ConstructResult
  refcnt         : Bool
  nonBuiltin     : Option Int

/-- Whatever is asked for is there. -/
def CreateEnv.ample : CreateEnv := ⟨none, fun _ => .constructed, true, none⟩

def PERGPUTD_ARRAY_MAP : BitVec 32 := 1502
def GPU_RINGBUF_MAP : BitVec 32 := 1527

/-- `get_thread_count`; what is not a number throws. -/
def CreateEnv.getThreadCount (env : CreateEnv) (attr : MapAttr) : Option Nat :=
  match env.threadCountEnv with
  | some count => count.map BitVec.toNat
  | none => some attr.gpuThreadCount.toNat

/-- The arguments that the constructor of a type throws for: those of `PERF_EVENT_ARRAY` and `PROG_ARRAY`,
`STACK_TRACE`, `LPM_TRIE`, and `QUEUE`, `STACK` and `BLOOM_FILTER`. -/
def constructorThrows (attr : MapAttr) : Bool :=
  if attr.type = 4 ∨ attr.type = 3 then attr.keySize ≠ 4 ∨ attr.valueSize ≠ 4
  else if attr.type = 7 then attr.keySize ≠ 4 ∨ attr.valueSize % 8 ≠ 0
  else if attr.type = 11 then attr.keySize < 5 ∨ attr.keySize > 260 ∨ attr.valueSize = 0 ∨ attr.maxEnts = 0
  else if attr.type = 22 ∨ attr.type = 23 ∨ attr.type = BPF_MAP_TYPE_BLOOM_FILTER then
    attr.valueSize = 0 ∨ attr.maxEnts = 0
  else false

/-- `memory.construct<T>(container_name)(..)`: a name that is taken throws before the constructor runs. -/
def tryConstruct (env : CreateEnv) (handler : MapHandler) (segment : Segment) (threads : Nat) : ConstructResult :=
  match segment.named handler.containerName with
  | some _ => .thrown
  | none => if constructorThrows handler.attr then .thrown else env.construct threads

/-- `while (thread_count > 0)` of the GPU ring buffer, which halves the count when memory is short; the first number
bounds the rounds. -/
def ringbufLoop (attempt : Nat → ConstructResult) : Nat → Nat → ConstructResult
  | 0, _ => .thrown
  | fuel + 1, threads =>
    match attempt threads with
    | .constructed => .constructed
    | .thrown => .thrown
    | .badAlloc => if threads ≤ 1 then .badAlloc else ringbufLoop attempt fuel (max 1 (threads / 2))

/-- The constructor call of a type, where it makes one. -/
def construction (env : CreateEnv) (config : BuildConfig) (handler : MapHandler) (segment : Segment) :
    Option ConstructResult :=
  if mapInitOf config handler.attr = .nothing then none
  else if handler.attr.type = GPU_RINGBUF_MAP then
    match env.getThreadCount handler.attr with
    | none => some .thrown
    | some threads => if threads = 0 then none else some (ringbufLoop (tryConstruct env handler segment) 64 threads)
  else if handler.attr.type = PERGPUTD_ARRAY_MAP then
    match env.getThreadCount handler.attr with
    | none => some .thrown
    | some threads => some (tryConstruct env handler segment threads)
  else some (tryConstruct env handler segment 0)

/-- `map_init` returns or throws; either way the handler and the segment are as it leaves them. -/
structure InitOut where
  ret     : Option Int
  handler : MapHandler
  segment : Segment

/-- `init_refcnt()`, and the return after it. -/
def initRefcnt (env : CreateEnv) (handler : MapHandler) (segment : Segment) : InitOut :=
  if env.refcnt then
    let (cell, segment) := segment.constructRefcnt
    ⟨some 0, { handler with mapRefcntPtr := some cell }, segment⟩
  else ⟨none, handler, segment⟩

/-- What `map_init` returns for a type that it makes no object for. -/
def unsupportedRet (env : CreateEnv) (attr : MapAttr) : Int :=
  if attr.type = BPF_MAP_TYPE_RINGBUF ∨ attr.type = BPF_MAP_TYPE_BLOOM_FILTER then -1 else env.nonBuiltin.getD (-1)

/-- `map_init` of a handler without an object. -/
def MapHandler.mapInit (env : CreateEnv) (config : BuildConfig) (handler : MapHandler) (segment : Segment) : InitOut :=
  match construction env config handler segment with
  | none =>
    if mapInitOf config handler.attr = .nothing then ⟨some (unsupportedRet env handler.attr), handler, segment⟩
    else initRefcnt env handler segment
  | some .constructed =>
    let withImpl := { handler with mapImplPtr := some segment.next }
    if mapInitOf config handler.attr = .counted then
      initRefcnt env withImpl (segment.constructed handler.containerName)
    else ⟨some 0, withImpl, segment.constructed handler.containerName⟩
  | some _ => ⟨none, handler, segment⟩

/-! ## `map_free` -/

/-- The types that `map_free` destroys the object of: `LRU_HASH` and `LPM_TRIE` only with libbpf, `STACK_TRACE` also
    without, `ARRAY_OF_MAPS` never. -/
def mapFreeOf (config : BuildConfig) (type : BitVec 32) : Bool :=
  type ∈ ([1, 2, 27, 4, 6, 5, 7, 22, 23, 30] : List (BitVec 32)) ∨
    (config.libbpf ∧ type ∈ ([1002, 1001, 1006, 1004, 3, 9, 11] : List (BitVec 32))) ∨
    (config.cuda ∧ type ∈ gpuTypes ++ gpuHostTypes)

namespace MapHandler

/-- The rest of `map_free`, after the reference count. -/
def freeImpl (config : BuildConfig) (handler : MapHandler) (segment : Segment) : Segment :=
  if mapFreeOf config handler.attr.type then segment.destroy handler.containerName else segment

/-- `map_free`, the two pointers of the handler aside, which goes away after it. -/
def mapFree (config : BuildConfig) (handler : MapHandler) (segment : Segment) : Except Fault Segment :=
  match handler.mapImplPtr with
  | none => .ok segment
  | some _ =>
    match handler.mapRefcntPtr with
    | none => .ok (handler.freeImpl config segment)
    | some cell =>
      match segment.refcnts cell with
      | none => .error .dangling
      | some prev =>
        if prev > 1 then .ok (segment.setRefcnt cell (some (prev - 1)))
        else .ok (handler.freeImpl config (segment.setRefcnt cell none))

def canShareMapImpl (handler : MapHandler) : Bool := handler.mapImplPtr.isSome && handler.mapRefcntPtr.isSome

end MapHandler

/-! ## When an object comes of it -/

/-- The constructor gets what it asks for. A GPU ring buffer asks for threads, then for half of them, and so on. -/
def Granted (env : CreateEnv) (attr : MapAttr) : Prop :=
  if attr.type = GPU_RINGBUF_MAP then
    ∃ threads, env.getThreadCount attr = some threads ∧ ∃ n, 0 < threads / 2 ^ n ∧
      env.construct (threads / 2 ^ n) = .constructed ∧ ∀ m < n, env.construct (threads / 2 ^ m) = .badAlloc
  else if attr.type = PERGPUTD_ARRAY_MAP then
    ∃ threads, env.getThreadCount attr = some threads ∧ env.construct threads = .constructed
  else env.construct 0 = .constructed

/-- The constructor takes the arguments, and it and the reference count get what they ask for. -/
structure Constructs (env : CreateEnv) (config : BuildConfig) (attr : MapAttr) : Prop where
  checked : constructorThrows attr = false
  granted : Granted env attr
  refcnt  : mapInitOf config attr = .counted → env.refcnt = true

section Init

variable {env : CreateEnv} {config : BuildConfig} {handler : MapHandler} {segment : Segment}

/-- The rounds of the GPU ring buffer. -/
theorem ringbufLoop_constructed_iff {attempt : Nat → ConstructResult} (fuel : Nat) {threads : Nat} (hpos : 0 < threads)
    (hlt : threads < 2 ^ fuel) : ringbufLoop attempt fuel threads = .constructed ↔
      ∃ n, 0 < threads / 2 ^ n ∧ attempt (threads / 2 ^ n) = .constructed ∧
        ∀ m < n, attempt (threads / 2 ^ m) = .badAlloc := by
  induction fuel generalizing threads with
  | zero => omega
  | succ fuel ih =>
      unfold ringbufLoop
      cases hfirst : attempt threads with
      | constructed => exact iff_of_true rfl ⟨0, by simpa using hpos, by simpa using hfirst, fun m hm => absurd hm (by omega)⟩
      | thrown =>
          refine iff_of_false (by simp) ?_
          rintro ⟨n, -, hn, hbefore⟩
          cases n with
          | zero => simp [hfirst] at hn
          | succ n =>
              have hzero := hbefore 0 (Nat.succ_pos n)
              simp [hfirst] at hzero
      | badAlloc =>
          have hhalf : ∀ n, threads / 2 ^ (n + 1) = threads / 2 / 2 ^ n := by
            intro n
            rw [Nat.div_div_eq_div_mul, Nat.pow_succ, Nat.mul_comm]
          dsimp only
          split
          · next hone =>
              refine iff_of_false (by simp) ?_
              rintro ⟨n, hn, hlast, -⟩
              cases n with
              | zero => simp [hfirst] at hlast
              | succ n =>
                  rw [hhalf, Nat.div_eq_of_lt (show threads < 2 by omega), Nat.zero_div] at hn
                  exact Nat.lt_irrefl 0 hn
          · next hmore =>
              have hmax : max 1 (threads / 2) = threads / 2 := by omega
              rw [hmax, ih (by omega) (by rw [Nat.pow_succ] at hlt; omega)]
              constructor
              · rintro ⟨n, hn, hlast, hbefore⟩
                refine ⟨n + 1, by rwa [hhalf], by rwa [hhalf], fun m hm => ?_⟩
                cases m with
                | zero => simpa using hfirst
                | succ m =>
                    rw [hhalf]
                    exact hbefore m (by omega)
              · rintro ⟨n, hn, hlast, hbefore⟩
                cases n with
                | zero => simp [hfirst] at hlast
                | succ n =>
                    rw [hhalf] at hn hlast
                    refine ⟨n, hn, hlast, fun m hm => ?_⟩
                    rw [← hhalf]
                    exact hbefore (m + 1) (by omega)

/-- A constructor that runs past its checks ends as what is outside lets it. -/
theorem tryConstruct_run (hfree : segment.named handler.containerName = none)
    (hchecked : constructorThrows handler.attr = false) (threads : Nat) :
    tryConstruct env handler segment threads = env.construct threads := by
  unfold tryConstruct
  rw [hfree, hchecked]
  rfl

theorem tryConstruct_thrown
    (h : ¬ (segment.named handler.containerName = none ∧ constructorThrows handler.attr = false)) (threads : Nat) :
    tryConstruct env handler segment threads = .thrown := by
  unfold tryConstruct
  cases hname : segment.named handler.containerName with
  | some a => rfl
  | none =>
      have hthrows : constructorThrows handler.attr = true := by
        rw [hname] at h
        simpa using h
      simp [hthrows]

/-- **When there is an object.** The name is free, the arguments pass, and the constructor gets what it asks for. -/
theorem construction_iff (env : CreateEnv) (config : BuildConfig) (handler : MapHandler) (segment : Segment) :
    construction env config handler segment = some .constructed ↔
    mapInitOf config handler.attr ≠ .nothing ∧ segment.named handler.containerName = none ∧
      constructorThrows handler.attr = false ∧ Granted env handler.attr := by
  unfold construction
  by_cases hinit : mapInitOf config handler.attr = .nothing
  · simp [hinit]
  by_cases hrun : segment.named handler.containerName = none ∧ constructorThrows handler.attr = false
  · have htry : tryConstruct env handler segment = env.construct := funext (tryConstruct_run hrun.1 hrun.2)
    simp only [hinit, if_false, htry, ne_eq, not_false_eq_true, true_and, hrun.1, hrun.2]
    unfold Granted
    split
    · cases hcount : env.getThreadCount handler.attr with
      | none => simp
      | some threads =>
          have hlt : threads < 2 ^ 64 := by
            unfold CreateEnv.getThreadCount at hcount
            split at hcount
            · obtain ⟨count, -, rfl⟩ := Option.map_eq_some_iff.mp hcount
              exact count.isLt
            · rw [Option.some.injEq] at hcount
              subst hcount
              exact handler.attr.gpuThreadCount.isLt
          by_cases hzero : threads = 0
          · subst hzero
            simp
          · simp only [hzero, if_false, Option.some.injEq, ringbufLoop_constructed_iff 64 (Nat.pos_of_ne_zero hzero) hlt,
              exists_eq_left']
    · split
      · cases env.getThreadCount handler.attr <;> simp
      · simp
  · have htry : tryConstruct env handler segment = fun _ => .thrown := funext (tryConstruct_thrown hrun)
    have hloop : ∀ fuel threads, ringbufLoop (fun _ => .thrown) fuel threads = .thrown := by
      intro fuel threads
      cases fuel <;> rfl
    refine iff_of_false ?_ fun hall => hrun ⟨hall.2.1, hall.2.2.1⟩
    simp only [hinit, if_false, htry]
    split
    · cases env.getThreadCount handler.attr with
      | none => simp
      | some threads =>
          dsimp only
          split <;> simp [hloop]
    · split
      · cases env.getThreadCount handler.attr <;> simp
      · simp

theorem initRefcnt_spec (env : CreateEnv) (h : MapHandler) (seg : Segment) : (initRefcnt env h seg).handler.attr = h.attr ∧
    (initRefcnt env h seg).handler.name = h.name ∧ (initRefcnt env h seg).handler.mapImplPtr = h.mapImplPtr ∧
    (initRefcnt env h seg).segment.named = seg.named ∧ ((initRefcnt env h seg).ret.isSome ↔ env.refcnt = true) := by
  unfold initRefcnt
  cases env.refcnt
  · exact ⟨rfl, rfl, rfl, rfl, by simp⟩
  · exact ⟨rfl, rfl, rfl, rfl, by simp⟩

/-- Without an object the handler keeps its null pointer. -/
theorem mapInit_without (hnew : handler.mapImplPtr = none)
    (h : construction env config handler segment ≠ some .constructed) :
    (handler.mapInit env config segment).handler.mapImplPtr = none := by
  unfold MapHandler.mapInit
  split
  · split
    · exact hnew
    · exact (initRefcnt_spec _ handler segment).2.2.1.trans hnew
  · next hcons => exact absurd hcons h
  · exact hnew

/-- With one it names the object by its container, and `map_init` returns where the reference count is there. -/
theorem mapInit_with (h : construction env config handler segment = some .constructed) :
    (handler.mapInit env config segment).handler.attr = handler.attr ∧
      (handler.mapInit env config segment).handler.name = handler.name ∧
      (handler.mapInit env config segment).handler.mapImplPtr = some segment.next ∧
      (handler.mapInit env config segment).segment.named handler.containerName = some segment.next ∧
      ((handler.mapInit env config segment).ret.isSome ↔
        (mapInitOf config handler.attr = .counted → env.refcnt = true)) := by
  have hnamed : (segment.constructed handler.containerName).named handler.containerName = some segment.next :=
    Function.update_self ..
  unfold MapHandler.mapInit
  rw [h]
  dsimp only
  by_cases hcounted : mapInitOf config handler.attr = .counted
  · rw [if_pos hcounted]
    obtain ⟨hattr, hname, himpl, hseg, hret⟩ := initRefcnt_spec env
      { handler with mapImplPtr := some segment.next } (segment.constructed handler.containerName)
    refine ⟨hattr, hname, himpl, ?_, ?_⟩
    · rw [hseg, hnamed]
    · rw [hret]
      exact ⟨fun hrefcnt _ => hrefcnt, fun hrefcnt => hrefcnt hcounted⟩
  · rw [if_neg hcounted]
    exact ⟨rfl, rfl, rfl, hnamed, iff_of_true rfl fun hnot => absurd hnot hcounted⟩

/-- A type that is not built in has no object. -/
theorem mapInit_nothing (h : mapInitOf config handler.attr = .nothing) :
    handler.mapInit env config segment = ⟨some (unsupportedRet env handler.attr), handler, segment⟩ := by
  have hcons : construction env config handler segment = none := if_pos h
  unfold MapHandler.mapInit
  rw [hcons]
  exact if_pos h

/-- What `map_init` leaves where it makes the object of a type that has one. -/
def Inited (config : BuildConfig) (map : MapHandler) (segment : Segment) (map' : MapHandler) (segment' : Segment) : Prop :=
  match mapInitOf config map.attr with
  | .nothing => map' = map ∧ segment' = segment
  | .uncounted => segment.named map.containerName = none ∧ map' = { map with mapImplPtr := some segment.next } ∧
      segment' = segment.constructed map.containerName
  | .counted => segment.named map.containerName = none ∧
      map' = { map with mapImplPtr := some segment.next, mapRefcntPtr := some (segment.next + 1) } ∧
      segment' = (segment.constructed map.containerName).constructRefcnt.2

section Inited

variable {map map' : MapHandler} {segment' : Segment}

/-- A new handler has no object, or one that was not there. -/
theorem Inited.object (hinit : Inited config map segment map' segment') (himpl : map.mapImplPtr = none) :
    map'.mapImplPtr = if mapInitOf config map.attr = .nothing then none else some segment.next := by
  unfold Inited at hinit
  cases hm : mapInitOf config map.attr with
  | nothing =>
      rw [hm] at hinit
      rw [hinit.1, if_pos rfl]
      exact himpl
  | uncounted =>
      rw [hm] at hinit
      rw [hinit.2.1, if_neg (by decide)]
  | counted =>
      rw [hm] at hinit
      rw [hinit.2.1, if_neg (by decide)]

/-- Its name is that of the new object; the others are as before. -/
theorem Inited.named (hinit : Inited config map segment map' segment') {name : CStr} :
    segment'.named name = if mapInitOf config map.attr ≠ .nothing ∧ name = map.containerName then
      some segment.next else segment.named name := by
  unfold Inited at hinit
  have hupdate : Function.update segment.named map.containerName (some segment.next) name =
      if name = map.containerName then some segment.next else segment.named name := Function.update_apply ..
  cases hm : mapInitOf config map.attr with
  | nothing =>
      rw [hm] at hinit
      rw [hinit.2, if_neg (fun h => h.1 rfl)]
  | uncounted =>
      rw [hm] at hinit
      rw [hinit.2.2]
      refine Eq.trans hupdate ?_
      simp
  | counted =>
      rw [hm] at hinit
      rw [hinit.2.2]
      refine Eq.trans hupdate ?_
      simp

theorem Inited.free (hinit : Inited config map segment map' segment')
    (hm : mapInitOf config map.attr ≠ .nothing) : segment.named map.containerName = none := by
  unfold Inited at hinit
  cases hm' : mapInitOf config map.attr with
  | nothing => exact absurd hm' hm
  | uncounted =>
      rw [hm'] at hinit
      exact hinit.1
  | counted =>
      rw [hm'] at hinit
      exact hinit.1

end Inited

/-- **A map that can be made** is: its constructor gets what it needs, and nothing has its name. -/
theorem mapInit_of_constructs (h : mapInitOf config handler.attr ≠ .nothing →
    Constructs env config handler.attr ∧ segment.named handler.containerName = none) :
    (handler.mapInit env config segment).ret.isSome ∧
      Inited config handler segment (handler.mapInit env config segment).handler
        (handler.mapInit env config segment).segment := by
  by_cases hnothing : mapInitOf config handler.attr = .nothing
  · rw [mapInit_nothing hnothing]
    unfold Inited
    rw [hnothing]
    exact ⟨rfl, rfl, rfl⟩
  obtain ⟨hconstructs, hfree⟩ := h hnothing
  have hcons := (construction_iff env config handler segment).mpr
    ⟨hnothing, hfree, hconstructs.checked, hconstructs.granted⟩
  unfold MapHandler.mapInit Inited
  rw [hcons]
  cases hinit : mapInitOf config handler.attr with
  | nothing => exact absurd hinit hnothing
  | uncounted => exact ⟨rfl, hfree, rfl, rfl⟩
  | counted =>
      unfold initRefcnt
      rw [hconstructs.refcnt hinit]
      exact ⟨rfl, hfree, rfl, rfl⟩

/-- A new map that can be made is. -/
theorem newMap_of_constructs {name : CStr} {attr : MapAttr} (h : mapInitOf config attr ≠ .nothing →
    Constructs env config attr ∧ segment.named (MapHandler.new name attr).containerName = none) :
    ((MapHandler.new name attr).mapInit env config segment).ret.isSome ∧
      Inited config (.new name attr) segment ((MapHandler.new name attr).mapInit env config segment).handler
        ((MapHandler.new name attr).mapInit env config segment).segment :=
  mapInit_of_constructs h

/-- **Where `map_init` returns**, the map could be made, or the handler is left without an object. -/
theorem constructs_of_mapInit (hnew : handler.mapImplPtr = none)
    (hret : (handler.mapInit env config segment).ret.isSome) :
    Constructs env config handler.attr ∧ segment.named handler.containerName = none ∨
      (handler.mapInit env config segment).handler.mapImplPtr = none := by
  by_cases hcons : construction env config handler segment = some .constructed
  · obtain ⟨-, hfree, hchecked, hgranted⟩ := (construction_iff env config handler segment).mp hcons
    obtain ⟨-, -, -, -, hrefcnt⟩ := mapInit_with hcons
    exact Or.inl ⟨⟨hchecked, hgranted, hrefcnt.mp hret⟩, hfree⟩
  · exact Or.inr (mapInit_without hnew hcons)

end Init

end Handler
