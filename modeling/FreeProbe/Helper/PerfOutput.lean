import FreeProbe.Handler.Manager
import Mathlib.Data.Finset.Basic

/-!
# `Helper.PerfOutput` — `bpf_perf_event_output`

The helper binds the thread to the CPU it runs on, finds the event of that CPU, puts the data out and binds the thread
to where it was before. What the kernel does with the thread's affinity is what the manual says of the two system calls:
a mask is restricted to the CPUs that the thread may use and has to keep one of them, and a mask that does not fit into
the caller's `cpu_set_t` is not handed out. What putting the data out returns is a parameter.
-/

namespace PerfOutput

open Handler

def EINVAL : Int := 22
def ENOENT : Int := 2

/-! ## The affinity of a thread -/

/-- What `sched_getcpu` answers, if it does, the size of the kernel's masks, and the CPUs that the thread may use. -/
structure Kernel where
  cpu     : Option Nat
  cpuIds  : Nat
  allowed : Finset Nat

structure Thread where
  mask  : Finset Nat
  errno : Int
deriving DecidableEq

def CPU_SETSIZE : Nat := 1024

/-- `CPU_ZERO(&mask); CPU_SET(cpu, &mask);`, which leaves a CPU out that the set has no bit for. -/
def cpuSet (cpu : Nat) : Finset Nat := if cpu < CPU_SETSIZE then {cpu} else ∅

/-- `sched_getaffinity(0, sizeof(orig), &orig)`: what `orig` is after it. -/
def Kernel.sched_getaffinity (k : Kernel) (orig : Finset Nat) (t : Thread) : Finset Nat × Thread :=
  if k.cpuIds ≤ CPU_SETSIZE then (t.mask, t) else (orig, { t with errno := EINVAL })

def Kernel.sched_setaffinity (k : Kernel) (set : Finset Nat) (t : Thread) : Int × Thread :=
  if set ∩ k.allowed = ∅ then (-1, { t with errno := EINVAL }) else (0, { t with mask := set ∩ k.allowed })

/-! ## The helper -/

def BPF_MAP_TYPE_PERF_EVENT_ARRAY : BitVec 32 := 4
def BPF_MAP_TYPE_KERNEL_USER_PERF_EVENT_ARRAY : BitVec 32 := 1004

/-- The shared memory: the table of handlers, the fds in a `perf_event_array_map_impl`, and what `output_data` of the
    event under an fd and `output_data_into_kernel` of the map under an fd return. -/
structure Env where
  shm              : Shm
  arrays           : Nat → List Int
  outputData       : Int → BitVec 64 → BitVec 64 → Int
  outputIntoKernel : Int → BitVec 64 → BitVec 64 → Int

namespace Env

def typeAt (env : Env) (fd : Int) : Option (BitVec 32) :=
  match env.shm.slot fd with
  | .map map => some map.attr.type
  | _ => none

def bpftime_map_get_info (env : Env) (fd : Int) (t : Thread) : Option (BitVec 32) × Thread :=
  if env.shm.isMapFd fd then (env.typeAt fd, t) else (none, { t with errno := ENOENT })

/-- `bpf_map_lookup_elem(fd, &current_cpu, false)` of a perf event array; a map without an object cannot be read. -/
def lookup (env : Env) (fd : Int) (cpu : Nat) (t : Thread) : Option (Option Int × Thread) :=
  match env.shm.objectAt fd with
  | none => none
  | some impl =>
    if cpu < (env.arrays impl).length then some ((env.arrays impl)[cpu]?, t) else some (none, { t with errno := EINVAL })

def isSoftware (env : Env) (fd : Int) : Bool :=
  match env.shm.slot fd with
  | .perfEvent ⟨_, _, .software ..⟩ => true
  | _ => false

def bpftime_perf_event_output (env : Env) (fd : Int) (data size : BitVec 64) (t : Thread) : Int × Thread :=
  if !env.shm.isPerfFd fd then (-1, { t with errno := EINVAL })
  else if env.isSoftware fd then (env.outputData fd data size, t)
  else (-1, { t with errno := Shm.ENOTSUP })

/-- The map is of the type that `is_shared_perf_event_array_map_fd` asks for. -/
def bpftime_shared_perf_event_output (env : Env) (fd : Int) (data size : BitVec 64) (t : Thread) : Int × Thread :=
  let err := env.outputIntoKernel fd data size
  if err < 0 then (-1, { t with errno := -err }) else (0, t)

/-- From the map to `ret`. The helper is left early where there is none. -/
def send (env : Env) (fd : Int) (cpu : Nat) (data size : BitVec 64) (t : Thread) : Option (Option Int × Thread) :=
  match env.bpftime_map_get_info fd t with
  | (none, t) => some (none, t)
  | (some type, t) =>
    if type = BPF_MAP_TYPE_PERF_EVENT_ARRAY then
      match env.lookup fd cpu t with
      | none => none
      | some (none, t) => some (none, { t with errno := EINVAL })
      | some (some perfHandlerFd, t) =>
        let (ret, t) := env.bpftime_perf_event_output perfHandlerFd data size t
        some (some ret, t)
    else if env.shm.config.libbpf ∧ type = BPF_MAP_TYPE_KERNEL_USER_PERF_EVENT_ARRAY then
      let (ret, t) := env.bpftime_shared_perf_event_output fd data size t
      some (some ret, t)
    else some (some (-1), t)

end Env

/-- `int fd = map >> 32;` -/
def mapFd (map : BitVec 64) : Int := ((map >>> 32).setWidth 32).toInt

/-- `orig` is what was on the stack. -/
def bpf_perf_event_output (env : Env) (k : Kernel) (orig : Finset Nat) (_ctx map _flags data size : BitVec 64)
    (t : Thread) : Option (BitVec 64 × Thread) :=
  match k.cpu with
  | none => some (-1, t)
  | some cpu =>
    let (orig, t) := k.sched_getaffinity orig t
    let (err, t) := k.sched_setaffinity (cpuSet cpu) t
    if err < 0 then some (-1, { t with errno := EINVAL })
    else
      match env.send (mapFd map) cpu data size t with
      | none => none
      | some (none, t) => some (-1, t)
      | some (some ret, t) => some (BitVec.ofInt 64 ret, (k.sched_setaffinity orig t).2)

/-! ## What is left of the mask -/

section
variable {env : Env} {k : Kernel} {fd : Int} {cpu : Nat} {data size : BitVec 64} {t : Thread} {orig set : Finset Nat}

/-- The kernel binds threads to CPUs that they may use. -/
structure Kernel.Bound (k : Kernel) (mask : Finset Nat) : Prop where
  allowed  : mask ⊆ k.allowed
  nonempty : mask ≠ ∅

/-- The map is there, and a perf event array has an event for the CPU. -/
def Env.Sends (env : Env) (fd : Int) (cpu : Nat) : Prop :=
  env.shm.isMapFd fd = true ∧ (env.typeAt fd = some BPF_MAP_TYPE_PERF_EVENT_ARRAY →
    ∀ impl ∈ env.shm.objectAt fd, cpu < (env.arrays impl).length)

instance Env.Sends.decidable (env : Env) (fd : Int) (cpu : Nat) : Decidable (env.Sends fd cpu) :=
  inferInstanceAs (Decidable (_ ∧ (_ → ∀ impl ∈ env.shm.objectAt fd, cpu < (env.arrays impl).length)))

theorem typeAt_isSome (h : env.shm.isMapFd fd = true) : ∃ type, env.typeAt fd = some type := by
  obtain ⟨-, hmap⟩ := Bool.and_eq_true_iff.mp h
  unfold Env.typeAt
  cases hslot : env.shm.slot fd with
  | map handler => exact ⟨handler.attr.type, rfl⟩
  | _ => simp [hslot, HandlerVariant.isMap] at hmap

theorem output_mask : (env.bpftime_perf_event_output fd data size t).2.mask = t.mask := by
  unfold Env.bpftime_perf_event_output
  split
  · rfl
  · split <;> rfl

theorem shared_output_mask : (env.bpftime_shared_perf_event_output fd data size t).2.mask = t.mask := by
  unfold Env.bpftime_shared_perf_event_output
  simp only
  split <;> rfl

/-- A map that is not there. -/
theorem send_not_map (h : env.shm.isMapFd fd = false) :
    env.send fd cpu data size t = some (none, { t with errno := ENOENT }) := by
  have hinfo : env.bpftime_map_get_info fd t = (none, { t with errno := ENOENT }) := if_neg (by rw [h]; decide)
  rw [Env.send, hinfo]

/-- A perf event array, whose lookup decides. -/
theorem send_array (h : env.shm.isMapFd fd = true) (htype : env.typeAt fd = some BPF_MAP_TYPE_PERF_EVENT_ARRAY)
    {out : Option Int × Thread} (hsend : env.send fd cpu data size t = some out) :
    out.2.mask = t.mask ∧ ∃ impl, env.shm.objectAt fd = some impl ∧ (out.1.isSome ↔ cpu < (env.arrays impl).length) := by
  have hinfo : env.bpftime_map_get_info fd t = (some BPF_MAP_TYPE_PERF_EVENT_ARRAY, t) := (if_pos h).trans (by rw [htype])
  rw [Env.send, hinfo] at hsend
  simp only [if_pos, Env.lookup] at hsend
  cases hobject : env.shm.objectAt fd with
  | none => simp [hobject] at hsend
  | some impl =>
    rw [hobject] at hsend
    by_cases hcpu : cpu < (env.arrays impl).length
    · simp only [if_pos hcpu, List.getElem?_eq_getElem hcpu] at hsend
      cases hsend
      exact ⟨output_mask, impl, rfl, iff_of_true rfl hcpu⟩
    · simp only [if_neg hcpu] at hsend
      cases hsend
      exact ⟨rfl, impl, rfl, iff_of_false Bool.false_ne_true hcpu⟩

/-- A map of another type, which is put out into the kernel or not at all. -/
theorem send_other {type : BitVec 32} (h : env.shm.isMapFd fd = true) (htype : env.typeAt fd = some type)
    (hother : type ≠ BPF_MAP_TYPE_PERF_EVENT_ARRAY) {out : Option Int × Thread}
    (hsend : env.send fd cpu data size t = some out) : out.2.mask = t.mask ∧ out.1.isSome := by
  have hinfo : env.bpftime_map_get_info fd t = (some type, t) := (if_pos h).trans (by rw [htype])
  rw [Env.send, hinfo] at hsend
  simp only [if_neg hother] at hsend
  split at hsend
  · cases hsend
    exact ⟨shared_output_mask, rfl⟩
  · cases hsend
    exact ⟨rfl, rfl⟩

/-- What comes between the two bindings does not touch the mask, and comes to its end where the map is there and has an
    event for the CPU. -/
theorem send_spec {out : Option Int × Thread} (hsend : env.send fd cpu data size t = some out) :
    out.2.mask = t.mask ∧ (out.1.isSome ↔ env.Sends fd cpu) := by
  by_cases hmap : env.shm.isMapFd fd = true
  · obtain ⟨type, htype⟩ := typeAt_isSome hmap
    by_cases harray : type = BPF_MAP_TYPE_PERF_EVENT_ARRAY
    · subst harray
      obtain ⟨hmask, impl, hobject, hsome⟩ := send_array hmap htype hsend
      refine ⟨hmask, hsome.trans ⟨fun hcpu => ⟨hmap, fun _ impl' himpl => ?_⟩, fun h => h.2 htype impl hobject⟩⟩
      rw [Option.mem_def, hobject, Option.some.injEq] at himpl
      exact himpl ▸ hcpu
    · obtain ⟨hmask, hsome⟩ := send_other hmap htype harray hsend
      refine ⟨hmask, iff_of_true hsome ⟨hmap, fun h => absurd ?_ harray⟩⟩
      exact Option.some.inj (htype.symm.trans h)
  · rw [send_not_map (Bool.eq_false_iff.mpr hmap)] at hsend
    cases hsend
    exact ⟨rfl, iff_of_false Bool.false_ne_true fun h => hmap h.1⟩

/-! ## The mask after the call -/

/-- Binding to a CPU that the thread may use. -/
theorem bind_ok (h : cpu < CPU_SETSIZE) (hallowed : cpu ∈ k.allowed) :
    k.sched_setaffinity (cpuSet cpu) t = (0, { t with mask := {cpu} }) := by
  have hset : cpuSet cpu ∩ k.allowed = {cpu} := by
    rw [cpuSet, if_pos h, Finset.singleton_inter_of_mem hallowed]
  rw [Kernel.sched_setaffinity, hset, if_neg (Finset.singleton_ne_empty cpu)]

theorem bind_fails (h : ¬ (cpu < CPU_SETSIZE ∧ cpu ∈ k.allowed)) :
    k.sched_setaffinity (cpuSet cpu) t = (-1, { t with errno := EINVAL }) := by
  refine if_pos ?_
  unfold cpuSet
  split
  · next hsize => exact Finset.singleton_inter_of_notMem fun hallowed => h ⟨hsize, hallowed⟩
  · exact Finset.empty_inter _

/-- Binding back. -/
theorem restore_mask (hbound : k.Bound orig) : (k.sched_setaffinity orig t).2.mask = orig := by
  rw [Kernel.sched_setaffinity, Finset.inter_eq_left.mpr hbound.allowed, if_neg hbound.nonempty]

theorem setaffinity_mask : (k.sched_setaffinity set t).2.mask = if set ∩ k.allowed = ∅ then t.mask else set ∩ k.allowed := by
  unfold Kernel.sched_setaffinity
  split <;> rfl

/-- A thread that is bound to `cpu` gets its mask back: the helper comes to its end, and the mask fitted into `orig` (or
    what was on the stack in its place happens to be the mask), or the mask was the CPU alone before. -/
def Restored (env : Env) (k : Kernel) (stack mask : Finset Nat) (cpu : Nat) (fd : Int) : Prop :=
  (env.Sends fd cpu ∧ (k.cpuIds ≤ CPU_SETSIZE ∨ mask = if stack ∩ k.allowed = ∅ then {cpu} else stack ∩ k.allowed)) ∨
    (¬ env.Sends fd cpu ∧ mask = {cpu})

instance Restored.decidable (env : Env) (k : Kernel) (stack mask : Finset Nat) (cpu : Nat) (fd : Int) :
    Decidable (Restored env k stack mask cpu fd) := inferInstanceAs (Decidable (_ ∧ (_ ∨ _) ∨ _ ∧ _))

/-- The end of the helper, with `orig` as the kernel has left it. -/
theorem rebound_iff {stack : Finset Nat} {bound : Thread} (hbound : k.Bound t.mask) (hcpu : bound.mask = {cpu})
    (hsends : env.Sends fd cpu) :
    (k.sched_setaffinity (k.sched_getaffinity stack t).1 bound).2.mask = t.mask ↔ Restored env k stack t.mask cpu fd := by
  by_cases hsize : k.cpuIds ≤ CPU_SETSIZE
  · have hget : (k.sched_getaffinity stack t).1 = t.mask := by rw [Kernel.sched_getaffinity, if_pos hsize]
    rw [hget]
    exact iff_of_true (restore_mask hbound) (Or.inl ⟨hsends, Or.inl hsize⟩)
  · have hget : (k.sched_getaffinity stack t).1 = stack := by rw [Kernel.sched_getaffinity, if_neg hsize]
    rw [hget, setaffinity_mask, hcpu, eq_comm]
    constructor
    · intro hmask
      exact Or.inl ⟨hsends, Or.inr hmask⟩
    · rintro (⟨-, hleft⟩ | ⟨hnot, -⟩)
      · exact hleft.resolve_left hsize
      · exact absurd hsends hnot

theorem getaffinity_mask {stack : Finset Nat} : (k.sched_getaffinity stack t).2.mask = t.mask := by
  unfold Kernel.sched_getaffinity
  split <;> rfl

/-- Once the thread is bound. -/
theorem bound_mask_iff {ctx map flags : BitVec 64} {stack : Finset Nat} (hbound : k.Bound t.mask) (hcpu : k.cpu = some cpu)
    (hsize : cpu < CPU_SETSIZE) (hallowed : cpu ∈ k.allowed) {out : BitVec 64 × Thread}
    (hcall : bpf_perf_event_output env k stack ctx map flags data size t = some out) :
    out.2.mask = t.mask ↔ Restored env k stack t.mask cpu (mapFd map) := by
  simp only [bpf_perf_event_output, hcpu, bind_ok hsize hallowed] at hcall
  rw [if_neg (by decide)] at hcall
  split at hcall
  · cases hcall
  · next bound hsend =>
    cases hcall
    obtain ⟨hmask, hsome⟩ := send_spec hsend
    have hnot : ¬ env.Sends (mapFd map) cpu := fun h => absurd (hsome.mpr h) Bool.false_ne_true
    have hleft : bound.mask = {cpu} := hmask
    rw [hleft, eq_comm]
    exact ⟨fun h => Or.inr ⟨hnot, h⟩, fun h => h.elim (fun h => absurd h.1 hnot) fun h => h.2⟩
  · next ret bound hsend =>
    cases hcall
    obtain ⟨hmask, hsome⟩ := send_spec hsend
    exact rebound_iff hbound hmask (hsome.mp rfl)

end

/-- **The mask after the call is the one before** exactly where the thread is not bound to its CPU, or gets its mask
    back. -/
theorem perf_event_output_mask_iff (env : Env) (k : Kernel) (stack : Finset Nat) (ctx map flags data size : BitVec 64)
    (t : Thread) (hbound : k.Bound t.mask) {out : BitVec 64 × Thread}
    (hcall : bpf_perf_event_output env k stack ctx map flags data size t = some out) :
    out.2.mask = t.mask ↔
      ∀ cpu ∈ k.cpu, cpu < CPU_SETSIZE → cpu ∈ k.allowed → Restored env k stack t.mask cpu (mapFd map) := by
  cases hcpu : k.cpu with
  | none =>
    simp only [bpf_perf_event_output, hcpu] at hcall
    cases hcall
    exact iff_of_true rfl fun cpu h => absurd h (Option.not_mem_none cpu)
  | some cpu =>
    by_cases hbinds : cpu < CPU_SETSIZE ∧ cpu ∈ k.allowed
    · rw [bound_mask_iff hbound hcpu hbinds.1 hbinds.2 hcall]
      constructor
      · intro h cpu' hcpu' _ _
        exact Option.some.inj hcpu' ▸ h
      · intro h
        exact h cpu rfl hbinds.1 hbinds.2
    · simp only [bpf_perf_event_output, hcpu, bind_fails hbinds] at hcall
      rw [if_pos (by decide)] at hcall
      cases hcall
      refine iff_of_true getaffinity_mask fun cpu' hcpu' hsize hallowed => ?_
      rw [Option.mem_some_iff] at hcpu'
      exact absurd ⟨hcpu' ▸ hsize, hcpu' ▸ hallowed⟩ hbinds

/-- A table with a perf event array at 0, which has events for two CPUs. -/
def twoEvents : Env where
  shm := ⟨⟨true, false⟩, [.map ⟨⟨4, 4, 4, 2, 0, 0, 0, 0, 0, 0, 0, 0, 0⟩, [], some 0, some 1⟩], .empty⟩
  arrays _ := [5, 6]
  outputData _ _ _ := 0
  outputIntoKernel _ _ _ := 0

/-- A machine of four CPUs, with the thread on the given one. -/
def fourCpus (cpu : Nat) : Kernel := ⟨some cpu, 4, {0, 1, 2, 3}⟩

def unbound : Thread := ⟨{0, 1, 2, 3}, 0⟩

theorem unbound_bound (cpu : Nat) : (fourCpus cpu).Bound unbound.mask := ⟨Finset.Subset.refl _, by decide⟩

theorem perf_event_output_mask_iff_event :
    ∃ out, bpf_perf_event_output twoEvents (fourCpus 1) ∅ 0 0 0 0 8 unbound = some out ∧ out.2.mask = unbound.mask :=
  ⟨_, rfl, (perf_event_output_mask_iff twoEvents (fourCpus 1) ∅ 0 0 0 0 8 unbound (unbound_bound 1) rfl).mpr
    fun cpu hcpu _ _ => Option.some.inj hcpu ▸ by decide⟩

/-- On the third CPU the array has no event, and at fd 7 there is no map: the thread stays bound. -/
theorem mask_not_restored :
    (∃ out, bpf_perf_event_output twoEvents (fourCpus 2) ∅ 0 0 0 0 8 unbound = some out ∧
        out.2.mask = {2} ∧ out.2.mask ≠ unbound.mask) ∧
      ∃ out, bpf_perf_event_output twoEvents (fourCpus 1) ∅ 0 (7 <<< 32) 0 0 8 unbound = some out ∧
        out.2.mask = {1} ∧ out.2.mask ≠ unbound.mask :=
  ⟨⟨_, rfl, by decide, by decide⟩, _, rfl, by decide, by decide⟩

end PerfOutput
