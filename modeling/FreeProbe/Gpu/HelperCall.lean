import Mathlib.Data.List.Basic
import Mathlib.Logic.Function.Basic
import FreeProbe.Lib.Machine
import FreeProbe.Lib.Memory
import FreeProbe.Lib.Steps

/-!
# `Gpu.HelperCall` — helper calls of device threads

The probes on the GPU leave some helpers to the host. A thread stores the arguments in the shared page, takes a
spinlock, stores the request, raises `flag1` and spins on `flag2`; the watcher thread of the host handles the request
and raises `flag2`. The threads are those of one loaded module, which share its lock, and the lanes of a warp take their
turns in any order. Each step is one access to what is shared; the memory is sequentially consistent.

The requests and the responses are not mixed up (`handshake_exact`). The arguments are stored before the lock is taken,
so they are the caller's own only where no two calls with arguments overlap (`exclusive_linearizable`).
-/

namespace Gpu

open Lib Lib.Memory

/-! ## Calls

What a thread asks of the host, and which bytes of the page it stores for it. -/

/-- The size of a buffer on the page. -/
def GPU_HELPER_MAX_BUF : Nat := 2 ^ 24

/-! `HelperOperation` -/

-- the requests have the numbers of the helpers
def MAP_LOOKUP : BitVec 32 := 1
def MAP_UPDATE : BitVec 32 := 2
def MAP_DELETE : BitVec 32 := 3
def TRACE_PRINTK : BitVec 32 := 6
def GET_CURRENT_PID_TGID : BitVec 32 := 14
def PUTS : BitVec 32 := 501

/-- Bytes in the device's memory. -/
abbrev Bytes := List (BitVec 8)

/-- The helpers that make a call, with what they find at their pointers: `_bpf_helper_ext_0001`, `0002` and `0003` on a
map of the host, `0006`, `0014` and `0501`. -/
inductive HelperCall where
  | mapLookup (map : BitVec 64) (key : Bytes)
  | mapUpdate (map : BitVec 64) (key value : Bytes) (flags : BitVec 64)
  | mapDelete (map : BitVec 64) (key : Bytes)
  | tracePrintk (fmt : Bytes) (arg1 arg2 arg3 : BitVec 64)
  | getCurrentPidTgid
  | puts (data : Bytes)
deriving DecidableEq, Repr

namespace HelperCall

/-- The number of a request. -/
def requestId : HelperCall → BitVec 32
  | mapLookup .. => MAP_LOOKUP
  | mapUpdate .. => MAP_UPDATE
  | mapDelete .. => MAP_DELETE
  | tracePrintk .. => TRACE_PRINTK
  | getCurrentPidTgid => GET_CURRENT_PID_TGID
  | puts _ => PUTS

/-- The map that it is about. -/
def mapId : HelperCall → BitVec 64
  | mapLookup map _ | mapUpdate map _ _ _ | mapDelete map _ => map
  | tracePrintk .. | getCurrentPidTgid | puts _ => 0

/-- The bytes from an offset in `req` on. -/
def bytesAt (offset : Nat) (bytes : Bytes) : List (Nat × BitVec 8) := (bytes.zipIdx offset).map Prod.swap

/-- The stores of the arguments in `req`, a union. -/
def stores : HelperCall → List (Nat × BitVec 8)
  | mapLookup _ key | mapDelete _ key => bytesAt 0 key
  | mapUpdate _ key value flags =>
    bytesAt 0 key ++ bytesAt GPU_HELPER_MAX_BUF value ++ bytesAt (2 * GPU_HELPER_MAX_BUF) (leBytes 8 flags.toNat)
  | tracePrintk fmt arg1 arg2 arg3 =>
    bytesAt 0 fmt ++ bytesAt 1000 (leBytes 4 fmt.length) ++ bytesAt 1008 (leBytes 8 arg1.toNat) ++
      bytesAt 1016 (leBytes 8 arg2.toNat) ++ bytesAt 1024 (leBytes 8 arg3.toNat)
  | getCurrentPidTgid => []
  | puts data => bytesAt 0 (data.takeWhile (· ≠ 0) ++ [0])

end HelperCall

/-! ## The host's helpers

What the watcher calls is a parameter. Only the order in which it reads the request is fixed. -/

/-- Code that reads `req` a byte at a time. -/
inductive Reading (α : Type) where
  | done (a : α)
  | read (offset : Nat) (next : BitVec 8 → Reading α)

namespace Reading

variable {α β : Type}

/-- What it gives where `req` does not change. -/
def eval (req : Nat → BitVec 8) : Reading α → α
  | done a => a
  | read offset next => (next (req offset)).eval req

/-- What is done with the result of a reading. -/
def map (f : α → β) : Reading α → Reading β
  | done a => done (f a)
  | read offset next => read offset fun b => (next b).map f

end Reading

/-- What `resp` and the host's world become. -/
abbrev Answer (ω : Type) := BitVec 64 × ω → BitVec 64 × ω

/-- The functions that the watcher calls. A lookup gives the pointer that the device can use. -/
structure HostHelpers (ω : Type) where
  mapLookupElem : BitVec 64 → Reading (ω → BitVec 64 × ω)
  mapUpdateElem : BitVec 64 → Reading (ω → BitVec 32 × ω)
  mapDeleteElem : BitVec 64 → Reading (ω → BitVec 32 × ω)
  tracePrintk   : Reading (ω → BitVec 32 × ω)
  pidTgid       : BitVec 64
  puts          : Reading (ω → ω)

/-- `resp.value = …` -/
def setValue {ω : Type} (f : ω → BitVec 64 × ω) : Answer ω := fun out => f out.2

/-- `resp.result = …`, an `int` -/
def setResult {ω : Type} (f : ω → BitVec 32 × ω) : Answer ω := fun out =>
  let result := f out.2
  (out.1.extractLsb' 32 32 ++ result.1, result.2)

/-- The chain of cases of the watcher. -/
def HostHelpers.handleRequest {ω : Type} (host : HostHelpers ω) (reqId : BitVec 32) (mapFd : BitVec 64) : Reading (Answer ω) :=
  if reqId = MAP_LOOKUP then (host.mapLookupElem mapFd).map setValue
  else if reqId = MAP_UPDATE then (host.mapUpdateElem mapFd).map setResult
  else if reqId = MAP_DELETE then (host.mapDeleteElem mapFd).map setResult
  else if reqId = TRACE_PRINTK then host.tracePrintk.map setResult
  else if reqId = GET_CURRENT_PID_TGID then .done fun out => (host.pidTgid, out.2)
  else if reqId = PUTS then host.puts.map fun f => setResult fun world => (0, f world)
  else .done id

/-! ## The shared page and its users

One page, one lock, the threads of one module and the watcher. Every load and store is a step of its own. -/

/-- `CommSharedMem`, without `occupy_flag` and `time_sum`, which no call uses. -/
structure CommSharedMem where
  flag1     : BitVec 32
  flag2     : BitVec 32
  requestId : BitVec 32
  mapId     : BitVec 64
  req       : Nat → BitVec 8
  resp      : BitVec 64

/-- What a thread does next. -/
inductive ThreadPhase where
  | idle
  | storing (call : HelperCall) (left : List (Nat × BitVec 8))
  | spinLock (call : HelperCall)
  | setRequestId (call : HelperCall)
  | setMapId (call : HelperCall)
  | setFlag1 (call : HelperCall)
  | spinWait (call : HelperCall)
  | clearFlag2 (call : HelperCall)
  | readResp (call : HelperCall)
  | spinUnlock (call : HelperCall) (resp : BitVec 64)

/-- What the watcher does next. -/
inductive WatcherPhase (ω : Type) where
  | polling
  | clearFlag1
  | readRequestId
  | readMapId (reqId : BitVec 32)
  | handling (reqId : BitVec 32) (mapFd : BitVec 64) (code : Reading (Answer ω))
  | setFlag2

/-- A request as the watcher has handled it. -/
structure Handled where
  requestId : BitVec 32
  mapId     : BitVec 64
  resp      : BitVec 64
deriving DecidableEq, Repr

/-- A call that has returned. -/
structure Returned where
  thread : Nat
  call   : HelperCall
  resp   : BitVec 64

/-- With the calls begun, those whose request is made, the requests handled and the calls that have returned, each in
order. -/
structure HelperWorld (ω : Type) where
  mem      : CommSharedMem
  lock     : Bool
  threads  : Nat → ThreadPhase
  watcher  : WatcherPhase ω
  world    : ω
  begun    : List (Nat × HelperCall)
  asked    : List (Nat × HelperCall)
  handled  : List Handled
  returned : List Returned

/-- A thread calls or goes on, or the watcher does. -/
inductive HelperEvent where
  | begin (t : Nat) (call : HelperCall)
  | device (t : Nat)
  | host

namespace HelperWorld

variable {ω : Type}

/-- One thread changes. -/
def setThread (s : HelperWorld ω) (t : Nat) (phase : ThreadPhase) : HelperWorld ω :=
  { s with threads := Function.update s.threads t phase }

/-- No thread is in a call, and the watcher polls. -/
def init (req : Nat → BitVec 8) (world : ω) : HelperWorld ω where
  mem := ⟨0, 0, 0, 0, req, 0⟩
  lock := false
  threads _ := .idle
  watcher := .polling
  world := world
  begun := []
  asked := []
  handled := []
  returned := []

/-- A helper, up to its return. -/
def deviceStep (s : HelperWorld ω) (t : Nat) : HelperWorld ω :=
  match s.threads t with
  | .idle => s
  | .storing call [] => s.setThread t (.spinLock call)
  | .storing call (store :: left) =>
    { s.setThread t (.storing call left) with mem := { s.mem with req := Function.update s.mem.req store.1 store.2 } }
  | .spinLock call => if s.lock then s else { s.setThread t (.setRequestId call) with lock := true }
  | .setRequestId call => { s.setThread t (.setMapId call) with mem := { s.mem with requestId := call.requestId } }
  | .setMapId call => { s.setThread t (.setFlag1 call) with mem := { s.mem with mapId := call.mapId } }
  | .setFlag1 call =>
    { s.setThread t (.spinWait call) with mem := { s.mem with flag1 := 1 }, asked := s.asked ++ [(t, call)] }
  | .spinWait call => if s.mem.flag2 = 0 then s else s.setThread t (.clearFlag2 call)
  | .clearFlag2 call => { s.setThread t (.readResp call) with mem := { s.mem with flag2 := 0 } }
  | .readResp call => s.setThread t (.spinUnlock call s.mem.resp)
  | .spinUnlock call resp =>
    { s.setThread t .idle with lock := false, returned := s.returned ++ [⟨t, call, resp⟩] }

/-- The watcher's loop. -/
def hostStep (host : HostHelpers ω) (s : HelperWorld ω) : HelperWorld ω :=
  match s.watcher with
  | .polling => if s.mem.flag1 = 1 then { s with watcher := .clearFlag1 } else s
  | .clearFlag1 => { s with mem := { s.mem with flag1 := 0 }, watcher := .readRequestId }
  | .readRequestId => { s with watcher := .readMapId s.mem.requestId }
  | .readMapId reqId => { s with watcher := .handling reqId s.mem.mapId (host.handleRequest reqId s.mem.mapId) }
  | .handling reqId mapFd (.read offset next) => { s with watcher := .handling reqId mapFd (next (s.mem.req offset)) }
  | .handling reqId mapFd (.done answer) =>
    let out := answer (s.mem.resp, s.world)
    { s with mem := { s.mem with resp := out.1 }, world := out.2, watcher := .setFlag2,
             handled := s.handled ++ [⟨reqId, mapFd, out.1⟩] }
  | .setFlag2 => { s with mem := { s.mem with flag2 := 1 }, watcher := .polling }

/-- A thread in a call does not begin another. -/
def step (host : HostHelpers ω) (s : HelperWorld ω) : HelperEvent → HelperWorld ω
  | .begin t call =>
    match s.threads t with
    | .idle => { s.setThread t (.storing call call.stores) with begun := s.begun ++ [(t, call)] }
    | _ => s
  | .device t => s.deviceStep t
  | .host => s.hostStep host

end HelperWorld

/-! ## The hand-shake

The lock keeps the threads apart, and the two flags keep the caller and the watcher apart. What is stored before the
lock is taken is not kept apart by either. -/

section Handshake

variable {ω : Type}

/-- What the host is told of a call beside its arguments. -/
def HelperCall.request (call : HelperCall) : BitVec 32 × BitVec 64 := (call.requestId, call.mapId)

/-- What it was told of a request that it has handled. -/
def Handled.request (handled : Handled) : BitVec 32 × BitVec 64 := (handled.requestId, handled.mapId)

/-- The call of a return. -/
def Returned.asked (returned : Returned) : Nat × HelperCall := (returned.thread, returned.call)

/-- The request of a call and its response. -/
def HelperCall.handled (call : HelperCall) (resp : BitVec 64) : Handled := ⟨call.requestId, call.mapId, resp⟩

/-- What the host made of it. -/
def Returned.handled (returned : Returned) : Handled := returned.call.handled returned.resp

/-- The thread has the lock. -/
def ThreadPhase.holds : ThreadPhase → Bool
  | .idle | .storing _ _ | .spinLock _ => false
  | .setRequestId _ | .setMapId _ | .setFlag1 _ | .spinWait _ | .clearFlag2 _ | .readResp _ | .spinUnlock _ _ => true

/-- Every request handled is that of a call that has returned, with its response. -/
def Settled (s : HelperWorld ω) : Prop :=
  s.asked = s.returned.map Returned.asked ∧ s.handled = s.returned.map Returned.handled

/-- The last call has its request made, and not handled yet. -/
def Pending (s : HelperWorld ω) (t : Nat) (call : HelperCall) : Prop :=
  s.asked = s.returned.map Returned.asked ++ [(t, call)] ∧ s.handled = s.returned.map Returned.handled

/-- The last call's request is handled. -/
def Answered (s : HelperWorld ω) (t : Nat) (call : HelperCall) (resp : BitVec 64) : Prop :=
  s.asked = s.returned.map Returned.asked ++ [(t, call)] ∧
    s.handled = s.returned.map Returned.handled ++ [call.handled resp]

/-- The watcher waits for a request. -/
def Waiting (s : HelperWorld ω) : Prop := s.mem.flag1 = 0 ∧ s.mem.flag2 = 0 ∧ s.watcher = .polling

/-- The request on the page is that of the call. -/
def Stored (s : HelperWorld ω) (call : HelperCall) : Prop := s.mem.requestId = call.requestId ∧ s.mem.mapId = call.mapId

/-- While the caller spins: the flag is raised, the watcher reads the request and handles it, it is about to raise
`flag2`, and it has. -/
def Exchange (s : HelperWorld ω) (t : Nat) (call : HelperCall) : Prop :=
  (s.mem.flag1 = 1 ∧ s.mem.flag2 = 0 ∧ (s.watcher = .polling ∨ s.watcher = .clearFlag1) ∧ Pending s t call) ∨
  (s.mem.flag1 = 0 ∧ s.mem.flag2 = 0 ∧ (s.watcher = .readRequestId ∨ s.watcher = .readMapId call.requestId ∨
    ∃ code, s.watcher = .handling call.requestId call.mapId code) ∧ Pending s t call) ∨
  (s.mem.flag1 = 0 ∧ s.mem.flag2 = 0 ∧ s.watcher = .setFlag2 ∧ Answered s t call s.mem.resp) ∨
  (s.mem.flag1 = 0 ∧ s.mem.flag2 = 1 ∧ s.watcher = .polling ∧ Answered s t call s.mem.resp)

/-- What holds while a thread with the lock is in a phase. -/
def Holding (s : HelperWorld ω) (t : Nat) : ThreadPhase → Prop
  | .idle | .storing _ _ | .spinLock _ => False
  | .setRequestId _ => Waiting s ∧ Settled s
  | .setMapId call => Waiting s ∧ Settled s ∧ s.mem.requestId = call.requestId
  | .setFlag1 call => Waiting s ∧ Settled s ∧ Stored s call
  | .spinWait call => Stored s call ∧ Exchange s t call
  | .clearFlag2 call => s.mem.flag1 = 0 ∧ s.watcher = .polling ∧ Answered s t call s.mem.resp
  | .readResp call => Waiting s ∧ Answered s t call s.mem.resp
  | .spinUnlock call resp => Waiting s ∧ Answered s t call resp

/-- The lock is free and no call is between, or one thread has it. -/
inductive LockInv (s : HelperWorld ω) : Prop
  | free (hlock : s.lock = false) (hnone : ∀ t, (s.threads t).holds = false) (hwaiting : Waiting s) (hsettled : Settled s)
  | held {t : Nat} (hlock : s.lock = true) (hothers : ∀ u, u ≠ t → (s.threads u).holds = false)
      (hholding : Holding s t (s.threads t))

/-- The call that a thread has begun and not made the request of. -/
def ThreadPhase.pending : ThreadPhase → List HelperCall
  | .storing call _ | .spinLock call | .setRequestId call | .setMapId call | .setFlag1 call => [call]
  | .idle | .spinWait _ | .clearFlag2 _ | .readResp _ | .spinUnlock _ _ => []

/-- A thread's calls, in order. -/
def callsOf (t : Nat) (calls : List (Nat × HelperCall)) : List HelperCall := (calls.filter (·.1 = t)).map Prod.snd

/-- What a thread has begun it has asked for, but for the last call. -/
def Accounts (s : HelperWorld ω) : Prop :=
  ∀ t, callsOf t s.begun = callsOf t s.asked ++ (s.threads t).pending

/-- Who is past the lock holds it. -/
theorem holds_of_holding {s : HelperWorld ω} {t : Nat} {phase : ThreadPhase} (h : Holding s t phase) :
    phase.holds = true := by
  cases phase <;> first | rfl | exact h.elim

/-- The thread that changes. -/
theorem setThread_self (s : HelperWorld ω) (t : Nat) (phase : ThreadPhase) : (s.setThread t phase).threads t = phase :=
  Function.update_self ..

/-- And the others. -/
theorem setThread_ne (s : HelperWorld ω) {t u : Nat} (phase : ThreadPhase) (h : u ≠ t) :
    (s.setThread t phase).threads u = s.threads u :=
  Function.update_of_ne h ..

/-! ### The lock

A step of a thread, by whether the thread has it. -/

/-- A step of a thread without the lock that changes `req` only. -/
theorem LockInv.frame {s : HelperWorld ω} (h : LockInv s) {t : Nat} (ht : (s.threads t).holds = false) {phase : ThreadPhase}
    (hphase : phase.holds = false) (req : Nat → BitVec 8) (begun : List (Nat × HelperCall)) :
    LockInv { s.setThread t phase with mem := { s.mem with req := req }, begun := begun } := by
  have hthreads : ∀ u, (s.threads u).holds = false → ((s.setThread t phase).threads u).holds = false := by
    intro u hu
    by_cases hut : u = t
    · rw [hut, setThread_self, hphase]
    · rw [setThread_ne s phase hut, hu]
  cases h with
  | free hlock hnone hwaiting hsettled => exact .free hlock (fun u => hthreads u (hnone u)) hwaiting hsettled
  | @held u hlock hothers hholding =>
      have hut : u ≠ t := by
        rintro rfl
        rw [holds_of_holding hholding] at ht
        cases ht
      refine .held (t := u) hlock (fun v hv => hthreads v (hothers v hv)) ?_
      change Holding _ u ((s.setThread t phase).threads u)
      rw [setThread_ne s phase hut]
      exact hholding

/-- The thread with the lock. -/
theorem LockInv.holding {s : HelperWorld ω} (h : LockInv s) {t : Nat} (ht : (s.threads t).holds = true) :
    s.lock = true ∧ (∀ u, u ≠ t → (s.threads u).holds = false) ∧ Holding s t (s.threads t) := by
  cases h with
  | free _ hnone =>
      rw [hnone t] at ht
      cases ht
  | @held u hlock hothers hholding =>
      obtain rfl : t = u := by
        by_contra hne
        rw [hothers t hne] at ht
        cases ht
      exact ⟨hlock, hothers, hholding⟩

/-- A step of the thread with the lock that keeps it. -/
theorem LockInv.goesOn {s s' : HelperWorld ω} {t : Nat} (hlock : s'.lock = true)
    (hothers : ∀ u, u ≠ t → (s.threads u).holds = false) {phase : ThreadPhase}
    (hthreads : s'.threads = Function.update s.threads t phase) (hholding : Holding s' t phase) : LockInv s' := by
  refine .held (t := t) hlock (fun u hu => ?_) ?_
  · rw [hthreads, Function.update_of_ne hu]
    exact hothers u hu
  · rw [hthreads, Function.update_self]
    exact hholding

/-- **A step of a thread** keeps the handshake. -/
theorem LockInv.deviceStep {s : HelperWorld ω} (h : LockInv s) (t : Nat) : LockInv (s.deviceStep t) := by
  unfold HelperWorld.deviceStep
  -- by where the thread is; before the lock it touches arguments only
  cases hphase : s.threads t with
  | idle => exact h
  | storing call left =>
      have ht : (s.threads t).holds = false := by rw [hphase]; rfl
      cases left with
      | nil => exact h.frame ht rfl s.mem.req s.begun
      | cons store left => exact h.frame ht rfl (Function.update s.mem.req store.1 store.2) s.begun
  | spinLock call =>
      dsimp only
      cases h with
      | held hlock hothers hholding =>
          rw [if_pos hlock]
          exact .held hlock hothers hholding
      | free hlock hnone hwaiting hsettled =>
          rw [if_neg (by rw [hlock]; exact Bool.false_ne_true)]
          exact .goesOn rfl (fun u _ => hnone u) rfl ⟨hwaiting, hsettled⟩
  | setRequestId call =>
      obtain ⟨hlock, hothers, hholding⟩ := h.holding (t := t) (by rw [hphase]; rfl)
      rw [hphase] at hholding
      obtain ⟨hwaiting, hsettled⟩ := hholding
      exact .goesOn hlock hothers rfl ⟨hwaiting, hsettled, rfl⟩
  | setMapId call =>
      obtain ⟨hlock, hothers, hholding⟩ := h.holding (t := t) (by rw [hphase]; rfl)
      rw [hphase] at hholding
      obtain ⟨hwaiting, hsettled, hrequest⟩ := hholding
      exact .goesOn hlock hothers rfl ⟨hwaiting, hsettled, hrequest, rfl⟩
  | setFlag1 call =>
      obtain ⟨hlock, hothers, hholding⟩ := h.holding (t := t) (by rw [hphase]; rfl)
      rw [hphase] at hholding
      obtain ⟨⟨-, hflag2, hwatcher⟩, ⟨hasked, hhandled⟩, hstored⟩ := hholding
      refine .goesOn hlock hothers rfl ⟨hstored, Or.inl ⟨rfl, hflag2, Or.inl hwatcher, ?_, hhandled⟩⟩
      exact congrArg (· ++ [(t, call)]) hasked
  | spinWait call =>
      obtain ⟨hlock, hothers, hholding⟩ := h.holding (t := t) (by rw [hphase]; rfl)
      dsimp only
      by_cases hflag2 : s.mem.flag2 = 0
      · rw [if_pos hflag2]
        exact h
      · rw [if_neg hflag2]
        rw [hphase] at hholding
        obtain ⟨-, ⟨-, h0, -⟩ | ⟨-, h0, -⟩ | ⟨-, h0, -⟩ | ⟨hflag1, -, hwatcher, hanswered⟩⟩ := hholding
        · exact absurd h0 hflag2
        · exact absurd h0 hflag2
        · exact absurd h0 hflag2
        · exact .goesOn hlock hothers rfl ⟨hflag1, hwatcher, hanswered⟩
  | clearFlag2 call =>
      obtain ⟨hlock, hothers, hholding⟩ := h.holding (t := t) (by rw [hphase]; rfl)
      rw [hphase] at hholding
      obtain ⟨hflag1, hwatcher, hanswered⟩ := hholding
      exact .goesOn hlock hothers rfl ⟨⟨hflag1, rfl, hwatcher⟩, hanswered⟩
  | readResp call =>
      obtain ⟨hlock, hothers, hholding⟩ := h.holding (t := t) (by rw [hphase]; rfl)
      rw [hphase] at hholding
      obtain ⟨hwaiting, hanswered⟩ := hholding
      exact .goesOn hlock hothers rfl ⟨hwaiting, hanswered⟩
  | spinUnlock call resp =>
      obtain ⟨-, hothers, hholding⟩ := h.holding (t := t) (by rw [hphase]; rfl)
      rw [hphase] at hholding
      obtain ⟨hwaiting, hasked, hhandled⟩ := hholding
      refine .free rfl (fun u => ?_) hwaiting ⟨?_, ?_⟩
      · by_cases hut : u = t
        · rw [hut]
          exact congrArg ThreadPhase.holds (setThread_self s t .idle)
        · exact (congrArg ThreadPhase.holds (setThread_ne s .idle hut)).trans (hothers u hut)
      · rw [List.map_append]
        exact hasked
      · rw [List.map_append]
        exact hhandled

/-! ### The watcher

It acts on its own between the store of `flag1` and that of `flag2` only. -/

/-- Where the watcher waits, nothing happens. -/
theorem hostStep_waiting (host : HostHelpers ω) {s : HelperWorld ω} (hflag1 : s.mem.flag1 = 0) (hwatcher : s.watcher = .polling) :
    s.hostStep host = s := by
  unfold HelperWorld.hostStep
  rw [hwatcher]
  dsimp only
  rw [hflag1, if_neg (by decide)]

/-- **A step of the watcher** while a thread waits: it sees the request of this thread, and answers it once. -/
theorem Exchange.hostStep (host : HostHelpers ω) {s : HelperWorld ω} {t : Nat} {call : HelperCall} (hstored : Stored s call)
    (h : Exchange s t call) : Stored (s.hostStep host) call ∧ Exchange (s.hostStep host) t call ∧
      (s.hostStep host).lock = s.lock ∧ (s.hostStep host).threads = s.threads := by
  obtain ⟨hrequest, hmap⟩ := hstored
  -- before the first flag is taken, while the request is handled, and after the answer
  rcases h with ⟨hflag1, hflag2, hwatcher | hwatcher, hpending⟩ | ⟨hflag1, hflag2, hwatcher, hpending⟩ |
    ⟨hflag1, hflag2, hwatcher, hanswered⟩ | ⟨hflag1, hflag2, hwatcher, hanswered⟩
  · unfold HelperWorld.hostStep
    rw [hwatcher]
    dsimp only
    rw [if_pos hflag1]
    exact ⟨⟨hrequest, hmap⟩, Or.inl ⟨hflag1, hflag2, Or.inr rfl, hpending⟩, rfl, rfl⟩
  · unfold HelperWorld.hostStep
    rw [hwatcher]
    exact ⟨⟨hrequest, hmap⟩, Or.inr (Or.inl ⟨rfl, hflag2, Or.inl rfl, hpending⟩), rfl, rfl⟩
  · unfold HelperWorld.hostStep
    rcases hwatcher with hwatcher | hwatcher | ⟨code, hwatcher⟩
    · rw [hwatcher]
      refine ⟨⟨hrequest, hmap⟩, Or.inr (Or.inl ⟨hflag1, hflag2, Or.inr (Or.inl ?_), hpending⟩), rfl, rfl⟩
      exact congrArg WatcherPhase.readMapId hrequest
    · rw [hwatcher]
      refine ⟨⟨hrequest, hmap⟩, Or.inr (Or.inl ⟨hflag1, hflag2, Or.inr (Or.inr ?_), hpending⟩), rfl, rfl⟩
      refine ⟨host.handleRequest call.requestId s.mem.mapId, ?_⟩
      dsimp only
      rw [hmap]
    · rw [hwatcher]
      cases code with
      | read offset next =>
          exact ⟨⟨hrequest, hmap⟩, Or.inr (Or.inl ⟨hflag1, hflag2, Or.inr (Or.inr ⟨_, rfl⟩), hpending⟩), rfl, rfl⟩
      | done answer =>
          obtain ⟨hasked, hhandled⟩ := hpending
          refine ⟨⟨hrequest, hmap⟩, Or.inr (Or.inr (Or.inl ⟨hflag1, hflag2, rfl, hasked, ?_⟩)), rfl, rfl⟩
          exact congrArg (· ++ _) hhandled
  · unfold HelperWorld.hostStep
    rw [hwatcher]
    exact ⟨⟨hrequest, hmap⟩, Or.inr (Or.inr (Or.inr ⟨hflag1, rfl, rfl, hanswered⟩)), rfl, rfl⟩
  · rw [hostStep_waiting host hflag1 hwatcher]
    exact ⟨⟨hrequest, hmap⟩, Or.inr (Or.inr (Or.inr ⟨hflag1, hflag2, hwatcher, hanswered⟩)), rfl, rfl⟩

/-- The same for the invariant: without a thread that waits the watcher only polls. -/
theorem LockInv.hostStep (host : HostHelpers ω) {s : HelperWorld ω} (hinv : LockInv s) :
    LockInv (s.hostStep host) := by
  have hwaits : Waiting s → LockInv (s.hostStep host) := fun hwaiting => by
    rw [hostStep_waiting host hwaiting.1 hwaiting.2.2]
    exact hinv
  have hkept := hinv
  cases hinv with
  | free _ _ hwaiting _ => exact hwaits hwaiting
  | @held t hlock hothers hholding =>
      cases hphase : s.threads t with
      | idle | storing call left | spinLock call =>
          rw [hphase] at hholding
          exact hholding.elim
      | setRequestId call | setMapId call | setFlag1 call | readResp call | spinUnlock call resp =>
          rw [hphase] at hholding
          exact hwaits hholding.1
      | clearFlag2 call =>
          rw [hphase] at hholding
          rw [hostStep_waiting host hholding.1 hholding.2.1]
          exact hkept
      | spinWait call =>
          rw [hphase] at hholding
          obtain ⟨hstored, hexchange, hlock', hthreads⟩ := Exchange.hostStep host hholding.1 hholding.2
          refine .held (t := t) (hlock'.trans hlock) (fun u hu => ?_) ?_
          · rw [hthreads]
            exact hothers u hu
          · rw [hthreads, hphase]
            exact ⟨hstored, hexchange⟩

/-! ### A thread's calls

A thread makes one call at a time. What it has asked for are its calls, but for the one that is under way. -/

/-- The calls of a thread in order. -/
theorem callsOf_append (t : Nat) (calls calls' : List (Nat × HelperCall)) :
    callsOf t (calls ++ calls') = callsOf t calls ++ callsOf t calls' := by
  simp [callsOf]

/-- Its own call counts. -/
theorem callsOf_self (t : Nat) (call : HelperCall) : callsOf t [(t, call)] = [call] := by
  simp [callsOf]

/-- And another's does not. -/
theorem callsOf_ne {t u : Nat} (h : u ≠ t) (call : HelperCall) : callsOf u [(t, call)] = [] := by
  simp [callsOf, Ne.symm h]

/-- A step that only moves a thread on. -/
theorem Accounts.setThread {s s' : HelperWorld ω} (h : Accounts s) {t : Nat} {phase : ThreadPhase}
    (hthreads : s'.threads = Function.update s.threads t phase) (hbegun : s'.begun = s.begun) (hasked : s'.asked = s.asked)
    (hpending : phase.pending = (s.threads t).pending) : Accounts s' := by
  intro u
  rw [hbegun, hasked, hthreads, h u]
  by_cases hut : u = t
  · rw [hut, Function.update_self, hpending]
  · rw [Function.update_of_ne hut]

/-- A step of a thread keeps the accounts. -/
theorem Accounts.deviceStep {s : HelperWorld ω} (h : Accounts s) (t : Nat) : Accounts (s.deviceStep t) := by
  unfold HelperWorld.deviceStep
  cases hphase : s.threads t with
  | idle => exact h
  | storing call left =>
      cases left with
      | nil => exact h.setThread rfl rfl rfl (by rw [hphase]; rfl)
      | cons store left => exact h.setThread rfl rfl rfl (by rw [hphase]; rfl)
  | spinLock call =>
      dsimp only
      split
      · exact h
      · exact h.setThread rfl rfl rfl (by rw [hphase]; rfl)
  | setFlag1 call =>
      intro u
      change callsOf u s.begun = callsOf u (s.asked ++ [(t, call)]) ++ ((s.setThread t (.spinWait call)).threads u).pending
      rw [callsOf_append, h u]
      by_cases hut : u = t
      · rw [hut, hphase, callsOf_self, setThread_self]
        exact (List.append_nil _).symm
      · rw [callsOf_ne hut, List.append_nil, setThread_ne s _ hut]
  | spinWait call =>
      dsimp only
      split
      · exact h
      · exact h.setThread rfl rfl rfl (by rw [hphase]; rfl)
  | setRequestId call | setMapId call | clearFlag2 call | readResp call | spinUnlock call resp =>
      exact h.setThread rfl rfl rfl (by rw [hphase]; rfl)

/-- The watcher does not touch them. -/
theorem Accounts.hostStep (host : HostHelpers ω) {s : HelperWorld ω} (h : Accounts s) : Accounts (s.hostStep host) := by
  unfold HelperWorld.hostStep
  cases hwatcher : s.watcher with
  | polling =>
      dsimp only
      split
      · exact h
      · exact h
  | clearFlag1 | readRequestId | readMapId reqId | setFlag2 => exact h
  | handling reqId mapFd code =>
      cases code with
      | read offset next => exact h
      | done answer => exact h

/-! ### Runs -/

/-- The threads and the watcher, in any order, as far as a condition on each step allows. -/
def helperSystem (host : HostHelpers ω) (C : HelperWorld ω → HelperEvent → Prop) : System (HelperWorld ω) HelperEvent where
  step s e s' := C s e ∧ s' = s.step host e

/-- **Every step keeps the handshake.** -/
theorem handshake_preserved (host : HostHelpers ω) (C : HelperWorld ω → HelperEvent → Prop) :
    Preserved (helperSystem host C) fun s => LockInv s ∧ Accounts s := by
  rintro s e s' ⟨hlock, haccounts⟩ ⟨-, rfl⟩
  cases e with
  | device t => exact ⟨hlock.deviceStep t, haccounts.deviceStep t⟩
  | host => exact ⟨hlock.hostStep host, haccounts.hostStep host⟩
  | begin t call =>
      unfold HelperWorld.step
      dsimp only
      split
      · next hidle =>
          refine ⟨hlock.frame (by rw [hidle]; rfl) rfl s.mem.req _, fun u => ?_⟩
          change callsOf u (s.begun ++ [(t, call)]) =
            callsOf u s.asked ++ ((s.setThread t (.storing call call.stores)).threads u).pending
          rw [callsOf_append, haccounts u]
          by_cases hut : u = t
          · rw [hut, hidle, callsOf_self, setThread_self, List.append_assoc]
            rfl
          · rw [callsOf_ne hut, List.append_nil, setThread_ne s _ hut]
      · exact ⟨hlock, haccounts⟩

/-- At the start nothing is under way. -/
theorem handshake_init (req : Nat → BitVec 8) (world : ω) :
    LockInv (HelperWorld.init req world) ∧ Accounts (HelperWorld.init req world) :=
  ⟨.free rfl (fun _ => rfl) ⟨rfl, rfl, rfl⟩ ⟨rfl, rfl⟩, fun _ => rfl⟩

/-- Each call is handled once, as what it is, and gets the response it is handled with. -/
structure HandshakeExact (s : HelperWorld ω) : Prop where
  /-- The calls return in the order in which they made their requests. -/
  returns   : s.returned.map Returned.asked <+: s.asked
  /-- The k-th request handled is the k-th made. -/
  requests  : s.handled.map Handled.request <+: s.asked.map fun c => c.2.request
  /-- The k-th call to return has the response to the k-th request. -/
  responses : s.returned.map Returned.handled <+: s.handled
  /-- At most one call is between its request and its return. -/
  one       : s.asked.length ≤ s.returned.length + 1
  /-- A thread that is in no call has had every call it began returned, in order. -/
  each      : ∀ t, s.threads t = .idle → callsOf t s.begun = callsOf t (s.returned.map Returned.asked)

/-- What the invariant says of the calls that were asked, handled and returned. -/
theorem handshake_of_inv {s : HelperWorld ω} (hlock : LockInv s) (haccounts : Accounts s) : HandshakeExact s := by
  have hmap : (fun c : Nat × HelperCall => c.2.request) ∘ Returned.asked = Handled.request ∘ Returned.handled := rfl
  -- nobody is past the lock: all that was asked is returned
  have hsettled : Settled s → HandshakeExact s := by
    rintro ⟨hasked, hhandled⟩
    refine { returns := ?_, requests := ?_, responses := ?_, one := ?_, each := fun t ht => ?_ }
    · rw [hasked]
    · rw [hasked, hhandled, List.map_map, List.map_map, hmap]
    · rw [hhandled]
    · rw [hasked, List.length_map]
      exact Nat.le_succ _
    · rw [haccounts t, hasked, ht]
      exact List.append_nil _
  -- somebody is: one call is under way, and it is the last
  have hlast : ∀ t call, s.threads t ≠ .idle → s.asked = s.returned.map Returned.asked ++ [(t, call)] →
      (s.handled = s.returned.map Returned.handled ∨
        ∃ resp, s.handled = s.returned.map Returned.handled ++ [call.handled resp]) → HandshakeExact s := by
    intro t call hbusy hasked hhandled
    refine { returns := ?_, requests := ?_, responses := ?_, one := ?_, each := fun u hu => ?_ }
    · rw [hasked]
      exact List.prefix_append _ _
    · rw [hasked, List.map_append, List.map_map, hmap]
      rcases hhandled with hhandled | ⟨resp, hhandled⟩
      · rw [hhandled, List.map_map]
        exact List.prefix_append _ _
      · rw [hhandled, List.map_append, List.map_map]
        exact List.prefix_refl _
    · rcases hhandled with hhandled | ⟨resp, hhandled⟩
      · rw [hhandled]
      · rw [hhandled]
        exact List.prefix_append _ _
    · rw [hasked, List.length_append, List.length_map]
      exact Nat.le_refl _
    · have hut : u ≠ t := by
        rintro rfl
        exact hbusy hu
      rw [haccounts u, hasked, hu, callsOf_append, callsOf_ne hut]
      simp [ThreadPhase.pending]
  cases hlock with
  | free _ _ _ h => exact hsettled h
  | @held t _ _ hholding =>
      cases hphase : s.threads t with
      | idle | storing call left | spinLock call =>
          rw [hphase] at hholding
          exact hholding.elim
      | setRequestId call =>
          rw [hphase] at hholding
          exact hsettled hholding.2
      | setMapId call | setFlag1 call =>
          rw [hphase] at hholding
          exact hsettled hholding.2.1
      | spinWait call =>
          rw [hphase] at hholding
          have hbusy : s.threads t ≠ .idle := by
            rw [hphase]
            exact fun h => nomatch h
          obtain ⟨-, ⟨-, -, -, hpending⟩ | ⟨-, -, -, hpending⟩ | ⟨-, -, -, hanswered⟩ | ⟨-, -, -, hanswered⟩⟩ := hholding
          · exact hlast t call hbusy hpending.1 (Or.inl hpending.2)
          · exact hlast t call hbusy hpending.1 (Or.inl hpending.2)
          · exact hlast t call hbusy hanswered.1 (Or.inr ⟨_, hanswered.2⟩)
          · exact hlast t call hbusy hanswered.1 (Or.inr ⟨_, hanswered.2⟩)
      | clearFlag2 call =>
          rw [hphase] at hholding
          obtain ⟨-, -, hanswered⟩ := hholding
          exact hlast t call (by rw [hphase]; exact fun h => nomatch h) hanswered.1 (Or.inr ⟨_, hanswered.2⟩)
      | readResp call =>
          rw [hphase] at hholding
          obtain ⟨-, hanswered⟩ := hholding
          exact hlast t call (by rw [hphase]; exact fun h => nomatch h) hanswered.1 (Or.inr ⟨_, hanswered.2⟩)
      | spinUnlock call resp =>
          rw [hphase] at hholding
          obtain ⟨-, hanswered⟩ := hholding
          exact hlast t call (by rw [hphase]; exact fun h => nomatch h) hanswered.1 (Or.inr ⟨_, hanswered.2⟩)

/-- More steps after a run. -/
theorem run_steps {host : HostHelpers ω} {C : HelperWorld ω → HelperEvent → Prop} {s₀ s : HelperWorld ω}
    {es : List HelperEvent} (hrun : Run (helperSystem host C) s₀ es s) (fs : List HelperEvent)
    (hC : ∀ f ∈ fs, ∀ s, C s f) : Run (helperSystem host C) s₀ (es ++ fs) (fs.foldl (HelperWorld.step host) s) := by
  induction fs generalizing es s with
  | nil =>
      rw [List.append_nil]
      exact hrun
  | cons f fs ih =>
      rw [List.append_cons]
      exact ih (hrun.snoc ⟨hC f List.mem_cons_self s, rfl⟩) fun g hg => hC g (List.mem_cons_of_mem f hg)

/-- **Requests and responses are not mixed up**: in every run of any threads with the watcher, whatever their
arguments. -/
theorem handshake_exact (host : HostHelpers ω) (req : Nat → BitVec 8) (world : ω) (es : List HelperEvent) :
    HandshakeExact (es.foldl (HelperWorld.step host) (.init req world)) := by
  have hstart : Run (helperSystem host fun _ _ => True) (HelperWorld.init req world) [] (.init req world) := Run.nil
  have hrun := run_steps hstart es fun _ _ _ => trivial
  obtain ⟨hlock, haccounts⟩ :=
    Run.invariant (I := fun s => LockInv s ∧ Accounts s) (handshake_init req world) (handshake_preserved host _) hrun
  exact handshake_of_inv hlock haccounts

end Handshake

/-! ## The arguments

Arguments are stored before the lock is taken, so two calls that overlap write the same bytes. Where calls with
arguments begin one at a time, what the host reads are the arguments of the call that it answers. -/

section Arguments

variable {ω : Type}

/-- A byte of the arguments is stored. -/
def storeByte (req : Nat → BitVec 8) (store : Nat × BitVec 8) : Nat → BitVec 8 := Function.update req store.1 store.2

/-- What the calls act on. -/
structure Page (ω : Type) where
  req   : Nat → BitVec 8
  resp  : BitVec 64
  world : ω

/-- A call alone: its arguments are stored, and its request is handled. -/
def serve (host : HostHelpers ω) (page : Page ω) (call : HelperCall) : BitVec 64 × Page ω :=
  let req := call.stores.foldl storeByte page.req
  let out := (host.handleRequest call.requestId call.mapId).eval req (page.resp, page.world)
  (out.1, ⟨req, out.1, out.2⟩)

/-- All but one of the calls store arguments. -/
def HelperCall.hasArgs : HelperCall → Bool
  | getCurrentPidTgid => false
  | _ => true

/-- The arguments of a thread in a phase are still to be handled; while it spins, this depends on how far the watcher
is. -/
def ThreadPhase.live (unhandled : Bool) : ThreadPhase → Bool
  | .storing call _ | .spinLock call | .setRequestId call | .setMapId call | .setFlag1 call => call.hasArgs
  | .spinWait call => call.hasArgs && unhandled
  | .idle | .clearFlag2 _ | .readResp _ | .spinUnlock _ _ => false

/-- No request is handled but not returned. -/
def HelperWorld.unhandled (s : HelperWorld ω) : Bool := s.handled.length == s.returned.length

/-- The thread has arguments on the page that are still to be read. -/
def HelperWorld.live (s : HelperWorld ω) (t : Nat) : Prop := (s.threads t).live s.unhandled = true

/-- A call with arguments begins when no others are to be handled. -/
def Exclusive (s : HelperWorld ω) : HelperEvent → Prop
  | .begin _ call => call.hasArgs = true → ∀ u, ¬ s.live u
  | .device _ | .host => True

/-- The calls whose requests have been handled, in order. -/
def HelperWorld.served (s : HelperWorld ω) : List HelperCall := (s.asked.take s.handled.length).map Prod.snd

/-- How far a thread's arguments are stored over what `req` was before. -/
def Written (before req : Nat → BitVec 8) : ThreadPhase → Prop
  | .storing call left => ∃ done, call.stores = done ++ left ∧ req = done.foldl storeByte before
  | .spinLock call | .setRequestId call | .setMapId call | .setFlag1 call | .spinWait call =>
    req = call.stores.foldl storeByte before
  | .idle | .clearFlag2 _ | .readResp _ | .spinUnlock _ _ => True

/-- What the calls served one after another, starting from a page, leave behind. -/
structure ArgsInv (host : HostHelpers ω) (page : Page ω) (s : HelperWorld ω) : Prop where
  responses : s.handled.map Handled.resp = (runRef (serve host) page s.served).1
  resp      : s.mem.resp = (runRef (serve host) page s.served).2.resp
  world     : s.world = (runRef (serve host) page s.served).2.world
  one       : ∀ t u, s.live t → s.live u → t = u
  quiet     : (∀ t, ¬ s.live t) → s.mem.req = (runRef (serve host) page s.served).2.req
  stored    : ∀ t, s.live t → Written (runRef (serve host) page s.served).2.req s.mem.req (s.threads t)
  storing   : ∀ t call left, s.threads t = .storing call left → ∃ done, call.stores = done ++ left
  code      : ∀ reqId mapFd code, s.watcher = .handling reqId mapFd code →
    code.eval s.mem.req = (host.handleRequest reqId mapFd).eval s.mem.req
  noArgs    : ∀ mapFd code, s.watcher = .handling GET_CURRENT_PID_TGID mapFd code →
    code = host.handleRequest GET_CURRENT_PID_TGID mapFd

/-- That one asks for the pid. -/
theorem requestId_of_noArgs {call : HelperCall} (h : call.hasArgs = false) : call = .getCurrentPidTgid := by
  cases call with
  | getCurrentPidTgid => rfl
  | mapLookup | mapUpdate | mapDelete | tracePrintk | puts => cases h

/-- Which reads nothing of the page. -/
theorem handleRequest_pid (host : HostHelpers ω) (mapFd : BitVec 64) :
    host.handleRequest GET_CURRENT_PID_TGID mapFd = .done fun out => (host.pidTgid, out.2) := by
  unfold HostHelpers.handleRequest
  rw [if_neg (by decide), if_neg (by decide), if_neg (by decide), if_neg (by decide), if_pos rfl]

/-- While a request is being handled. -/
theorem LockInv.handling {s : HelperWorld ω} (h : LockInv s) {reqId : BitVec 32} {mapFd : BitVec 64}
    {code : Reading (Answer ω)} (hwatcher : s.watcher = .handling reqId mapFd code) :
    ∃ t call, s.threads t = .spinWait call ∧ (∀ u, u ≠ t → (s.threads u).holds = false) ∧ reqId = call.requestId ∧
      mapFd = call.mapId ∧ Pending s t call := by
  have hnot : s.watcher ≠ .polling := by
    rw [hwatcher]
    exact fun h => nomatch h
  -- the watcher handles a request only while a thread waits for it
  cases h with
  | free _ _ hwaiting _ => exact absurd hwaiting.2.2 hnot
  | @held t _ hothers hholding =>
      cases hphase : s.threads t with
      | idle | storing call left | spinLock call =>
          rw [hphase] at hholding
          exact hholding.elim
      | setRequestId call | setMapId call | setFlag1 call | readResp call | spinUnlock call resp =>
          rw [hphase] at hholding
          exact absurd hholding.1.2.2 hnot
      | clearFlag2 call =>
          rw [hphase] at hholding
          exact absurd hholding.2.1 hnot
      | spinWait call =>
          rw [hphase] at hholding
          obtain ⟨-, ⟨-, -, hother | hother, -⟩ | ⟨-, -, hother | hother | ⟨code', hother⟩, hpending⟩ | ⟨-, -, hother, -⟩ |
            ⟨-, -, hother, -⟩⟩ := hholding
          · exact absurd hother hnot
          · rw [hwatcher] at hother
            cases hother
          · rw [hwatcher] at hother
            cases hother
          · rw [hwatcher] at hother
            cases hother
          · rw [hwatcher] at hother
            cases hother
            exact ⟨t, call, hphase, hothers, rfl, rfl, hpending⟩
          · rw [hwatcher] at hother
            cases hother
          · exact absurd hother hnot

/-- Nothing is handled that was not asked for. -/
theorem handled_le_asked {s : HelperWorld ω} (h : HandshakeExact s) : s.handled.length ≤ s.asked.length := by
  have hlength := h.requests.length_le
  rwa [List.length_map, List.length_map] at hlength

/-- A step that moves a thread on, and leaves the page, the watcher's code and what has been handled as they are. -/
theorem ArgsInv.move {host : HostHelpers ω} {page : Page ω} {s s' : HelperWorld ω} (h : ArgsInv host page s) {t : Nat}
    {phase : ThreadPhase} (hthreads : s'.threads = Function.update s.threads t phase) (hreq : s'.mem.req = s.mem.req)
    (hresp : s'.mem.resp = s.mem.resp) (hwatcher : s'.watcher = s.watcher) (hworld : s'.world = s.world)
    (hhandled : s'.handled = s.handled) (hserved : s'.served = s.served) (hlive : ∀ u, s'.live u ↔ s.live u)
    (hwritten : s.live t → ∀ before, Written before s.mem.req (s.threads t) → Written before s.mem.req phase)
    (hstoring : ∀ call left, phase = .storing call left → ∃ done, call.stores = done ++ left) : ArgsInv host page s' where
  responses := by rw [hhandled, hserved, h.responses]
  resp := by rw [hresp, hserved, h.resp]
  world := by rw [hworld, hserved, h.world]
  one u v hu hv := h.one u v ((hlive u).mp hu) ((hlive v).mp hv)
  quiet hnone := by
    rw [hreq, hserved]
    exact h.quiet fun u hu => hnone u ((hlive u).mpr hu)
  stored u hu := by
    have hu := (hlive u).mp hu
    have hold := h.stored u hu
    rw [hserved, hreq, hthreads]
    -- the thread that moves, and the others
    by_cases hut : u = t
    · subst hut
      rw [Function.update_self]
      exact hwritten hu _ hold
    · rw [Function.update_of_ne hut]
      exact hold
  storing u call left hu := by
    rw [hthreads] at hu
    by_cases hut : u = t
    · rw [hut, Function.update_self] at hu
      exact hstoring call left hu
    · rw [Function.update_of_ne hut] at hu
      exact h.storing u call left hu
  code reqId mapFd code hcode := by
    rw [hwatcher] at hcode
    rw [hreq]
    exact h.code reqId mapFd code hcode
  noArgs mapFd code hcode := by
    rw [hwatcher] at hcode
    exact h.noArgs mapFd code hcode

/-- A thread that moves on is as live as before. -/
theorem live_update {s s' : HelperWorld ω} {t : Nat} {phase : ThreadPhase}
    (hthreads : s'.threads = Function.update s.threads t phase) (hunhandled : s'.unhandled = s.unhandled)
    (hself : phase.live s.unhandled = (s.threads t).live s.unhandled) (u : Nat) : s'.live u ↔ s.live u := by
  unfold HelperWorld.live
  rw [hthreads, hunhandled]
  by_cases hut : u = t
  · rw [hut, Function.update_self, hself]
  · rw [Function.update_of_ne hut]

/-- With nothing under way, nothing is handled yet. -/
theorem unhandled_of_settled {s : HelperWorld ω} (h : s.handled = s.returned.map Returned.handled) :
    s.unhandled = true := by
  rw [HelperWorld.unhandled, h, List.length_map]
  exact beq_self_eq_true _

/-- An answer means that the request is handled. -/
theorem unhandled_of_answered {s : HelperWorld ω} {t : Nat} {call : HelperCall} {resp : BitVec 64}
    (h : Answered s t call resp) : s.unhandled = false := by
  rw [HelperWorld.unhandled, h.2, List.length_append, List.length_map]
  exact beq_false_of_ne (Nat.succ_ne_self _)

/-- What was served does not change with what is asked. -/
theorem served_asked {s s' : HelperWorld ω} (h : HandshakeExact s) {asked : List (Nat × HelperCall)}
    (hasked : s'.asked = s.asked ++ asked) (hhandled : s'.handled = s.handled) : s'.served = s.served := by
  unfold HelperWorld.served
  rw [hasked, hhandled, List.take_append_of_le_length (handled_le_asked h)]

/-- A store of an argument. -/
theorem ArgsInv.store {host : HostHelpers ω} {page : Page ω} {s : HelperWorld ω} (h : ArgsInv host page s)
    (hlock : LockInv s) {t : Nat} {call : HelperCall} {store : Nat × BitVec 8} {left : List (Nat × BitVec 8)}
    (hphase : s.threads t = .storing call (store :: left)) : ArgsInv host page (s.deviceStep t) := by
  obtain ⟨done, hdone⟩ := h.storing t call _ hphase
  have hargs : call.hasArgs = true := by
    by_contra hnot
    rw [requestId_of_noArgs (Bool.eq_false_iff.mpr hnot)] at hdone
    cases done <;> cases hdone
  -- the thread is live, and so the only one with arguments on the page
  have hlive : s.live t := by
    rw [HelperWorld.live, hphase]
    exact hargs
  have hstep : s.deviceStep t = { s.setThread t (.storing call left) with
      mem := { s.mem with req := Function.update s.mem.req store.1 store.2 } } := by
    unfold HelperWorld.deviceStep
    rw [hphase]
  have hnew : ∀ u, (s.deviceStep t).live u ↔ s.live u := by
    rw [hstep]
    exact live_update rfl rfl (by rw [hphase]; rfl)
  rw [hstep] at hnew ⊢
  refine { responses := h.responses, resp := h.resp, world := h.world, one := ?_, quiet := ?_, stored := ?_, storing := ?_,
           code := ?_, noArgs := h.noArgs }
  · exact fun u v hu hv => h.one u v ((hnew u).mp hu) ((hnew v).mp hv)
  · exact fun hnone => absurd ((hnew t).mpr hlive) (hnone t)
  · intro u hu
    obtain rfl := h.one u t ((hnew u).mp hu) hlive
    have hold := h.stored u hlive
    rw [hphase] at hold
    obtain ⟨done, hdone, hreq⟩ := hold
    change Written _ _ ((s.setThread u (.storing call left)).threads u)
    rw [setThread_self]
    refine ⟨done ++ [store], by rw [hdone, List.append_assoc]; rfl, ?_⟩
    rw [List.foldl_append, hreq]
    rfl
  · intro u call' left' hu
    by_cases hut : u = t
    · dsimp only at hu
      rw [hut, setThread_self] at hu
      cases hu
      exact ⟨done ++ [store], by rw [hdone, List.append_assoc]; rfl⟩
    · dsimp only at hu
      rw [setThread_ne s _ hut] at hu
      exact h.storing u call' left' hu
  · -- what is being handled reads nothing, as the only arguments are the ones being stored
    intro reqId mapFd code hcode
    obtain ⟨v, call', hv, -, rfl, rfl, -, hhandled⟩ := hlock.handling hcode
    have hnoArgs : call'.hasArgs = false := by
      by_contra hargs'
      have hlive' : s.live v := by
        rw [HelperWorld.live, hv, ThreadPhase.live, unhandled_of_settled hhandled, Bool.and_true]
        exact Bool.not_eq_false _ ▸ hargs'
      obtain rfl := h.one v t hlive' hlive
      rw [hphase] at hv
      cases hv
    obtain rfl := requestId_of_noArgs hnoArgs
    have hcode := h.noArgs _ code hcode
    rw [hcode]
    change Reading.eval _ (host.handleRequest GET_CURRENT_PID_TGID 0) =
      Reading.eval _ (host.handleRequest GET_CURRENT_PID_TGID 0)
    rw [handleRequest_pid]

/-- **A step of a thread**, by where it is. -/
theorem ArgsInv.deviceStep {host : HostHelpers ω} {page : Page ω} {s : HelperWorld ω} (h : ArgsInv host page s)
    (hlock : LockInv s) (hexact : HandshakeExact s) (t : Nat) : ArgsInv host page (s.deviceStep t) := by
  cases hphase : s.threads t with
  | storing call left =>
      cases left with
      | cons store left => exact h.store hlock hphase
      | nil =>
          unfold HelperWorld.deviceStep
          rw [hphase]
          refine h.move rfl rfl rfl rfl rfl rfl rfl (live_update rfl rfl (by rw [hphase]; rfl)) ?_ (fun _ _ h => nomatch h)
          rintro - before hwritten
          rw [hphase] at hwritten
          obtain ⟨done, hdone, hreq⟩ := hwritten
          rw [List.append_nil] at hdone
          rw [Written, hdone, hreq]
  | idle =>
      unfold HelperWorld.deviceStep
      rw [hphase]
      exact h
  | spinLock call =>
      unfold HelperWorld.deviceStep
      rw [hphase]
      dsimp only
      split
      · exact h
      · refine h.move rfl rfl rfl rfl rfl rfl rfl (live_update rfl rfl (by rw [hphase]; rfl)) ?_ (fun _ _ h => nomatch h)
        rw [hphase]
        exact fun _ _ hwritten => hwritten
  | setRequestId call =>
      unfold HelperWorld.deviceStep
      rw [hphase]
      refine h.move rfl rfl rfl rfl rfl rfl rfl (live_update rfl rfl (by rw [hphase]; rfl)) ?_ (fun _ _ h => nomatch h)
      rw [hphase]
      exact fun _ _ hwritten => hwritten
  | setMapId call =>
      unfold HelperWorld.deviceStep
      rw [hphase]
      refine h.move rfl rfl rfl rfl rfl rfl rfl (live_update rfl rfl (by rw [hphase]; rfl)) ?_ (fun _ _ h => nomatch h)
      rw [hphase]
      exact fun _ _ hwritten => hwritten
  | setFlag1 call =>
      obtain ⟨-, -, hholding⟩ := hlock.holding (t := t) (by rw [hphase]; rfl)
      rw [hphase] at hholding
      have hunhandled := unhandled_of_settled hholding.2.1.2
      unfold HelperWorld.deviceStep
      rw [hphase]
      refine h.move rfl rfl rfl rfl rfl rfl (served_asked hexact rfl rfl) (live_update rfl rfl ?_) ?_ (fun _ _ h => nomatch h)
      · rw [hphase, hunhandled]
        exact Bool.and_true _
      · rw [hphase]
        exact fun _ _ hwritten => hwritten
  | spinWait call =>
      obtain ⟨-, -, hholding⟩ := hlock.holding (t := t) (by rw [hphase]; rfl)
      rw [hphase] at hholding
      unfold HelperWorld.deviceStep
      rw [hphase]
      dsimp only
      by_cases hflag2 : s.mem.flag2 = 0
      · rw [if_pos hflag2]
        exact h
      · rw [if_neg hflag2]
        have hunhandled : s.unhandled = false := by
          obtain ⟨-, ⟨-, h0, -⟩ | ⟨-, h0, -⟩ | ⟨-, h0, -⟩ | ⟨-, -, -, hanswered⟩⟩ := hholding
          · exact absurd h0 hflag2
          · exact absurd h0 hflag2
          · exact absurd h0 hflag2
          · exact unhandled_of_answered hanswered
        refine h.move rfl rfl rfl rfl rfl rfl rfl (live_update rfl rfl ?_) (fun _ _ _ => trivial) (fun _ _ h => nomatch h)
        rw [hphase, hunhandled, ThreadPhase.live, ThreadPhase.live, Bool.and_false]
  | clearFlag2 call =>
      unfold HelperWorld.deviceStep
      rw [hphase]
      exact h.move rfl rfl rfl rfl rfl rfl rfl (live_update rfl rfl (by rw [hphase]; rfl)) (fun _ _ _ => trivial) (fun _ _ h => nomatch h)
  | readResp call =>
      unfold HelperWorld.deviceStep
      rw [hphase]
      exact h.move rfl rfl rfl rfl rfl rfl rfl (live_update rfl rfl (by rw [hphase]; rfl)) (fun _ _ _ => trivial) (fun _ _ h => nomatch h)
  | spinUnlock call resp =>
      obtain ⟨-, hothers, hholding⟩ := hlock.holding (t := t) (by rw [hphase]; rfl)
      unfold HelperWorld.deviceStep
      rw [hphase]
      refine h.move rfl rfl rfl rfl rfl rfl rfl (fun u => ?_) (fun _ _ _ => trivial) (fun _ _ h => nomatch h)
      by_cases hut : u = t
      · rw [hut]
        change ((s.setThread t .idle).threads t).live _ = true ↔ (s.threads t).live _ = true
        rw [setThread_self, hphase]
        exact Iff.rfl
      · -- no other thread spins on the flag
        change ((s.setThread t .idle).threads u).live _ = true ↔ (s.threads u).live _ = true
        rw [setThread_ne s _ hut]
        have hholds := hothers u hut
        cases hu : s.threads u with
        | idle | storing | spinLock => exact Iff.rfl
        | setRequestId | setMapId | setFlag1 | spinWait | clearFlag2 | readResp | spinUnlock =>
            rw [hu] at hholds
            cases hholds

/-- A step of the watcher that leaves the page's arguments and response and what has been handled as they are. -/
theorem ArgsInv.watch {host : HostHelpers ω} {page : Page ω} {s s' : HelperWorld ω} (h : ArgsInv host page s)
    (hthreads : s'.threads = s.threads) (hreq : s'.mem.req = s.mem.req) (hresp : s'.mem.resp = s.mem.resp)
    (hworld : s'.world = s.world) (hhandled : s'.handled = s.handled) (hreturned : s'.returned = s.returned)
    (hasked : s'.asked = s.asked) (hcode : ∀ reqId mapFd code, s'.watcher = .handling reqId mapFd code →
      code.eval s.mem.req = (host.handleRequest reqId mapFd).eval s.mem.req)
    (hnoArgs : ∀ mapFd code, s'.watcher = .handling GET_CURRENT_PID_TGID mapFd code →
      code = host.handleRequest GET_CURRENT_PID_TGID mapFd) : ArgsInv host page s' := by
  -- a step of the watcher that handles nothing serves nobody
  have hserved : s'.served = s.served := by
    unfold HelperWorld.served
    rw [hasked, hhandled]
  have hlive : ∀ u, s'.live u ↔ s.live u := by
    intro u
    unfold HelperWorld.live HelperWorld.unhandled
    rw [hthreads, hhandled, hreturned]
  exact
    { responses := by rw [hhandled, hserved, h.responses]
      resp := by rw [hresp, hserved, h.resp]
      world := by rw [hworld, hserved, h.world]
      one := fun u v hu hv => h.one u v ((hlive u).mp hu) ((hlive v).mp hv)
      quiet := fun hnone => by
        rw [hreq, hserved]
        exact h.quiet fun u hu => hnone u ((hlive u).mpr hu)
      stored := fun u hu => by
        rw [hserved, hreq, hthreads]
        exact h.stored u ((hlive u).mp hu)
      storing := fun u call left hu => by
        rw [hthreads] at hu
        exact h.storing u call left hu
      code := fun reqId mapFd code hwatcher => by
        rw [hreq]
        exact hcode reqId mapFd code hwatcher
      noArgs := hnoArgs }

/-- The watcher has read what it needs: the request is handled. -/
theorem ArgsInv.handle {host : HostHelpers ω} {page : Page ω} {s : HelperWorld ω} (h : ArgsInv host page s)
    (hlock : LockInv s) {reqId : BitVec 32} {mapFd : BitVec 64} {answer : Answer ω}
    (hwatcher : s.watcher = .handling reqId mapFd (.done answer)) : ArgsInv host page (s.hostStep host) := by
  obtain ⟨t, call, hphase, hothers, rfl, rfl, hasked, hhandled⟩ := hlock.handling hwatcher
  have hstep : s.hostStep host = { s with
      mem := { s.mem with resp := (answer (s.mem.resp, s.world)).1 }, world := (answer (s.mem.resp, s.world)).2,
      watcher := .setFlag2,
      handled := s.handled ++ [⟨call.requestId, call.mapId, (answer (s.mem.resp, s.world)).1⟩] } := by
    unfold HelperWorld.hostStep
    rw [hwatcher]
  have hlength : s.handled.length = (s.returned.map Returned.asked).length := by
    rw [hhandled, List.length_map, List.length_map]
  have hserved : s.served = s.returned.map Returned.call := by
    rw [HelperWorld.served, hasked, hlength, List.take_left, List.map_map]
    rfl
  have hserved' : (s.hostStep host).served = s.served ++ [call] := by
    have hlength' : (s.hostStep host).handled.length = s.asked.length := by
      rw [hstep, hasked, List.length_append, List.length_append, hlength]
      rfl
    have hasked' : (s.hostStep host).asked = s.asked := by rw [hstep]
    rw [HelperWorld.served, hlength', hasked', List.take_length, hserved, hasked, List.map_append, List.map_map]
    rfl
  have hunhandled : s.unhandled = true := unhandled_of_settled hhandled
  have hunhandled' : (s.hostStep host).unhandled = false := by
    rw [HelperWorld.unhandled, hstep, List.length_append, hhandled, List.length_map]
    exact beq_false_of_ne (Nat.succ_ne_self _)
  have hthreads : (s.hostStep host).threads = s.threads := by rw [hstep]
  have hreq : (s.hostStep host).mem.req = s.mem.req := by rw [hstep]
  -- a thread whose arguments are still to be handled is another one
  have hlive : ∀ u, (s.hostStep host).live u → s.live u ∧ u ≠ t := by
    intro u hu
    unfold HelperWorld.live at hu ⊢
    rw [hthreads, hunhandled'] at hu
    rw [hunhandled]
    cases hphase' : s.threads u with
    | idle | clearFlag2 | readResp | spinUnlock =>
        rw [hphase'] at hu
        cases hu
    | spinWait call' =>
        rw [hphase', ThreadPhase.live, Bool.and_false] at hu
        cases hu
    | storing | spinLock | setRequestId | setMapId | setFlag1 =>
        rw [hphase'] at hu
        refine ⟨hu, ?_⟩
        rintro rfl
        rw [hphase] at hphase'
        cases hphase'
  -- the call alone gives the same
  let before := (runRef (serve host) page s.served).2
  have hserve : serve host before call = ((answer (s.mem.resp, s.world)).1,
        ⟨call.stores.foldl storeByte before.req, (answer (s.mem.resp, s.world)).1, (answer (s.mem.resp, s.world)).2⟩) ∧
      ((∀ u, ¬ (s.hostStep host).live u) → s.mem.req = call.stores.foldl storeByte before.req) ∧
      (∀ u, (s.hostStep host).live u → call.stores.foldl storeByte before.req = before.req) := by
    have hcode : answer = (host.handleRequest call.requestId call.mapId).eval s.mem.req := h.code _ _ _ hwatcher
    by_cases hargs : call.hasArgs = true
    · have htlive : s.live t := by
        rw [HelperWorld.live, hphase, ThreadPhase.live, hargs, hunhandled]
        rfl
      have hwritten := h.stored t htlive
      rw [hphase] at hwritten
      change s.mem.req = call.stores.foldl storeByte before.req at hwritten
      refine ⟨?_, fun _ => hwritten, fun u hu => absurd (h.one u t (hlive u hu).1 htlive) (hlive u hu).2⟩
      rw [serve, ← hwritten, ← hcode, h.resp, h.world]
    · obtain rfl := requestId_of_noArgs (Bool.eq_false_iff.mpr hargs)
      have hnone : (HelperCall.getCurrentPidTgid).stores.foldl storeByte before.req = before.req := rfl
      refine ⟨?_, fun hnot => h.quiet fun u hu => hnot u ?_, fun _ _ => hnone⟩
      · have hanswer : answer = fun out => (host.pidTgid, out.2) := by
          rw [hcode]
          change Reading.eval _ (host.handleRequest GET_CURRENT_PID_TGID 0) = _
          rw [handleRequest_pid]
          rfl
        rw [serve, hanswer, hnone, h.world]
        change ((Reading.eval _ (host.handleRequest GET_CURRENT_PID_TGID 0) _).1, _) = _
        rw [handleRequest_pid]
        rfl
      · unfold HelperWorld.live at hu ⊢
        rw [hthreads, hunhandled']
        rw [hunhandled] at hu
        cases hphase' : s.threads u with
        | spinWait call' =>
            have hut : u = t := by
              by_contra hne
              have := hothers u hne
              rw [hphase'] at this
              cases this
            rw [hut, hphase] at hu
            cases hu
        | idle | clearFlag2 | readResp | spinUnlock | storing | spinLock | setRequestId | setMapId | setFlag1 =>
            rw [hphase'] at hu
            exact hu
  obtain ⟨hserve, hquiet, hkept⟩ := hserve
  have hrun : runRef (serve host) page (s.hostStep host).served =
      ((runRef (serve host) page s.served).1 ++ [(answer (s.mem.resp, s.world)).1],
        ⟨call.stores.foldl storeByte before.req, (answer (s.mem.resp, s.world)).1, (answer (s.mem.resp, s.world)).2⟩) := by
    rw [hserved', runRef_append]
    change (_ ++ [(serve host before call).1], (serve host before call).2) = _
    rw [hserve]
  exact
    { responses := by
        rw [hrun, hstep, List.map_append, h.responses]
        rfl
      resp := by
        rw [hrun, hstep]
      world := by
        rw [hrun, hstep]
      one := fun u v hu hv => h.one u v (hlive u hu).1 (hlive v hv).1
      quiet := fun hnone => by
        rw [hrun, hreq]
        exact hquiet hnone
      stored := fun u hu => by
        rw [hrun, hreq, hthreads, hkept u hu]
        exact h.stored u (hlive u hu).1
      storing := by
        rw [hthreads]
        exact h.storing
      code := fun reqId mapFd code hcode => by
        rw [hstep] at hcode
        cases hcode
      noArgs := fun mapFd code hcode => by
        rw [hstep] at hcode
        cases hcode }

/-- **A step of the watcher**, by where it is. -/
theorem ArgsInv.hostStep {host : HostHelpers ω} {page : Page ω} {s : HelperWorld ω} (h : ArgsInv host page s)
    (hlock : LockInv s) : ArgsInv host page (s.hostStep host) := by
  cases hwatcher : s.watcher with
  | polling =>
      unfold HelperWorld.hostStep
      rw [hwatcher]
      dsimp only
      split
      · exact h.watch rfl rfl rfl rfl rfl rfl rfl (fun _ _ _ h => nomatch h) (fun _ _ h => nomatch h)
      · exact h
  | clearFlag1 | readRequestId | setFlag2 =>
      unfold HelperWorld.hostStep
      rw [hwatcher]
      exact h.watch rfl rfl rfl rfl rfl rfl rfl (fun _ _ _ h => nomatch h) (fun _ _ h => nomatch h)
  | readMapId reqId =>
      unfold HelperWorld.hostStep
      rw [hwatcher]
      refine h.watch rfl rfl rfl rfl rfl rfl rfl (fun _ _ _ h => ?_) (fun _ _ h => ?_)
      · cases h
        rfl
      · cases h
        rfl
  | handling reqId mapFd code =>
      cases code with
      | done answer => exact h.handle hlock hwatcher
      | read offset next =>
          have hcode := h.code _ _ _ hwatcher
          unfold HelperWorld.hostStep
          rw [hwatcher]
          refine h.watch rfl rfl rfl rfl rfl rfl rfl (fun _ _ _ h => ?_) (fun mapFd' code' h' => ?_)
          · cases h
            exact hcode
          · cases h'
            have hnot := h.noArgs _ _ hwatcher
            rw [handleRequest_pid] at hnot
            cases hnot

/-- The start of a call. -/
theorem ArgsInv.begin {host : HostHelpers ω} {page : Page ω} {s : HelperWorld ω} (h : ArgsInv host page s) {t : Nat}
    {call : HelperCall} (hphase : s.threads t = .idle) (hexclusive : call.hasArgs = true → ∀ u, ¬ s.live u) :
    ArgsInv host page { s.setThread t (.storing call call.stores) with begun := s.begun ++ [(t, call)] } := by
  by_cases hargs : call.hasArgs = true
  · -- no other arguments are to be handled: these go over what the last ones left
    have hnone := hexclusive hargs
    have hlive : ∀ u, HelperWorld.live { s.setThread t (.storing call call.stores) with begun := s.begun ++ [(t, call)] } u →
        u = t := by
      intro u hu
      by_contra hut
      refine hnone u ?_
      unfold HelperWorld.live at hu ⊢
      change ((s.setThread t (.storing call call.stores)).threads u).live s.unhandled = true at hu
      rwa [setThread_ne s _ hut] at hu
    refine { responses := h.responses, resp := h.resp, world := h.world, one := ?_, quiet := ?_, stored := ?_,
             storing := ?_, code := h.code, noArgs := h.noArgs }
    · intro u v hu hv
      rw [hlive u hu, hlive v hv]
    · intro hnot
      refine absurd ?_ (hnot t)
      unfold HelperWorld.live
      change ((s.setThread t (.storing call call.stores)).threads t).live s.unhandled = true
      rw [setThread_self]
      exact hargs
    · intro u hu
      obtain rfl := hlive u hu
      change Written _ _ ((s.setThread u (.storing call call.stores)).threads u)
      rw [setThread_self]
      exact ⟨[], rfl, h.quiet hnone⟩
    · intro u call' left hu
      change (s.setThread t (.storing call call.stores)).threads u = _ at hu
      by_cases hut : u = t
      · rw [hut, setThread_self] at hu
        cases hu
        exact ⟨[], rfl⟩
      · rw [setThread_ne s _ hut] at hu
        exact h.storing u call' left hu
  · have hnoArgs := Bool.eq_false_iff.mpr hargs
    refine h.move rfl rfl rfl rfl rfl rfl rfl (live_update rfl rfl ?_) (fun hlive => ?_) (fun call' left hstoring => ?_)
    · rw [hphase]
      exact hnoArgs
    · rw [HelperWorld.live, hphase] at hlive
      cases hlive
    · cases hstoring
      exact ⟨[], rfl⟩

/-- Nothing is on the page. -/
theorem args_init (host : HostHelpers ω) (req : Nat → BitVec 8) (world : ω) :
    ArgsInv host ⟨req, 0, world⟩ (HelperWorld.init req world) where
  responses := rfl
  resp := rfl
  world := rfl
  one _ _ hlive _ := nomatch hlive
  quiet _ := rfl
  stored _ hlive := nomatch hlive
  storing _ _ _ h := nomatch h
  code _ _ _ h := nomatch h
  noArgs _ _ h := nomatch h

/-- **Every step keeps the arguments**, if calls begin exclusively. -/
theorem args_preserved (host : HostHelpers ω) (page : Page ω) :
    Preserved (helperSystem host Exclusive) fun s => (LockInv s ∧ Accounts s) ∧ ArgsInv host page s := by
  rintro s e s' ⟨hinv, hargs⟩ hstep
  refine ⟨handshake_preserved host Exclusive s e s' hinv hstep, ?_⟩
  obtain ⟨hexclusive, rfl⟩ := hstep
  cases e with
  | device t => exact hargs.deviceStep hinv.1 (handshake_of_inv hinv.1 hinv.2) t
  | host => exact hargs.hostStep hinv.1
  | begin t call =>
      unfold HelperWorld.step
      dsimp only
      split
      · next hidle => exact hargs.begin hidle hexclusive
      · exact hargs

/-- The calls that were handled, each served alone and with its own arguments, one after another. -/
structure Linearized (host : HostHelpers ω) (page : Page ω) (s : HelperWorld ω) : Prop where
  /-- The calls served are those that have returned, in this order, and at most one more. -/
  calls     : s.returned.map Returned.call <+: s.served ∧ s.served.length ≤ s.returned.length + 1
  /-- Each call has returned with the response of its own request. -/
  responses : s.returned.map Returned.resp <+: (runRef (serve host) page s.served).1
  /-- The host's world is what the requests made of it. -/
  world     : s.world = (runRef (serve host) page s.served).2.world

/-- What the invariant says of the results. -/
theorem linearized_of_inv {host : HostHelpers ω} {page : Page ω} {s : HelperWorld ω} (hexact : HandshakeExact s)
    (h : ArgsInv host page s) : Linearized host page s where
  calls := by
    have hle := hexact.responses.length_le
    rw [List.length_map] at hle
    obtain ⟨rest, hrest⟩ := hexact.returns
    constructor
    · rw [HelperWorld.served, ← hrest, List.take_append, List.take_of_length_le (by rwa [List.length_map]), List.map_append,
        List.map_map]
      exact List.prefix_append _ _
    · rw [HelperWorld.served, List.length_map, List.length_take]
      exact (Nat.min_le_right _ _).trans hexact.one
  responses := by
    have hmap := List.IsPrefix.map Handled.resp hexact.responses
    rw [List.map_map] at hmap
    rw [← h.responses]
    exact hmap
  world := h.world

/-- **With arguments of their own, the calls are linearizable**: where no call with arguments begins before the host has
handled those of the others, every call is served as if alone, in the order of the lock. -/
theorem exclusive_linearizable {host : HostHelpers ω} {req : Nat → BitVec 8} {world : ω} {es : List HelperEvent}
    {s : HelperWorld ω} (hrun : Run (helperSystem host Exclusive) (.init req world) es s) :
    Linearized host ⟨req, 0, world⟩ s := by
  obtain ⟨⟨hlock, haccounts⟩, hargs⟩ : (LockInv s ∧ Accounts s) ∧ ArgsInv host ⟨req, 0, world⟩ s :=
    Run.invariant (I := fun s => (LockInv s ∧ Accounts s) ∧ ArgsInv host ⟨req, 0, world⟩ s)
      ⟨handshake_init req world, args_init host req world⟩ (args_preserved host _) hrun
  exact linearized_of_inv (handshake_of_inv hlock haccounts) hargs

/-- A host with one map of one-byte keys: a lookup gives the key's place, and counts. -/
def placeHost : HostHelpers Nat where
  mapLookupElem _ := .read 0 fun key => .done fun count => (0x1000 + key.setWidth 64, count + 1)
  mapUpdateElem _ := .done fun count => (0, count)
  mapDeleteElem _ := .done fun count => (0, count)
  tracePrintk := .done fun count => (0, count)
  pidTgid := 0x100000001
  puts := .done id

/-- Thread 0 looks up a key; thread 1 asks for its pid meanwhile, and waits for the lock. -/
def lookupSteps : List HelperEvent :=
  [.device 0, .device 0, .device 1, .device 0, .device 1, .device 0, .device 0, .device 0, .host, .host, .host, .device 1,
    .host, .host, .host, .host, .device 0, .device 0, .device 0, .device 0, .device 1]

/-- A lookup by one thread, with another thread's call for the pid in between. -/
theorem exclusive_linearizable_lookup :
    Linearized placeHost ⟨fun _ => 0, 0, 0⟩
      (lookupSteps.foldl (HelperWorld.step placeHost)
        (([.begin 0 (.mapLookup 5 [7]), .begin 1 .getCurrentPidTgid] : List HelperEvent).foldl (HelperWorld.step placeHost)
          (.init (fun _ => 0) 0))) := by
  have hfirst : Exclusive (HelperWorld.init (fun _ => 0) 0 : HelperWorld Nat) (.begin 0 (.mapLookup 5 [7])) :=
    fun _ _ hlive => nomatch hlive
  have hsecond : ∀ s : HelperWorld Nat, Exclusive s (.begin 1 .getCurrentPidTgid) := fun _ hargs => nomatch hargs
  have hbegun := (Run.single (S := helperSystem placeHost Exclusive) ⟨hfirst, rfl⟩).snoc ⟨hsecond _, rfl⟩
  have hsteps : ∀ f ∈ lookupSteps, ∀ s : HelperWorld Nat, Exclusive s f := by
    intro f hf s
    have hkind : ∀ f ∈ lookupSteps, (∃ t, f = .device t) ∨ f = .host := by
      simp [lookupSteps]
    rcases hkind f hf with ⟨t, rfl⟩ | rfl
    · trivial
    · trivial
  exact exclusive_linearizable (run_steps hbegun lookupSteps hsteps)

end Arguments

end Gpu
