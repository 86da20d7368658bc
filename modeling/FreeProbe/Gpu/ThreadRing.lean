import FreeProbe.Lib.Machine
import FreeProbe.Lib.Memory

/-!
# `Gpu.ThreadRing` — the per-thread ring buffers of a GPU map

Each device thread has a ring of its own in the buffer of the map: a header, and `maxEntries` slots of a size word and
`valueSize` bytes. The thread runs `_bpf_helper_ext_0025` and the host `drain_data`; both are split at every access to
the shared memory, a copy into its bytes. The memory is sequentially consistent. A write or a read that leaves the ring
it is made in has no successor here: it is in the next thread's header. Nor has a 64-bit access of the device at an
address that is no multiple of 8, which is a fault there; the host's processor does not mind.
-/

namespace Gpu

open Lib Lib.Memory

/-- The map, as both sides see it. The device's copies of the sizes are of type `int`. -/
structure RingConfig where
  maxEntries     : Nat
  valueSize      : Nat
  threadCount    : Nat
  maxEntries_int : maxEntries < 2 ^ 31
  valueSize_int  : valueSize < 2 ^ 31

/-- The bytes of a slot, `sizeof(uint64_t) + value_size`. -/
def RingConfig.slotSize (config : RingConfig) : Nat := 8 + config.valueSize

/-- Where the slot of record number `k` begins. -/
def RingConfig.slot (config : RingConfig) (k : Nat) : Nat := k % config.maxEntries * config.slotSize

/-- The bytes of all slots of a ring. -/
def RingConfig.size (config : RingConfig) : Nat := config.maxEntries * config.slotSize

/-- `sizeof(ringbuf_header)`: two 64-bit counters and an `int`, padded to 8. -/
def ringbufHeaderSize : Nat := 24

/-- Where the header of thread `t` lies in the buffer, which itself begins at a multiple of 8. -/
def RingConfig.header (config : RingConfig) (t : Nat) : Nat := t * (ringbufHeaderSize + config.size)

/-- Where the size word of thread `t`'s record number `k` lies. -/
def RingConfig.sizeWord (config : RingConfig) (t k : Nat) : Nat := config.header t + ringbufHeaderSize + config.slot k

/-- How far the thread is in its output: the ring was found not full, `dirty` is set, `tail` is advanced, the size is
    written and `i` bytes are copied. -/
inductive OutputPhase where
  | idle
  | tested (data : List (BitVec 8))
  | dirtied (data : List (BitVec 8))
  | advanced (data : List (BitVec 8)) (tailToPut : Nat)
  | copying (data : List (BitVec 8)) (tailToPut i : Nat)
deriving DecidableEq, Repr

/-- The next 64-bit access outside of the header, if the step makes one, is aligned. -/
def OutputPhase.aligned (config : RingConfig) (t : Nat) : OutputPhase → Bool
  | .advanced _ k => decide (8 ∣ config.sizeWord t k)
  | _ => true

/-- `ringbuf_header` and the slots of one thread, with what the thread is doing, its outputs that returned 0 and the
    records that the callback was given. -/
structure Ring where
  head     : Nat
  tail     : Nat
  dirty    : Bool
  bytes    : Nat → BitVec 8
  output   : OutputPhase
  returned : List (List (BitVec 8))
  handed   : List (List (BitVec 8))

/-- How far the host is: about to test `dirty` of a thread's ring, about to test that it is not empty, about to advance
    `head` over record `h`, about to read its size, and in the callback with the bytes it has read. -/
inductive DrainPhase where
  | idle
  | testDirty (t : Nat)
  | testEmpty (t : Nat)
  | advanceHead (t h : Nat)
  | readSize (t h : Nat)
  | callback (t h size : Nat) (got : List (BitVec 8))
deriving DecidableEq, Repr

structure RingWorld where
  rings : Nat → Ring
  host  : DrainPhase

inductive RingEvent where
  | output (t : Nat) (data : List (BitVec 8))
  | device (t : Nat)
  | host
deriving DecidableEq, Repr

/-- What a step shows: a helper call's result, where in its ring a thread has written, or the threads that a pass of
    the host leaves behind when it gives up, their records not taken. -/
inductive RingReport where
  | quiet
  | returned (code : Nat)
  | wrote (slot offset length : Nat)
  | stopped (left : List Nat)
deriving DecidableEq, Repr

namespace Ring

def init : Ring := ⟨0, 0, false, fun _ => 0, .idle, [], []⟩

def isFull (config : RingConfig) (ring : Ring) : Bool := (ring.tail + 2 ^ 64 - ring.head) % 2 ^ 64 == config.maxEntries

/-- `simple_memcpy` takes the size as an `int`. -/
def copyLength (data : List (BitVec 8)) : Nat := ((data.length : Int).bmod (2 ^ 32)).toNat

/-- The call of `_bpf_helper_ext_0025`, up to the test for a full ring. -/
def startOutput (config : RingConfig) (ring : Ring) (data : List (BitVec 8)) : RingReport × Ring :=
  if ring.isFull config then (.returned 2, ring) else (.quiet, { ring with output := .tested data })

/-- Write bytes in the slot of record `k`, from `offset` on. -/
def write (config : RingConfig) (ring : Ring) (k offset : Nat) (bytes : List (BitVec 8)) (output : OutputPhase) :
    Option (RingReport × Ring) :=
  if config.slot k + offset + bytes.length ≤ config.size then
    some (.wrote (config.slot k) (config.slot k + offset) bytes.length,
      { ring with bytes := store ring.bytes (config.slot k + offset) bytes, output := output })
  else none

/-- `_bpf_helper_ext_0025`, after the test for a full ring. -/
def stepOutput (config : RingConfig) (ring : Ring) : Option (RingReport × Ring) :=
  match ring.output with
  | .idle => some (.quiet, ring)
  | .tested data => some (.quiet, { ring with dirty := true, output := .dirtied data })
  | .dirtied data =>
    some (.quiet, { ring with tail := (ring.tail + 1) % 2 ^ 64, output := .advanced data ring.tail })
  | .advanced data k => ring.write config k 0 (leBytes 8 data.length) (.copying data k 0)
  | .copying data k i =>
    if i < copyLength data then ring.write config k (8 + i) [data.getD i 0] (.copying data k (i + 1))
    else some (.returned 0, { ring with dirty := false, output := .idle, returned := ring.returned ++ [data] })

def advanceHead (ring : Ring) : Ring := { ring with head := (ring.head + 1) % 2 ^ 64 }

/-- Read bytes in the slot of record `k`, from `offset` on. -/
def read (config : RingConfig) (ring : Ring) (k offset n : Nat) : Option (List (BitVec 8)) :=
  if config.slot k + offset + n ≤ config.size then some (load ring.bytes (config.slot k + offset) n) else none

end Ring

namespace RingWorld

def init : RingWorld := ⟨fun _ => .init, .idle⟩

def setRing (world : RingWorld) (t : Nat) (ring : Ring) : RingWorld :=
  { world with rings := Function.update world.rings t ring }

/-- The threads after `t` that have a record to be taken. -/
def waiting (config : RingConfig) (world : RingWorld) (t : Nat) : List Nat :=
  (List.range config.threadCount).filter fun j => t < j && (world.rings j).head != (world.rings j).tail

/-- `drain_data`, one access at a time; a pass starts again when it is through. -/
def stepHost (config : RingConfig) (world : RingWorld) : Option (RingReport × RingWorld) :=
  match world.host with
  | .idle => some (.quiet, { world with host := .testDirty 0 })
  | .testDirty t =>
    if t < config.threadCount then
      if (world.rings t).dirty then some (.stopped (world.waiting config t), { world with host := .idle })
      else some (.quiet, { world with host := .testEmpty t })
    else some (.quiet, { world with host := .idle })
  | .testEmpty t =>
    if (world.rings t).head = (world.rings t).tail then some (.quiet, { world with host := .testDirty (t + 1) })
    else if config.maxEntries = 0 then none
    else some (.quiet, { world with host := .advanceHead t (world.rings t).head })
  | .advanceHead t h =>
    some (.quiet, { world.setRing t (world.rings t).advanceHead with host := .readSize t h })
  | .readSize t h => do
    let word ← (world.rings t).read config h 0 8
    return (.quiet, { world with host := .callback t h (leNat word) [] })
  | .callback t h size got =>
    if got.length < size then do
      let byte ← (world.rings t).read config h (8 + got.length) 1
      return (.quiet, { world with host := .callback t h size (got ++ byte) })
    else
      let ring := world.rings t
      some (.quiet, { world.setRing t { ring with handed := ring.handed ++ [got] } with host := .testDirty (t + 1) })

/-- A thread that has no ring gets 1 back; one that is in an output cannot start another. The full test reads `tail` and
    `head`, and `tail` is written in the same header. -/
def step (config : RingConfig) (world : RingWorld) : RingEvent → Option (RingReport × RingWorld)
  | .output t data =>
    if config.threadCount ≤ t then some (.returned 1, world)
    else if (world.rings t).output ≠ .idle then some (.quiet, world)
    else if ¬ 8 ∣ config.header t then none
    else
      let started := (world.rings t).startOutput config data
      some (started.1, world.setRing t started.2)
  | .device t =>
    if (world.rings t).output.aligned config t then do
      let (report, ring) ← (world.rings t).stepOutput config
      return (report, world.setRing t ring)
    else none
  | .host => world.stepHost config

end RingWorld

end Gpu
