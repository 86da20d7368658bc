import FreeProbe.Lib.Machine
import FreeProbe.Lib.Memory
import FreeProbe.Maps.Common

/-!
# `Maps.Ringbuf` — `ringbuf`

The ring buffer map of the runtime. A record is a header of 8 bytes (its length with the busy and the discard bit, and
the map's descriptor) and its data; `reserve` puts a header at `producer_pos` and gives out the place of the data,
`submit` clears the busy bit, and `fetch_data` hands the records from `consumer_pos` on to a callback. The positions
run freely and are masked to find a place; the data of a record that reaches the end of the area goes on behind it,
where the vector has as many bytes again. An access outside of the vector ends an operation with `none`.

A session is the ring buffer beside the records that were reserved and not consumed, and every operation returns what
the code returned beside what a queue of records would have.
-/

namespace Maps

open Lib.Memory

def BPF_RINGBUF_BUSY_BIT : BitVec 32 := 2147483648

def BPF_RINGBUF_DISCARD_BIT : BitVec 32 := 1073741824

def BPF_RINGBUF_HDR_SZ : Nat := 8

/-- What `getpagesize` returns on the machines the runtime supports. -/
structure PageSize where
  bytes : Nat
  ge    : 4096 ≤ bytes
  le    : bytes ≤ 65536

/-- `raw_buffer` from `data` on is `data`; the two positions are in the pages before it. -/
structure Ringbuf where
  maxEnt      : BitVec 32
  consumerPos : BitVec 64
  producerPos : BitVec 64
  data        : Buffer Byte

namespace Ringbuf

/-- The constructor. The size of `raw_buffer` is an `unsigned int`. -/
def new (pageSize : PageSize) (maxEnt : BitVec 32) : Ringbuf where
  maxEnt := maxEnt
  consumerPos := 0
  producerPos := 0
  data := ⟨(BitVec.ofNat 32 (pageSize.bytes * 2) + maxEnt * 2).toNat - pageSize.bytes * 2, fun _ => 0⟩

def mask (rb : Ringbuf) : BitVec 32 := rb.maxEnt - 1

/-- The place of a position in the data area. -/
def place (rb : Ringbuf) (pos : BitVec 64) : Nat := (pos &&& rb.mask.setWidth 64).toNat

def load32 (rb : Ringbuf) (offset : Nat) : Option (BitVec 32) :=
  (rb.data.read offset 4).map fun bytes => BitVec.ofNat 32 (leNat bytes)

def store32 (rb : Ringbuf) (offset : Nat) (x : BitVec 32) : Option Ringbuf :=
  (rb.data.write offset (leBytes 4 x.toNat)).map fun data => { rb with data := data }

def roundupLen (len : BitVec 32) : BitVec 32 := ((len <<< 2 >>> 2) + BitVec.ofNat 32 BPF_RINGBUF_HDR_SZ + 7) / 8 * 8

/-! ## The producer -/

def totalSize (size : BitVec 64) : BitVec 64 := (size + BitVec.ofNat 64 BPF_RINGBUF_HDR_SZ + 7) / 8 * 8

def availSize (rb : Ringbuf) : BitVec 64 := rb.maxEnt.setWidth 64 - (rb.producerPos - rb.consumerPos)

/-- The offset in `data` of the pointer that `reserve` returns. -/
def reserve (rb : Ringbuf) (size : BitVec 64) (selfFd : BitVec 32) : Option (Except Errno Nat × Ringbuf) :=
  if size &&& (BPF_RINGBUF_BUSY_BIT ||| BPF_RINGBUF_DISCARD_BIT).setWidth 64 ≠ 0 then some (.error .e2big, rb)
  else if rb.maxEnt.setWidth 64 < totalSize size then some (.error .e2big, rb)
  else if rb.availSize < totalSize size then some (.error .enospc, rb)
  else do
    let header := rb.place rb.producerPos
    let rb' ← rb.store32 header ((size ||| BPF_RINGBUF_BUSY_BIT.setWidth 64).setWidth 32)
    let rb' ← rb'.store32 (header + 4) selfFd
    return (.ok (rb.place (rb.producerPos + BitVec.ofNat 64 BPF_RINGBUF_HDR_SZ)),
      { rb' with producerPos := rb.producerPos + totalSize size })

def submit (rb : Ringbuf) (sample : Nat) (discard : Bool) : Option Ringbuf := do
  let hdrOffset := (rb.mask + 1).setWidth 64 + BitVec.ofNat 64 sample - BitVec.ofNat 64 BPF_RINGBUF_HDR_SZ
  let hdr := rb.place hdrOffset
  let len ← rb.load32 hdr
  let newLen := len &&& ~~~BPF_RINGBUF_BUSY_BIT
  rb.store32 hdr (if discard then newLen ||| BPF_RINGBUF_DISCARD_BIT else newLen)

/-- The descriptor that `bpf_ringbuf_submit` and `bpf_ringbuf_discard` read before the data. Before the data area are
    bytes of the producer's page that are never written. -/
def fdBefore (rb : Ringbuf) (sample : Nat) : Option (BitVec 32) :=
  if sample = 0 then some 0 else rb.load32 (sample - 4)

/-- `bpf_ringbuf_submit` and `bpf_ringbuf_discard`, and whether the descriptor they find is that of this map. -/
def bpfSubmit (rb : Ringbuf) (selfFd : BitVec 32) (sample : Nat) (discard : Bool) : Option (Bool × Ringbuf) := do
  let fd ← rb.fdBefore sample
  if fd = selfFd then return (true, ← rb.submit sample discard) else return (false, rb)

/-! ## The consumer -/

/-- The consumer moves its position past one record. -/
def advance (rb : Ringbuf) : Option Ringbuf :=
  if rb.consumerPos = rb.producerPos then some rb
  else do
    let len ← rb.load32 (rb.place rb.consumerPos)
    if len &&& BPF_RINGBUF_BUSY_BIT ≠ 0 then some rb
    else some { rb with consumerPos := rb.consumerPos + (roundupLen len).signExtend 64 }

/-- The inner loop of `fetch_data`, with the number of rounds that are left: the samples the callback got, and what is
    returned. `cb` has the callback's results in order. -/
def fetchLoop (cb : Nat → Int) : Nat → Nat → Ringbuf → Option (List (List Byte) × Int × Ringbuf)
  | 0, _, _ => none
  | rounds + 1, cnt, rb =>
    if rb.consumerPos < rb.producerPos then do
      let lenPtr := rb.place rb.consumerPos
      let len ← rb.load32 lenPtr
      if len &&& BPF_RINGBUF_BUSY_BIT ≠ 0 then return ([], (cnt : Int), rb)
      else
        let rb' := { rb with consumerPos := rb.consumerPos + (roundupLen len).signExtend 64 }
        if len &&& BPF_RINGBUF_DISCARD_BIT = 0 then do
          let sample ← rb.data.read (lenPtr + BPF_RINGBUF_HDR_SZ) len.toNat
          if cb cnt < 0 then return ([sample], cb cnt, rb')
          else do
            let (samples, ret, rb') ← fetchLoop cb rounds (cnt + 1) rb'
            return (sample :: samples, ret, rb')
        else fetchLoop cb rounds cnt rb'
    else some ([], (cnt : Int), rb)

/-- The outer loop goes round until nothing new came; between two operations nothing does. A round is at least 8 bytes
    long. -/
def fetchData (rb : Ringbuf) (cb : Nat → Int) : Option (List (List Byte) × Int × Ringbuf) :=
  fetchLoop cb ((rb.producerPos - rb.consumerPos).toNat / 8 + 1) 0 rb

end Ringbuf

/-! ## Records -/

inductive Status where
  | busy
  | submitted
  | discarded
deriving DecidableEq

/-- A reserved record: the pointer that was given out, the size asked for, and the bytes there, as the producer sees
    them. -/
structure Record where
  sample  : Nat
  size    : Nat
  content : List Byte
  status  : Status
deriving DecidableEq

/-- The header and the data, rounded up to a multiple of 8. -/
def roundedSize (size : Nat) : Nat := (size + BPF_RINGBUF_HDR_SZ + 7) / 8 * 8

def Record.total (r : Record) : Nat := roundedSize r.size

/-- The bytes that records take. -/
def used (records : List Record) : Nat := (records.map Record.total).sum

/-- What is left when this many bytes were consumed. -/
def consume : Nat → List Record → List Record
  | _, [] => []
  | bytes, r :: records => if r.total ≤ bytes then consume (bytes - r.total) records else r :: records

/-- What a queue of records hands to the callback, what it returns, and what it keeps. -/
def fetchRecords (cb : Nat → Int) : Nat → List Record → List (List Byte) × Int × List Record
  | cnt, [] => ([], cnt, [])
  | cnt, r :: records =>
    match r.status with
    | .busy => ([], cnt, r :: records)
    | .discarded => fetchRecords cb cnt records
    | .submitted =>
      if cb cnt < 0 then ([r.content], cb cnt, records)
      else
        let (samples, ret, rest) := fetchRecords cb (cnt + 1) records
        (r.content :: samples, ret, rest)

/-- Where the next record's data goes in a ring of `n` bytes, when there is room. -/
def reserveRecord (n consumed : Nat) (pending : List Record) (size : Nat) : Except Errno Nat :=
  if 2 ^ 30 ≤ size ∨ n < roundedSize size then .error .e2big
  else if n < used pending + roundedSize size then .error .enospc
  else .ok ((consumed + used pending + BPF_RINGBUF_HDR_SZ) % n)

/-! ## Sessions -/

/-- `consumed` counts the bytes of all records that were consumed, `pending` has the others, the oldest first. -/
structure RingSession where
  rb       : Ringbuf
  selfFd   : BitVec 32
  consumed : Nat
  pending  : List Record

/-- The operations, the records named by their place among the pending ones. -/
inductive RingOp where
  | reserve (size : BitVec 64)
  /-- The producer writes bytes of the data from an offset on. -/
  | write (i offset : Nat) (bytes : List Byte)
  | submit (i : Nat) (discard : Bool)
  | bpfSubmit (i : Nat) (discard : Bool)
  | advance
  | fetch (cb : Nat → Int)

inductive RingReturn where
  | done
  | reserved (sample : Except Errno Nat)
  | found (ours : Bool)
  | fetched (samples : List (List Byte)) (ret : Int) (left : List Record)
deriving DecidableEq

/-- A record after its status was set. -/
def Record.finish (r : Record) (discard : Bool) : Record :=
  { r with status := if discard then .discarded else .submitted }

/-- A record after a write to its data. -/
def Record.write (r : Record) (offset : Nat) (bytes : List Byte) : Record :=
  { r with content := r.content.take offset ++ bytes ++ r.content.drop (offset + bytes.length) }

namespace RingSession

def new (pageSize : PageSize) (maxEnt selfFd : BitVec 32) : RingSession := ⟨.new pageSize maxEnt, selfFd, 0, []⟩

/-- The record that an operation names, while its producer holds it; nobody else writes or submits it. -/
def held (s : RingSession) (i : Nat) : Option Record := s.pending[i]?.filter fun r => r.status = .busy

/-- The session after the consumer moved. -/
def moved (s : RingSession) (rb : Ringbuf) : RingSession :=
  let bytes := (rb.consumerPos - s.rb.consumerPos).toNat
  { s with rb := rb, consumed := s.consumed + bytes, pending := consume bytes s.pending }

/-- What the code returned beside what a queue of records would have, and the session afterwards. -/
abbrev Outcome := Option ((RingReturn × RingReturn) × RingSession)

def reserve (s : RingSession) (size : BitVec 64) : Outcome := do
  let (r, rb) ← s.rb.reserve size s.selfFd
  let pending := match r with
    | .ok sample => s.pending ++ [⟨sample, size.toNat, load rb.data.cells sample size.toNat, .busy⟩]
    | .error _ => s.pending
  return ((.reserved r, .reserved (reserveRecord s.rb.maxEnt.toNat s.consumed s.pending size.toNat)),
    { s with rb := rb, pending := pending })

/-- A producer stays within the bytes it reserved. -/
def write (s : RingSession) (i offset : Nat) (bytes : List Byte) : Outcome :=
  match s.held i with
  | none => some ((.done, .done), s)
  | some r =>
    if offset + bytes.length ≤ r.size then do
      let data ← s.rb.data.write (r.sample + offset) bytes
      return ((.done, .done),
        { s with rb := { s.rb with data := data }, pending := s.pending.set i (r.write offset bytes) })
    else some ((.done, .done), s)

def submit (s : RingSession) (i : Nat) (discard : Bool) : Outcome :=
  match s.held i with
  | none => some ((.done, .done), s)
  | some r => do
    let rb ← s.rb.submit r.sample discard
    return ((.done, .done), { s with rb := rb, pending := s.pending.set i (r.finish discard) })

def bpfSubmit (s : RingSession) (i : Nat) (discard : Bool) : Outcome :=
  match s.held i with
  | none => some ((.done, .done), s)
  | some r => do
    let (ours, rb) ← s.rb.bpfSubmit s.selfFd r.sample discard
    return ((.found ours, .found true),
      { s with rb := rb, pending := if ours then s.pending.set i (r.finish discard) else s.pending })

def advance (s : RingSession) : Outcome := do
  let rb ← s.rb.advance
  return ((.done, .done), s.moved rb)

def fetch (s : RingSession) (cb : Nat → Int) : Outcome := do
  let (samples, ret, rb) ← s.rb.fetchData cb
  let (samples', ret', rest) := fetchRecords cb 0 s.pending
  return ((.fetched samples ret (s.moved rb).pending, .fetched samples' ret' rest), s.moved rb)

def apply (s : RingSession) : RingOp → Outcome
  | .reserve size => s.reserve size
  | .write i offset bytes => s.write i offset bytes
  | .submit i discard => s.submit i discard
  | .bpfSubmit i discard => s.bpfSubmit i discard
  | .advance => s.advance
  | .fetch cb => s.fetch cb

end RingSession

end Maps
