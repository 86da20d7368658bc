import FreeProbe.Lib.Machine
import FreeProbe.Lib.Memory

/-!
# `Handler.PerfEvent` — `software_perf_event_data`

The ring buffer of a software perf event: `output_data` puts a sample record at `data_head`, in two pieces where it
goes past the end, and the consumer moves `data_tail` from record to record. Both run freely; `mmap_size` is a power
of two, and the position in the data area is what its mask leaves of them.

A session is the event beside the records that were put there and not consumed. `Holds` says that the bytes between
the two positions are those records; every step keeps it (`apply_holds`), and so does every run (`perfEvent_fifo`).
-/

namespace Handler

open Lib.Memory

/-- A byte of the buffer. -/
abbrev Byte := BitVec 8

/-- The type of the records. -/
def PERF_RECORD_SAMPLE : Nat := 9

/-- `sizeof(perf_sample_raw)`: the header, of 8 bytes, and `size`. -/
def sizeofPerfSampleRaw : Nat := 12

/-- `perf_sample_raw` without its data: type, misc and the record's size, then the size of the data. -/
def perfSampleRaw (size : Nat) : List Byte :=
  leBytes 4 PERF_RECORD_SAMPLE ++ leBytes 2 0 ++ leBytes 2 (sizeofPerfSampleRaw + size) ++ leBytes 4 size

/-- `mmap_buffer` from `base_addr` on is `data`; the positions are in the page before it. -/
structure SoftwarePerfEventData where
  mmapSize   : BitVec 64
  data       : Buffer Byte
  copyBuffer : Buffer Byte
  dataHead   : BitVec 64
  dataTail   : BitVec 64

namespace SoftwarePerfEventData

/-- The event when its buffer has the size that `ensure_mmap_buffer` was asked for. -/
def new (mmapSize : BitVec 64) (copyBuffer : Buffer Byte) : SoftwarePerfEventData where
  mmapSize := mmapSize
  data := ⟨mmapSize.toNat, fun _ => 0⟩
  copyBuffer := copyBuffer
  dataHead := 0
  dataTail := 0

/-- `available_size`, an `int64_t`. -/
def availableSize (event : SoftwarePerfEventData) : BitVec 64 :=
  let available := event.mmapSize - (event.dataHead - event.dataTail)
  if available = 0 then event.mmapSize else available

/-- The two copies of a record at `copy_start_1`, or the one where it fits before the end. -/
def copyData (event : SoftwarePerfEventData) (record : List Byte) : Option (Buffer Byte) :=
  let copyStart := (event.dataHead &&& (event.mmapSize - 1)).toNat
  if record.length + copyStart ≤ event.mmapSize.toNat then event.data.write copyStart record
  else do
    let lenFirst := event.mmapSize.toNat - copyStart
    let data ← event.data.write copyStart (record.take lenFirst)
    data.write 0 (record.drop lenFirst)

/-- The size field of the header has 16 bits. -/
def outputData (event : SoftwarePerfEventData) (buf : List Byte) : Option SoftwarePerfEventData :=
  let size := BitVec.ofNat 16 (sizeofPerfSampleRaw + buf.length)
  if event.availableSize.sle (size.setWidth 64) then some event
  else do
    let copyBuffer ← { event.copyBuffer with size := size.toNat }.write 0 (perfSampleRaw buf.length)
    let copyBuffer ← copyBuffer.write sizeofPerfSampleRaw buf
    let data ← event.copyData (load copyBuffer.cells 0 size.toNat)
    return { event with data := data, copyBuffer := copyBuffer, dataHead := event.dataHead + size.setWidth 64 }

end SoftwarePerfEventData

/-! ## Sessions -/

/-- The record of some data: type, size and the data. -/
def record (buf : List Byte) : List Byte := perfSampleRaw buf.length ++ buf

/-- `unread` has the records that were put into the buffer and not consumed, the oldest first. -/
structure Session where
  event  : SoftwarePerfEventData
  unread : List (List Byte)

/-- Data of a size that the header can say. -/
abbrev Data := {buf : List Byte // buf.length ≤ 65523}

/-- What the two sides do: the producer puts a record, the consumer takes some. -/
inductive PerfOp where
  | output (buf : Data)
  /-- The consumer moves `data_tail` past this many records. -/
  | consume (records : Nat)

namespace Session

/-- The bytes that no unread record holds. -/
def free (session : Session) : Nat := session.event.mmapSize.toNat - session.unread.flatten.length

/-- A record that is as long as the free space is dropped too: a full buffer would look empty. -/
def apply (session : Session) : PerfOp → Option Session
  | .output buf => do
    let event ← session.event.outputData buf.1
    return ⟨event, if (record buf.1).length < session.free then session.unread ++ [record buf.1] else session.unread⟩
  | .consume records =>
    let read := (session.unread.take records).flatten.length
    some ⟨{ session.event with dataTail := session.event.dataTail + BitVec.ofNat 64 read },
      session.unread.drop records⟩

/-- The bytes between the positions are the unread records, and they do not fill the buffer. -/
structure Holds (k : Nat) (session : Session) : Prop where
  mmapSize : session.event.mmapSize.toNat = 2 ^ k
  size     : session.event.data.size = 2 ^ k
  room     : session.unread.flatten.length < 2 ^ k
  head     : session.event.dataHead = BitVec.ofNat 64 (session.event.dataTail.toNat + session.unread.flatten.length)
  bytes    : load (wrap (2 ^ k) session.event.data.cells) session.event.dataTail.toNat session.unread.flatten.length =
    session.unread.flatten

end Session

/-- The header has a fixed size. -/
@[simp] theorem length_perfSampleRaw (size : Nat) : (perfSampleRaw size).length = sizeofPerfSampleRaw := by
  simp [perfSampleRaw, sizeofPerfSampleRaw]

/-- A record is its header and its data. -/
theorem length_record (buf : List Byte) : (record buf).length = sizeofPerfSampleRaw + buf.length := by
  rw [record, List.length_append, length_perfSampleRaw]

/-- The size field says the record's size. -/
theorem size_toNat (buf : Data) :
    (BitVec.ofNat 16 (sizeofPerfSampleRaw + buf.1.length)).toNat = (record buf.1).length := by
  have hbuf := buf.2
  rw [length_record, BitVec.toNat_ofNat, Nat.mod_eq_of_lt]
  unfold sizeofPerfSampleRaw
  omega

/-- What `copy_buffer` holds after the two copies into it. -/
theorem copyBuffer_record (copyBuffer : Buffer Byte) (buf : List Byte) :
    ∃ filled, (({ copyBuffer with size := (record buf).length }.write 0 (perfSampleRaw buf.length)).bind
        fun copyBuffer => copyBuffer.write sizeofPerfSampleRaw buf) = some filled ∧
      load filled.cells 0 (record buf).length = record buf := by
  have hlength := length_record buf
  refine ⟨⟨(record buf).length, store copyBuffer.cells 0 (record buf)⟩, ?_, ?_⟩
  · rw [Buffer.write_eq (by simp [hlength]), Option.bind_some, Buffer.write_eq (by simp [hlength]), record,
      store_append, length_perfSampleRaw, Nat.zero_add]
  · change load (store copyBuffer.cells 0 (record buf)) 0 (record buf).length = record buf
    exact load_store

section Steps

variable {k : Nat} {session : Session} (hk : k < 63) (h : Session.Holds k session)
include hk h

/-- The distance of the two ends is what the unread records take. -/
theorem used_toNat : (session.event.dataHead - session.event.dataTail).toNat = session.unread.flatten.length := by
  have hpow : 2 ^ k < 2 ^ 63 := Nat.pow_lt_pow_right (by decide) hk
  have hroom := h.room
  have hsub := @counter_sub 64 session.event.dataTail.toNat session.unread.flatten.length (by omega)
  rwa [← h.head, BitVec.ofNat_toNat, BitVec.setWidth_eq] at hsub

/-- The free space, as `output_data` computes it. -/
theorem availableSize_toNat : session.event.availableSize.toNat = session.free := by
  have hpow : 2 ^ k < 2 ^ 63 := Nat.pow_lt_pow_right (by decide) hk
  have hroom := h.room
  have hused := used_toNat hk h
  have hfree : (session.event.mmapSize - (session.event.dataHead - session.event.dataTail)).toNat = session.free := by
    rw [BitVec.toNat_sub, hused, Session.free, h.mmapSize]
    omega
  unfold SoftwarePerfEventData.availableSize
  dsimp only
  split
  · rename_i hzero
    rw [hzero, Session.free, h.mmapSize] at hfree
    exact absurd hfree.symm (Nat.ne_of_gt (Nat.sub_pos_of_lt hroom))
  · exact hfree

/-- When a record is dropped. -/
theorem dropped_iff (buf : Data) :
    session.event.availableSize.sle ((BitVec.ofNat 16 (sizeofPerfSampleRaw + buf.1.length)).setWidth 64) = true ↔
      session.free ≤ (record buf.1).length := by
  have hpow : 2 ^ k < 2 ^ 63 := Nat.pow_lt_pow_right (by decide) hk
  have hsize := size_toNat buf
  have hlt := (BitVec.ofNat 16 (sizeofPerfSampleRaw + buf.1.length)).isLt
  have hfree : session.free ≤ 2 ^ k := by
    rw [Session.free, h.mmapSize]
    exact Nat.sub_le _ _
  have havailable := availableSize_toNat hk h
  have hwide : ((BitVec.ofNat 16 (sizeofPerfSampleRaw + buf.1.length)).setWidth 64).toNat = (record buf.1).length := by
    rw [BitVec.toNat_setWidth, hsize, Nat.mod_eq_of_lt (by omega)]
  rw [BitVec.sle_iff_toInt_le, BitVec.toInt_eq_toNat_of_lt (by omega), BitVec.toInt_eq_toNat_of_lt (by omega), havailable,
    hwide, Int.ofNat_le]

/-- The size is a power of two, so one less is a mask. -/
theorem mask_toNat : (session.event.mmapSize - 1).toNat = 2 ^ k - 1 := by
  have hpow : 2 ^ k < 2 ^ 63 := Nat.pow_lt_pow_right (by decide) hk
  have hpos := Nat.two_pow_pos k
  have hone : (1 : BitVec 64).toNat = 1 := rfl
  rw [BitVec.toNat_sub, h.mmapSize, hone]
  omega

/-- A record is copied to the positions after the unread ones. -/
theorem copyData_eq {bytes : List Byte} (hfit : bytes.length ≤ 2 ^ k) :
    session.event.copyData bytes = some ⟨2 ^ k, storeWrapped (2 ^ k) session.event.data.cells
      (session.event.dataTail.toNat + session.unread.flatten.length) bytes⟩ := by
  have hstart : (session.event.dataHead &&& (session.event.mmapSize - 1)).toNat =
      (session.event.dataTail.toNat + session.unread.flatten.length) % 2 ^ k := by
    rw [toNat_and_mask (mask_toNat hk h), h.head, counter_mod (by omega)]
  have hlt := Nat.mod_lt (session.event.dataTail.toNat + session.unread.flatten.length) (Nat.two_pow_pos k)
  unfold SoftwarePerfEventData.copyData storeWrapped
  dsimp only
  rw [hstart, h.mmapSize, Nat.add_comm bytes.length]
  split
  · rename_i hone
    rw [Buffer.write_eq (by rw [h.size]; exact hone), h.size]
  · rename_i htwo
    rw [Buffer.write_eq (by rw [h.size, List.length_take]; omega), Option.bind_eq_bind, Option.bind_some,
      Buffer.write_eq (by simp only [h.size, List.length_drop]; omega), h.size]

/-- A record that is not shorter than the free space changes nothing. -/
theorem outputData_dropped (buf : Data) (hdrop : session.free ≤ (record buf.1).length) :
    session.event.outputData buf.1 = some session.event := if_pos ((dropped_iff hk h buf).mpr hdrop)

/-- A shorter one is put after the unread ones. -/
theorem outputData_stored (buf : Data) (hfit : (record buf.1).length < session.free) :
    ∃ event, session.event.outputData buf.1 = some event ∧ event.mmapSize = session.event.mmapSize ∧
      event.data = ⟨2 ^ k, storeWrapped (2 ^ k) session.event.data.cells
        (session.event.dataTail.toNat + session.unread.flatten.length) (record buf.1)⟩ ∧
      event.dataHead = session.event.dataHead + BitVec.ofNat 64 (record buf.1).length ∧
      event.dataTail = session.event.dataTail := by
  have hsize := size_toNat buf
  have hfree : session.free ≤ 2 ^ k := by
    rw [Session.free, h.mmapSize]
    exact Nat.sub_le _ _
  obtain ⟨filled, hfilled, hload⟩ := copyBuffer_record session.event.copyBuffer buf.1
  obtain ⟨first, hfirst, hsecond⟩ := Option.bind_eq_some_iff.mp hfilled
  have hwide : (BitVec.ofNat 16 (sizeofPerfSampleRaw + buf.1.length)).setWidth 64 =
      BitVec.ofNat 64 (record buf.1).length := by
    rw [← BitVec.ofNat_toNat, hsize]
  have hdrop : ¬ session.event.availableSize.sle
      ((BitVec.ofNat 16 (sizeofPerfSampleRaw + buf.1.length)).setWidth 64) = true :=
    mt (dropped_iff hk h buf).mp (Nat.not_le_of_lt hfit)
  refine ⟨{ session.event with
    data := ⟨2 ^ k, storeWrapped (2 ^ k) session.event.data.cells
      (session.event.dataTail.toNat + session.unread.flatten.length) (record buf.1)⟩
    copyBuffer := filled
    dataHead := session.event.dataHead + BitVec.ofNat 64 (record buf.1).length }, ?_, rfl, rfl, rfl, rfl⟩
  unfold SoftwarePerfEventData.outputData
  dsimp only
  rw [if_neg hdrop, hsize, hfirst, Option.bind_eq_bind, Option.bind_some, hsecond, Option.bind_some, hload,
    copyData_eq hk h (by omega), Option.bind_some, hwide]
  rfl

/-- A record that is put, or dropped, keeps the invariant. -/
theorem output_holds (buf : Data) : ∃ session', session.apply (.output buf) = some session' ∧ session'.Holds k := by
  by_cases hfit : (record buf.1).length < session.free
  · obtain ⟨event, hout, hmmap, hdata, hhead, htail⟩ := outputData_stored hk h buf hfit
    have hroom := h.room
    have hfits : (record buf.1).length < 2 ^ k - session.unread.flatten.length := by
      rwa [Session.free, h.mmapSize] at hfit
    have hlength : (session.unread ++ [record buf.1]).flatten.length =
        session.unread.flatten.length + (record buf.1).length := by
      simp
    refine ⟨⟨event, session.unread ++ [record buf.1]⟩, ?_, ⟨?_, ?_, ?_, ?_, ?_⟩⟩
    · rw [Session.apply, hout, if_pos hfit]
      rfl
    · exact (congrArg BitVec.toNat hmmap).trans h.mmapSize
    · exact congrArg Buffer.size hdata
    · change (session.unread ++ [record buf.1]).flatten.length < 2 ^ k
      omega
    · change event.dataHead = BitVec.ofNat 64 (event.dataTail.toNat + (session.unread ++ [record buf.1]).flatten.length)
      rw [hhead, htail, hlength, h.head, ← BitVec.ofNat_add, Nat.add_assoc]
    · change load (wrap (2 ^ k) event.data.cells) event.dataTail.toNat
        (session.unread ++ [record buf.1]).flatten.length = _
      rw [hdata, htail, hlength, load_add, load_wrap_before (c := session.event.dataTail.toNat) (Nat.le_add_right _ _)
        (by omega) (Nat.le_refl _) (Nat.le_refl _), h.bytes, load_wrap_stored (by omega)]
      simp
  · refine ⟨session, ?_, h⟩
    rw [Session.apply, outputData_dropped hk h buf (Nat.le_of_not_lt hfit), if_neg hfit]
    rfl

/-- Taking records keeps it: they are read where they were written. -/
theorem consume_holds (records : Nat) :
    ∃ session', session.apply (.consume records) = some session' ∧ session'.Holds k := by
  have hsplit : session.unread.flatten = (session.unread.take records).flatten ++ (session.unread.drop records).flatten := by
    rw [← List.flatten_append, List.take_append_drop]
  have hlength := congrArg List.length hsplit
  rw [List.length_append] at hlength
  have hroom := h.room
  have htail : session.event.dataTail + BitVec.ofNat 64 (session.unread.take records).flatten.length =
      BitVec.ofNat 64 (session.event.dataTail.toNat + (session.unread.take records).flatten.length) := by
    rw [BitVec.ofNat_add, BitVec.ofNat_toNat, BitVec.setWidth_eq]
  refine ⟨_, rfl, h.mmapSize, h.size, ?_, ?_, ?_⟩
  · change (session.unread.drop records).flatten.length < 2 ^ k
    omega
  · change session.event.dataHead = BitVec.ofNat 64 ((session.event.dataTail + _).toNat + _)
    rw [BitVec.ofNat_add, BitVec.ofNat_toNat, BitVec.setWidth_eq, htail, ← BitVec.ofNat_add, Nat.add_assoc, ← hlength]
    exact h.head
  · have hbytes := h.bytes
    rw [hlength, load_add, hsplit] at hbytes
    have hrest := (List.append_inj hbytes length_load).2
    refine Eq.trans ?_ hrest
    refine load_wrap_congr ?_ _
    change (session.event.dataTail + _).toNat % 2 ^ k = _
    rw [htail, counter_mod (by omega)]

end Steps

/-- Every operation keeps it. -/
theorem apply_holds {k : Nat} {session : Session} (hk : k < 63) (h : session.Holds k) (op : PerfOp) :
    ∃ session', session.apply op = some session' ∧ session'.Holds k := by
  cases op with
  | output buf => exact output_holds hk h buf
  | consume records => exact consume_holds hk h records

/-- A new buffer has no records. -/
theorem new_holds {k : Nat} (hk : k < 63) (copyBuffer : Buffer Byte) :
    Session.Holds k ⟨.new (BitVec.ofNat 64 (2 ^ k)) copyBuffer, []⟩ := by
  have hpow : 2 ^ k < 2 ^ 64 := Nat.pow_lt_pow_right (by decide) (by omega)
  have hsize : (BitVec.ofNat 64 (2 ^ k)).toNat = 2 ^ k := by rw [BitVec.toNat_ofNat, Nat.mod_eq_of_lt hpow]
  exact ⟨hsize, hsize, Nat.two_pow_pos k, rfl, rfl⟩

/-- **The perf event is a FIFO of records.** After every sequence of outputs and consumer moves on a new buffer of
    `2 ^ k` bytes (a vector has at most `2 ^ 63 - 1`), the bytes from `data_tail` to `data_head` are the records that
    were not dropped and not consumed, in order. A record is dropped if and only if it is not shorter than the free
    space, and then nothing changes. -/
theorem perfEvent_fifo (k : Fin 63) (copyBuffer : Buffer Byte) (ops : List PerfOp) :
    ∃ session, ops.foldlM Session.apply ⟨.new (BitVec.ofNat 64 (2 ^ k.1)) copyBuffer, []⟩ = some session ∧
      (session.event.dataHead - session.event.dataTail).toNat = session.unread.flatten.length ∧
      load (wrap (2 ^ k.1) session.event.data.cells) session.event.dataTail.toNat session.unread.flatten.length =
        session.unread.flatten ∧
      ∀ buf : Data, ∃ event, session.event.outputData buf.1 = some event ∧
        if session.free ≤ (record buf.1).length then event = session.event
        else event.dataHead = session.event.dataHead + BitVec.ofNat 64 (record buf.1).length ∧
          event.dataTail = session.event.dataTail := by
  have hk := k.2
  obtain ⟨session, hrun, h⟩ :=
    Lib.foldlM_invariant (fun _ op h => apply_holds hk h op) (new_holds hk copyBuffer) ops
  refine ⟨session, hrun, used_toNat hk h, h.bytes, fun buf => ?_⟩
  split
  · rename_i hdrop
    exact ⟨_, outputData_dropped hk h buf hdrop, rfl⟩
  · rename_i hfit
    obtain ⟨event, hout, -, -, hhead, htail⟩ := outputData_stored hk h buf (Nat.lt_of_not_le hfit)
    exact ⟨event, hout, hhead, htail⟩

/-- A record that would fill the buffer to the last byte is dropped. -/
theorem perfEvent_drops_exact_fit :
    (record [1, 2, 3, 4]).length ≤ (Session.mk (.new 16 ⟨0, fun _ => 0⟩) []).free ∧
      (SoftwarePerfEventData.new 16 ⟨0, fun _ => 0⟩).outputData [1, 2, 3, 4] =
        some (SoftwarePerfEventData.new 16 ⟨0, fun _ => 0⟩) := by
  refine ⟨by decide, ?_⟩
  unfold SoftwarePerfEventData.outputData
  exact if_pos (by decide)

end Handler
