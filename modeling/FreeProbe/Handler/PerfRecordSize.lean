import FreeProbe.Handler.PerfMmap

/-!
# `Handler.PerfRecordSize` — the size that a perf record says

The size that `bpf_perf_event_output` passes on has 64 bits, that of the data in the record has 32, and that of the
record in its header has 16, which is also what is compared with the available space and what the record is copied by.

A run maps the event, outputs data of any length and moves the consumer over whole records. `Bounded` is what it keeps.
-/

namespace Handler

open Lib Lib.Memory

/-- The cell of the data area at a distance from `data_head`. -/
def SoftwarePerfEventData.slot (event : SoftwarePerfEventData) (i : Nat) : Nat :=
  ((event.dataHead &&& (event.mmapSize - 1)).toNat + i) % event.mmapSize.toNat

/-- A mapped event, and the records that were put and not consumed. -/
structure PerfRun where
  mmap   : PerfMmap
  unread : List (List Byte)

/-- What is done with an event: the consumer maps it and takes records, and the program outputs. -/
inductive PerfRunOp where
  | ensure (call : EnsureCall)
  | output (buf : List Byte)
  | consume (records : Nat)

namespace PerfRun

/-- No area is mapped. -/
def new (pagesize : BitVec 64) (copyBuffer : Buffer Byte) : PerfRun := ⟨.new pagesize copyBuffer, []⟩

/-- The event as a session, whose `free` is what is not taken by unread records. -/
def session (run : PerfRun) : Session := ⟨run.mmap.event, run.unread⟩

/-- One operation; the records that are unread are followed along. -/
def apply (run : PerfRun) : PerfRunOp → Option (Unit × PerfRun)
  | .ensure call => some ((), { run with mmap := (run.mmap.ensureMmapBuffer call).2 })
  | .output buf => do
    let event ← run.mmap.event.outputData buf
    return ((), {
      mmap := { run.mmap with event := event }
      unread := if (record buf).length < run.session.free then run.unread ++ [record buf] else run.unread })
  | .consume records =>
    let read := (run.unread.take records).flatten.length
    some ((), {
      mmap := { run.mmap with event := { run.mmap.event with
        dataTail := run.mmap.event.dataTail + BitVec.ofNat 64 read } }
      unread := run.unread.drop records })

end PerfRun

/-! ## What a faithful record is -/

/-- The record of `buf` was put at the head: its size field says the length that was copied, which the available space
holds, and all other cells are as they were. -/
structure Emitted (event event' : SoftwarePerfEventData) (buf : List Byte) : Prop where
  size   : leNat (load (fun i => event'.data.cells (event.slot i)) 6 2) = sizeofPerfSampleRaw + buf.length
  copied : (event'.dataHead - event.dataHead).toNat = sizeofPerfSampleRaw + buf.length
  bytes  : load (fun i => event'.data.cells (event.slot i)) 0 (sizeofPerfSampleRaw + buf.length) = record buf
  inside : sizeofPerfSampleRaw + buf.length ≤ event.availableSize.toNat
  others : ∀ cell < event.data.size, (∀ i < event.availableSize.toNat, event.slot i ≠ cell) →
    event'.data.cells cell = event.data.cells cell

/-- An output stays in its buffers, and it drops the data or puts a faithful record. -/
def LengthFaithful (run : PerfRun) : PerfRunOp → Prop
  | .output buf => ∃ event', run.mmap.event.outputData buf = some event' ∧
      (event' = run.mmap.event ∨ Emitted run.mmap.event event' buf)
  | _ => True

/-- The header can say the record's size, or what it says is not shorter than the free space, and the data is dropped. -/
def LengthFits (run : PerfRun) : PerfRunOp → Prop
  | .output buf => sizeofPerfSampleRaw + buf.length < 2 ^ 16 ∨
      run.session.free ≤ (sizeofPerfSampleRaw + buf.length) % 2 ^ 16
  | _ => True

/-- The size field of a record is behind its type and `misc`. -/
theorem sizeField_eq {buf : List Byte} {cells : Nat → Byte} (hshort : sizeofPerfSampleRaw + buf.length < 2 ^ 16)
    (hbytes : load cells 0 (sizeofPerfSampleRaw + buf.length) = record buf) :
    leNat (load cells 6 2) = sizeofPerfSampleRaw + buf.length := by
  have hsplit : load cells 0 (sizeofPerfSampleRaw + buf.length) =
      load cells 0 6 ++ (load cells 6 2 ++ load cells 8 (4 + buf.length)) := by
    have hlength : sizeofPerfSampleRaw + buf.length = 6 + (2 + (4 + buf.length)) := by
      unfold sizeofPerfSampleRaw
      omega
    rw [hlength, load_add, load_add]
  have hrecord : record buf = (leBytes 4 PERF_RECORD_SAMPLE ++ leBytes 2 0) ++
      (leBytes 2 (sizeofPerfSampleRaw + buf.length) ++ (leBytes 4 buf.length ++ buf)) := by
    simp only [record, perfSampleRaw, List.append_assoc]
  rw [hsplit, hrecord] at hbytes
  have hrest := (List.append_inj hbytes (by simp)).2
  have hfield := (List.append_inj hrest (by simp)).1
  rw [hfield, leNat_leBytes hshort]

/-! ## What a run keeps -/

/-- The data area has the size of its mask, no vector is longer than `2 ^ 63 - 1`, and unread records do not fill it. -/
structure PerfRun.Bounded (run : PerfRun) : Prop where
  total    : run.mmap.pagesize.toNat + run.mmap.event.mmapSize.toNat < 2 ^ 64
  mmapSize : run.mmap.event.mmapSize.toNat < 2 ^ 63
  size     : run.mmap.event.data.size = run.mmap.event.mmapSize.toNat
  room     : run.unread.flatten.length < run.mmap.event.mmapSize.toNat ∨ run.unread = []
  head     : run.mmap.event.dataHead =
    BitVec.ofNat 64 (run.mmap.event.dataTail.toNat + run.unread.flatten.length)

/-- An event without an area. -/
theorem bounded_new (pagesize : BitVec 64) (copyBuffer : Buffer Byte) : (PerfRun.new pagesize copyBuffer).Bounded :=
  ⟨pagesize.isLt, Nat.two_pow_pos 63, rfl, .inr rfl, rfl⟩

section Steps

variable {run : PerfRun} (h : run.Bounded)
include h

/-- The unread records fit in the area. -/
theorem PerfRun.Bounded.unread_le : run.unread.flatten.length ≤ run.mmap.event.mmapSize.toNat := by
  rcases h.room with hlt | hnil
  · exact Nat.le_of_lt hlt
  · simp [hnil]

/-- `available_size` is what they leave. -/
theorem PerfRun.Bounded.available_toNat : run.mmap.event.availableSize.toNat = run.session.free := by
  have hmmap := h.mmapSize
  have hle := h.unread_le
  have hused : (run.mmap.event.dataHead - run.mmap.event.dataTail).toNat = run.unread.flatten.length := by
    have hsub := @counter_sub 64 run.mmap.event.dataTail.toNat run.unread.flatten.length (by omega)
    rwa [← h.head, BitVec.ofNat_toNat, BitVec.setWidth_eq] at hsub
  have hfree : (run.mmap.event.mmapSize - (run.mmap.event.dataHead - run.mmap.event.dataTail)).toNat =
      run.session.free := by
    rw [BitVec.toNat_sub, hused]
    show _ = run.mmap.event.mmapSize.toNat - run.unread.flatten.length
    omega
  unfold SoftwarePerfEventData.availableSize
  dsimp only
  split
  · next hzero =>
      -- nothing is free only where there is no data area
      rw [hzero] at hfree
      rcases h.room with hlt | hnil
      · exact absurd hfree.symm (Nat.ne_of_gt (Nat.sub_pos_of_lt hlt))
      · show _ = run.mmap.event.mmapSize.toNat - run.unread.flatten.length
        simp [hnil]
  · exact hfree

/-- The comparison of the available space with the 16 bits of the size. -/
theorem PerfRun.Bounded.dropped_iff (n : Nat) :
    run.mmap.event.availableSize.sle ((BitVec.ofNat 16 n).setWidth 64) = true ↔ run.session.free ≤ n % 2 ^ 16 := by
  have hmmap := h.mmapSize
  have havailable := h.available_toNat
  have hfree : run.session.free ≤ run.mmap.event.mmapSize.toNat := Nat.sub_le _ _
  have hwide : ((BitVec.ofNat 16 n).setWidth 64).toNat = n % 2 ^ 16 := by
    rw [BitVec.toNat_setWidth, BitVec.toNat_ofNat]
    omega
  rw [BitVec.sle_iff_toInt_le, BitVec.toInt_eq_toNat_of_lt (by omega), BitVec.toInt_eq_toNat_of_lt (by omega), havailable,
    hwide, Int.ofNat_le]

/-- A record that fits is copied to the slots from the head on. -/
theorem PerfRun.Bounded.copyData_eq {bytes : List Byte} (hfit : bytes.length < run.mmap.event.mmapSize.toNat) :
    run.mmap.event.copyData bytes = some ⟨run.mmap.event.mmapSize.toNat,
      storeWrapped run.mmap.event.mmapSize.toNat run.mmap.event.data.cells
        (run.mmap.event.dataHead &&& (run.mmap.event.mmapSize - 1)).toNat bytes⟩ := by
  have hstart : (run.mmap.event.dataHead &&& (run.mmap.event.mmapSize - 1)).toNat < run.mmap.event.mmapSize.toNat := by
    have hone : (1 : BitVec 64).toNat = 1 := rfl
    have hmask : (run.mmap.event.mmapSize - 1).toNat = run.mmap.event.mmapSize.toNat - 1 := by
      rw [BitVec.toNat_sub, hone]
      omega
    have hle : (run.mmap.event.dataHead &&& (run.mmap.event.mmapSize - 1)).toNat ≤ (run.mmap.event.mmapSize - 1).toNat := by
      rw [BitVec.toNat_and]
      exact Nat.and_le_right
    omega
  unfold SoftwarePerfEventData.copyData storeWrapped
  dsimp only
  rw [Nat.mod_eq_of_lt hstart, Nat.add_comm bytes.length]
  split
  · next hone => rw [Buffer.write_eq (by rw [h.size]; exact hone), h.size]
  · next htwo =>
      rw [Buffer.write_eq (by rw [h.size, List.length_take]; omega), Option.bind_eq_bind, Option.bind_some,
        Buffer.write_eq (by simp only [h.size, List.length_drop]; omega), h.size]

/-- Data whose record is said to be no shorter than the free space is dropped. -/
theorem PerfRun.Bounded.outputData_dropped {buf : List Byte}
    (hdrop : run.session.free ≤ (sizeofPerfSampleRaw + buf.length) % 2 ^ 16) :
    run.mmap.event.outputData buf = some run.mmap.event := if_pos ((h.dropped_iff _).mpr hdrop)

/-- A size that the header cannot say leaves the copy buffer too short for the data. -/
theorem PerfRun.Bounded.outputData_overrun {buf : List Byte} (hlong : 2 ^ 16 ≤ sizeofPerfSampleRaw + buf.length)
    (hroom : (sizeofPerfSampleRaw + buf.length) % 2 ^ 16 < run.session.free) :
    run.mmap.event.outputData buf = none := by
  have hdrop := mt (h.dropped_iff (sizeofPerfSampleRaw + buf.length)).mp (Nat.not_le_of_lt hroom)
  unfold SoftwarePerfEventData.outputData
  dsimp only
  rw [if_neg hdrop]
  refine Option.bind_eq_none_iff.mpr fun copyBuffer hcopy => ?_
  have hsize : copyBuffer.size < sizeofPerfSampleRaw + buf.length := by
    unfold Buffer.write at hcopy
    split at hcopy
    · rw [Option.some.injEq] at hcopy
      subst hcopy
      show (BitVec.ofNat 16 _).toNat < _
      have := (BitVec.ofNat 16 (sizeofPerfSampleRaw + buf.length)).isLt
      omega
    · cases hcopy
  rw [Buffer.write_none hsize]
  rfl

/-- Other data is put at the head, as a faithful record. -/
theorem PerfRun.Bounded.outputData_emitted {buf : List Byte} (hshort : sizeofPerfSampleRaw + buf.length < 2 ^ 16)
    (hroom : (record buf).length < run.session.free) :
    ∃ event', run.mmap.event.outputData buf = some event' ∧ Emitted run.mmap.event event' buf ∧
      event'.mmapSize = run.mmap.event.mmapSize ∧ event'.data.size = event'.mmapSize.toNat ∧
      event'.dataHead = run.mmap.event.dataHead + BitVec.ofNat 64 (record buf).length ∧
      event'.dataTail = run.mmap.event.dataTail := by
  have hlength := length_record buf
  have hfree : run.session.free ≤ run.mmap.event.mmapSize.toNat := Nat.sub_le _ _
  -- a length below `2 ^ 16` is not cut
  have hsize : (BitVec.ofNat 16 (sizeofPerfSampleRaw + buf.length)).toNat = (record buf).length := by
    rw [hlength, BitVec.toNat_ofNat, Nat.mod_eq_of_lt hshort]
  have hwide : (BitVec.ofNat 16 (sizeofPerfSampleRaw + buf.length)).setWidth 64 = BitVec.ofNat 64 (record buf).length := by
    rw [← BitVec.ofNat_toNat, hsize]
  -- the comparison is signed, on numbers that are not negative
  have hdrop : ¬ run.mmap.event.availableSize.sle
      ((BitVec.ofNat 16 (sizeofPerfSampleRaw + buf.length)).setWidth 64) = true := by
    rw [h.dropped_iff, Nat.mod_eq_of_lt hshort]
    omega
  obtain ⟨filled, hfilled, hload⟩ := copyBuffer_record run.mmap.event.copyBuffer buf
  obtain ⟨first, hfirst, hsecond⟩ := Option.bind_eq_some_iff.mp hfilled
  have hfit : (record buf).length ≤ run.mmap.event.mmapSize.toNat := by omega
  refine ⟨{ run.mmap.event with
    data := ⟨run.mmap.event.mmapSize.toNat, storeWrapped run.mmap.event.mmapSize.toNat run.mmap.event.data.cells
      (run.mmap.event.dataHead &&& (run.mmap.event.mmapSize - 1)).toNat (record buf)⟩
    copyBuffer := filled
    dataHead := run.mmap.event.dataHead + BitVec.ofNat 64 (record buf).length }, ?_, ?_, rfl, rfl, rfl, rfl⟩
  · unfold SoftwarePerfEventData.outputData
    dsimp only
    rw [if_neg hdrop, hsize, hfirst, Option.bind_eq_bind, Option.bind_some, hsecond, Option.bind_some, hload,
      h.copyData_eq (by omega), Option.bind_some, hwide]
    rfl
  · -- what the slots from the head on hold
    have hbytes : load (fun i => storeWrapped run.mmap.event.mmapSize.toNat run.mmap.event.data.cells
        (run.mmap.event.dataHead &&& (run.mmap.event.mmapSize - 1)).toNat (record buf) (run.mmap.event.slot i)) 0
        (sizeofPerfSampleRaw + buf.length) = record buf := by
      refine load_eq hlength fun i hi => ?_
      rw [Nat.zero_add]
      exact storeWrapped_in hfit _ hi
    refine ⟨?_, ?_, hbytes, ?_, ?_⟩
    · exact sizeField_eq hshort hbytes
    · show (run.mmap.event.dataHead + BitVec.ofNat 64 (record buf).length - run.mmap.event.dataHead).toNat = _
      rw [add_sub_cancel_left, BitVec.toNat_ofNat, ← hlength, Nat.mod_eq_of_lt (by omega)]
    · rw [h.available_toNat]
      omega
    · intro cell hcell hout
      rw [h.size] at hcell
      rw [h.available_toNat] at hout
      exact storeWrapped_out hfit _ hcell fun i hi => hout i (by omega)

/-- **One operation.** An output is faithful just where its length fits. -/
theorem PerfRun.Bounded.lengthFaithful_iff (op : PerfRunOp) : LengthFaithful run op ↔ LengthFits run op := by
  cases op with
  | ensure call => exact Iff.rfl
  | consume records => exact Iff.rfl
  | output buf =>
      unfold LengthFaithful LengthFits
      by_cases hdrop : run.session.free ≤ (sizeofPerfSampleRaw + buf.length) % 2 ^ 16
      · exact iff_of_true ⟨_, h.outputData_dropped hdrop, .inl rfl⟩ (.inr hdrop)
      · by_cases hshort : sizeofPerfSampleRaw + buf.length < 2 ^ 16
        · have hroom : (record buf).length < run.session.free := by
            rw [length_record]
            rw [Nat.mod_eq_of_lt hshort] at hdrop
            omega
          obtain ⟨event', hout, hemitted, -⟩ := h.outputData_emitted hshort hroom
          exact iff_of_true ⟨event', hout, .inr hemitted⟩ (.inl hshort)
        · have hnone := h.outputData_overrun (Nat.le_of_not_lt hshort) (Nat.lt_of_not_le hdrop)
          refine iff_of_false ?_ (fun hfits => hfits.elim hshort hdrop)
          rintro ⟨event', hout, -⟩
          rw [hnone] at hout
          cases hout

/-- Mapping a larger area keeps the bounds. -/
theorem PerfRun.Bounded.ensure (call : EnsureCall) : PerfRun.Bounded { run with mmap := (run.mmap.ensureMmapBuffer call).2 } := by
  by_cases hmore : run.mmap.bufferSize < call.bufferSize
  -- an area that is not granted, or too large for a vector, changes nothing
  · by_cases hthrow : call.granted = false ∨ 2 ^ 63 ≤ call.bufferSize.toNat
    · rw [PerfMmap.ensureMmapBuffer_thrown hmore hthrow]
      exact h
    · rw [(PerfMmap.ensureMmapBuffer_grown hmore hthrow).1]
      have htotal := h.total
      have hgrown : run.mmap.bufferSize.toNat < call.bufferSize.toNat := hmore
      rw [PerfMmap.bufferSize, BitVec.toNat_add, Nat.mod_eq_of_lt htotal] at hgrown
      have harea : (call.bufferSize - run.mmap.pagesize).toNat = call.bufferSize.toNat - run.mmap.pagesize.toNat := by
        rw [BitVec.toNat_sub]
        have := call.bufferSize.isLt
        omega
      refine ⟨?_, ?_, rfl, ?_, h.head⟩
      · show run.mmap.pagesize.toNat + (call.bufferSize - run.mmap.pagesize).toNat < 2 ^ 64
        have := call.bufferSize.isLt
        omega
      · show (call.bufferSize - run.mmap.pagesize).toNat < 2 ^ 63
        omega
      · show run.unread.flatten.length < (call.bufferSize - run.mmap.pagesize).toNat ∨ _
        rcases h.room with hlt | hnil
        · left
          omega
        · exact .inr hnil
  · rw [PerfMmap.ensureMmapBuffer_kept (BitVec.not_lt.mp hmore)]
    exact h

/-- Each operation keeps them, if the records have lengths that fit. -/
theorem PerfRun.Bounded.step (op : PerfRunOp) (hfits : LengthFits run op) : ∀ next ∈ run.apply op, next.2.Bounded := by
  intro next hnext
  cases op with
  | ensure call =>
      cases hnext
      exact h.ensure call
  | consume records =>
      cases hnext
      have hsplit : run.unread.flatten.length =
          (run.unread.take records).flatten.length + (run.unread.drop records).flatten.length := by
        rw [← List.length_append, ← List.flatten_append, List.take_append_drop]
      refine ⟨h.total, h.mmapSize, h.size, ?_, ?_⟩
      · show (run.unread.drop records).flatten.length < run.mmap.event.mmapSize.toNat ∨ run.unread.drop records = []
        rcases h.room with hlt | hnil
        · left
          omega
        · right
          rw [hnil, List.drop_nil]
      · show run.mmap.event.dataHead = BitVec.ofNat 64 ((run.mmap.event.dataTail + BitVec.ofNat 64 _).toNat + _)
        rw [h.head, hsplit]
        simp only [BitVec.ofNat_add, BitVec.ofNat_toNat, BitVec.setWidth_eq, BitVec.add_assoc]
  | output buf =>
      obtain ⟨event', hout, hnext⟩ := Option.bind_eq_some_iff.mp hnext
      cases hnext
      -- a record without room is dropped before its length matters
      by_cases hdrop : run.session.free ≤ (sizeofPerfSampleRaw + buf.length) % 2 ^ 16
      · rw [h.outputData_dropped hdrop, Option.some.injEq] at hout
        have hlong : ¬ (record buf).length < run.session.free := by
          rw [length_record]
          have := Nat.mod_le (sizeofPerfSampleRaw + buf.length) (2 ^ 16)
          omega
        simp only [hlong, if_false, ← hout]
        exact h
      · have hshort : sizeofPerfSampleRaw + buf.length < 2 ^ 16 := hfits.resolve_right hdrop
        have hroom : (record buf).length < run.session.free := by
          rw [length_record]
          rw [Nat.mod_eq_of_lt hshort] at hdrop
          omega
        obtain ⟨event, hevent, -, hmmap, hsize, hhead, htail⟩ := h.outputData_emitted hshort hroom
        rw [hevent, Option.some.injEq] at hout
        subst hout
        simp only [hroom, if_true]
        have hfree : run.session.free = run.mmap.event.mmapSize.toNat - run.unread.flatten.length := rfl
        have hlength : (run.unread ++ [record buf]).flatten.length = run.unread.flatten.length + (record buf).length := by
          simp
        refine ⟨?_, ?_, hsize, ?_, ?_⟩
        · show run.mmap.pagesize.toNat + event.mmapSize.toNat < 2 ^ 64
          rw [hmmap]
          exact h.total
        · show event.mmapSize.toNat < 2 ^ 63
          rw [hmmap]
          exact h.mmapSize
        · left
          show (run.unread ++ [record buf]).flatten.length < event.mmapSize.toNat
          rw [hmmap]
          omega
        · show event.dataHead = BitVec.ofNat 64 (event.dataTail.toNat + (run.unread ++ [record buf]).flatten.length)
          rw [hhead, htail, hlength, h.head, ← BitVec.ofNat_add, Nat.add_assoc]

end Steps

/-- **The length of a perf record is faithful**: in every run on a new event, each output drops its data or puts a record
whose size field, copied bytes and length agree within the available space, if and only if each record's size is below
`2 ^ 16` or said to be no shorter than the free space. -/
theorem perfRecord_length_iff (pagesize : BitVec 64) (copyBuffer : Buffer Byte) (ops : List PerfRunOp) :
    AllSteps PerfRun.apply LengthFaithful (.new pagesize copyBuffer) ops ↔
      AllSteps PerfRun.apply LengthFits (.new pagesize copyBuffer) ops := by
  have hstep : ∀ (run : PerfRun) (op : PerfRunOp), run.Bounded → (LengthFaithful run op ↔ LengthFits run op) :=
    fun _ op h => h.lengthFaithful_iff op
  refine allSteps_iff_of_invariant hstep ?_ (bounded_new pagesize copyBuffer) ops
  intro run op h hfits
  exact h.step op hfits

/-- Data of 65524 bytes makes a record of 65536, whose size field says 0: the copy overruns the buffer. -/
theorem perfRecord_not_faithful :
    ¬ ∀ (pagesize : BitVec 64) (ops : List PerfRunOp),
      AllSteps PerfRun.apply LengthFaithful (.new pagesize ⟨4096, fun _ => 0⟩) ops := by
  intro hall
  have hrun := hall 4096 [.ensure ⟨135168, true⟩, .output (List.replicate 65524 0)]
  have hbounded := (bounded_new 4096 ⟨4096, fun _ => 0⟩).ensure ⟨135168, true⟩
  have hfits := (hbounded.lengthFaithful_iff _).mp (hrun.2 _ rfl).1
  have hsize : sizeofPerfSampleRaw + (List.replicate 65524 (0 : Byte)).length = 2 ^ 16 := by
    rw [List.length_replicate]
    rfl
  rcases hfits with hshort | hfree
  · exact absurd hshort (by rw [hsize]; exact Nat.lt_irrefl _)
  · rw [hsize] at hfree
    exact absurd hfree (by decide)

end Handler
