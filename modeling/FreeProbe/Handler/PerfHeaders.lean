import FreeProbe.Handler.PerfEvent

/-!
# `Handler.PerfHeaders` — where the records of a perf event start

A reader takes the 8 bytes of a record's header before it looks whether the record goes past the end of the data area.
A record starts where the ones before it end, and `output_data` does not round its length, so a header can be cut in
two. Whether one is depends on the lengths alone: `HeadersFit` runs the outputs and the consumer's moves on them.
-/

namespace Handler

open Lib.Memory

/-- `sizeof(perf_event_header)`. -/
def sizeofPerfEventHeader : Nat := 8

/-- The offsets in the data area at which the records of a run were put. -/
def Session.starts (session : Session) : List PerfOp → Option (List Nat)
  | [] => some []
  | op :: ops => do
    let session' ← session.apply op
    let rest ← session'.starts ops
    return if session'.event.dataHead ≠ session.event.dataHead then
        (session.event.dataHead &&& (session.event.mmapSize - 1)).toNat :: rest
      else rest

/-- The lengths of the records decide: `put` bytes were put so far, and `unread` has the lengths of the unread ones. -/
def HeadersFit (k put : Nat) (unread : List Nat) : List PerfOp → Prop
  | [] => True
  | .output buf :: ops =>
    if (record buf.1).length < 2 ^ k - unread.sum then
      put % 2 ^ k + sizeofPerfEventHeader ≤ 2 ^ k ∧
        HeadersFit k (put + (record buf.1).length) (unread ++ [(record buf.1).length]) ops
    else HeadersFit k put unread ops
  | .consume records :: ops => HeadersFit k put (unread.drop records) ops

/-- A moved head is another head. -/
theorem head_moved (head : BitVec 64) (buf : Data) : head + BitVec.ofNat 64 (record buf.1).length ≠ head := by
  intro heq
  have hbuf := buf.2
  have hlength := length_record buf.1
  unfold sizeofPerfSampleRaw at hlength
  have hzero : BitVec.ofNat 64 (record buf.1).length = 0 := by
    have hsub := congrArg (· - head) heq
    simpa using hsub
  have htoNat : (BitVec.ofNat 64 (record buf.1).length).toNat = 0 := congrArg BitVec.toNat hzero
  rw [BitVec.toNat_ofNat, Nat.mod_eq_of_lt (by omega)] at htoNat
  omega

/-- The starts of a run, from a session in which `put` bytes were put. -/
theorem starts_spec {k : Nat} {session : Session} (hk : k < 63) (h : session.Holds k) {put : Nat}
    (hput : session.event.dataHead = BitVec.ofNat 64 put) (ops : List PerfOp) :
    ∃ starts, session.starts ops = some starts ∧
      ((∀ start ∈ starts, start + sizeofPerfEventHeader ≤ 2 ^ k) ↔
        HeadersFit k put (session.unread.map List.length) ops) := by
  induction ops generalizing session put with
  | nil =>
      refine ⟨[], rfl, ?_⟩
      simp [HeadersFit]
  | cons op ops ih =>
      have hstart : (session.event.dataHead &&& (session.event.mmapSize - 1)).toNat = put % 2 ^ k := by
        rw [toNat_and_mask (mask_toNat hk h), hput, counter_mod (by omega)]
      obtain ⟨session', hstep, h'⟩ := apply_holds hk h op
      cases op with
      | consume records =>
          obtain rfl : _ = session' := Option.some_inj.mp hstep
          obtain ⟨starts, hstarts, hiff⟩ := ih h' hput
          refine ⟨starts, ?_, ?_⟩
          · rw [Session.starts, hstep, Option.bind_eq_bind, Option.bind_some, hstarts, Option.bind_eq_bind, Option.bind_some,
              if_neg (by simp)]
            rfl
          · rw [hiff, HeadersFit, ← List.map_drop]
      | output buf =>
          have hfree : session.free = 2 ^ k - (session.unread.map List.length).sum := by
            rw [Session.free, h.mmapSize, List.length_flatten]
          by_cases hfit : (record buf.1).length < session.free
          · obtain ⟨event, hout, -, -, hhead, -⟩ := outputData_stored hk h buf hfit
            rw [Session.apply, hout, if_pos hfit] at hstep
            obtain rfl : _ = session' := Option.some_inj.mp hstep
            have hput' : event.dataHead = BitVec.ofNat 64 (put + (record buf.1).length) := by
              rw [hhead, hput, ← BitVec.ofNat_add]
            obtain ⟨starts, hstarts, hiff⟩ := ih h' hput'
            have hmoved : event.dataHead ≠ session.event.dataHead := by
              rw [hhead]
              exact head_moved _ buf
            refine ⟨put % 2 ^ k :: starts, ?_, ?_⟩
            · rw [Session.starts, Session.apply, hout, if_pos hfit, ← hstart]
              change (Session.starts _ ops).bind _ = _
              rw [hstarts, Option.bind_some, if_pos hmoved]
              rfl
            · rw [List.forall_mem_cons, hiff, HeadersFit, if_pos (by rw [← hfree]; exact hfit), List.map_append]
              rfl
          · rw [Session.apply, outputData_dropped hk h buf (Nat.le_of_not_lt hfit), if_neg hfit] at hstep
            obtain rfl : session = session' := Option.some_inj.mp hstep
            obtain ⟨starts, hstarts, hiff⟩ := ih h hput
            refine ⟨starts, ?_, ?_⟩
            · rw [Session.starts, Session.apply, outputData_dropped hk h buf (Nat.le_of_not_lt hfit), if_neg hfit]
              change (Session.starts _ ops).bind _ = _
              rw [hstarts, Option.bind_some, if_neg (by simp)]
              rfl
            · rw [hiff, HeadersFit, if_neg (by rw [← hfree]; exact hfit)]

/-- **The headers of a run are contiguous exactly when the lengths fit**: each record that is put starts, modulo the
    size of the data area, 8 bytes before its end or earlier. -/
theorem perfEvent_headers_iff (k : Fin 63) (copyBuffer : Buffer Byte) (ops : List PerfOp) :
    ∃ starts, Session.starts ⟨.new (BitVec.ofNat 64 (2 ^ k.1)) copyBuffer, []⟩ ops = some starts ∧
      ((∀ start ∈ starts, start + sizeofPerfEventHeader ≤ 2 ^ k.1) ↔ HeadersFit k.1 0 [] ops) :=
  starts_spec k.2 (new_holds k.2 copyBuffer) rfl ops

/-- Data of 4 bytes modulo 8 makes records of a multiple of 8 bytes, and their headers fit. -/
theorem headersFit_of_aligned {k put : Nat} (hput : 8 ∣ put) {unread : List Nat} {ops : List PerfOp}
    (hops : ∀ buf : Data, .output buf ∈ ops → buf.1.length % 8 = 4) : HeadersFit k put unread ops := by
  induction ops generalizing put unread with
  | nil => trivial
  | cons op ops ih =>
      have hrest : ∀ buf : Data, .output buf ∈ ops → buf.1.length % 8 = 4 :=
        fun buf hbuf => hops buf (List.mem_cons_of_mem op hbuf)
      cases op with
      | consume records => exact ih hput hrest
      | output buf =>
          have hbuf := hops buf List.mem_cons_self
          have hlength := length_record buf.1
          unfold sizeofPerfSampleRaw at hlength
          rw [HeadersFit]
          split
          · rename_i hfit
            refine ⟨?_, ih (by omega) hrest⟩
            -- the area is as long as a record, so its size is a multiple of 8
            have hlarge : 2 ^ 3 ≤ 2 ^ k := by omega
            have hdvd : 8 ∣ 2 ^ k := Nat.pow_dvd_pow 2 ((Nat.pow_le_pow_iff_right (by decide)).mp hlarge)
            have hmod : 8 ∣ put % 2 ^ k := (Nat.dvd_mod_iff hdvd).mpr hput
            have hlt := Nat.mod_lt put (Nat.two_pow_pos k)
            unfold sizeofPerfEventHeader
            omega
          · exact ih hput hrest

/-- In an area of 64 bytes, the header of a record after one of 57 bytes is cut. -/
theorem perfEvent_header_cut :
    ¬ ∃ starts, Session.starts ⟨.new 64 ⟨0, fun _ => 0⟩, []⟩
        [.output ⟨List.replicate 45 0, by decide⟩, .consume 1, .output ⟨[], by decide⟩] = some starts ∧
      ∀ start ∈ starts, start + sizeofPerfEventHeader ≤ 64 := by
  rintro ⟨starts, hstarts, hfit⟩
  have hcut : starts = [0, 57] := by
    cases hstarts
    decide
  rw [hcut] at hfit
  exact absurd (hfit 57 (by simp)) (by decide)

end Handler
