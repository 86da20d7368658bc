import FreeProbe.Lib.Machine
import FreeProbe.Lib.Memory

/-!
# `Helper.XdpWindow` — `bpftime_xdp_adjust_head` and `bpftime_xdp_adjust_tail`

A packet is the memory from `data` up to `data_end`, in a buffer with some room before and behind it. Both helpers move
one end by an offset with a sign. Where the new `data` would be before the buffer, the bytes are moved instead and `data`
becomes the buffer's start; `data_end` stays where it was, so the packet is then too short for the bytes it should hold.
-/

namespace Xdp

open Lib Lib.Memory

/-- The error number. -/
def EINVAL : Int := 22

/-- The length of an Ethernet header: a packet is not cut below it. -/
def ETH_HLEN : BitVec 64 := 14

/-- `xdp_md_userspace`, as far as the helpers read it, and the memory. -/
structure Md where
  data        : BitVec 64
  dataEnd     : BitVec 64
  bufferStart : BitVec 64
  bufferEnd   : BitVec 64
  cells       : Nat → BitVec 8

/-- `memmove`: all the bytes are read before the first is written. -/
def memmove (cells : Nat → BitVec 8) (dst src n : BitVec 64) : Nat → BitVec 8 :=
  store cells dst.toNat (load cells src.toNat n.toNat)

/-- `bpftime_xdp_adjust_head` -/
def bpftime_xdp_adjust_head (xdp : Md) (offset : BitVec 32) : Int × Md :=
  let data := xdp.data + offset.signExtend 64
  if xdp.dataEnd - ETH_HLEN < data ∨ xdp.bufferEnd < data then (-EINVAL, xdp)
  else if data < xdp.bufferStart then
    -- move the data so the buffer can place the new header
    let cells := memmove xdp.cells (xdp.bufferStart + (xdp.bufferStart - data)) xdp.data (xdp.dataEnd - xdp.data)
    (0, { xdp with data := xdp.bufferStart, cells })
  else (0, { xdp with data })

/-- `bpftime_xdp_adjust_tail` -/
def bpftime_xdp_adjust_tail (xdp : Md) (delta : BitVec 32) : Int × Md :=
  let data := xdp.dataEnd + delta.signExtend 64
  if data < xdp.data ∨ data < xdp.bufferStart ∨ xdp.bufferEnd < data then (-EINVAL, xdp)
  else (0, { xdp with dataEnd := data })

/-- The two helpers. -/
inductive Call where
  | adjustHead (offset : BitVec 32)
  | adjustTail (delta : BitVec 32)
deriving DecidableEq, Repr

/-- What a call returns, and the window after it. -/
def Md.call (xdp : Md) : Call → Int × Md
  | .adjustHead offset => bpftime_xdp_adjust_head xdp offset
  | .adjustTail delta => bpftime_xdp_adjust_tail xdp delta

/-- A call as a step: it never fails to return. -/
def step (xdp : Md) (call : Call) : Option (Int × Md) := some (xdp.call call)

/-! ## What the calls are for -/

/-- The window lies in the buffer, and the packet in the window. -/
structure Md.Window (xdp : Md) : Prop where
  start_le : xdp.bufferStart.toNat ≤ xdp.data.toNat
  data_le  : xdp.data.toNat ≤ xdp.dataEnd.toNat
  end_le   : xdp.dataEnd.toNat ≤ xdp.bufferEnd.toNat

/-- The packet's bytes. -/
def Md.packet (xdp : Md) : List (BitVec 8) := load xdp.cells xdp.data.toNat (xdp.dataEnd.toNat - xdp.data.toNat)

/-- What a successful call makes of a packet. -/
def Call.Means : Call → List (BitVec 8) → List (BitVec 8) → Prop
  | .adjustHead offset, old, new =>
    if offset.toInt < 0 then ∃ fresh, fresh.length = offset.toInt.natAbs ∧ new = fresh ++ old
    else ∃ gone, gone.length = offset.toInt.natAbs ∧ old = gone ++ new
  | .adjustTail _, old, new => new <+: old ∨ old <+: new

/-- What a call should keep. -/
structure Kept (xdp : Md) (call : Call) : Prop where
  window : (xdp.call call).2.Window
  failed : (xdp.call call).1 ≠ 0 → (xdp.call call).2 = xdp
  means  : (xdp.call call).1 = 0 → call.Means xdp.packet (xdp.call call).2.packet

/-! ## Sums with an offset -/

/-- The sum wraps at both ends of the address space. -/
theorem target_cases (x : BitVec 64) (offset : BitVec 32) :
    ((x + offset.signExtend 64).toNat : Int) = x.toNat + offset.toInt ∨
      x.toNat + offset.toInt < 0 ∧ ((x + offset.signExtend 64).toNat : Int) = x.toNat + offset.toInt + 2 ^ 64 ∨
      2 ^ 64 ≤ x.toNat + offset.toInt ∧ ((x + offset.signExtend 64).toNat : Int) = x.toNat + offset.toInt - 2 ^ 64 := by
  have hx := x.isLt
  have hlow := BitVec.le_toInt offset
  have hhigh := @BitVec.toInt_lt 32 offset
  rw [BitVec.toNat_add, BitVec.signExtend, BitVec.toNat_ofInt]
  omega

/-- A sum that is an address does not wrap. -/
theorem target_eq {x : BitVec 64} {offset : BitVec 32} {bound : BitVec 64} (hlow : 0 ≤ (x.toNat : Int) + offset.toInt)
    (hhigh : (x.toNat : Int) + offset.toInt ≤ bound.toNat) :
    ((x + offset.signExtend 64).toNat : Int) = x.toNat + offset.toInt := by
  have hbound := bound.isLt
  have hcases := target_cases x offset
  omega

variable {xdp : Md} {offset delta : BitVec 32}

/-- As many bytes as the window says. -/
@[simp] theorem length_packet : xdp.packet.length = xdp.dataEnd.toNat - xdp.data.toNat := length_load

/-- Fewer bytes are the first of more. -/
theorem load_of_le {cells : Nat → BitVec 8} {a m n : Nat} (h : m ≤ n) : load cells a m <+: load cells a n := by
  obtain ⟨k, rfl⟩ := Nat.exists_eq_add_of_le h
  rw [load_add]
  exact List.prefix_append ..

/-! ## The head -/

/-- The helper's own checks. -/
def Rejected (xdp : Md) (offset : BitVec 32) : Prop :=
  xdp.dataEnd - ETH_HLEN < xdp.data + offset.signExtend 64 ∨ xdp.bufferEnd < xdp.data + offset.signExtend 64

instance Rejected.decidable (xdp : Md) (offset : BitVec 32) : Decidable (Rejected xdp offset) :=
  inferInstanceAs (Decidable (_ ∨ _))

/-- A rejected offset changes nothing. -/
theorem head_rejected (h : Rejected xdp offset) : xdp.call (.adjustHead offset) = (-EINVAL, xdp) := if_pos h

/-- `data` moves where it stays in the buffer. -/
theorem head_within (h : ¬ Rejected xdp offset) (hin : ¬ xdp.data + offset.signExtend 64 < xdp.bufferStart) :
    xdp.call (.adjustHead offset) = (0, { xdp with data := xdp.data + offset.signExtend 64 }) :=
  (if_neg h).trans (if_neg hin)

/-- Where it does not, only the packet's length is needed of the bytes. -/
theorem head_moved (h : ¬ Rejected xdp offset) (hbefore : xdp.data + offset.signExtend 64 < xdp.bufferStart) :
    ∃ cells, xdp.call (.adjustHead offset) = (0, { xdp with data := xdp.bufferStart, cells }) :=
  ⟨_, (if_neg h).trans (if_pos hbefore)⟩

/-- The length a packet should have after the head has moved. -/
theorem Call.Means.length_eq {old new : List (BitVec 8)} (h : (Call.adjustHead offset).Means old new) :
    (new.length : Int) = old.length - offset.toInt := by
  by_cases hneg : offset.toInt < 0
  · rw [Call.Means, if_pos hneg] at h
    obtain ⟨fresh, hlength, rfl⟩ := h
    rw [List.length_append]
    omega
  · rw [Call.Means, if_neg hneg] at h
    obtain ⟨gone, hlength, rfl⟩ := h
    rw [List.length_append]
    omega

/-- The new `data` is in the buffer and not behind the packet. -/
def Inside (xdp : Md) (offset : BitVec 32) : Prop :=
  (xdp.bufferStart.toNat : Int) ≤ xdp.data.toNat + offset.toInt ∧ xdp.data.toNat + offset.toInt ≤ xdp.dataEnd.toNat

instance Inside.decidable (xdp : Md) (offset : BitVec 32) : Decidable (Inside xdp offset) :=
  inferInstanceAs (Decidable (_ ∧ _))

/-- A move of `data` alone makes of the packet what it should. -/
theorem means_of_inside (h : xdp.Window) (hin : Inside xdp offset) :
    (Call.adjustHead offset).Means xdp.packet { xdp with data := xdp.data + offset.signExtend 64 : Md }.packet := by
  obtain ⟨-, hdata, -⟩ := h
  obtain ⟨hlow, hhigh⟩ := hin
  have htarget := target_eq (by omega) hhigh
  simp only [Call.Means, Md.packet]
  split
  · next hneg =>
    refine ⟨load xdp.cells (xdp.data + offset.signExtend 64).toNat offset.toInt.natAbs, length_load, ?_⟩
    have hsize : xdp.dataEnd.toNat - (xdp.data + offset.signExtend 64).toNat =
        offset.toInt.natAbs + (xdp.dataEnd.toNat - xdp.data.toNat) := by omega
    have hnext : (xdp.data + offset.signExtend 64).toNat + offset.toInt.natAbs = xdp.data.toNat := by omega
    rw [hsize, load_add, hnext]
  · next hpos =>
    refine ⟨load xdp.cells xdp.data.toNat offset.toInt.natAbs, length_load, ?_⟩
    have hsize : xdp.dataEnd.toNat - xdp.data.toNat =
        offset.toInt.natAbs + (xdp.dataEnd.toNat - (xdp.data + offset.signExtend 64).toNat) := by omega
    have hnext : xdp.data.toNat + offset.toInt.natAbs = (xdp.data + offset.signExtend 64).toNat := by omega
    rw [hsize, load_add, hnext]

/-- The head of a packet is moved as it should be exactly where the bytes are not moved. -/
theorem kept_head_iff (h : xdp.Window) : Kept xdp (.adjustHead offset) ↔ Rejected xdp offset ∨ Inside xdp offset := by
  have htarget := target_cases xdp.data offset
  have hstart := h.start_le
  have hdata := h.data_le
  by_cases hrejected : Rejected xdp offset
  · have hcall := head_rejected hrejected
    refine iff_of_true ⟨?_, ?_, ?_⟩ (Or.inl hrejected)
    · rw [hcall]
      exact h
    · intro _
      rw [hcall]
    · intro hzero
      rw [hcall] at hzero
      exact absurd hzero (show -EINVAL ≠ 0 from by decide)
  · rw [or_iff_right hrejected]
    by_cases hbefore : xdp.data + offset.signExtend 64 < xdp.bufferStart
    · -- the packet keeps its end and is as long as the buffer up to there
      obtain ⟨cells, hcall⟩ := head_moved hrejected hbefore
      rw [BitVec.lt_def] at hbefore
      refine iff_of_false (fun hkept => ?_) (fun hin => ?_)
      · have hlength := (hkept.means (by rw [hcall])).length_eq
        rw [hcall] at hlength
        simp only [length_packet] at hlength
        omega
      · have := target_eq (by have := hin.1; omega) hin.2
        have := hin.1
        omega
    · have hcall := head_within hrejected hbefore
      rw [BitVec.lt_def] at hbefore
      constructor
      · intro hkept
        have hwindow := hkept.window.data_le
        have hlength := (hkept.means (by rw [hcall])).length_eq
        rw [hcall] at hlength hwindow
        simp only [length_packet] at hlength hwindow
        unfold Inside
        omega
      · intro hin
        have htarget := target_eq (by have := hin.1; omega) hin.2
        refine ⟨?_, ?_, ?_⟩
        · rw [hcall]
          exact ⟨by simpa using hbefore, by have := hin.2; simp only; omega, h.end_le⟩
        · intro hfailed
          rw [hcall] at hfailed
          exact absurd rfl hfailed
        · intro _
          rw [hcall]
          exact means_of_inside h hin

/-! ## The tail -/

/-- **Moving the end keeps the packet**, for any difference. -/
theorem kept_tail (h : xdp.Window) : Kept xdp (.adjustTail delta) := by
  by_cases hrejected : xdp.dataEnd + delta.signExtend 64 < xdp.data ∨ xdp.dataEnd + delta.signExtend 64 < xdp.bufferStart ∨
      xdp.bufferEnd < xdp.dataEnd + delta.signExtend 64
  · have hcall : xdp.call (.adjustTail delta) = (-EINVAL, xdp) := if_pos hrejected
    refine ⟨?_, ?_, ?_⟩
    · rw [hcall]
      exact h
    · intro _
      rw [hcall]
    · intro hzero
      rw [hcall] at hzero
      exact absurd hzero (show -EINVAL ≠ 0 from by decide)
  · have hcall : xdp.call (.adjustTail delta) = (0, { xdp with dataEnd := xdp.dataEnd + delta.signExtend 64 }) :=
      if_neg hrejected
    obtain ⟨hdata, -, hend⟩ : ¬ _ ∧ ¬ _ ∧ ¬ _ := by
      simpa only [not_or] using hrejected
    refine ⟨?_, ?_, ?_⟩
    · rw [hcall]
      exact ⟨h.start_le, Nat.le_of_not_lt hdata, Nat.le_of_not_lt hend⟩
    · intro hfailed
      rw [hcall] at hfailed
      exact absurd rfl hfailed
    · intro _
      rw [hcall]
      rcases Nat.le_total (xdp.dataEnd + delta.signExtend 64).toNat xdp.dataEnd.toNat with hle | hle
      · exact Or.inl (load_of_le (Nat.sub_le_sub_right hle _))
      · exact Or.inr (load_of_le (Nat.sub_le_sub_right hle _))

/-! ## Runs -/

/-- A call of `bpftime_xdp_adjust_head` is rejected, or its `data` stays in the buffer. -/
def Stays (xdp : Md) : Call → Prop
  | .adjustHead offset => Rejected xdp offset ∨ Inside xdp offset
  | .adjustTail _ => True

instance Stays.decidable (xdp : Md) : ∀ call, Decidable (Stays xdp call)
  | .adjustHead offset => inferInstanceAs (Decidable (Rejected xdp offset ∨ Inside xdp offset))
  | .adjustTail _ => inferInstanceAs (Decidable True)

/-- **A call keeps the packet exactly when it stays in the window.** -/
theorem kept_iff (h : xdp.Window) (call : Call) : Kept xdp call ↔ Stays xdp call := by
  cases call with
  | adjustHead offset => exact kept_head_iff h
  | adjustTail delta => exact iff_of_true (kept_tail h) trivial

/-- **The calls keep the window and do to the packet what they should** exactly as long as no successful call takes `data`
    out of the buffer. -/
theorem kept_run_iff (h : xdp.Window) (calls : List Call) : AllSteps step Kept xdp calls ↔ AllSteps step Stays xdp calls := by
  have hstep : ∀ (xdp : Md) (call : Call), xdp.Window → (Kept xdp call ↔ Stays xdp call) := fun _ call h => kept_iff h call
  refine allSteps_iff_of_invariant hstep ?_ h calls
  intro xdp call h hstays next hnext
  cases hnext
  exact ((kept_iff h call).mpr hstays).window

/-- A packet of 64 bytes with 16 bytes before it and 48 behind. -/
def received : Md := ⟨4112, 4176, 4096, 4224, fun a => BitVec.ofNat 8 a⟩

theorem received_window : received.Window := ⟨by decide, by decide, by decide⟩

theorem kept_run_iff_received :
    AllSteps step Kept received [.adjustHead (-14), .adjustTail 48, .adjustTail 1, .adjustHead 20, .adjustTail (-64)] :=
  (kept_run_iff received_window _).mpr (by decide)

/-- With 16 bytes before the packet, 20 new bytes make a packet of 80 bytes. -/
theorem not_kept_before_buffer :
    (received.call (.adjustHead (-20))).1 = 0 ∧ (received.call (.adjustHead (-20))).2.packet.length = 80 ∧
      ¬ AllSteps step Kept received [.adjustHead (-20)] := by
  refine ⟨by decide, by rw [length_packet]; decide, ?_⟩
  rintro ⟨hkept, -⟩
  exact absurd ((kept_head_iff received_window).mp hkept) (by decide)

end Xdp
