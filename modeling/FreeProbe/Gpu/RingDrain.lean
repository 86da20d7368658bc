import FreeProbe.Gpu.ThreadRing

/-!
# `Gpu.RingDrain` — what the host gets of the threads' outputs

The dirty mark does not keep the two sides apart: the host tests it before it looks at `tail`, and frees a slot before
it reads it, so that a record can be read while it is written, and be overwritten while it is read; the size of an
output is not held against the slot's; and a mark that is found set ends the pass for all threads. Nor are the rings and
slots laid out at multiples of 8 where the value size is none. `Apart` says that a step meets none of this, at the grain
of a byte. The invariant of a ring (`RingInv`) is relative to what the host is
doing in that ring (`HostView`), so each step of either side is a lemma about one ring; `ringbuf_lawful` is about runs.
-/

namespace Gpu

open Lib Lib.Memory

/-! ## The condition -/

/-- The size of record `k` is still to be written. -/
def OutputPhase.sizeMissing (k : Nat) : OutputPhase → Bool
  | .advanced _ k' => k' == k
  | _ => false

/-- Byte `j` of record `k` is still to be written. -/
def OutputPhase.byteMissing (k j : Nat) : OutputPhase → Bool
  | .advanced _ k' => k' == k
  | .copying _ k' i => k' == k && decide (i ≤ j)
  | _ => false

/-- What the host is doing in one thread's ring. -/
inductive HostView where
  | away
  | advanceHead (h : Nat)
  | readSize (h : Nat)
  | callback (h size : Nat) (got : List (BitVec 8))
deriving DecidableEq, Repr

/-- What the host is doing in the ring of one thread. -/
def DrainPhase.view (t : Nat) : DrainPhase → HostView
  | .advanceHead t' h => if t' = t then .advanceHead h else .away
  | .readSize t' h => if t' = t then .readSize h else .away
  | .callback t' h size got => if t' = t then .callback h size got else .away
  | _ => .away

/-- Another record in the slot of record `k` is one whose size the host is about to read. -/
def HostView.needsSize (config : RingConfig) (k : Nat) : HostView → Bool
  | .readSize h => h != k && h % config.maxEntries == k % config.maxEntries
  | _ => false

/-- Another record in the slot of record `k` is one whose byte `j` the host has still to read. -/
def HostView.needsByte (config : RingConfig) (k j : Nat) : HostView → Bool
  | .readSize h => h != k && h % config.maxEntries == k % config.maxEntries
  | .callback h size got =>
    h != k && h % config.maxEntries == k % config.maxEntries && decide (got.length ≤ j) && decide (j < size)
  | _ => false

/-- A step of a thread overwrites nothing that the host needs, and the counter does not wrap. -/
def DeviceApart (config : RingConfig) (view : HostView) (ring : Ring) : OutputPhase → Prop
  | .dirtied _ => ring.tail + 1 < 2 ^ 64
  | .advanced _ k => view.needsSize config k = false
  | .copying data k i => i < Ring.copyLength data → view.needsByte config k i = false
  | _ => True

/-- A step of the host reads nothing that is still to be written, and gives up on no other thread's record. -/
def HostApart (config : RingConfig) (world : RingWorld) : DrainPhase → Prop
  | .testDirty t => t < config.threadCount → (world.rings t).dirty = true → world.waiting config t = []
  | .readSize t h => (world.rings t).output.sizeMissing h = false
  | .callback t h size got => got.length < size → (world.rings t).output.byteMissing h got.length = false
  | _ => True

/-- **The condition on a step.** The device's 64-bit accesses are aligned, an output that is made fits in a slot, no slot
    is read and written at the same time, and the host finds a thread in the middle of an output only when no later one
    has a record for it. -/
def Apart (config : RingConfig) (world : RingWorld) : RingEvent → Prop
  | .output t data => t < config.threadCount → (world.rings t).output = .idle →
      8 ∣ config.header t ∧ ((world.rings t).isFull config = false → data.length ≤ config.valueSize)
  | .device t => (world.rings t).output.aligned config t = true ∧
      DeviceApart config (world.host.view t) (world.rings t) (world.rings t).output
  | .host => HostApart config world world.host

instance (config : RingConfig) (view : HostView) (ring : Ring) : ∀ phase, Decidable (DeviceApart config view ring phase)
  | .dirtied _ => inferInstanceAs (Decidable (_ < _))
  | .advanced _ _ => inferInstanceAs (Decidable (_ = _))
  | .copying _ _ _ => inferInstanceAs (Decidable (_ → _))
  | .idle | .tested _ => inferInstanceAs (Decidable True)

instance (config : RingConfig) (world : RingWorld) : ∀ phase, Decidable (HostApart config world phase)
  | .testDirty _ => inferInstanceAs (Decidable (_ → _ → _))
  | .readSize _ _ => inferInstanceAs (Decidable (_ = _))
  | .callback _ _ _ _ => inferInstanceAs (Decidable (_ → _))
  | .idle | .testEmpty _ | .advanceHead _ _ => inferInstanceAs (Decidable True)

instance (config : RingConfig) (world : RingWorld) : ∀ e, Decidable (Apart config world e)
  | .output _ _ => inferInstanceAs (Decidable (_ → _ → _ ∧ (_ → _)))
  | .device _ => inferInstanceAs (Decidable (_ ∧ DeviceApart ..))
  | .host => inferInstanceAs (Decidable (HostApart ..))

/-- Where the value size is a multiple of 8, all of the device's 64-bit accesses are aligned. -/
theorem aligned_of_valueSize {config : RingConfig} (h : 8 ∣ config.valueSize) (t k : Nat) :
    8 ∣ config.header t ∧ 8 ∣ config.sizeWord t k := by
  have hslot : 8 ∣ config.slotSize := Nat.dvd_add (Nat.dvd_refl 8) h
  have hsize : 8 ∣ config.size := Dvd.dvd.mul_left hslot _
  have hring : 8 ∣ ringbufHeaderSize + config.size := Nat.dvd_add (by decide) hsize
  have hheader : 8 ∣ config.header t := Dvd.dvd.mul_left hring _
  exact ⟨hheader, Nat.dvd_add (Nat.dvd_add hheader (by decide)) (Dvd.dvd.mul_left hslot _)⟩

/-! ## What a run is to show

The outputs of a thread, in the order in which they were made, are what the host has been given and what is still in the
ring. A record on its way counts as soon as `tail` is advanced. -/

/-- The outputs that have a record: those that returned 0, and the one whose `tail` is advanced. -/
def OutputPhase.inRing : OutputPhase → List (List (BitVec 8))
  | .advanced data _ | .copying data _ _ => [data]
  | _ => []

/-- All records that were output, in order: what the host was given, and what is in the ring. -/
def Ring.outputs (ring : Ring) : List (List (BitVec 8)) := ring.returned ++ ring.output.inRing

/-- Whether the host has taken a record that it has not handed on. -/
def HostView.holding : HostView → Nat
  | .readSize _ | .callback _ _ _ => 1
  | _ => 0

/-- **The records of a ring.** Those handed to the callback are its outputs, each once, in order and whole, up to those
    that the ring still holds and the one that the host is at. -/
def Ring.Lawful (view : HostView) (ring : Ring) : Prop :=
  ∃ unread, ring.outputs = ring.handed ++ unread ∧ unread.length + ring.head = ring.tail + view.holding

/-- A write stays in its slot, and a pass that gives up leaves no other thread's record behind. -/
def RingReport.Lawful (config : RingConfig) : RingReport → Prop
  | .wrote slot offset length => slot ≤ offset ∧ offset + length ≤ slot + config.slotSize
  | .stopped left => left = []
  | _ => True

/-! ## The invariant

Per ring, and relative to what the host is doing there: where the output in progress is, and that the slots between the
counters hold the records as far as they are written. -/

variable {config : RingConfig} {ring : Ring} {view : HostView}

/-- The slot of record `k` holds `data`, as far as it is written. -/
structure Holds (config : RingConfig) (ring : Ring) (k : Nat) (data : List (BitVec 8)) : Prop where
  size  : ring.output.sizeMissing k = false → load ring.bytes (config.slot k) 8 = leBytes 8 data.length
  bytes : ∀ j, (hj : j < data.length) → ring.output.byteMissing k j = false →
    ring.bytes (config.slot k + 8 + j) = data[j]

/-- What the host has of the record it is at, and can still get. -/
def HostHolds (config : RingConfig) (ring : Ring) : HostView → Prop
  | .away => ring.handed = ring.outputs.take ring.head
  | .advanceHead h => h = ring.head ∧ h < ring.tail ∧ ring.handed = ring.outputs.take ring.head
  | .readSize h => h + 1 = ring.head ∧ ring.handed = ring.outputs.take h ∧
      ∀ data, ring.outputs[h]? = some data → Holds config ring h data
  | .callback h size got => h + 1 = ring.head ∧ ring.handed = ring.outputs.take h ∧
      ring.output.sizeMissing h = false ∧
      ∃ data, ring.outputs[h]? = some data ∧ size = data.length ∧ got = data.take got.length ∧ got.length ≤ size ∧
        ∀ j, (hj : j < data.length) → got.length ≤ j → ring.output.byteMissing h j = false →
          ring.bytes (config.slot h + 8 + j) = data[j]

/-- The data of the output in progress. -/
def OutputPhase.data : OutputPhase → List (List (BitVec 8))
  | .idle => []
  | .tested data | .dirtied data | .advanced data _ | .copying data _ _ => [data]

/-- Where the output in progress is. -/
def OutputPhase.Placed (config : RingConfig) (ring : Ring) : OutputPhase → Prop
  | .idle => True
  | .tested _ | .dirtied _ => ring.tail < ring.head + config.maxEntries
  | .advanced _ k => k + 1 = ring.tail
  | .copying data k i => k + 1 = ring.tail ∧ i ≤ data.length

/-- The ring as the thread and the host keep it while neither comes too near to the other. -/
structure RingInv (config : RingConfig) (view : HostView) (ring : Ring) : Prop where
  length  : ring.outputs.length = ring.tail
  tail_lt : ring.tail < 2 ^ 64
  head_le : ring.head ≤ ring.tail
  room    : ring.tail ≤ ring.head + config.maxEntries
  slots   : ring.tail ≠ 0 → 0 < config.maxEntries
  fits    : ∀ data ∈ ring.returned ++ ring.output.data, data.length ≤ config.valueSize
  placed  : ring.output.Placed config ring
  stored  : ∀ k data, ring.head ≤ k → ring.outputs[k]? = some data → Holds config ring k data
  host    : HostHolds config ring view

/-! ## Slots

A slot is a size and a value. The slots lie side by side behind the ring's counters. -/

/-- A slot is inside of the ring. -/
theorem slot_le (hmax : 0 < config.maxEntries) (k : Nat) : config.slot k + config.slotSize ≤ config.size := by
  have hlt : k % config.maxEntries + 1 ≤ config.maxEntries := Nat.mod_lt k hmax
  have := Nat.mul_le_mul_right config.slotSize hlt
  rwa [Nat.succ_mul] at this

/-- Different slots are apart. -/
theorem slot_apart {k k' : Nat} (hne : k % config.maxEntries ≠ k' % config.maxEntries) :
    config.slot k + config.slotSize ≤ config.slot k' ∨ config.slot k' + config.slotSize ≤ config.slot k := by
  unfold RingConfig.slot
  rcases Nat.lt_or_gt_of_ne hne with h | h
  · left
    have := Nat.mul_le_mul_right config.slotSize (Nat.succ_le_of_lt h)
    rwa [Nat.succ_mul] at this
  · right
    have := Nat.mul_le_mul_right config.slotSize (Nat.succ_le_of_lt h)
    rwa [Nat.succ_mul] at this

/-- A record that fits is copied whole. -/
theorem copyLength_eq {data : List (BitVec 8)} (h : data.length ≤ config.valueSize) : Ring.copyLength data = data.length := by
  have := config.valueSize_int
  unfold Ring.copyLength
  rw [Int.bmod_eq_of_le (by omega) (by omega)]
  rfl

/-! ## A record among the others

What a write in one slot leaves in the others. -/

/-- A record stays where the cells of its slot do, and no more of it is missing than before. -/
theorem Holds.of_cells {ring' : Ring} {k : Nat} {data : List (BitVec 8)} (h : Holds config ring k data)
    (hfit : data.length ≤ config.valueSize)
    (hsize : ring'.output.sizeMissing k = false → ring.output.sizeMissing k = false)
    (hbytes : ∀ j, ring'.output.byteMissing k j = false → ring.output.byteMissing k j = false)
    (hcells : ∀ i < config.slotSize, ring'.bytes (config.slot k + i) = ring.bytes (config.slot k + i)) :
    Holds config ring' k data where
  size := by
    intro hmissing
    rw [← h.size (hsize hmissing)]
    exact load_congr fun i hi => hcells i (by unfold RingConfig.slotSize; omega)
  bytes := by
    intro j hj hmissing
    rw [← h.bytes j hj (hbytes j hmissing), Nat.add_assoc]
    exact hcells (8 + j) (by unfold RingConfig.slotSize; omega)

/-- A write in another slot. -/
theorem cells_of_write {k k' offset : Nat} {xs : List (BitVec 8)} (hne : k % config.maxEntries ≠ k' % config.maxEntries)
    (hin : offset + xs.length ≤ config.slotSize) {i : Nat} (hi : i < config.slotSize) :
    store ring.bytes (config.slot k + offset) xs (config.slot k' + i) = ring.bytes (config.slot k' + i) := by
  refine store_out ?_
  have := slot_apart hne
  omega

/-- The latest record and an earlier one that the ring still holds are in different slots. -/
theorem slots_ne {k k' : Nat} (hroom : k + 1 ≤ ring.head + config.maxEntries) (hk : ring.head ≤ k')
    (hlt : k' < k) : k % config.maxEntries ≠ k' % config.maxEntries := by
  intro heq
  have := mod_inj (c := ring.head) (by omega) (by omega) hk (by omega) heq
  omega

/-- The records are those up to the tail. -/
theorem outputs_lt {k : Nat} {data : List (BitVec 8)} (hs : RingInv config view ring) (h : ring.outputs[k]? = some data) :
    k < ring.tail := by
  rw [← hs.length]
  exact (List.getElem?_eq_some_iff.mp h).1

/-- Each of them fits. -/
theorem outputs_fit {k : Nat} {data : List (BitVec 8)} (hs : RingInv config view ring)
    (h : ring.outputs[k]? = some data) : data.length ≤ config.valueSize := by
  refine hs.fits data ?_
  have hmem := List.mem_of_getElem? h
  unfold Ring.outputs at hmem
  rw [List.mem_append] at hmem ⊢
  refine hmem.imp id fun hmem => ?_
  revert hmem
  cases ring.output <;> simp [OutputPhase.inRing, OutputPhase.data]

/-- What the host holds stays, where its records do. -/
theorem hostHolds_of_records {ring' : Ring} (hs : RingInv config view ring) (hhead : ring'.head = ring.head)
    (htail : ring.tail ≤ ring'.tail) (houtputs : ∀ k, k < ring.tail → ring'.outputs[k]? = ring.outputs[k]?)
    (hhanded : ring'.handed = ring.handed)
    (hread : ∀ h data, view = .readSize h → ring.outputs[h]? = some data → Holds config ring h data →
      Holds config ring' h data)
    (hcallback : ∀ h size got data, view = .callback h size got → ring.outputs[h]? = some data → size = data.length →
      ring.output.sizeMissing h = false → ring'.output.sizeMissing h = false ∧
      ∀ j, (hj : j < data.length) → got.length ≤ j → ring'.output.byteMissing h j = false →
        (ring.output.byteMissing h j = false → ring.bytes (config.slot h + 8 + j) = data[j]) →
          ring'.bytes (config.slot h + 8 + j) = data[j]) : HostHolds config ring' view := by
  have hlen := hs.length
  have hle := hs.head_le
  have htake : ∀ n, n ≤ ring.head → ring'.outputs.take n = ring.outputs.take n := by
    intro n hn
    refine List.ext_getElem? fun i => ?_
    by_cases hi : i < n
    · rw [List.getElem?_take_of_lt hi, List.getElem?_take_of_lt hi, houtputs i (by omega)]
    · rw [List.getElem?_eq_none (by rw [List.length_take]; omega), List.getElem?_eq_none (by rw [List.length_take]; omega)]
  have hhost := hs.host
  cases view with
  | away =>
      show ring'.handed = _
      rw [hhanded, hhead, htake _ (Nat.le_refl _)]
      exact hhost
  | advanceHead h =>
      obtain ⟨rfl, hlt, hhost⟩ := hhost
      refine ⟨hhead.symm, by omega, ?_⟩
      rw [hhanded, hhead, htake _ (Nat.le_refl _)]
      exact hhost
  | readSize h =>
      obtain ⟨hh, hhost, hholds⟩ := hhost
      refine ⟨by omega, ?_, fun data hdata => ?_⟩
      · rw [hhanded, htake h (by omega)]
        exact hhost
      · rw [houtputs h (by omega)] at hdata
        exact hread h data rfl hdata (hholds data hdata)
  | callback h size got =>
      obtain ⟨hh, hhost, hmissing, data, hdata, hsize, hgot, hgotle, hbytes⟩ := hhost
      obtain ⟨hmissing', hbytes'⟩ := hcallback h size got data rfl hdata hsize hmissing
      refine ⟨by omega, ?_, hmissing', data, ?_, hsize, hgot, hgotle, fun j hj hj' hm => ?_⟩
      · rw [hhanded, htake h (by omega)]
        exact hhost
      · rw [houtputs h (by omega)]
        exact hdata
      · exact hbytes' j hj hj' hm fun hm' => hbytes j hj hj' hm'

/-! ## The thread's steps

An output goes through the full test, the advance of `tail`, the size and the bytes. Each of them is a lemma; the
condition is used by the two that write. -/

/-- The full test, as the invariant has it. -/
theorem isFull_iff (hs : RingInv config view ring) :
    ring.isFull config = true ↔ ring.tail = ring.head + config.maxEntries := by
  have hlt := hs.tail_lt
  have hle := hs.head_le
  have hmod : (ring.tail + 2 ^ 64 - ring.head) % 2 ^ 64 = ring.tail - ring.head := by
    rw [Nat.sub_add_comm hle, Nat.add_mod_right]
    exact Nat.mod_eq_of_lt (by omega)
  unfold Ring.isFull
  rw [hmod, beq_iff_eq]
  omega

/-- Where neither records nor counters change, only the output's phase does, and nothing is missing. -/
theorem ringInv_phase (hs : RingInv config view ring) {dirty : Bool} {output : OutputPhase}
    (hin : ring.output.inRing = []) (hin' : output.inRing = []) (hmissing : ∀ k, ring.output.sizeMissing k = false)
    (hmissing' : ∀ k, output.sizeMissing k = false) (hbytes : ∀ k j, ring.output.byteMissing k j = false)
    (hfits : ∀ data ∈ output.data, data.length ≤ config.valueSize)
    (hplaced : output.Placed config { ring with dirty := dirty, output := output }) :
    RingInv config view { ring with dirty := dirty, output := output } := by
  have houtputs : ({ ring with dirty := dirty, output := output } : Ring).outputs = ring.outputs := by
    unfold Ring.outputs
    rw [hin, hin']
  have hholds : ∀ k data, ring.outputs[k]? = some data → Holds config ring k data →
      Holds config { ring with dirty := dirty, output := output } k data := by
    intro k data hdata h
    exact h.of_cells (outputs_fit hs hdata) (fun _ => hmissing k) (fun j _ => hbytes k j) fun _ _ => rfl
  refine ⟨houtputs ▸ hs.length, hs.tail_lt, hs.head_le, hs.room, hs.slots, ?_, hplaced, ?_, ?_⟩
  · intro data hdata
    rcases List.mem_append.mp hdata with hdata | hdata
    · exact hs.fits data (List.mem_append_left _ hdata)
    · exact hfits data hdata
  · intro k data hk hdata
    rw [houtputs] at hdata
    exact hholds k data hdata (hs.stored k data hk hdata)
  · refine hostHolds_of_records hs rfl (Nat.le_refl _) (fun k _ => by rw [houtputs]) rfl
      (fun h data _ hdata => hholds h data hdata) ?_
    intro h size got data _ _ _ _
    exact ⟨hmissing' h, fun j _ _ _ hkeep => hkeep (hbytes h j)⟩

theorem ringInv_startOutput (hs : RingInv config view ring) (hidle : ring.output = .idle) {data : List (BitVec 8)}
    (hcond : ring.isFull config = false → data.length ≤ config.valueSize) :
    RingInv config view (ring.startOutput config data).2 ∧ (ring.startOutput config data).1.Lawful config := by
  unfold Ring.startOutput
  split
  · exact ⟨hs, trivial⟩
  · rename_i hfull
    refine ⟨?_, trivial⟩
    have hroom : ring.tail < ring.head + config.maxEntries := by
      have := hs.room
      have := (isFull_iff hs).not.mp hfull
      omega
    have hfit := hcond (Bool.eq_false_iff.mpr hfull)
    refine ringInv_phase hs (by rw [hidle]; rfl) rfl (by rw [hidle]; intro k; rfl) (fun k => rfl)
      (by rw [hidle]; intro k j; rfl) ?_ hroom
    intro d hd
    rw [List.mem_singleton.mp hd]
    exact hfit

/-- `tail` is advanced: the record is the ring's, with nothing of it written. -/
theorem ringInv_advance (hs : RingInv config view ring) {data : List (BitVec 8)} (hphase : ring.output = .dirtied data)
    (hwrap : ring.tail + 1 < 2 ^ 64) :
    RingInv config view { ring with tail := (ring.tail + 1) % 2 ^ 64, output := .advanced data ring.tail } := by
  have houtputs : ({ ring with tail := (ring.tail + 1) % 2 ^ 64, output := .advanced data ring.tail } : Ring).outputs =
      ring.outputs ++ [data] := by
    unfold Ring.outputs
    rw [hphase]
    simp [OutputPhase.inRing]
  have hsame : ∀ k, k < ring.tail → (ring.outputs ++ [data])[k]? = ring.outputs[k]? :=
    fun k hk => List.getElem?_append_left (by rw [hs.length]; exact hk)
  have hold : ∀ k, k < ring.tail → (OutputPhase.advanced data ring.tail).sizeMissing k = false :=
    fun k hk => beq_eq_false_iff_ne.mpr (by omega)
  have hnone : (∀ k, ring.output.sizeMissing k = false) ∧ ∀ k j, ring.output.byteMissing k j = false := by
    rw [hphase]
    exact ⟨fun _ => rfl, fun _ _ => rfl⟩
  have hplaced : ring.tail < ring.head + config.maxEntries := by
    have := hs.placed
    rwa [hphase] at this
  have hle := hs.head_le
  have hholds : ∀ k d, Holds config ring k d → d.length ≤ config.valueSize →
      Holds config { ring with tail := (ring.tail + 1) % 2 ^ 64, output := .advanced data ring.tail } k d := by
    intro k d h hfit
    exact h.of_cells hfit (fun _ => hnone.1 k) (fun j _ => hnone.2 k j) fun _ _ => rfl
  rw [Nat.mod_eq_of_lt hwrap] at houtputs hholds ⊢
  refine ⟨?_, hwrap, by show ring.head ≤ ring.tail + 1; omega, by show ring.tail + 1 ≤ ring.head + config.maxEntries; omega,
    fun _ => by omega, ?_, rfl, ?_, ?_⟩
  · rw [houtputs, List.length_append, hs.length]
    rfl
  · have hfits := hs.fits
    rw [hphase] at hfits
    exact hfits
  · intro k d hk hd
    rw [houtputs] at hd
    by_cases hlt : k < ring.tail
    · rw [hsame k hlt] at hd
      exact hholds k d (hs.stored k d hk hd) (outputs_fit hs hd)
    · -- the new one
      have hkt : k = ring.tail := by
        have := (List.getElem?_eq_some_iff.mp hd).1
        rw [List.length_append, hs.length, List.length_singleton] at this
        omega
      subst hkt
      have hmissing : (OutputPhase.advanced data ring.tail).sizeMissing ring.tail = true := beq_self_eq_true _
      exact ⟨fun h => absurd (hmissing.symm.trans h) (by decide), fun j _ h => absurd (hmissing.symm.trans h) (by decide)⟩
  · refine hostHolds_of_records hs rfl (Nat.le_succ _) (fun k hk => ?_) rfl
      (fun h d _ hd hold => hholds h d hold (outputs_fit hs hd)) ?_
    · rw [houtputs, hsame k hk]
    · intro h size got d _ hd _ _
      exact ⟨hold h (outputs_lt hs hd), fun j _ _ _ hkeep => hkeep (hnone.2 h j)⟩

/-- The record that the thread is writing is the latest of the ring. -/
theorem outputs_latest (hs : RingInv config view ring) {data : List (BitVec 8)} {k : Nat}
    (hin : ring.output.inRing = [data]) (hk : k + 1 = ring.tail) : ring.outputs[k]? = some data := by
  have hlen := hs.length
  unfold Ring.outputs at *
  rw [hin] at *
  rw [List.length_append, List.length_singleton] at hlen
  rw [List.getElem?_append_right (by omega), show k - ring.returned.length = 0 by omega]
  rfl

/-- The ring after a write in the slot of record `k`. -/
def Ring.wrote (config : RingConfig) (ring : Ring) (k offset : Nat) (xs : List (BitVec 8)) (output : OutputPhase) : Ring :=
  { ring with bytes := store ring.bytes (config.slot k + offset) xs, output := output }

/-- **A write in the latest record's slot**, by a thread that overwrites nothing the host needs. -/
theorem ringInv_write (hs : RingInv config view ring) {data xs : List (BitVec 8)} {k offset i : Nat}
    (hin : ring.output.inRing = [data]) (hdata : ring.output.data = [data]) (hk : k + 1 = ring.tail)
    (hother : ∀ k', k' ≠ k → ring.output.sizeMissing k' = false ∧ ∀ j, ring.output.byteMissing k' j = false)
    (hoffset : offset + xs.length ≤ config.slotSize) (hi : i ≤ data.length)
    (hnewSize : (ring.output.sizeMissing k = false → load ring.bytes (config.slot k) 8 = leBytes 8 data.length) →
      load (store ring.bytes (config.slot k + offset) xs) (config.slot k) 8 = leBytes 8 data.length)
    (hnewByte : ∀ j, (hj : j < data.length) → (OutputPhase.copying data k i).byteMissing k j = false →
      (ring.output.byteMissing k j = false → ring.bytes (config.slot k + 8 + j) = data[j]) →
        store ring.bytes (config.slot k + offset) xs (config.slot k + 8 + j) = data[j])
    (hsize : ∀ h, view = .readSize h → h ≠ k → h % config.maxEntries ≠ k % config.maxEntries)
    (hbyte : ∀ h size got, view = .callback h size got → h ≠ k → ∀ j, got.length ≤ j → j < size →
      store ring.bytes (config.slot k + offset) xs (config.slot h + 8 + j) = ring.bytes (config.slot h + 8 + j)) :
    ∃ report ring', ring.write config k offset xs (.copying data k i) = some (report, ring') ∧
      RingInv config view ring' ∧ report.Lawful config := by
  have hlatest := outputs_latest hs hin hk
  have hle := hs.head_le
  have hroom := hs.room
  have hmax := hs.slots (by omega)
  have hne : ∀ k', k' ≠ k → (OutputPhase.copying data k i).sizeMissing k' = false ∧
      ∀ j, (OutputPhase.copying data k i).byteMissing k' j = false := by
    intro k' hk'
    refine ⟨rfl, fun j => ?_⟩
    simp [OutputPhase.byteMissing, Ne.symm hk']
  -- a record in another slot
  have hholds : ∀ k' d, k' ≠ k → k % config.maxEntries ≠ k' % config.maxEntries → ring.outputs[k']? = some d →
      Holds config ring k' d → Holds config (ring.wrote config k offset xs (.copying data k i)) k' d := by
    intro k' d hk' hslot hd h
    exact h.of_cells (outputs_fit hs hd) (fun _ => (hother k' hk').1) (fun j _ => (hother k' hk').2 j)
      fun c hc => cells_of_write hslot hoffset hc
  have hnew : Holds config ring k data → Holds config (ring.wrote config k offset xs (.copying data k i)) k data :=
    fun h => ⟨fun _ => hnewSize h.size, fun j hj hm => hnewByte j hj hm (h.bytes j hj)⟩
  have houtputs : (ring.wrote config k offset xs (.copying data k i)).outputs = ring.outputs := by
    unfold Ring.outputs
    rw [hin]
    rfl
  have hfit : config.slot k + offset + xs.length ≤ config.size := by
    have := slot_le hmax k
    omega
  refine ⟨_, ring.wrote config k offset xs (.copying data k i), if_pos hfit,
    ⟨?_, hs.tail_lt, hle, hroom, hs.slots, ?_, ⟨hk, hi⟩, ?_, ?_⟩, ?_⟩
  · rw [houtputs]
    exact hs.length
  · have hfits := hs.fits
    rw [hdata] at hfits
    exact hfits
  · intro k' d hk' hd
    change ring.head ≤ k' at hk'
    rw [houtputs] at hd
    by_cases hkk : k' = k
    · subst hkk
      rw [hlatest] at hd
      cases hd
      exact hnew (hs.stored k' data hk' hlatest)
    · have hlt := outputs_lt hs hd
      exact hholds k' d hkk (slots_ne (by omega) hk' (by omega)) hd (hs.stored k' d hk' hd)
  · refine hostHolds_of_records hs rfl (Nat.le_refl _) (fun k _ => by rw [houtputs]) rfl ?_ ?_
    · intro h d hview hd hold
      by_cases hkk : h = k
      · subst hkk
        rw [hlatest] at hd
        cases hd
        exact hnew hold
      · exact hholds h d hkk (Ne.symm (hsize h hview hkk)) hd hold
    · intro h size got d hview hd hsize' hmissing
      by_cases hkk : h = k
      · subst hkk
        rw [hlatest] at hd
        cases hd
        exact ⟨rfl, fun j hj _ hm hkeep => hnewByte j hj hm hkeep⟩
      · refine ⟨rfl, fun j hj hgot _ hkeep => ?_⟩
        show store ring.bytes (config.slot k + offset) xs (config.slot h + 8 + j) = _
        rw [hbyte h size got hview hkk j hgot (by omega)]
        exact hkeep ((hother h hkk).2 j)
  · exact ⟨Nat.le_add_right _ _, by omega⟩

/-- Bytes and sizes of slots are apart. -/
theorem slot_offsets {h k : Nat} {o o' n : Nat} (hn : o + n ≤ config.slotSize)
    (hbound : 8 + o' < config.slotSize)
    (hne : h % config.maxEntries = k % config.maxEntries → ¬ (o ≤ 8 + o' ∧ 8 + o' < o + n)) :
    config.slot h + 8 + o' < config.slot k + o ∨ config.slot k + o + n ≤ config.slot h + 8 + o' := by
  by_cases hsame : h % config.maxEntries = k % config.maxEntries
  · have hslot : config.slot h = config.slot k := by
      unfold RingConfig.slot
      rw [hsame]
    have := hne hsame
    omega
  · have := slot_apart hsame
    omega

/-- The bytes of a record that the host is taking lie in a slot. -/
theorem callback_fits (hs : RingInv config view ring) {h size j : Nat} {got : List (BitVec 8)}
    (hview : view = .callback h size got) (hj : j < size) : 8 + j < config.slotSize := by
  have hhost := hs.host
  rw [hview] at hhost
  obtain ⟨-, -, -, data, hdata, hsize, -⟩ := hhost
  have := outputs_fit hs hdata
  unfold RingConfig.slotSize
  omega

/-- **The thread writes the size** of a record. -/
theorem ringInv_writeSize (hs : RingInv config view ring) {data : List (BitVec 8)} {k : Nat}
    (hphase : ring.output = .advanced data k) (hcond : view.needsSize config k = false) :
    ∃ report ring', ring.stepOutput config = some (report, ring') ∧ RingInv config view ring' ∧ report.Lawful config := by
  have hk : k + 1 = ring.tail := by
    have := hs.placed
    rwa [hphase] at this
  unfold Ring.stepOutput
  rw [hphase]
  refine ringInv_write hs (by rw [hphase]; rfl) (by rw [hphase]; rfl) hk ?_ ?_ (Nat.zero_le _) ?_ ?_ ?_ ?_
  · intro k' hk'
    have hne : (k == k') = false := beq_eq_false_iff_ne.mpr (Ne.symm hk')
    rw [hphase]
    exact ⟨hne, fun j => hne⟩
  · rw [length_leBytes]
    unfold RingConfig.slotSize
    omega
  · -- the size is there
    intro _
    have hload : load (store ring.bytes (config.slot k) (leBytes 8 data.length)) (config.slot k)
        (leBytes 8 data.length).length = leBytes 8 data.length := load_store
    rwa [length_leBytes] at hload
  · -- and no byte
    intro j _ hmissing
    simp [OutputPhase.byteMissing] at hmissing
  · rintro h rfl hne heq
    simp [HostView.needsSize, hne, heq] at hcond
  · intro h size got hview hne j hgot hj
    refine store_out ?_
    rw [length_leBytes]
    exact slot_offsets (by unfold RingConfig.slotSize; omega) (callback_fits hs hview hj) (by omega)

/-- **The thread writes a byte** of it. -/
theorem ringInv_writeByte (hs : RingInv config view ring) {data : List (BitVec 8)} {k i : Nat}
    (hphase : ring.output = .copying data k i) (hi : i < data.length) (hcond : view.needsByte config k i = false) :
    ∃ report ring', ring.write config k (8 + i) [data.getD i 0] (.copying data k (i + 1)) = some (report, ring') ∧
      RingInv config view ring' ∧ report.Lawful config := by
  obtain ⟨hk, -⟩ : k + 1 = ring.tail ∧ i ≤ data.length := by
    have := hs.placed
    rwa [hphase] at this
  have hlatest := outputs_latest hs (by rw [hphase]; rfl) hk
  have hfit := outputs_fit hs hlatest
  have hbyte : data.getD i 0 = data[i] := by
    rw [List.getD_eq_getElem?_getD, List.getElem?_eq_getElem hi, Option.getD_some]
  have hslot : 8 + i + 1 ≤ config.slotSize := by
    unfold RingConfig.slotSize
    omega
  refine ringInv_write hs (by rw [hphase]; rfl) (by rw [hphase]; rfl) hk ?_ hslot hi ?_ ?_ ?_ ?_
  · intro k' hk'
    have hne : (k == k') = false := beq_eq_false_iff_ne.mpr (Ne.symm hk')
    rw [hphase]
    exact ⟨rfl, fun j => by simp [OutputPhase.byteMissing, hne]⟩
  · intro hold
    rw [load_store_disjoint (Or.inl (by omega))]
    exact hold (by rw [hphase]; rfl)
  · intro j hj hmissing hold
    by_cases hij : j = i
    · subst hij
      have hin : store ring.bytes (config.slot k + (8 + j)) [data.getD j 0] (config.slot k + (8 + j) + 0) =
          data.getD j 0 := store_in (by simp)
      rw [Nat.add_assoc]
      exact hin.trans hbyte
    · have hlt : j < i := by
        simp only [OutputPhase.byteMissing, beq_self_eq_true, Bool.true_and, decide_eq_false_iff_not] at hmissing
        omega
      rw [store_out (Or.inl (by omega))]
      refine hold ?_
      rw [hphase]
      simp only [OutputPhase.byteMissing, beq_self_eq_true, Bool.true_and, decide_eq_false_iff_not]
      omega
  · rintro h rfl hne heq
    simp [HostView.needsByte, hne, heq] at hcond
  · intro h size got hview hne j hgot hj
    refine store_out ?_
    refine slot_offsets hslot (callback_fits hs hview hj) fun heq hin => ?_
    have hij : j = i := by
      simp only [List.length_singleton] at hin
      omega
    subst hij
    rw [hview] at hcond
    simp [HostView.needsByte, hne, heq] at hcond
    omega

/-- The output returns: nothing of its record is missing. -/
theorem ringInv_finish (hs : RingInv config view ring) {data : List (BitVec 8)} {k i : Nat}
    (hphase : ring.output = .copying data k i) (hi : data.length ≤ i) :
    RingInv config view { ring with dirty := false, output := .idle, returned := ring.returned ++ [data] } := by
  obtain ⟨hk, -⟩ : k + 1 = ring.tail ∧ i ≤ data.length := by
    have := hs.placed
    rwa [hphase] at this
  have houtputs : ({ ring with dirty := false, output := .idle, returned := ring.returned ++ [data] } : Ring).outputs =
      ring.outputs := by
    unfold Ring.outputs
    rw [hphase]
    simp [OutputPhase.inRing]
  have hlatest := outputs_latest hs (by rw [hphase]; rfl) hk
  have hnone : ∀ k' d j, ring.outputs[k']? = some d → j < d.length → ring.output.byteMissing k' j = false := by
    intro k' d j hd hj
    rw [hphase]
    by_cases hkk : k' = k
    · subst hkk
      rw [hlatest] at hd
      cases hd
      simp only [OutputPhase.byteMissing, beq_self_eq_true, Bool.true_and, decide_eq_false_iff_not]
      omega
    · simp [OutputPhase.byteMissing, Ne.symm hkk]
  have hholds : ∀ k' d, ring.outputs[k']? = some d → Holds config ring k' d →
      Holds config { ring with dirty := false, output := .idle, returned := ring.returned ++ [data] } k' d := by
    intro k' d hd h
    exact ⟨fun _ => h.size (by rw [hphase]; rfl), fun j hj _ => h.bytes j hj (hnone k' d j hd hj)⟩
  refine ⟨by rw [houtputs]; exact hs.length, hs.tail_lt, hs.head_le, hs.room, hs.slots, ?_, trivial, ?_, ?_⟩
  · intro d hd
    refine hs.fits d ?_
    rw [hphase]
    simpa [OutputPhase.data] using hd
  · intro k' d hk' hd
    rw [houtputs] at hd
    exact hholds k' d hd (hs.stored k' d hk' hd)
  · refine hostHolds_of_records hs rfl (Nat.le_refl _) (fun k _ => by rw [houtputs]) rfl
      (fun h d _ hd hold => hholds h d hd hold) ?_
    intro h size got d _ hd _ _
    exact ⟨rfl, fun j hj _ _ hkeep => hkeep (hnone h d j hd hj)⟩

/-- **A step of the thread.** -/
theorem ringInv_stepOutput (hs : RingInv config view ring) (hcond : DeviceApart config view ring ring.output) :
    ∃ report ring', ring.stepOutput config = some (report, ring') ∧ RingInv config view ring' ∧ report.Lawful config := by
  cases hphase : ring.output with
  | idle =>
      refine ⟨.quiet, ring, ?_, hs, trivial⟩
      unfold Ring.stepOutput
      rw [hphase]
  | tested data =>
      have hplaced := hs.placed
      have hfits := hs.fits
      rw [hphase] at hplaced hfits
      refine ⟨.quiet, { ring with dirty := true, output := .dirtied data }, ?_, ?_, trivial⟩
      · unfold Ring.stepOutput
        rw [hphase]
      · exact ringInv_phase hs (by rw [hphase]; rfl) rfl (by rw [hphase]; intro k; rfl) (fun k => rfl)
          (by rw [hphase]; intro k j; rfl) (fun d hd => hfits d (List.mem_append_right _ hd)) hplaced
  | dirtied data =>
      rw [hphase] at hcond
      refine ⟨.quiet, _, ?_, ringInv_advance hs hphase hcond, trivial⟩
      unfold Ring.stepOutput
      rw [hphase]
  | advanced data k =>
      rw [hphase] at hcond
      exact ringInv_writeSize hs hphase hcond
  | copying data k i =>
      rw [hphase] at hcond
      obtain ⟨hk, -⟩ : k + 1 = ring.tail ∧ i ≤ data.length := by
        have := hs.placed
        rwa [hphase] at this
      have hlatest := outputs_latest hs (by rw [hphase]; rfl) hk
      have hlength := copyLength_eq (outputs_fit hs hlatest)
      unfold Ring.stepOutput
      rw [hphase]
      dsimp only
      by_cases hi : i < Ring.copyLength data
      · rw [if_pos hi]
        exact ringInv_writeByte hs hphase (by omega) (hcond hi)
      · rw [if_neg hi]
        exact ⟨_, _, rfl, ringInv_finish hs hphase (by omega), trivial⟩

/-! ## The host's steps

A pass tests the mark, looks at `head` and `tail`, advances the head, and then reads the record. What it reads is there,
if the step meets the condition. -/

/-- The host finds a record. -/
theorem ringInv_found (hs : RingInv config .away ring) (hne : ring.head ≠ ring.tail) :
    config.maxEntries ≠ 0 ∧ RingInv config (.advanceHead ring.head) ring := by
  have hle := hs.head_le
  have hroom := hs.room
  refine ⟨by omega, { hs with host := ⟨rfl, by omega, hs.host⟩ }⟩

/-- **The host advances the head.** -/
theorem ringInv_advanceHead {h : Nat} (hs : RingInv config (.advanceHead h) ring) :
    RingInv config (.readSize h) ring.advanceHead := by
  obtain ⟨rfl, hlt, hhanded⟩ := hs.host
  have htail := hs.tail_lt
  have hroom := hs.room
  have hhead : ring.advanceHead.head = ring.head + 1 := Nat.mod_eq_of_lt (by omega)
  -- the record that is being written is not the one that is taken
  have hplaced : ring.output.Placed config ring.advanceHead := by
    have hold := hs.placed
    revert hold
    cases ring.output with
    | idle => exact id
    | tested data | dirtied data =>
        intro hold
        show ring.tail < ring.advanceHead.head + _
        have hold : ring.tail < ring.head + config.maxEntries := hold
        omega
    | advanced data k => exact id
    | copying data k i => exact id
  have hholds : ∀ k data, Holds config ring k data → Holds config ring.advanceHead k data := fun _ _ h => ⟨h.size, h.bytes⟩
  refine ⟨hs.length, htail, ?_, ?_, hs.slots, hs.fits, hplaced, fun k data hk hdata => ?_, hhead.symm, hhanded,
    fun data hdata => ?_⟩
  · rw [hhead]
    exact hlt
  · rw [hhead]
    show ring.tail ≤ _
    omega
  · exact hholds k data (hs.stored k data (by omega) hdata)
  · exact hholds _ data (hs.stored ring.head data (Nat.le_refl _) hdata)

/-- The record that the host is at. -/
theorem outputs_at (hs : RingInv config view ring) {h : Nat} (hh : h + 1 = ring.head) :
    ∃ data, ring.outputs[h]? = some data ∧ data.length ≤ config.valueSize ∧
      config.slot h + config.slotSize ≤ config.size := by
  have hle := hs.head_le
  have hlt : h < ring.outputs.length := by
    rw [hs.length]
    omega
  have hdata : ring.outputs[h]? = some ring.outputs[h] := List.getElem?_eq_getElem hlt
  exact ⟨_, hdata, outputs_fit hs hdata, slot_le (hs.slots (by omega)) h⟩

/-- The host reads a size that is there. -/
theorem ringInv_readSize {h : Nat} (hs : RingInv config (.readSize h) ring) (hcond : ring.output.sizeMissing h = false) :
    ∃ word, ring.read config h 0 8 = some word ∧ RingInv config (.callback h (leNat word) []) ring := by
  obtain ⟨hhead, hhanded, hholds⟩ := hs.host
  obtain ⟨data, hdata, hfit, hslot⟩ := outputs_at hs hhead
  have hint := config.valueSize_int
  have hin : config.slot h + 0 + 8 ≤ config.size := by
    unfold RingConfig.slotSize at hslot
    omega
  have hsize : leNat (load ring.bytes (config.slot h + 0) 8) = data.length := by
    rw [Nat.add_zero, (hholds data hdata).size hcond]
    exact leNat_leBytes (by omega)
  refine ⟨_, if_pos hin, { hs with host := ⟨hhead, hhanded, hcond, data, hdata, hsize, rfl, Nat.zero_le _, ?_⟩ }⟩
  exact fun j hj _ hmissing => (hholds data hdata).bytes j hj hmissing

/-- The callback reads a byte that is there. -/
theorem ringInv_readByte {h size : Nat} {got : List (BitVec 8)} (hs : RingInv config (.callback h size got) ring)
    (hlt : got.length < size) (hcond : ring.output.byteMissing h got.length = false) :
    ∃ byte, ring.read config h (8 + got.length) 1 = some byte ∧ RingInv config (.callback h size (got ++ byte)) ring := by
  obtain ⟨hhead, hhanded, hmissing, data, hdata, rfl, hgot, hle, hbytes⟩ := hs.host
  have hfit := outputs_fit hs hdata
  obtain ⟨-, -, -, hslot⟩ := outputs_at hs hhead
  have hin : config.slot h + (8 + got.length) + 1 ≤ config.size := by
    unfold RingConfig.slotSize at hslot
    omega
  have hbyte : load ring.bytes (config.slot h + (8 + got.length)) 1 = [data[got.length]] := by
    show [ring.bytes (config.slot h + (8 + got.length) + 0)] = _
    rw [Nat.add_zero, ← Nat.add_assoc, hbytes got.length hlt (Nat.le_refl _) hcond]
  refine ⟨[data[got.length]], (if_pos hin).trans (congrArg some hbyte), { hs with
    host := ⟨hhead, hhanded, hmissing, data, hdata, rfl, ?_, ?_, fun j hj hj' hm => hbytes j hj ?_ hm⟩ }⟩
  · rw [List.length_append, List.length_singleton, List.take_succ_eq_append_getElem hlt, ← hgot]
  · rw [List.length_append, List.length_singleton]
    exact hlt
  · rw [List.length_append, List.length_singleton] at hj'
    omega

/-- The callback has the whole record. -/
theorem ringInv_handOn {h size : Nat} {got : List (BitVec 8)} (hs : RingInv config (.callback h size got) ring)
    (hall : ¬ got.length < size) : RingInv config .away { ring with handed := ring.handed ++ [got] } := by
  obtain ⟨hhead, hhanded, -, data, hdata, rfl, hgot, hle, -⟩ := hs.host
  have hdone : got = data := by
    rw [hgot, List.take_of_length_le (by omega)]
  refine ⟨hs.length, hs.tail_lt, hs.head_le, hs.room, hs.slots, hs.fits, hs.placed, fun k d hk hd => ?_, ?_⟩
  · exact ⟨(hs.stored k d hk hd).size, (hs.stored k d hk hd).bytes⟩
  · show ring.handed ++ [got] = ring.outputs.take ring.head
    obtain ⟨hlt, hget⟩ := List.getElem?_eq_some_iff.mp hdata
    rw [hhanded, hdone, ← hhead, List.take_succ_eq_append_getElem hlt, hget]

/-! ## The world

A step is one ring's, and the others stay as they are. Only the host knows more than one ring. -/

/-- Each ring, seen by its thread and by the host. -/
def WorldInv (config : RingConfig) (world : RingWorld) : Prop :=
  ∀ t, RingInv config (world.host.view t) (world.rings t)

/-- All rings are empty. -/
theorem worldInv_init (config : RingConfig) : WorldInv config .init := by
  intro t
  refine ⟨rfl, Nat.two_pow_pos 64, Nat.le_refl _, Nat.zero_le _, fun h => absurd rfl h, ?_, trivial, ?_, rfl⟩
  · intro data hdata
    simp [RingWorld.init, Ring.init, OutputPhase.data] at hdata
  · intro k data _ hdata
    simp [RingWorld.init, Ring.init, Ring.outputs, OutputPhase.inRing] at hdata

variable {world : RingWorld}

/-- A step in one ring leaves the others alone. -/
theorem worldInv_setRing (hs : WorldInv config world) {t : Nat} {ring : Ring} {host : DrainPhase}
    (hring : RingInv config (host.view t) ring) (hother : ∀ t', t' ≠ t → host.view t' = world.host.view t') :
    WorldInv config { world.setRing t ring with host := host } := by
  intro t'
  by_cases ht : t' = t
  · subst ht
    show RingInv config (host.view t') (Function.update world.rings t' ring t')
    rw [Function.update_self]
    exact hring
  · show RingInv config (host.view t') (Function.update world.rings t ring t')
    rw [Function.update_of_ne ht, hother t' ht]
    exact hs t'

/-- A step of the host that only looks at a ring. -/
theorem worldInv_host (hs : WorldInv config world) {t : Nat} {host : DrainPhase}
    (hring : RingInv config (host.view t) (world.rings t)) (hother : ∀ t', t' ≠ t → host.view t' = world.host.view t') :
    WorldInv config { world with host := host } := by
  have h := worldInv_setRing hs hring hother
  unfold RingWorld.setRing at h
  rwa [Function.update_eq_self] at h

/-- **A step of the host**, in whichever ring it is. -/
theorem worldInv_stepHost (hs : WorldInv config world) (hcond : HostApart config world world.host) :
    ∃ report world', world.stepHost config = some (report, world') ∧ WorldInv config world' ∧ report.Lawful config := by
  -- outside a ring the host sees none
  have haway : ∀ host : DrainPhase, (∀ t, world.host.view t = .away) → (∀ t, host.view t = .away) →
      WorldInv config { world with host := host } := by
    intro host hfrom hto t
    have ht := hs t
    rw [hfrom t] at ht
    show RingInv config (host.view t) (world.rings t)
    rw [hto t]
    exact ht
  unfold RingWorld.stepHost
  cases hphase : world.host with
  | idle => exact ⟨_, _, rfl, haway _ (by rw [hphase]; exact fun _ => rfl) fun _ => rfl, trivial⟩
  | testDirty t =>
      have hview : ∀ t', world.host.view t' = .away := by
        rw [hphase]
        exact fun _ => rfl
      rw [hphase] at hcond
      dsimp only
      by_cases ht : t < config.threadCount
      · rw [if_pos ht]
        by_cases hdirty : (world.rings t).dirty = true
        · rw [if_pos hdirty]
          exact ⟨_, _, rfl, haway _ hview fun _ => rfl, hcond ht hdirty⟩
        · rw [if_neg hdirty]
          exact ⟨_, _, rfl, haway _ hview fun _ => rfl, trivial⟩
      · rw [if_neg ht]
        exact ⟨_, _, rfl, haway _ hview fun _ => rfl, trivial⟩
  | testEmpty t =>
      have hview : ∀ t', world.host.view t' = .away := by
        rw [hphase]
        exact fun _ => rfl
      dsimp only
      by_cases hempty : (world.rings t).head = (world.rings t).tail
      · rw [if_pos hempty]
        exact ⟨_, _, rfl, haway _ hview fun _ => rfl, trivial⟩
      · rw [if_neg hempty]
        have ht := hs t
        rw [hview t] at ht
        obtain ⟨hmax, hfound⟩ := ringInv_found ht hempty
        rw [if_neg hmax]
        refine ⟨_, _, rfl, worldInv_host hs (t := t) ?_ fun t' ht' => ?_, trivial⟩
        · simpa [DrainPhase.view] using hfound
        · rw [hview t']
          simp [DrainPhase.view, Ne.symm ht']
  | advanceHead t h =>
      have ht := hs t
      rw [hphase] at ht
      simp only [DrainPhase.view, if_true] at ht
      refine ⟨_, _, rfl, worldInv_setRing hs (t := t) ?_ fun t' ht' => ?_, trivial⟩
      · simpa [DrainPhase.view] using ringInv_advanceHead ht
      · rw [hphase]
        simp [DrainPhase.view, Ne.symm ht']
  | readSize t h =>
      have ht := hs t
      rw [hphase] at ht hcond
      simp only [DrainPhase.view, if_true] at ht
      obtain ⟨word, hword, hread⟩ := ringInv_readSize ht hcond
      dsimp only
      rw [hword]
      refine ⟨_, _, rfl, worldInv_host hs (t := t) ?_ fun t' ht' => ?_, trivial⟩
      · simpa [DrainPhase.view] using hread
      · rw [hphase]
        simp [DrainPhase.view, Ne.symm ht']
  | callback t h size got =>
      have ht := hs t
      rw [hphase] at ht hcond
      simp only [DrainPhase.view, if_true] at ht
      dsimp only
      by_cases hlt : got.length < size
      · rw [if_pos hlt]
        obtain ⟨byte, hbyte, hread⟩ := ringInv_readByte ht hlt (hcond hlt)
        rw [hbyte]
        refine ⟨_, _, rfl, worldInv_host hs (t := t) ?_ fun t' ht' => ?_, trivial⟩
        · simpa [DrainPhase.view] using hread
        · rw [hphase]
          simp [DrainPhase.view, Ne.symm ht']
      · rw [if_neg hlt]
        refine ⟨_, _, rfl, worldInv_setRing hs (t := t) ?_ fun t' ht' => ?_, trivial⟩
        · simpa [DrainPhase.view] using ringInv_handOn ht hlt
        · rw [hphase]
          simp [DrainPhase.view, Ne.symm ht']

/-- A thread without a ring outputs nothing. -/
theorem step_output_unknown {t : Nat} (data : List (BitVec 8)) (ht : config.threadCount ≤ t) :
    world.step config (.output t data) = some (.returned 1, world) := if_pos ht

/-- A thread does one output at a time. -/
theorem step_output_busy {t : Nat} (data : List (BitVec 8)) (ht : t < config.threadCount)
    (hbusy : (world.rings t).output ≠ .idle) : world.step config (.output t data) = some (.quiet, world) :=
  (if_neg (Nat.not_le.mpr ht)).trans (if_pos hbusy)

/-- A thread starts an output. -/
theorem step_output {t : Nat} (data : List (BitVec 8)) (ht : t < config.threadCount)
    (hidle : (world.rings t).output = .idle) (haligned : 8 ∣ config.header t) :
    world.step config (.output t data) =
      some (((world.rings t).startOutput config data).1, world.setRing t ((world.rings t).startOutput config data).2) :=
  ((if_neg (Nat.not_le.mpr ht)).trans (if_neg (not_not.mpr hidle))).trans (if_neg (not_not.mpr haligned))

/-- A thread goes on with its output. -/
theorem step_device {t : Nat} {report : RingReport} {ring : Ring}
    (haligned : (world.rings t).output.aligned config t = true)
    (hstep : (world.rings t).stepOutput config = some (report, ring)) :
    world.step config (.device t) = some (report, world.setRing t ring) := by
  simp [RingWorld.step, haligned, hstep]

/-- **One step** that meets the condition keeps the invariant, and shows what it should. -/
theorem worldInv_step (hs : WorldInv config world) {e : RingEvent} (hcond : Apart config world e) :
    ∃ report world', world.step config e = some (report, world') ∧ WorldInv config world' ∧ report.Lawful config := by
  cases e with
  | output t data =>
      rcases Nat.lt_or_ge t config.threadCount with ht | ht
      · by_cases hidle : (world.rings t).output = .idle
        · obtain ⟨haligned, hfits⟩ := hcond ht hidle
          have hstart := ringInv_startOutput (hs t) hidle hfits
          have hset : WorldInv config (world.setRing t _) := worldInv_setRing hs hstart.1 fun _ _ => rfl
          exact ⟨_, _, step_output data ht hidle haligned, hset, hstart.2⟩
        · exact ⟨_, _, step_output_busy data ht hidle, hs, trivial⟩
      · exact ⟨_, _, step_output_unknown data ht, hs, trivial⟩
  | device t =>
      obtain ⟨haligned, hapart⟩ := hcond
      obtain ⟨report, ring, hstep, hring, hreport⟩ := ringInv_stepOutput (hs t) hapart
      have hset : WorldInv config (world.setRing t ring) := worldInv_setRing hs hring fun _ _ => rfl
      exact ⟨report, world.setRing t ring, step_device haligned hstep, hset, hreport⟩
  | host => exact worldInv_stepHost hs hcond

/-- What a run is to show: it does not get stuck, every ring's records are its outputs, every write stays in its slot
    and no pass gives up on another thread's record. -/
def RunLawful (config : RingConfig) (events : List RingEvent) : Prop :=
  ∃ reports world, runAll (RingWorld.step config) .init events = some (reports, world) ∧
    (∀ t, (world.rings t).Lawful (world.host.view t)) ∧ ∀ report ∈ reports, report.Lawful config

end Gpu
