import FreeProbe.Handler.PerfEvent

/-!
# `Handler.PerfMmap` — `ensure_mmap_buffer`

A perf event starts with one page, that of the positions, and gets its data area when it is mapped. A request for more
than there is resizes the buffer, updates `data_size` in the header, and only then tests that the data area is a power
of two: positions are masked with its size less one.

Whether the shared memory can grant a resize is an input.
-/

namespace Handler

open Lib Lib.Memory

/-- The event beside its page size and the `data_size` of its header. -/
structure PerfMmap where
  pagesize : BitVec 64
  dataSize : BitVec 64
  event    : SoftwarePerfEventData

/-- A request, and whether the shared memory grants it. -/
structure EnsureCall where
  bufferSize : BitVec 64
  granted    : Bool

inductive EnsureResult where
  | buffer
  | nullptr
  | thrown
deriving DecidableEq

/-- `while (x)`; the first argument bounds the rounds. -/
def popcntLoop : Nat → BitVec 64 → Nat
  | 0, _ => 0
  | fuel + 1, x => if x = 0 then 0 else (x &&& 1).toNat + popcntLoop fuel (x >>> 1)

def popcnt (x : BitVec 64) : Nat := popcntLoop 64 x

namespace PerfMmap

/-- The constructor. -/
def new (pagesize : BitVec 64) (copyBuffer : Buffer Byte) : PerfMmap where
  pagesize := pagesize
  dataSize := 0
  event := .new 0 copyBuffer

/-- `mmap_buffer.size()` -/
def bufferSize (mmap : PerfMmap) : BitVec 64 := mmap.pagesize + mmap.event.mmapSize

/-- `mmap_buffer.resize(size)`, from the data area on: the bytes that are new are 0. -/
def resize (mmap : PerfMmap) (size : BitVec 64) : PerfMmap :=
  { mmap with event := { mmap.event with
      mmapSize := size - mmap.pagesize
      data := ⟨(size - mmap.pagesize).toNat, fun i => if i < mmap.event.data.size then mmap.event.data.cells i else 0⟩ } }

/-- `ensure_mmap_buffer`; a vector has at most `2 ^ 63 - 1` bytes, and one that does not get its memory throws. -/
def ensureMmapBuffer (mmap : PerfMmap) (call : EnsureCall) : EnsureResult × PerfMmap :=
  if mmap.bufferSize < call.bufferSize then
    if call.granted = false ∨ 2 ^ 63 ≤ call.bufferSize.toNat then (.thrown, mmap)
    else
      let resized := { mmap.resize call.bufferSize with dataSize := call.bufferSize - mmap.pagesize }
      if popcnt (call.bufferSize - mmap.pagesize) ≠ 1 then (.nullptr, resized)
      else (.buffer, resized)
  else (.buffer, mmap)

/-- A run of calls. -/
def ensure (mmap : PerfMmap) (call : EnsureCall) : Option (EnsureResult × PerfMmap) := some (mmap.ensureMmapBuffer call)

/-! ## The data area is empty or a power of two -/

/-- The event has no data area yet, or one of a power of two. -/
def AreaOk (mmap : PerfMmap) : Prop := mmap.event.mmapSize = 0 ∨ ∃ k, mmap.event.mmapSize.toNat = 2 ^ k

/-- After the call the area is empty or a power of two, and a call that fails changes nothing. -/
def Atomic (mmap : PerfMmap) (call : EnsureCall) : Prop :=
  (mmap.ensureMmapBuffer call).2.AreaOk ∧
    ((mmap.ensureMmapBuffer call).1 ≠ .buffer → (mmap.ensureMmapBuffer call).2 = mmap)

/-- The call asks for no more than there is, or for a data area of a power of two, or for what no vector gets. -/
def AsksForPower (mmap : PerfMmap) (call : EnsureCall) : Prop :=
  call.bufferSize ≤ mmap.bufferSize ∨ (∃ k, (call.bufferSize - mmap.pagesize).toNat = 2 ^ k) ∨
    call.granted = false ∨ 2 ^ 63 ≤ call.bufferSize.toNat

end PerfMmap

theorem popcntLoop_spec (fuel : Nat) {x : BitVec 64} (hx : x.toNat < 2 ^ fuel) :
    (popcntLoop fuel x = 0 ↔ x.toNat = 0) ∧ (popcntLoop fuel x = 1 ↔ ∃ k, x.toNat = 2 ^ k) := by
  induction fuel generalizing x with
  | zero =>
      have hzero : x.toNat = 0 := by omega
      refine ⟨by simp [popcntLoop, hzero], ?_⟩
      simp only [popcntLoop, hzero, Nat.zero_ne_one, false_iff, not_exists]
      exact fun k => (Nat.two_pow_pos k).ne
  | succ fuel ih =>
      have hhalf : (x >>> 1).toNat = x.toNat / 2 := by simp [BitVec.toNat_ushiftRight, Nat.shiftRight_eq_div_pow]
      have hlow : (x &&& 1).toNat = x.toNat % 2 := by simp [BitVec.toNat_and]
      obtain ⟨ihzero, ihone⟩ := ih (x := x >>> 1) (by omega)
      rw [hhalf] at ihzero ihone
      by_cases hzero : x = 0
      · subst hzero
        refine ⟨by simp [popcntLoop], ?_⟩
        simp only [popcntLoop, if_true, Nat.zero_ne_one, false_iff, not_exists]
        exact fun k => (Nat.two_pow_pos k).ne
      · have hpos : x.toNat ≠ 0 := fun h => hzero (BitVec.eq_of_toNat_eq h)
        rw [popcntLoop, if_neg hzero, hlow]
        refine ⟨by omega, ?_⟩
        constructor
        · intro hone
          rcases Nat.mod_two_eq_zero_or_one x.toNat with heven | hodd
          · obtain ⟨k, hk⟩ := ihone.mp (by omega)
            exact ⟨k + 1, by omega⟩
          · have := ihzero.mp (by omega)
            exact ⟨0, by omega⟩
        · rintro ⟨k, hk⟩
          cases k with
          | zero =>
              have := ihzero.mpr (by omega)
              omega
          | succ k =>
              have := ihone.mpr ⟨k, by omega⟩
              omega

/-- `popcnt` tests for a power of two. -/
theorem popcnt_eq_one_iff (x : BitVec 64) : popcnt x = 1 ↔ ∃ k, x.toNat = 2 ^ k := (popcntLoop_spec 64 x.isLt).2

namespace PerfMmap

variable {mmap : PerfMmap} {call : EnsureCall}

/-- A call that does not resize. -/
theorem ensureMmapBuffer_kept (h : call.bufferSize ≤ mmap.bufferSize) :
    mmap.ensureMmapBuffer call = (.buffer, mmap) := if_neg (BitVec.not_lt.mpr h)

theorem ensureMmapBuffer_thrown (h : mmap.bufferSize < call.bufferSize)
    (hthrow : call.granted = false ∨ 2 ^ 63 ≤ call.bufferSize.toNat) :
    mmap.ensureMmapBuffer call = (.thrown, mmap) := by
  rw [ensureMmapBuffer, if_pos h, if_pos hthrow]

/-- A call that resizes. -/
theorem ensureMmapBuffer_grown (h : mmap.bufferSize < call.bufferSize)
    (hgrow : ¬ (call.granted = false ∨ 2 ^ 63 ≤ call.bufferSize.toNat)) :
    (mmap.ensureMmapBuffer call).2 =
        { mmap.resize call.bufferSize with dataSize := call.bufferSize - mmap.pagesize } ∧
      ((mmap.ensureMmapBuffer call).1 = .buffer ↔ ∃ k, (call.bufferSize - mmap.pagesize).toNat = 2 ^ k) := by
  rw [← popcnt_eq_one_iff, ensureMmapBuffer, if_pos h, if_neg hgrow]
  dsimp only
  split <;> rename_i hpop
  · exact ⟨rfl, by simpa using hpop⟩
  · exact ⟨rfl, by simpa using hpop⟩

/-- **One call.** Where the area is empty or a power of two, the call is atomic just where it asks for such an area. -/
theorem atomic_iff (harea : mmap.AreaOk) : mmap.Atomic call ↔ mmap.AsksForPower call := by
  unfold Atomic AsksForPower
  by_cases h : mmap.bufferSize < call.bufferSize
  · by_cases hthrow : call.granted = false ∨ 2 ^ 63 ≤ call.bufferSize.toNat
    · rw [ensureMmapBuffer_thrown h hthrow]
      exact iff_of_true ⟨harea, fun _ => rfl⟩ (.inr (.inr hthrow))
    · obtain ⟨hstate, hresult⟩ := ensureMmapBuffer_grown h hthrow
      have hmore : ¬ call.bufferSize ≤ mmap.bufferSize := BitVec.not_le.mpr h
      rw [hstate]
      simp only [hmore, hthrow, or_false, false_or]
      constructor
      · rintro ⟨hzero | hpow, hkeeps⟩
        · -- a buffer without a data area did not grow
          by_contra hnot
          have hsize := congrArg (fun mmap => mmap.event.mmapSize) (hkeeps (mt hresult.mp hnot))
          refine hmore (BitVec.le_of_eq ?_)
          rw [bufferSize, ← hsize]
          simp [resize]
        · exact hpow
      · intro hpow
        exact ⟨.inr hpow, fun hne => absurd (hresult.mpr hpow) hne⟩
  · have hle : call.bufferSize ≤ mmap.bufferSize := BitVec.not_lt.mp h
    rw [ensureMmapBuffer_kept hle]
    exact iff_of_true ⟨harea, fun hne => absurd rfl hne⟩ (.inl hle)

theorem areaOk_new (pagesize : BitVec 64) (copyBuffer : Buffer Byte) : (new pagesize copyBuffer).AreaOk := .inl rfl

/-- **The buffer is resized atomically**: in every run of calls on a new event each leaves a data area that is empty or a
power of two, and changes nothing where it fails, if and only if each asks for such an area. -/
theorem ensureMmapBuffer_atomic_iff (pagesize : BitVec 64) (copyBuffer : Buffer Byte) (calls : List EnsureCall) :
    AllSteps ensure Atomic (new pagesize copyBuffer) calls ↔ AllSteps ensure AsksForPower (new pagesize copyBuffer) calls := by
  have hstep : ∀ (mmap : PerfMmap) (call : EnsureCall), mmap.AreaOk → (mmap.Atomic call ↔ mmap.AsksForPower call) :=
    fun _ _ harea => atomic_iff harea
  refine allSteps_iff_of_invariant hstep ?_ (areaOk_new pagesize copyBuffer) calls
  intro mmap call harea hasks next hnext
  cases hnext
  exact ((hstep mmap call harea).mpr hasks).1

/-- A request for a page and three bytes fails, and leaves a data area of three bytes. -/
theorem ensureMmapBuffer_not_atomic :
    ¬ ∀ (pagesize : BitVec 64) (calls : List EnsureCall),
      AllSteps ensure Atomic (new pagesize ⟨4096, fun _ => 0⟩) calls := by
  intro hall
  have hatomic := (hall 4096 [⟨4099, true⟩]).1
  rw [atomic_iff (areaOk_new _ _)] at hatomic
  rcases hatomic with hle | ⟨k, hpow⟩ | hfalse | hlarge
  · exact absurd hle (by decide)
  · have hthree : (2 : Nat) ^ k = 3 := hpow.symm
    rcases k with - | k
    · omega
    · omega
  · cases hfalse
  · exact absurd hlarge (by decide)

end PerfMmap

end Handler
