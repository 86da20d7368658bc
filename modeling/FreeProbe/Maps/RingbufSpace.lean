import FreeProbe.Maps.Ringbuf

/-!
# `Maps.RingbufSpace` — the ring buffer's space

`Holds` says what the memory of a session is: the records that were not consumed lie one after the other from the
consumer's position on, each with its header, and take no more than `max_ent` bytes. Positions of one window of
`max_ent` bytes have places of their own, so what an operation writes for one record leaves the others
(`Laid.store`). Every operation keeps it (`apply_holds`), whatever the positions are.
-/

namespace Maps

open Lib.Memory

/-! ## The length word

A record begins with a word that holds its size and, in the two highest bits, whether it is open and whether it is to be
discarded. Sizes that `reserve` accepts leave these bits free, so that the word can be taken apart again. -/

/-- The length word of a record's header. -/
def lenWord (size : Nat) (status : Status) : BitVec 32 :=
  match status with
  | .busy => BitVec.ofNat 32 size ||| BPF_RINGBUF_BUSY_BIT
  | .submitted => BitVec.ofNat 32 size
  | .discarded => BitVec.ofNat 32 size ||| BPF_RINGBUF_DISCARD_BIT

/-- The busy bit is bit 31 of the length word. -/
theorem busyBit_eq : BPF_RINGBUF_BUSY_BIT = BitVec.twoPow 32 31 := by decide

/-- The discard bit is bit 30. -/
theorem discardBit_eq : BPF_RINGBUF_DISCARD_BIT = BitVec.twoPow 32 30 := by decide

section LenWord

variable {size : Nat} (hsize : size < 2 ^ 30)
include hsize

/-- A size below `2 ^ 30` leaves both bits free. -/
theorem size_bit {i : Nat} (hi : 30 ≤ i) (hi' : i < 32) : (BitVec.ofNat 32 size)[i] = false := by
  rw [← BitVec.getLsbD_eq_getElem, BitVec.getLsbD_ofNat, decide_eq_true hi', Bool.true_and]
  exact Nat.testBit_lt_two_pow (Nat.lt_of_lt_of_le hsize (Nat.pow_le_pow_right (by decide) hi))

/-- Such a size fits in the word. -/
theorem size_toNat32 : (BitVec.ofNat 32 size).toNat = size := by
  rw [BitVec.toNat_ofNat, Nat.mod_eq_of_lt (by omega)]

/-- What `submit`, `bpf_submit` and `fetch_data` test to see whether a record is still open. -/
theorem lenWord_busy (status : Status) : lenWord size status &&& BPF_RINGBUF_BUSY_BIT ≠ 0 ↔ status = .busy := by
  have hbit := size_bit hsize (show 30 ≤ 31 by decide) (by decide)
  rw [busyBit_eq, BitVec.and_twoPow]
  cases status <;> simp [lenWord, busyBit_eq, discardBit_eq, hbit]

/-- What `fetch_data` tests to see whether a record is to be passed on. -/
theorem lenWord_discard (status : Status) :
    lenWord size status &&& BPF_RINGBUF_DISCARD_BIT = 0 ↔ status ≠ .discarded := by
  have hbit := size_bit hsize (show 30 ≤ 30 by decide) (by decide)
  have hne : BitVec.twoPow 32 30 ≠ 0#32 := by decide
  rw [discardBit_eq, BitVec.and_twoPow]
  cases status <;> simp [lenWord, busyBit_eq, discardBit_eq, hbit, hne]

/-- What `submit` makes of the length word. -/
theorem lenWord_finish (discard : Bool) :
    (if discard then (lenWord size .busy &&& ~~~BPF_RINGBUF_BUSY_BIT) ||| BPF_RINGBUF_DISCARD_BIT
      else lenWord size .busy &&& ~~~BPF_RINGBUF_BUSY_BIT) =
      lenWord size (if discard then .discarded else .submitted) := by
  have hclear : lenWord size .busy &&& ~~~BPF_RINGBUF_BUSY_BIT = BitVec.ofNat 32 size := by
    ext i hi
    by_cases hlast : i = 31
    · subst hlast
      rw [size_bit hsize (by decide) hi]
      simp [lenWord, busyBit_eq]
    · simp [lenWord, busyBit_eq, hlast]
  rw [hclear]
  cases discard <;> rfl

/-- The rounded size keeps below bit 31. -/
theorem roundedSize_lt : roundedSize size < 2 ^ 31 := by
  unfold roundedSize BPF_RINGBUF_HDR_SZ
  omega

/-- `roundup_len` takes the two bits off and rounds up as `reserve` does. -/
theorem roundupLen_lenWord (status : Status) :
    (Ringbuf.roundupLen (lenWord size status)).signExtend 64 = BitVec.ofNat 64 (roundedSize size) := by
  -- the two shifts take the status bits off: bit for bit, only the low 30 stay
  have hlow : lenWord size status <<< 2 >>> 2 = BitVec.ofNat 32 size := by
    ext i hi
    by_cases hlast : 30 ≤ i
    · rw [size_bit hsize hlast hi]
      simp [show ¬ 2 + i < 32 by omega]
    · have h31 : i ≠ 31 := by omega
      have h30 : i ≠ 30 := by omega
      have hbit : (lenWord size status)[i] = (BitVec.ofNat 32 size)[i] := by
        cases status <;> simp [lenWord, busyBit_eq, discardBit_eq, h31, h30]
      rw [BitVec.getElem_ushiftRight, BitVec.getLsbD_shiftLeft, decide_eq_true (show 2 + i < 32 by omega),
        decide_eq_false (show ¬ 2 + i < 2 by omega), Nat.add_sub_cancel_left, BitVec.getLsbD_eq_getElem hi, hbit]
      rfl
  have hlt := roundedSize_lt hsize
  -- no step of the 32-bit rounding wraps
  have hround : (Ringbuf.roundupLen (lenWord size status)).toNat = roundedSize size := by
    unfold Ringbuf.roundupLen
    rw [hlow]
    unfold roundedSize BPF_RINGBUF_HDR_SZ at *
    have h7 : (7 : BitVec 32).toNat = 7 := rfl
    have h8 : (8 : BitVec 32).toNat = 8 := rfl
    simp only [BitVec.toNat_mul, BitVec.toNat_udiv, BitVec.toNat_add, size_toNat32 hsize, BitVec.toNat_ofNat, h7, h8]
    omega
  -- and the sign bit is clear, so that extending the sign adds nothing
  have hmsb : (Ringbuf.roundupLen (lenWord size status)).msb = false := by
    rw [BitVec.msb_eq_false_iff_two_mul_lt, hround]
    omega
  refine BitVec.eq_of_toNat_eq ?_
  rw [BitVec.signExtend_eq_setWidth_of_msb_false hmsb, BitVec.toNat_setWidth, hround, BitVec.toNat_ofNat]

end LenWord

/-- A number of 32 bits that was stored. -/
theorem ofNat_leBytes (x : BitVec 32) : BitVec.ofNat 32 (leNat (leBytes 4 x.toNat)) = x := by
  rw [leNat_leBytes x.isLt, BitVec.ofNat_toNat, BitVec.setWidth_eq]

/-! ## The size check of `reserve`

`reserve` compares the 64-bit size with the two status bits of the 32-bit word, and then the rounded size with the
capacity. A size with a higher bit set passes the first comparison when it spares bits 30 and 31; the second one is what
keeps it out. -/

/-- What passes the first comparison has neither of the two bits. -/
theorem sizeCheck_bits {size : BitVec 64}
    (h : size &&& (BPF_RINGBUF_BUSY_BIT ||| BPF_RINGBUF_DISCARD_BIT).setWidth 64 = 0) :
    size.toNat / 2 ^ 30 % 2 = 0 ∧ size.toNat / 2 ^ 31 % 2 = 0 := by
  have hbits : ∀ i, ((BPF_RINGBUF_BUSY_BIT ||| BPF_RINGBUF_DISCARD_BIT).setWidth 64).getLsbD i = true →
      size.toNat / 2 ^ i % 2 = 0 := by
    intro i hi
    have hbit := congrArg (fun x => BitVec.getLsbD x i) h
    simp only [BitVec.getLsbD_and, hi, Bool.and_true] at hbit
    have hfalse : size.toNat.testBit i = false := by simpa [BitVec.testBit_toNat] using hbit
    rw [Nat.testBit_eq_decide_div_mod_eq, decide_eq_false_iff_not] at hfalse
    omega
  exact ⟨hbits 30 (by decide), hbits 31 (by decide)⟩

/-- Small sizes pass it. -/
theorem sizeCheck_small {size : BitVec 64} (h : size.toNat < 2 ^ 30) :
    size &&& (BPF_RINGBUF_BUSY_BIT ||| BPF_RINGBUF_DISCARD_BIT).setWidth 64 = 0 := by
  refine BitVec.eq_of_getLsbD_eq fun i hi => ?_
  have hmask : ∀ i < 30, ((BPF_RINGBUF_BUSY_BIT ||| BPF_RINGBUF_DISCARD_BIT).setWidth 64).getLsbD i = false := by decide
  rw [BitVec.getLsbD_and]
  by_cases hlow : i < 30
  · rw [hmask i hlow, Bool.and_false]
    simp
  · have hbit : size.toNat.testBit i = false :=
      Nat.testBit_lt_two_pow (Nat.lt_of_lt_of_le h (Nat.pow_le_pow_right (by decide) (by omega)))
    rw [BitVec.getLsbD, hbit, Bool.false_and]
    simp

/-- The size that `reserve` computes in 32 bits is the rounded one. -/
theorem totalSize_toNat {size : BitVec 64}
    (h : size &&& (BPF_RINGBUF_BUSY_BIT ||| BPF_RINGBUF_DISCARD_BIT).setWidth 64 = 0) :
    (Ringbuf.totalSize size).toNat = roundedSize size.toNat := by
  obtain ⟨h30, -⟩ := sizeCheck_bits h
  have hlt := size.isLt
  unfold Ringbuf.totalSize roundedSize BPF_RINGBUF_HDR_SZ
  have h7 : (7 : BitVec 64).toNat = 7 := rfl
  have h8 : (8 : BitVec 64).toNat = 8 := rfl
  simp only [BitVec.toNat_mul, BitVec.toNat_udiv, BitVec.toNat_add, BitVec.toNat_ofNat, h7, h8]
  omega

/-! ## Records in memory

Records lie one behind the other in a circle of `n` cells. A position is a number that only grows; its cell is the
remainder. `CellOf` says which cells a stretch of positions has, and `Laid` that the cells hold the header and the
content of each record in turn. -/

/-- A record at a position: its header, the pointer that was given out, and the data there. -/
structure Placed (cells : Nat → Byte) (n : Nat) (fd : BitVec 32) (pos : Nat) (r : Record) : Prop where
  small   : r.size < 2 ^ 30
  length  : r.content.length = r.size
  sample  : r.sample = (pos + BPF_RINGBUF_HDR_SZ) % n
  header  : load cells (pos % n) 4 = leBytes 4 (lenWord r.size r.status).toNat
  fd      : load cells (pos % n + 4) 4 = leBytes 4 fd.toNat
  content : load cells r.sample r.size = r.content

/-- The records lie one after the other from a position on. -/
def Laid (cells : Nat → Byte) (n : Nat) (fd : BitVec 32) : Nat → List Record → Prop
  | _, [] => True
  | pos, r :: records => Placed cells n fd pos r ∧ Laid cells n fd (pos + r.total) records

/-- The cells of the positions from `pos` on. -/
def CellOf (n pos length a : Nat) : Prop := ∃ i < length, a % n = (pos + i) % n

/-- No records, no space. -/
@[simp] theorem used_nil : used [] = 0 := rfl

/-- The first record and the rest. -/
@[simp] theorem used_cons (r : Record) (records : List Record) : used (r :: records) = r.total + used records := by
  simp [used]

/-- The space of two stretches. -/
@[simp] theorem used_append (records records' : List Record) :
    used (records ++ records') = used records + used records' := by
  simp [used]

/-- A record has room for its header and content, in whole words of eight bytes. -/
theorem total_bounds (r : Record) : BPF_RINGBUF_HDR_SZ + r.size ≤ r.total ∧ 8 ∣ r.total := by
  unfold Record.total roundedSize BPF_RINGBUF_HDR_SZ
  omega

/-- So records begin at multiples of eight. -/
theorem dvd_used (records : List Record) : 8 ∣ used records := by
  induction records with
  | nil => exact Nat.dvd_zero 8
  | cons r records ih =>
      rw [used_cons]
      exact Nat.dvd_add (total_bounds r).2 ih

section Memory

variable {cells cells' : Nat → Byte} {n pos : Nat} {fd : BitVec 32} {r r' : Record} {pre post records : List Record}

/-- A record stays where it is when its cells are not written. -/
theorem Placed.frame (h : Placed cells n fd pos r) (hsame : ∀ a, CellOf n pos r.total a → cells' a = cells a) :
    Placed cells' n fd pos r := by
  have htotal := (total_bounds r).1
  unfold BPF_RINGBUF_HDR_SZ at htotal
  refine ⟨h.small, h.length, h.sample, ?_, ?_, ?_⟩
  · rw [← h.header]
    refine load_congr fun i hi => hsame _ ⟨i, by omega, ?_⟩
    rw [Nat.mod_add_mod]
  · rw [← h.fd]
    refine load_congr fun i hi => hsame _ ⟨4 + i, by omega, ?_⟩
    rw [Nat.add_assoc, Nat.mod_add_mod]
  · rw [← h.content]
    refine load_congr fun i hi => hsame _ ⟨8 + i, by omega, ?_⟩
    rw [h.sample, Nat.mod_add_mod, Nat.add_assoc]
    rfl

/-- The same for a stretch of records. -/
theorem Laid.frame (h : Laid cells n fd pos records)
    (hsame : ∀ a, CellOf n pos (used records) a → cells' a = cells a) : Laid cells' n fd pos records := by
  induction records generalizing pos with
  | nil => trivial
  | cons r records ih =>
      rw [used_cons] at hsame
      refine ⟨h.1.frame ?_, ih h.2 ?_⟩
      · rintro a ⟨i, hi, ha⟩
        exact hsame a ⟨i, by omega, ha⟩
      · rintro a ⟨i, hi, ha⟩
        exact hsame a ⟨r.total + i, by omega, by rw [ha, Nat.add_assoc]⟩

/-- A stretch is laid out when its first part is, and the rest behind it. -/
theorem laid_append :
    Laid cells n fd pos (pre ++ records) ↔ Laid cells n fd pos pre ∧ Laid cells n fd (pos + used pre) records := by
  induction pre generalizing pos with
  | nil => simp [Laid]
  | cons r pre ih => rw [List.cons_append, Laid, Laid, ih, used_cons, Nat.add_assoc, and_assoc]

/-- A store leaves the cells of other positions of the window. -/
theorem store_frame {c q a length : Nat} {xs : List Byte} (ha : a % n = q % n) (hpos : c ≤ pos)
    (hpos' : pos + length ≤ c + n) (hq : c ≤ q) (hq' : q + xs.length ≤ c + n)
    (hapart : q + xs.length ≤ pos ∨ pos + length ≤ q) {b : Nat} (hb : CellOf n pos length b) :
    store cells a xs b = cells b := by
  obtain ⟨i, hi, hb⟩ := hb
  refine store_out ?_
  by_contra hin
  obtain ⟨j, rfl⟩ := Nat.exists_eq_add_of_le (show a ≤ b by omega)
  have heq : (q + j) % n = (pos + i) % n := by
    rw [← hb, Nat.add_mod, ← ha, ← Nat.add_mod]
  have := mod_inj (c := c) (by omega) (by omega) (by omega) (by omega) heq
  omega

/-- **What is written for one record leaves the others.** -/
theorem Laid.store {a q : Nat} {xs : List Byte} (h : Laid cells n fd pos (pre ++ r :: post))
    (hroom : used (pre ++ r :: post) ≤ n) (htotal : r'.total = r.total) (ha : a % n = q % n) (hq : pos + used pre ≤ q)
    (hq' : q + xs.length ≤ pos + used pre + r.total)
    (hplaced : Placed (Lib.Memory.store cells a xs) n fd (pos + used pre) r') :
    Laid (Lib.Memory.store cells a xs) n fd pos (pre ++ r' :: post) := by
  rw [used_append, used_cons] at hroom
  obtain ⟨hpre, -, hpost⟩ := laid_append.mp h
  refine laid_append.mpr ⟨?_, hplaced, ?_⟩
  · refine hpre.frame fun b hb => store_frame (c := pos) ha (Nat.le_refl _) ?_ ?_ ?_ ?_ hb <;> omega
  · rw [htotal]
    refine hpost.frame fun b hb => store_frame (c := pos) ha ?_ ?_ ?_ ?_ ?_ hb <;> omega

end Memory

/-- What `consume` takes off. -/
theorem consume_used (pre post : List Record) : consume (used pre) (pre ++ post) = post := by
  induction pre with
  | nil =>
      cases post with
      | nil => rfl
      | cons r post =>
          have htotal := (total_bounds r).1
          unfold BPF_RINGBUF_HDR_SZ at htotal
          rw [used_nil, List.nil_append, consume, if_neg (by omega)]
  | cons r pre ih => rw [List.cons_append, consume, used_cons, if_pos (Nat.le_add_right _ _), Nat.add_sub_cancel_left, ih]

/-! ## Sessions

A session has the ring buffer of the code and, beside it, the queue of the records that are not consumed yet. `Holds`
ties the two: the positions of the header are the sums over the queue, the queue fits, and the area holds its records.
-/

/-- The memory of a session: the records are laid from the consumer's position on. -/
structure RingSession.Holds (k : Nat) (s : RingSession) : Prop where
  maxEnt   : s.rb.maxEnt.toNat = 2 ^ k
  size     : s.rb.data.size = 2 * 2 ^ k
  consumer : s.rb.consumerPos = BitVec.ofNat 64 s.consumed
  producer : s.rb.producerPos = BitVec.ofNat 64 (s.consumed + used s.pending)
  aligned  : 8 ∣ s.consumed
  room     : used s.pending ≤ 2 ^ k
  laid     : Laid s.rb.data.cells (2 ^ k) s.selfFd s.consumed s.pending

/-- Masking a position gives its cell. -/
theorem Ringbuf.place_ofNat {k : Nat} {rb : Ringbuf} (hmax : rb.maxEnt.toNat = 2 ^ k) (p : Nat) :
    rb.place (BitVec.ofNat 64 p) = p % 2 ^ k := by
  have hlt := rb.maxEnt.isLt
  have hpos := Nat.two_pow_pos k
  have hone : (1 : BitVec 32).toNat = 1 := rfl
  have hk : k < 32 := by
    rw [hmax] at hlt
    exact (Nat.pow_lt_pow_iff_right (by decide)).mp hlt
  have hmask : (rb.mask.setWidth 64).toNat = 2 ^ k - 1 := by
    rw [BitVec.toNat_setWidth, Ringbuf.mask, BitVec.toNat_sub, hmax, hone]
    omega
  rw [Ringbuf.place, toNat_and_mask hmask, counter_mod (by omega)]

/-- A record that an operation names is one of the pending ones. -/
theorem held_split {s : RingSession} {i : Nat} {r : Record} (h : s.held i = some r) :
    r.status = .busy ∧ ∃ pre post, s.pending = pre ++ r :: post ∧ ∀ r', s.pending.set i r' = pre ++ r' :: post := by
  obtain ⟨hget, hbusy⟩ := Option.filter_eq_some_iff.mp h
  obtain ⟨hi, rfl⟩ := List.getElem?_eq_some_iff.mp hget
  refine ⟨by simpa using hbusy, s.pending.take i, s.pending.drop (i + 1), ?_, fun r' => ?_⟩
  · rw [List.getElem_cons_drop, List.take_append_drop]
  · rw [List.set_eq_take_append_cons_drop, if_pos hi]

section Operations

variable {k : Nat} {s : RingSession} (h : s.Holds k)
include h

/-- Where there is room for a record, there is room for its header at every place. -/
theorem eight_le {total : Nat} (htotal : 8 ≤ total) (hroom : total ≤ 2 ^ k) (p : Nat) :
    p % 2 ^ k + 8 ≤ s.rb.data.size := by
  have hlt := Nat.mod_lt p (Nat.two_pow_pos k)
  rw [h.size]
  omega

/-- The difference of the two counters is the space of the pending records, though both wrap at `2 ^ 64`. -/
theorem used_toNat : (s.rb.producerPos - s.rb.consumerPos).toNat = used s.pending := by
  have hroom := h.room
  have hpow : 2 ^ k < 2 ^ 32 := by
    rw [← h.maxEnt]
    exact s.rb.maxEnt.isLt
  rw [h.producer, h.consumer]
  exact counter_sub (by omega)

/-- So `avail_size` is what is free. -/
theorem availSize_toNat : s.rb.availSize.toNat = 2 ^ k - used s.pending := by
  have hroom := h.room
  have hpow : 2 ^ k < 2 ^ 32 := by
    rw [← h.maxEnt]
    exact s.rb.maxEnt.isLt
  rw [Ringbuf.availSize, BitVec.toNat_sub, used_toNat h, BitVec.toNat_setWidth, h.maxEnt]
  omega

/-- The tests of `reserve` are those of the queue. -/
theorem reserve_checks (size : BitVec 64) :
    (∃ e, reserveRecord s.rb.maxEnt.toNat s.consumed s.pending size.toNat = .error e ∧
      s.rb.reserve size s.selfFd = some (.error e, s.rb)) ∨
    (size.toNat < 2 ^ 30 ∧ used s.pending + roundedSize size.toNat ≤ 2 ^ k ∧
      (Ringbuf.totalSize size).toNat = roundedSize size.toNat ∧
      reserveRecord s.rb.maxEnt.toNat s.consumed s.pending size.toNat =
        .ok ((s.consumed + used s.pending + BPF_RINGBUF_HDR_SZ) % 2 ^ k) ∧
      s.rb.reserve size s.selfFd = (do
        let rb' ← s.rb.store32 ((s.consumed + used s.pending) % 2 ^ k) (lenWord size.toNat .busy)
        let rb' ← rb'.store32 ((s.consumed + used s.pending) % 2 ^ k + 4) s.selfFd
        return (.ok ((s.consumed + used s.pending + BPF_RINGBUF_HDR_SZ) % 2 ^ k),
          { rb' with producerPos := s.rb.producerPos + Ringbuf.totalSize size }))) := by
  have hpow : 2 ^ k < 2 ^ 32 := by
    rw [← h.maxEnt]
    exact s.rb.maxEnt.isLt
  have hmax : (s.rb.maxEnt.setWidth 64).toNat = 2 ^ k := by
    rw [BitVec.toNat_setWidth, h.maxEnt]
    exact Nat.mod_eq_of_lt (Nat.lt_trans hpow (by decide))
  by_cases hbits : size &&& (BPF_RINGBUF_BUSY_BIT ||| BPF_RINGBUF_DISCARD_BIT).setWidth 64 = 0
  · have htotal := totalSize_toNat hbits
    -- a size from `2 ^ 30` on that passes the bit test is larger than any capacity
    have hlarge : 2 ^ 30 ≤ size.toNat → 2 ^ k < roundedSize size.toNat := by
      intro hle
      obtain ⟨h30, h31⟩ := sizeCheck_bits hbits
      unfold roundedSize BPF_RINGBUF_HDR_SZ
      omega
    -- the code compares with the capacity first, and with the free space after that
    by_cases hbig : 2 ^ k < roundedSize size.toNat
    · refine Or.inl ⟨.e2big, if_pos (Or.inr (by rw [h.maxEnt]; exact hbig)), ?_⟩
      rw [Ringbuf.reserve, if_neg (not_not.mpr hbits), if_pos]
      rw [BitVec.lt_def, hmax, htotal]
      exact hbig
    · have hfirst : ¬ (2 ^ 30 ≤ size.toNat ∨ s.rb.maxEnt.toNat < roundedSize size.toNat) := by
        rw [h.maxEnt]
        exact not_or.mpr ⟨fun hle => hbig (hlarge hle), hbig⟩
      have hcode : ¬ s.rb.maxEnt.setWidth 64 < Ringbuf.totalSize size := by
        rw [BitVec.lt_def, hmax, htotal]
        exact hbig
      by_cases hfull : 2 ^ k < used s.pending + roundedSize size.toNat
      · refine Or.inl ⟨.enospc, ?_, ?_⟩
        · rw [reserveRecord, if_neg hfirst, if_pos (by rw [h.maxEnt]; exact hfull)]
        · rw [Ringbuf.reserve, if_neg (not_not.mpr hbits), if_neg hcode, if_pos]
          rw [BitVec.lt_def, availSize_toNat h, htotal]
          have := h.room
          omega
      · refine Or.inr ⟨Nat.lt_of_not_le fun hle => hbig (hlarge hle), Nat.le_of_not_lt hfull, htotal, ?_, ?_⟩
        · rw [reserveRecord, if_neg hfirst, if_neg (by rw [h.maxEnt]; exact hfull), h.maxEnt]
        · have hroom : ¬ s.rb.availSize < Ringbuf.totalSize size := by
            rw [BitVec.lt_def, availSize_toNat h, htotal]
            omega
          -- the length word that `reserve` writes: the size cut to 32 bits, busy
          have hword : (size ||| BPF_RINGBUF_BUSY_BIT.setWidth 64).setWidth 32 = lenWord size.toNat .busy := by
            rw [BitVec.setWidth_or, lenWord, BitVec.ofNat_toNat, BitVec.setWidth_setWidth_of_le _ (by decide),
              BitVec.setWidth_eq]
          rw [Ringbuf.reserve, if_neg (not_not.mpr hbits), if_neg hcode, if_neg hroom, hword]
          dsimp only
          rw [h.producer, Ringbuf.place_ofNat h.maxEnt, ← BitVec.ofNat_add, Ringbuf.place_ofNat h.maxEnt]
  · refine Or.inl ⟨.e2big, if_pos (Or.inl ?_), if_pos hbits⟩
    exact Nat.le_of_not_lt fun hlt => hbits (sizeCheck_small hlt)

/-- A record reserved after the others. -/
theorem apply_reserve (size : BitVec 64) :
    ∃ r s', s.reserve size = some ((r, r), s') ∧ s'.Holds k ∧
      (s' = s ∨ ∃ record, record.size = size.toNat ∧ record.status = .busy ∧ s'.consumed = s.consumed ∧
        s'.selfFd = s.selfFd ∧ s'.pending = s.pending ++ [record]) := by
  rcases reserve_checks h size with ⟨e, hqueue, hcode⟩ | ⟨hsmall, hroom, htotal, hqueue, hcode⟩
  · refine ⟨.reserved (.error e), s, ?_, h, Or.inl rfl⟩
    rw [RingSession.reserve, hqueue, hcode]
    rfl
  · generalize hpos : s.consumed + used s.pending = pos at hqueue hcode
    -- what is written: the two words of the header, at the producer's position
    let word := leBytes 4 (lenWord size.toNat .busy).toNat
    let fd := leBytes 4 s.selfFd.toNat
    let cells := store (store s.rb.data.cells (pos % 2 ^ k) word) (pos % 2 ^ k + 4) fd
    let sample := (pos + BPF_RINGBUF_HDR_SZ) % 2 ^ k
    let rb : Ringbuf := { s.rb with
      data := ⟨s.rb.data.size, cells⟩, producerPos := s.rb.producerPos + Ringbuf.totalSize size }
    let record : Record := ⟨sample, size.toNat, load cells sample size.toNat, .busy⟩
    have hrecord : record.total = roundedSize size.toNat := rfl
    have hheader : 8 ≤ roundedSize size.toNat := by
      have := (total_bounds record).1
      unfold BPF_RINGBUF_HDR_SZ at this
      omega
    have hplace := eight_le h hheader (by omega) pos
    have hreserve : s.rb.reserve size s.selfFd = some (.ok sample, rb) := by
      rw [hcode, Ringbuf.store32, Buffer.write_eq (by rw [length_leBytes]; omega), Option.map_some, Option.bind_eq_bind,
        Option.bind_some, Ringbuf.store32, Buffer.write_eq (by rw [length_leBytes]; exact hplace), Option.map_some,
        Option.bind_some]
      rfl
    have hcells : cells = store s.rb.data.cells (pos % 2 ^ k) (word ++ fd) := by
      rw [store_append, length_leBytes]
    -- the content is what was in the area; only the header is new
    have hplaced : Placed cells (2 ^ k) s.selfFd pos record := by
      refine ⟨hsmall, length_load, rfl, ?_, ?_, rfl⟩
      · have hword := @load_store _ s.rb.data.cells (pos % 2 ^ k) word
        rw [length_leBytes] at hword
        rw [load_store_disjoint (Or.inl (Nat.le_refl _)), hword]
      · have hfd := @load_store _ (store s.rb.data.cells (pos % 2 ^ k) word) (pos % 2 ^ k + 4) fd
        rwa [length_leBytes] at hfd
    refine ⟨.reserved (.ok sample), ⟨rb, s.selfFd, s.consumed, s.pending ++ [record]⟩, ?_, ?_,
      Or.inr ⟨record, rfl, rfl, rfl, rfl, rfl⟩⟩
    · rw [RingSession.reserve, hreserve, hqueue]
      rfl
    · refine ⟨h.maxEnt, h.size, h.consumer, ?_, h.aligned, ?_, ?_⟩
      · -- the producer's position moves by the record
        change s.rb.producerPos + Ringbuf.totalSize size = BitVec.ofNat 64 (s.consumed + used (s.pending ++ [record]))
        have hwide : Ringbuf.totalSize size = BitVec.ofNat 64 (roundedSize size.toNat) := by
          rw [← htotal, BitVec.ofNat_toNat, BitVec.setWidth_eq]
        rw [h.producer, used_append, used_cons, used_nil, Nat.add_zero, hrecord, ← Nat.add_assoc, hwide,
          ← BitVec.ofNat_add]
      · -- it fits
        rw [used_append, used_cons, used_nil, Nat.add_zero, hrecord]
        exact hroom
      · -- the new record lies behind the others, whose cells are not written
        refine laid_append.mpr ⟨h.laid.frame fun b hb => ?_, by rw [hpos]; exact hplaced, trivial⟩
        change cells b = _
        rw [hcells]
        refine store_frame (c := s.consumed) (q := pos) (Nat.mod_mod _ _) (Nat.le_refl _) ?_ ?_ ?_ ?_ hb
        · omega
        · omega
        · rw [List.length_append, length_leBytes, length_leBytes]
          omega
        · exact Or.inr (Nat.le_of_eq hpos)

/-- A record replaced by one of its size, when what is written belongs to it. -/
theorem replace_holds {pre post : List Record} {r r' : Record} (hpending : s.pending = pre ++ r :: post)
    {a q : Nat} {xs : List Byte} (htotal : r'.total = r.total) (ha : a % 2 ^ k = q % 2 ^ k)
    (hq : s.consumed + used pre ≤ q) (hq' : q + xs.length ≤ s.consumed + used pre + r.total)
    (hplaced : Placed (store s.rb.data.cells a xs) (2 ^ k) s.selfFd (s.consumed + used pre) r') :
    RingSession.Holds k { s with
      rb := { s.rb with data := { s.rb.data with cells := store s.rb.data.cells a xs } }
      pending := pre ++ r' :: post } := by
  have hlaid := h.laid
  have hroom := h.room
  have hused : used s.pending = used (pre ++ r' :: post) := by
    rw [hpending, used_append, used_append, used_cons, used_cons, htotal]
  rw [hpending] at hlaid hroom
  refine ⟨h.maxEnt, h.size, h.consumer, ?_, h.aligned, ?_, hlaid.store hroom htotal ha hq hq' hplaced⟩
  · exact h.producer.trans (by rw [hused])
  · exact Nat.le_trans (Nat.le_of_eq hused.symm) h.room

/-- A record among the pending ones, where it lies. -/
theorem placed_pending {pre post : List Record} {r : Record} (hpending : s.pending = pre ++ r :: post) :
    Placed s.rb.data.cells (2 ^ k) s.selfFd (s.consumed + used pre) r ∧ r.sample < 2 ^ k ∧
      BPF_RINGBUF_HDR_SZ + r.size ≤ r.total ∧ used pre + r.total ≤ 2 ^ k := by
  have hlaid := h.laid
  have hroom := h.room
  rw [hpending] at hlaid hroom
  rw [used_append, used_cons] at hroom
  have hr := (laid_append.mp hlaid).2.1
  refine ⟨hr, ?_, (total_bounds r).1, by omega⟩
  rw [hr.sample]
  exact Nat.mod_lt _ (Nat.two_pow_pos k)

/-- A producer writes to the data of its record. -/
theorem apply_write (i offset : Nat) (bytes : List Byte) :
    ∃ s', s.write i offset bytes = some ((.done, .done), s') ∧ s'.Holds k ∧
      (s' = s ∨ ∃ r, s.held i = some r ∧ s'.consumed = s.consumed ∧ s'.selfFd = s.selfFd ∧
        s'.pending = s.pending.set i (r.write offset bytes)) := by
  unfold RingSession.write
  cases hheld : s.held i with
  | none => exact ⟨s, rfl, h, Or.inl rfl⟩
  | some r =>
      obtain ⟨hbusy, pre, post, hpending, hset⟩ := held_split hheld
      obtain ⟨hr, hsample, htotal, hroom⟩ := placed_pending h hpending
      unfold BPF_RINGBUF_HDR_SZ at htotal
      by_cases hinside : offset + bytes.length ≤ r.size
      · let data : Buffer Byte := { s.rb.data with cells := store s.rb.data.cells (r.sample + offset) bytes }
        have hwrite : s.rb.data.write (r.sample + offset) bytes = some data := by
          refine Buffer.write_eq ?_
          rw [h.size]
          omega
        -- the position of the first byte
        have hcell : (r.sample + offset) % 2 ^ k = (s.consumed + used pre + (8 + offset)) % 2 ^ k := by
          rw [hr.sample, Nat.mod_add_mod, Nat.add_assoc]
          rfl
        have hframe : ∀ {b}, CellOf (2 ^ k) (s.consumed + used pre) 8 b → data.cells b = s.rb.data.cells b := by
          intro b hb
          refine store_frame (c := s.consumed + used pre) hcell (Nat.le_refl _) ?_ (Nat.le_add_right _ _) ?_
            (Or.inr ?_) hb <;> omega
        have hplaced : Placed data.cells (2 ^ k) s.selfFd (s.consumed + used pre) (r.write offset bytes) := by
          refine ⟨hr.small, ?_, hr.sample, ?_, ?_, ?_⟩
          · simp only [Record.write, List.length_append, List.length_take, List.length_drop, hr.length]
            omega
          · refine Eq.trans (load_congr fun j hj => hframe ⟨j, by omega, ?_⟩) hr.header
            rw [Nat.mod_add_mod]
          · refine Eq.trans (load_congr fun j hj => hframe ⟨4 + j, by omega, ?_⟩) hr.fd
            rw [Nat.add_assoc, Nat.mod_add_mod]
          · change load data.cells r.sample r.size = _
            rw [load_store_inside hinside, hr.content]
            rfl
        refine ⟨{ s with rb := { s.rb with data := data }, pending := s.pending.set i (r.write offset bytes) }, ?_, ?_,
          Or.inr ⟨r, rfl, rfl, rfl, rfl⟩⟩
        · simp only [if_pos hinside, hwrite]
          rfl
        · rw [hset]
          refine replace_holds h hpending rfl hcell ?_ ?_ hplaced <;> omega
      · exact ⟨s, if_neg hinside, h, Or.inl rfl⟩

omit h in
/-- A word of the header, read back. -/
theorem load32_eq {a : Nat} {x : BitVec 32} (hload : load s.rb.data.cells a 4 = leBytes 4 x.toNat)
    (hinside : a + 4 ≤ s.rb.data.size) : s.rb.load32 a = some x := by
  rw [Ringbuf.load32, Buffer.read_eq hinside, hload, Option.map_some, ofNat_leBytes]

/-- `submit` finds the header of the record whose pointer it gets, and writes its length word. -/
theorem submit_eq {pre post : List Record} {r : Record} (hpending : s.pending = pre ++ r :: post)
    (hbusy : r.status = .busy) (discard : Bool) :
    s.rb.submit r.sample discard = some { s.rb with data := { s.rb.data with
      cells := store s.rb.data.cells ((s.consumed + used pre) % 2 ^ k)
        (leBytes 4 (lenWord r.size (r.finish discard).status).toNat) } } := by
  obtain ⟨hr, hsample, htotal, hroom⟩ := placed_pending h hpending
  unfold BPF_RINGBUF_HDR_SZ at htotal
  have hplace := eight_le h (show 8 ≤ r.total by omega) (by omega) (s.consumed + used pre)
  -- back from the data to the header
  have hback : s.rb.place ((s.rb.mask + 1).setWidth 64 + BitVec.ofNat 64 r.sample -
      BitVec.ofNat 64 BPF_RINGBUF_HDR_SZ) = (s.consumed + used pre) % 2 ^ k := by
    have hwide : (s.rb.mask + 1).setWidth 64 = BitVec.ofNat 64 (2 ^ k) := by
      rw [Ringbuf.mask, sub_add_cancel, ← h.maxEnt, BitVec.ofNat_toNat]
    have hnat : (BitVec.ofNat 64 (2 ^ k) + BitVec.ofNat 64 r.sample - BitVec.ofNat 64 BPF_RINGBUF_HDR_SZ) =
        BitVec.ofNat 64 (2 ^ k - 8 + r.sample) := by
      rw [← BitVec.ofNat_add, show 2 ^ k + r.sample = 2 ^ k - 8 + r.sample + BPF_RINGBUF_HDR_SZ by
        unfold BPF_RINGBUF_HDR_SZ; omega, BitVec.ofNat_add _ BPF_RINGBUF_HDR_SZ, add_sub_cancel_right]
    rw [hwide, hnat, Ringbuf.place_ofNat h.maxEnt, hr.sample, Nat.add_mod_mod]
    unfold BPF_RINGBUF_HDR_SZ
    rw [show 2 ^ k - 8 + (s.consumed + used pre + 8) = s.consumed + used pre + 2 ^ k by omega, Nat.add_mod_right]
  have hlen := load32_eq hr.header (by omega)
  rw [hbusy] at hlen
  unfold Ringbuf.submit
  dsimp only
  rw [hback, hlen, Option.bind_eq_bind, Option.bind_some, lenWord_finish hr.small, Ringbuf.store32,
    Buffer.write_eq (by rw [length_leBytes]; omega), Option.map_some]
  rfl

/-- The session after a record was submitted. -/
theorem finish_holds {pre post : List Record} {r : Record} (hpending : s.pending = pre ++ r :: post) (discard : Bool) :
    RingSession.Holds k { s with
      rb := { s.rb with data := { s.rb.data with
        cells := store s.rb.data.cells ((s.consumed + used pre) % 2 ^ k)
          (leBytes 4 (lenWord r.size (r.finish discard).status).toNat) } }
      pending := pre ++ r.finish discard :: post } := by
  obtain ⟨hr, hsample, htotal, hroom⟩ := placed_pending h hpending
  unfold BPF_RINGBUF_HDR_SZ at htotal
  have hcell : (s.consumed + used pre) % 2 ^ k % 2 ^ k = (s.consumed + used pre) % 2 ^ k := Nat.mod_mod _ _
  refine replace_holds h hpending rfl hcell (Nat.le_refl _) (by rw [length_leBytes]; omega) ?_
  refine ⟨hr.small, hr.length, hr.sample, ?_, ?_, ?_⟩
  · -- the length word is the new one
    have hword := @load_store _ s.rb.data.cells ((s.consumed + used pre) % 2 ^ k)
      (leBytes 4 (lenWord r.size (r.finish discard).status).toNat)
    rwa [length_leBytes] at hword
  · -- the fd beside it is not touched
    rw [load_store_disjoint (Or.inr (by rw [length_leBytes]))]
    exact hr.fd
  · -- nor is the content
    refine Eq.trans (load_congr fun j hj => ?_) hr.content
    have hdata : CellOf (2 ^ k) (s.consumed + used pre + 8) r.size (r.sample + j) := by
      refine ⟨j, hj, ?_⟩
      rw [hr.sample, Nat.mod_add_mod]
      rfl
    exact store_frame (c := s.consumed + used pre) hcell (Nat.le_add_right _ _) (by omega) (Nat.le_refl _)
      (by rw [length_leBytes]; omega) (Or.inl (by rw [length_leBytes]; omega)) hdata

/-- `submit` of an open record changes its status alone, and of anything else nothing. -/
theorem apply_submit (i : Nat) (discard : Bool) :
    ∃ s', s.submit i discard = some ((.done, .done), s') ∧ s'.Holds k ∧
      (s' = s ∨ ∃ r, s.held i = some r ∧ s'.consumed = s.consumed ∧ s'.selfFd = s.selfFd ∧
        s'.pending = s.pending.set i (r.finish discard)) := by
  unfold RingSession.submit
  cases hheld : s.held i with
  | none => exact ⟨s, rfl, h, Or.inl rfl⟩
  | some r =>
      obtain ⟨hbusy, pre, post, hpending, hset⟩ := held_split hheld
      refine ⟨_, ?_, finish_holds h hpending discard, Or.inr ⟨r, rfl, rfl, rfl, (hset _).symm⟩⟩
      simp only [submit_eq h hpending hbusy, hset]
      rfl

/-- Headers do not go past the end of the area, and the data comes after its header or at the start of the area. -/
theorem sample_cases {pre post : List Record} {r : Record} (hpending : s.pending = pre ++ r :: post) :
    r.sample = 0 ∨ r.sample = (s.consumed + used pre) % 2 ^ k + BPF_RINGBUF_HDR_SZ := by
  obtain ⟨hr, hsample, htotal, hroom⟩ := placed_pending h hpending
  unfold BPF_RINGBUF_HDR_SZ at *
  have hpow : 2 ^ 3 ≤ 2 ^ k := by omega
  have hdvd : 8 ∣ 2 ^ k := Nat.pow_dvd_pow 2 ((Nat.pow_le_pow_iff_right (by decide)).mp hpow)
  have hpos : 8 ∣ (s.consumed + used pre) % 2 ^ k :=
    (Nat.dvd_mod_iff hdvd).mpr (Nat.dvd_add h.aligned (dvd_used pre))
  have hlt := Nat.mod_lt (s.consumed + used pre) (Nat.two_pow_pos k)
  -- only a header in the last eight bytes has its content at the beginning
  by_cases hlast : (s.consumed + used pre) % 2 ^ k + 8 < 2 ^ k
  · right
    rw [hr.sample]
    exact mod_add_low hlast
  · left
    rw [hr.sample]
    change (s.consumed + used pre + 8) % 2 ^ k = 0
    rw [mod_add_high (by omega) (by omega)]
    omega

/-- The descriptor that the helpers find is that of the map, except where the header is at the end of the area. -/
theorem fdBefore_eq {pre post : List Record} {r : Record} (hpending : s.pending = pre ++ r :: post) :
    s.rb.fdBefore r.sample = some (if r.sample = 0 then 0 else s.selfFd) := by
  obtain ⟨hr, hsample, htotal, hroom⟩ := placed_pending h hpending
  have hcases := sample_cases h hpending
  unfold BPF_RINGBUF_HDR_SZ at *
  have hplace := eight_le h (show 8 ≤ r.total by omega) (by omega) (s.consumed + used pre)
  unfold Ringbuf.fdBefore
  split
  · rfl
  · rename_i hne
    have hbefore : r.sample - 4 = (s.consumed + used pre) % 2 ^ k + 4 := by omega
    rw [hbefore]
    exact load32_eq hr.fd (by omega)

/-- `bpf_ringbuf_submit` finds the ring by the fd in the header. For a content at the beginning of the area it looks in
    front of the area, where the fd is zero. -/
theorem apply_bpfSubmit (i : Nat) (discard : Bool) :
    (s.held i = none ∧ s.bpfSubmit i discard = some ((.done, .done), s)) ∨
      ∃ r, s.held i = some r ∧ ∃ ours s', ours = decide ((if r.sample = 0 then 0 else s.selfFd) = s.selfFd) ∧
        s.bpfSubmit i discard = some ((.found ours, .found true), s') ∧ s'.Holds k ∧
        s'.consumed = s.consumed ∧ s'.selfFd = s.selfFd ∧
        s'.pending = if ours then s.pending.set i (r.finish discard) else s.pending := by
  unfold RingSession.bpfSubmit Ringbuf.bpfSubmit
  cases hheld : s.held i with
  | none => exact Or.inl ⟨rfl, rfl⟩
  | some r =>
      obtain ⟨hbusy, pre, post, hpending, hset⟩ := held_split hheld
      right
      -- the fd it reads is the session's, unless the content is at the beginning
      refine ⟨r, rfl, ?_⟩
      simp only [fdBefore_eq h hpending, Option.bind_eq_bind, Option.bind_some]
      by_cases hfd : (if r.sample = 0 then 0 else s.selfFd) = s.selfFd
      · refine ⟨true, _, (decide_eq_true hfd).symm, ?_, finish_holds h hpending discard, rfl, rfl, (hset _).symm⟩
        simp only [hfd, if_true, submit_eq h hpending hbusy, hset]
        rfl
      · refine ⟨false, s, (decide_eq_false hfd).symm, ?_, h, rfl, rfl, rfl⟩
        simp only [hfd, if_false]
        rfl

/-! ## The consumer

`fetch_data` goes from the consumer's position on, past all records that are finished, and gives those to the callback
that are not discarded. It stops at a record that is open. -/

/-- The ring buffer when these records were consumed. -/
def Ringbuf.after (rb : Ringbuf) (pos : Nat) : Ringbuf := { rb with consumerPos := BitVec.ofNat 64 pos }

/-- The session when the consumer moved past the first records. -/
theorem moved_holds {pre post : List Record} (hpending : s.pending = pre ++ post) :
    s.moved (s.rb.after (s.consumed + used pre)) =
      { s with rb := s.rb.after (s.consumed + used pre), consumed := s.consumed + used pre, pending := post } ∧
    RingSession.Holds k
      { s with rb := s.rb.after (s.consumed + used pre), consumed := s.consumed + used pre, pending := post } := by
  have hroom := h.room
  have hlaid := h.laid
  have hpow : 2 ^ k < 2 ^ 32 := by
    rw [← h.maxEnt]
    exact s.rb.maxEnt.isLt
  rw [hpending] at hlaid hroom
  rw [used_append] at hroom
  -- the distance the consumer has moved, in the 64-bit counters
  have hbytes : ((s.rb.after (s.consumed + used pre)).consumerPos - s.rb.consumerPos).toNat = used pre := by
    rw [h.consumer]
    exact counter_sub (by omega)
  refine ⟨?_, h.maxEnt, h.size, rfl, ?_, Nat.dvd_add h.aligned (dvd_used pre), ?_, (laid_append.mp hlaid).2⟩
  · unfold RingSession.moved
    dsimp only
    rw [hbytes, hpending, consume_used]
  · refine h.producer.trans ?_
    rw [hpending, used_append, ← Nat.add_assoc]
  · exact Nat.le_trans (Nat.le_add_left _ _) hroom

/-- Moving the consumer to where it is. -/
theorem after_self : s.rb.after s.consumed = s.rb := by
  rw [Ringbuf.after, ← h.consumer]

/-- The header at the consumer's position. -/
theorem first_header {r : Record} {rest : List Record} (hpending : s.pending = r :: rest) :
    s.rb.place s.rb.consumerPos = s.consumed % 2 ^ k ∧
      s.rb.load32 (s.consumed % 2 ^ k) = some (lenWord r.size r.status) ∧
      s.rb.consumerPos + (Ringbuf.roundupLen (lenWord r.size r.status)).signExtend 64 =
        BitVec.ofNat 64 (s.consumed + used [r]) := by
  obtain ⟨hr, hsample, htotal, hroom⟩ := placed_pending h (show s.pending = [] ++ r :: _ from hpending)
  unfold BPF_RINGBUF_HDR_SZ at htotal
  rw [used_nil, Nat.zero_add] at hroom
  have hplace := eight_le h (show 8 ≤ r.total by omega) hroom s.consumed
  refine ⟨?_, load32_eq hr.header (by omega), ?_⟩
  · rw [h.consumer, Ringbuf.place_ofNat h.maxEnt]
  · rw [roundupLen_lenWord hr.small, h.consumer, ← BitVec.ofNat_add, used_cons, used_nil, Nat.add_zero]
    rfl

/-- One round of the loop in `fetch_data`: it stops at the producer and at an open record, and else goes past the first
    record. -/
theorem apply_advance :
    ∃ s', s.advance = some ((.done, .done), s') ∧ s'.Holds k ∧
      (s' = s ∨ ∃ r rest, s.pending = r :: rest ∧ r.status ≠ .busy ∧ s'.consumed = s.consumed + r.total ∧
        s'.selfFd = s.selfFd ∧ s'.pending = rest) := by
  -- where it stops the session is as before
  have hself : s.moved s.rb = s := by
    have hmoved := (moved_holds h (show s.pending = [] ++ s.pending from rfl)).1
    rwa [used_nil, Nat.add_zero, after_self h] at hmoved
  unfold RingSession.advance Ringbuf.advance
  -- equal counters mean an empty queue: it never holds as much as wraps
  by_cases hempty : s.rb.consumerPos = s.rb.producerPos
  · refine ⟨s, ?_, h, Or.inl rfl⟩
    rw [if_pos hempty, Option.bind_eq_bind, Option.bind_some, hself]
    rfl
  · cases hpending : s.pending with
    | nil =>
        refine absurd ?_ hempty
        rw [h.consumer, h.producer, hpending, used_nil, Nat.add_zero]
    | cons r rest =>
        obtain ⟨hplace, hlen, hnext⟩ := first_header h hpending
        obtain ⟨hr, -⟩ := placed_pending h (show s.pending = [] ++ r :: _ from hpending)
        rw [if_neg hempty, hplace, hlen]
        by_cases hbusy : r.status = .busy
        · refine ⟨s, ?_, h, Or.inl rfl⟩
          simp only [Option.bind_eq_bind, Option.bind_some, (lenWord_busy hr.small r.status).mpr hbusy, ne_eq,
            not_false_eq_true, if_true, hself]
          rfl
        · obtain ⟨hmoved, hafter⟩ := moved_holds h (show s.pending = [r] ++ rest from hpending)
          refine ⟨_, ?_, hafter, Or.inr ⟨r, rest, rfl, hbusy, ?_, rfl, rfl⟩⟩
          · simp only [Option.bind_eq_bind, Option.bind_some, mt (lenWord_busy hr.small r.status).mp hbusy, if_false,
              hnext]
            rw [← hmoved]
            rfl
          · change s.consumed + used [r] = _
            rw [used_cons, used_nil, Nat.add_zero]

end Operations

/-- A delivered record's bytes, where the consumer looks for them, are those its producer wrote. -/
def InView (pending : List Record) : Prop := ∀ r ∈ pending, r.status = .submitted → r.sample ≠ 0 ∨ r.size = 0

/-- The inner loop consumes some of the records, and where the positions do not wrap and the data is in view it does
    what the queue does. -/
theorem fetchLoop_spec (cb : Nat → Int) {k : Nat} {s : RingSession} (h : s.Holds k) {rounds : Nat}
    (hrounds : used s.pending / 8 < rounds) (cnt : Nat) :
    ∃ samples ret pre post, s.pending = pre ++ post ∧
      Ringbuf.fetchLoop cb rounds cnt s.rb = some (samples, ret, s.rb.after (s.consumed + used pre)) ∧
      (s.consumed + used s.pending < 2 ^ 64 → InView s.pending →
        fetchRecords cb cnt s.pending = (samples, ret, post)) := by
  induction rounds generalizing s cnt with
  | zero => exact absurd hrounds (Nat.not_lt_zero _)
  | succ rounds ih =>
      have hself : s.rb.after (s.consumed + used []) = s.rb := by rw [used_nil, Nat.add_zero, after_self h]
      cases hpending : s.pending with
      | nil =>
          have hempty : ¬ s.rb.consumerPos < s.rb.producerPos := by
            rw [h.consumer, h.producer, hpending, used_nil, Nat.add_zero]
            exact BitVec.lt_irrefl _
          refine ⟨[], cnt, [], [], rfl, ?_, fun _ _ => rfl⟩
          rw [Ringbuf.fetchLoop, if_neg hempty, hself]
      | cons r rest =>
          obtain ⟨hplace, hlen, hnext⟩ := first_header h hpending
          obtain ⟨hr, hsample, htotal, hroom⟩ := placed_pending h (show s.pending = [] ++ r :: _ from hpending)
          obtain ⟨-, hmoved⟩ := moved_holds h (show s.pending = [r] ++ rest from hpending)
          rw [used_cons, used_nil, Nat.add_zero] at hmoved hnext
          rw [used_nil, Nat.add_zero] at hr
          rw [used_nil, Nat.zero_add] at hroom
          unfold BPF_RINGBUF_HDR_SZ at htotal
          rw [hpending, used_cons] at hrounds
          -- the session when the record is consumed
          obtain ⟨s', hrb, hconsumed, hrest, hafter⟩ : ∃ s' : RingSession,
              s'.rb = { s.rb with consumerPos := BitVec.ofNat 64 (s.consumed + r.total) } ∧
              s'.consumed = s.consumed + r.total ∧ s'.pending = rest ∧ s'.Holds k := ⟨_, rfl, rfl, rfl, hmoved⟩
          have hnextRb : ∀ pre, s'.rb.after (s'.consumed + used pre) = s.rb.after (s.consumed + used (r :: pre)) := by
            intro pre
            rw [hrb, hconsumed, used_cons, Nat.add_assoc]
            rfl
          have hwraps : s.consumed + used (r :: rest) < 2 ^ 64 → s'.consumed + used s'.pending < 2 ^ 64 := by
            rw [hconsumed, hrest, used_cons, Nat.add_assoc]
            exact id
          have hviews : InView (r :: rest) → InView s'.pending := by
            intro hview r' hr'
            rw [hrest] at hr'
            exact hview r' (List.mem_cons_of_mem r hr')
          by_cases hlt : s.rb.consumerPos < s.rb.producerPos
          swap
          · -- the producer's position has wrapped
            refine ⟨[], cnt, [], r :: rest, rfl, ?_, fun hwrap _ => absurd ?_ hlt⟩
            · rw [Ringbuf.fetchLoop, if_neg hlt, hself]
            · rw [used_cons] at hwrap
              rw [h.consumer, h.producer, hpending, used_cons, BitVec.lt_def, BitVec.toNat_ofNat, BitVec.toNat_ofNat,
                Nat.mod_eq_of_lt (by omega), Nat.mod_eq_of_lt hwrap]
              omega
          rw [Ringbuf.fetchLoop, if_pos hlt]
          dsimp only
          rw [hplace, hlen, Option.bind_eq_bind, Option.bind_some, hnext, ← hrb]
          cases hstatus : r.status with
          | busy =>
              refine ⟨[], cnt, [], r :: rest, rfl, ?_, fun _ _ => ?_⟩
              · rw [if_pos ((lenWord_busy hr.small _).mpr rfl), hself]
                rfl
              · rw [fetchRecords, hstatus]
          | discarded =>
              obtain ⟨samples, ret, pre, post, hsplit, hloop, hqueue⟩ := ih hafter (by rw [hrest]; omega) cnt
              refine ⟨samples, ret, r :: pre, post, ?_, ?_, fun hwrap hview => ?_⟩
              · rw [List.cons_append, ← hsplit, hrest]
              · rw [if_neg (mt (lenWord_busy hr.small _).mp (by decide)),
                  if_neg (mt (lenWord_discard hr.small _).mp (by decide)), hloop, hnextRb]
              · rw [fetchRecords, hstatus, ← hrest]
                exact hqueue (hwraps hwrap) (hviews hview)
          | submitted =>
              obtain ⟨sample, hread, hbytes⟩ : ∃ sample, s.rb.data.read (s.consumed % 2 ^ k + BPF_RINGBUF_HDR_SZ)
                  (lenWord r.size .submitted).toNat = some sample ∧ (InView (r :: rest) → sample = r.content) := by
                refine ⟨load s.rb.data.cells (s.consumed % 2 ^ k + BPF_RINGBUF_HDR_SZ) r.size, ?_, fun hview => ?_⟩
                · have hlt := Nat.mod_lt s.consumed (Nat.two_pow_pos k)
                  rw [lenWord, size_toNat32 hr.small, Buffer.read_eq]
                  rw [h.size]
                  unfold BPF_RINGBUF_HDR_SZ
                  omega
                · rcases hview r List.mem_cons_self hstatus with hne | hzero
                  · have hcases := sample_cases h (show s.pending = [] ++ r :: _ from hpending)
                    rw [used_nil, Nat.add_zero] at hcases
                    rw [← hcases.resolve_left hne]
                    exact hr.content
                  · rw [hzero, load_zero]
                    exact (List.length_eq_zero_iff.mp (hr.length.trans hzero)).symm
              rw [if_neg (mt (lenWord_busy hr.small _).mp (by decide)),
                if_pos ((lenWord_discard hr.small _).mpr (by decide)), hread, Option.bind_eq_bind, Option.bind_some]
              by_cases hcb : cb cnt < 0
              · refine ⟨[sample], cb cnt, [r], rest, rfl, ?_, fun _ hview => ?_⟩
                · have hone := hnextRb []
                  rw [used_nil, Nat.add_zero] at hone
                  rw [if_pos hcb, ← hone, after_self hafter]
                  rfl
                · rw [fetchRecords, hstatus]
                  simp only [if_pos hcb]
                  rw [hbytes hview]
              · obtain ⟨samples, ret, pre, post, hsplit, hloop, hqueue⟩ := ih hafter (by rw [hrest]; omega) (cnt + 1)
                refine ⟨sample :: samples, ret, r :: pre, post, ?_, ?_, fun hwrap hview => ?_⟩
                · rw [List.cons_append, ← hsplit, hrest]
                · rw [if_neg hcb, hloop, Option.bind_eq_bind, Option.bind_some, hnextRb]
                  rfl
                · have hafter' := hqueue (hwraps hwrap) (hviews hview)
                  rw [hrest] at hafter'
                  rw [fetchRecords, hstatus]
                  simp only [if_neg hcb]
                  rw [hafter', hbytes hview]

section Runs

variable {k : Nat} {s : RingSession}

/-- `fetch_data` consumes some of the records, and where the positions do not wrap and the data is in view it does what
    the queue does. -/
theorem apply_fetch (h : s.Holds k) (cb : Nat → Int) :
    ∃ code queue s', s.fetch cb = some ((code, queue), s') ∧ s'.Holds k ∧
      (∃ pre, s.pending = pre ++ s'.pending ∧ s'.consumed = s.consumed + used pre ∧ s'.selfFd = s.selfFd) ∧
      (s.consumed + used s.pending < 2 ^ 64 → InView s.pending → code = queue) := by
  obtain ⟨samples, ret, pre, post, hpending, hloop, hqueue⟩ :=
    fetchLoop_spec cb h (Nat.lt_succ_self (used s.pending / 8)) 0
  obtain ⟨hmoved, hafter⟩ := moved_holds h hpending
  refine ⟨.fetched samples ret post,
    .fetched (fetchRecords cb 0 s.pending).1 (fetchRecords cb 0 s.pending).2.1 (fetchRecords cb 0 s.pending).2.2,
    _, ?_, hafter, ⟨pre, hpending, rfl, rfl⟩, fun hwrap hview => ?_⟩
  · rw [RingSession.fetch, Ringbuf.fetchData, used_toNat h, hloop, Option.bind_eq_bind, Option.bind_some]
    dsimp only
    rw [hmoved]
    rfl
  · rw [hqueue hwrap hview]

/-- **Every operation keeps the space.** -/
theorem apply_holds (h : s.Holds k) (op : RingOp) : ∃ result s', s.apply op = some (result, s') ∧ s'.Holds k := by
  -- by the operation; each has its lemma above
  cases op with
  | reserve size =>
      obtain ⟨r, s', hrun, h', -⟩ := apply_reserve h size
      exact ⟨_, s', hrun, h'⟩
  | write i offset bytes =>
      obtain ⟨s', hrun, h', -⟩ := apply_write h i offset bytes
      exact ⟨_, s', hrun, h'⟩
  | submit i discard =>
      obtain ⟨s', hrun, h', -⟩ := apply_submit h i discard
      exact ⟨_, s', hrun, h'⟩
  | bpfSubmit i discard =>
      rcases apply_bpfSubmit h i discard with ⟨-, hrun⟩ | ⟨r, -, ours, s', -, hrun, h', -⟩
      · exact ⟨_, s, hrun, h⟩
      · exact ⟨_, s', hrun, h'⟩
  | advance =>
      obtain ⟨s', hrun, h', -⟩ := apply_advance h
      exact ⟨_, s', hrun, h'⟩
  | fetch cb =>
      obtain ⟨code, queue, s', hrun, h', -⟩ := apply_fetch h cb
      exact ⟨_, s', hrun, h'⟩

/-- A new ring buffer has its data area, if its size is below `2 ^ 31`. -/
theorem new_holds (hk : k < 31) (pageSize : PageSize) (selfFd : BitVec 32) :
    (RingSession.new pageSize (BitVec.ofNat 32 (2 ^ k)) selfFd).Holds k := by
  have hpow : 2 ^ k ≤ 2 ^ 30 := Nat.pow_le_pow_right (by decide) (Nat.le_of_lt_succ hk)
  have hpage := pageSize.le
  have htwo : (2 : BitVec 32).toNat = 2 := rfl
  have hmax : (BitVec.ofNat 32 (2 ^ k)).toNat = 2 ^ k := by
    rw [BitVec.toNat_ofNat]
    exact Nat.mod_eq_of_lt (Nat.lt_of_le_of_lt hpow (by decide))
  refine ⟨hmax, ?_, rfl, rfl, Nat.dvd_zero 8, Nat.zero_le _, trivial⟩
  change (BitVec.ofNat 32 (pageSize.bytes * 2) + BitVec.ofNat 32 (2 ^ k) * 2).toNat - pageSize.bytes * 2 = 2 * 2 ^ k
  rw [BitVec.toNat_add, BitVec.toNat_mul, hmax, htwo, BitVec.toNat_ofNat]
  omega

end Runs

/-! ## Space accounting

What a session that holds says of the ring buffer itself: the free space is counted right, records never overlap, and
finishing one record touches no other. -/

/-- The place of a record's header in a ring of `n` bytes. -/
def Record.header (n : Nat) (r : Record) : Nat := (r.sample + (n - BPF_RINGBUF_HDR_SZ)) % n

/-- The cells of a record, header and rounded data, modulo `n`. -/
def Record.Cell (n : Nat) (r : Record) (a : Nat) : Prop := CellOf n (r.header n) r.total a

/-- The positions and the regions of a session, and what `submit` does with the pointer of a record. -/
structure RingSession.SpaceKept (s : RingSession) : Prop where
  room     : (s.rb.producerPos - s.rb.consumerPos).toNat ≤ s.rb.maxEnt.toNat
  producer : 8 ∣ s.rb.producerPos.toNat
  consumer : 8 ∣ s.rb.consumerPos.toNat
  disjoint : s.pending.Pairwise fun r r' => ∀ a, ¬ (r.Cell s.rb.maxEnt.toNat a ∧ r'.Cell s.rb.maxEnt.toNat a)
  submit   : ∀ i r discard, s.held i = some r → ∃ rb' len len', s.rb.submit r.sample discard = some rb' ∧
    s.rb.load32 (r.header s.rb.maxEnt.toNat) = some len ∧ len &&& BPF_RINGBUF_BUSY_BIT ≠ 0 ∧
    rb'.load32 (r.header s.rb.maxEnt.toNat) = some len' ∧ len' &&& BPF_RINGBUF_BUSY_BIT = 0 ∧
    ∀ j r', j ≠ i → s.pending[j]? = some r' →
      rb'.load32 (r'.header s.rb.maxEnt.toNat) = s.rb.load32 (r'.header s.rb.maxEnt.toNat)

section Space

variable {cells : Nat → Byte} {n pos k : Nat} {fd : BitVec 32} {r r' : Record} {records : List Record} {s : RingSession}

/-- The header lies at the record's position. -/
theorem Placed.header_eq (h : Placed cells n fd pos r) (hn : BPF_RINGBUF_HDR_SZ ≤ n) : r.header n = pos % n := by
  rw [Record.header, h.sample, Nat.mod_add_mod, Nat.add_assoc, Nat.add_sub_cancel' hn, Nat.add_mod_right]

/-- The cells of the content are among those of the record. -/
theorem Placed.cell (h : Placed cells n fd pos r) (hn : BPF_RINGBUF_HDR_SZ ≤ n) {a : Nat} (ha : r.Cell n a) :
    CellOf n pos r.total a := by
  obtain ⟨i, hi, ha⟩ := ha
  refine ⟨i, hi, ?_⟩
  rw [ha, h.header_eq hn, Nat.mod_add_mod]

/-- Records that fit in one window have no cell in common. -/
theorem Laid.disjoint (h : Laid cells n fd pos records) (hroom : used records ≤ n) :
    records.Pairwise fun r r' => ∀ a, ¬ (r.Cell n a ∧ r'.Cell n a) := by
  induction records generalizing pos with
  | nil => exact List.Pairwise.nil
  | cons r records ih =>
      rw [used_cons] at hroom
      refine List.Pairwise.cons ?_ (ih h.2 (by omega))
      rintro r' hmem a ⟨ha, ha'⟩
      obtain ⟨pre, post, rfl⟩ := List.append_of_mem hmem
      have htotal := (total_bounds r).1
      have hr' := (laid_append.mp h.2).2.1
      rw [used_append, used_cons] at hroom
      obtain ⟨i, hi, ha⟩ := h.1.cell (by omega) ha
      obtain ⟨j, hj, ha'⟩ := hr'.cell (by omega) ha'
      -- two positions less than the whole circle apart have different cells
      have := mod_inj (c := pos) (by omega) (by omega) (by omega) (by omega) (ha.symm.trans ha')
      omega

/-- The length word of a pending record. -/
theorem load_header (h : s.Holds k) {i : Nat} (hr : s.pending[i]? = some r) :
    s.rb.load32 (r.header (2 ^ k)) = some (lenWord r.size r.status) ∧ r.size < 2 ^ 30 := by
  obtain ⟨hi, rfl⟩ := List.getElem?_eq_some_iff.mp hr
  have hpending : s.pending = s.pending.take i ++ s.pending[i] :: s.pending.drop (i + 1) := by
    rw [List.getElem_cons_drop, List.take_append_drop]
  obtain ⟨hr, hsample, htotal, hroom⟩ := placed_pending h hpending
  rw [hr.header_eq (by omega)]
  unfold BPF_RINGBUF_HDR_SZ at htotal
  have hplace := eight_le h (show 8 ≤ s.pending[i].total by omega) (by omega)
    (s.consumed + used (s.pending.take i))
  exact ⟨load32_eq hr.header (by omega), hr.small⟩

/-- **The records that are laid keep their space.** -/
theorem RingSession.Holds.spaceKept (h : s.Holds k) : s.SpaceKept := by
  have hdvd64 : ∀ p, 8 ∣ p → 8 ∣ (BitVec.ofNat 64 p).toNat := by
    intro p hp
    rw [BitVec.toNat_ofNat]
    exact (Nat.dvd_mod_iff (by decide)).mpr hp
  refine ⟨?_, ?_, ?_, ?_, ?_⟩
  · -- the records fit
    rw [used_toNat h, h.maxEnt]
    exact h.room
  · -- the producer's position is aligned
    rw [h.producer]
    exact hdvd64 _ (Nat.dvd_add h.aligned (dvd_used s.pending))
  · -- and the consumer's
    rw [h.consumer]
    exact hdvd64 _ h.aligned
  · -- no two records share a cell
    rw [h.maxEnt]
    exact h.laid.disjoint h.room
  · -- finishing a record clears its busy bit and leaves the length words of the others
    intro i r discard hheld
    obtain ⟨hbusy, pre, post, hpending, hset⟩ := held_split hheld
    have hget : s.pending[i]? = some r := (Option.filter_eq_some_iff.mp hheld).1
    obtain ⟨hlen, hsmall⟩ := load_header h hget
    have hfinish := finish_holds h hpending discard
    rw [← hset] at hfinish
    have hi := (List.getElem?_eq_some_iff.mp hget).1
    obtain ⟨hlen', -⟩ := load_header (i := i) (r := r.finish discard) hfinish
      (by rw [List.getElem?_set_self hi])
    rw [h.maxEnt]
    refine ⟨_, _, _, submit_eq h hpending hbusy discard, hlen, (lenWord_busy hsmall _).mpr hbusy, hlen', ?_, ?_⟩
    · refine not_not.mp (mt (lenWord_busy hsmall _).mp ?_)
      cases discard <;> simp [Record.finish]
    · intro j r' hj hr'
      rw [(load_header h hr').1]
      refine (load_header (i := j) hfinish ?_).1
      rw [List.getElem?_set_ne hj.symm]
      exact hr'

end Space

/-- At `2 ^ 31` the data area is empty, and the first header has no place. -/
theorem reserve_no_area : Lib.runAll RingSession.apply (.new ⟨4096, by decide, by decide⟩ (BitVec.ofNat 32 (2 ^ 31)) 0)
    [.reserve 0] = none := rfl

/-- **Space accounting** holds in every run exactly when the size is not `2 ^ 31`: the size of `raw_buffer` is computed
    with 32 bits, and from there on it is too small. -/
theorem ringbuf_space_iff (k : Fin 32) :
    (∀ pageSize selfFd ops, ∃ results s,
      Lib.runAll RingSession.apply (.new pageSize (BitVec.ofNat 32 (2 ^ k.val)) selfFd) ops = some (results, s) ∧
        s.SpaceKept) ↔ k ≠ 31 := by
  constructor
  · -- with `2 ^ 31` entries no area is mapped at all
    rintro hall rfl
    obtain ⟨results, s, hrun, -⟩ := hall ⟨4096, by decide, by decide⟩ 0 [.reserve 0]
    exact Option.some_ne_none _ (hrun.symm.trans reserve_no_area)
  · -- below that every run keeps the invariant
    intro hne pageSize selfFd ops
    have hk : k.val < 31 := by omega
    have hstep : ∀ (s : RingSession) op, s.Holds k → True →
        ∃ result s', s.apply op = some (result, s') ∧ s'.Holds k ∧ True := by
      intro s op h _
      obtain ⟨result, s', hrun, h'⟩ := apply_holds h op
      exact ⟨result, s', hrun, h', trivial⟩
    obtain ⟨results, s, hrun, h, -⟩ := Lib.runAll_invariant (Q := fun _ => True) hstep
      (new_holds hk pageSize selfFd) (Lib.allSteps_of_forall (fun _ _ => trivial) _ ops)
    exact ⟨results, s, hrun, h.spaceKept⟩

/-- The largest power of two in 32 bits. -/
theorem ringbuf_overruns :
    ¬ ∀ ops, ∃ results s,
      Lib.runAll RingSession.apply (.new ⟨4096, by decide, by decide⟩ (BitVec.ofNat 32 (2 ^ 31)) 0) ops =
        some (results, s) ∧ s.SpaceKept := by
  intro hall
  obtain ⟨results, s, hrun, -⟩ := hall [.reserve 0]
  exact Option.some_ne_none _ (hrun.symm.trans reserve_no_area)

end Maps
