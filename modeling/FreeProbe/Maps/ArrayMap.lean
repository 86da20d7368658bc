import FreeProbe.Maps.Queue

/-!
# `Maps.ArrayMap` — `array_map_impl` and `per_cpu_array_map_impl`, and what backs them

The array maps of the runtime keep their values in one byte vector. Its size and the offsets in it are products of
`uint32_t` operands, taken before they are widened. `Backed` is what such arithmetic is for: a vector of the exact
size in which each index has a slot of its own. For the two array maps and the queue map it holds exactly when the
exact size fits in 32 bits (`backingStore_exact_iff`).
-/

namespace Maps

open Lib.Memory

/-- What an update with this key has to pass. -/
def checkUpdate (maxEntries key : BitVec 32) (flags : BitVec 64) : Except Errno Unit :=
  if !checkUpdateFlags flags then .error .einval
  else if key < maxEntries ∧ flags = BPF_NOEXIST then .error .eexist
  else if maxEntries ≤ key then .error .e2big
  else .ok ()

/-! ## `array_map_impl` -/

structure ArrayMap (valueSize maxEntries : BitVec 32) where
  data : Buffer Byte

namespace ArrayMap

variable {valueSize maxEntries : BitVec 32}

/-- The constructor: `data(value_size * max_entries)`, a 32-bit product. -/
def new (valueSize maxEntries : BitVec 32) : ArrayMap valueSize maxEntries :=
  ⟨(valueSize * maxEntries).toNat, fun _ => 0⟩

/-- The offset in `data` of the pointer that `elem_lookup` returns. -/
def elemLookup (_ : ArrayMap valueSize maxEntries) (key : BitVec 32) : Except Errno Nat :=
  if maxEntries ≤ key then .error .enoent else .ok (key * valueSize).toNat

/-- `elem_update`: the flags and the key are checked, the value is copied to its slot. -/
def elemUpdate (map : ArrayMap valueSize maxEntries) (key : BitVec 32) (value : Vector Byte valueSize.toNat)
    (flags : BitVec 64) : Option (Except Errno Unit × ArrayMap valueSize maxEntries) :=
  match checkUpdate maxEntries key flags with
  | .error e => some (.error e, map)
  | .ok () => do return (.ok (), ⟨← map.data.write (key * valueSize).toNat value.toList⟩)

/-- With what `next_key` points at afterwards. -/
def mapGetNextKey (_ : ArrayMap valueSize maxEntries) (key : Option (BitVec 32)) (nextKey : BitVec 32) :
    Except Errno Unit × BitVec 32 :=
  match key with
  | none => (.ok (), 0)
  | some key =>
    if maxEntries ≤ key then (.ok (), 0)
    else if key = maxEntries - 1 then (.error .enoent, nextKey)
    else (.ok (), key + 1)

end ArrayMap

/-! ## `per_cpu_array_map_impl` -/

/-- `ncpu` is given as a `uint32_t` and kept as an `int`. -/
structure PerCpuArrayMap (valueSize maxEntries ncpu : BitVec 32) where
  data : Buffer Byte

namespace PerCpuArrayMap

variable {valueSize maxEntries ncpu : BitVec 32}

/-- The constructor: `data.resize(max_entries * ncpu * value_size)`, a 32-bit product again. -/
def new (valueSize maxEntries ncpu : BitVec 32) : PerCpuArrayMap valueSize maxEntries ncpu :=
  ⟨(maxEntries * ncpu * valueSize).toNat, fun _ => 0⟩

/-- `data_at` computes with `size_t`. -/
def dataAt (valueSize ncpu : BitVec 32) (idx cpu : BitVec 64) : Nat :=
  (idx * valueSize.setWidth 64 * ncpu.signExtend 64 + cpu * valueSize.setWidth 64).toNat

/-- The offset in `data` of the pointer that `elem_lookup` returns on a CPU. -/
def elemLookup (_ : PerCpuArrayMap valueSize maxEntries ncpu) (cpu key : BitVec 32) : Except Errno Nat :=
  if maxEntries ≤ key then .error .enoent else .ok (dataAt valueSize ncpu (key.setWidth 64) (cpu.signExtend 64))

/-- `elem_update`: the slot of the current processor. -/
def elemUpdate (map : PerCpuArrayMap valueSize maxEntries ncpu) (cpu key : BitVec 32)
    (value : Vector Byte valueSize.toNat) (flags : BitVec 64) :
    Option (Except Errno Unit × PerCpuArrayMap valueSize maxEntries ncpu) :=
  match checkUpdate maxEntries key flags with
  | .error e => some (.error e, map)
  | .ok () => do
    return (.ok (), ⟨← map.data.write (dataAt valueSize ncpu (key.setWidth 64) (cpu.signExtend 64)) value.toList⟩)

/-- `elem_lookup_userspace`: the first of the key's slots, one for each processor. -/
def elemLookupUserspace (_ : PerCpuArrayMap valueSize maxEntries ncpu) (key : BitVec 32) : Except Errno Nat :=
  if maxEntries ≤ key then .error .enoent else .ok (dataAt valueSize ncpu (key.setWidth 64) 0)

/-- The values of all CPUs at once. -/
def elemUpdateUserspace (map : PerCpuArrayMap valueSize maxEntries ncpu) (key : BitVec 32)
    (values : Vector Byte (ncpu * valueSize).toNat) (flags : BitVec 64) :
    Option (Except Errno Unit × PerCpuArrayMap valueSize maxEntries ncpu) :=
  match checkUpdate maxEntries key flags with
  | .error e => some (.error e, map)
  | .ok () => do return (.ok (), ⟨← map.data.write (dataAt valueSize ncpu (key.setWidth 64) 0) values.toList⟩)

end PerCpuArrayMap

/-! ## What the arithmetic is for -/

/-- A vector of the exact size, in which the indices that pass their check have slots of their own. -/
structure Backed {ι : Type} (allocated exact slotSize : Nat) (offset : ι → Except Errno Nat) : Prop where
  size     : allocated = exact
  inside   : ∀ i a, offset i = .ok a → a + slotSize ≤ allocated
  disjoint : ∀ i j a b, offset i = .ok a → offset j = .ok b → i ≠ j → a + slotSize ≤ b ∨ b + slotSize ≤ a

/-- Slots one after the other. -/
theorem backed_of_index {ι : Type} {n slotSize : Nat} {offset : ι → Except Errno Nat} {index : ι → Nat}
    (hoffset : ∀ i a, offset i = .ok a → index i < n ∧ a = index i * slotSize)
    (hinj : ∀ i j a b, offset i = .ok a → offset j = .ok b → index i = index j → i = j) :
    Backed (n * slotSize) (n * slotSize) slotSize offset where
  size := rfl
  inside := by
    intro i a hi
    obtain ⟨hlt, rfl⟩ := hoffset i a hi
    rw [← Nat.succ_mul]
    exact Nat.mul_le_mul_right slotSize hlt
  disjoint := by
    intro i j a b hi hj hne
    obtain ⟨-, rfl⟩ := hoffset i a hi
    obtain ⟨-, rfl⟩ := hoffset j b hj
    rw [← Nat.succ_mul, ← Nat.succ_mul]
    rcases Nat.lt_or_gt_of_ne (mt (hinj i j _ _ hi hj) hne) with hlt | hgt
    · exact Or.inl (Nat.mul_le_mul_right slotSize hlt)
    · exact Or.inr (Nat.mul_le_mul_right slotSize hgt)

/-- A product that wraps is not the exact one. -/
theorem wrapped_iff {n : Nat} : n % 2 ^ 32 = n ↔ n < 2 ^ 32 := by
  rw [Nat.mod_eq_iff_lt (by decide)]

/-- Where the exact size fits in 32 bits, and only there, the vector has it. -/
theorem backed_iff {ι : Type} {allocated exact slotSize : Nat} {offset : ι → Except Errno Nat}
    (hallocated : allocated = exact % 2 ^ 32) (hbacked : exact < 2 ^ 32 → Backed exact exact slotSize offset) :
    Backed allocated exact slotSize offset ↔ exact < 2 ^ 32 := by
  subst hallocated
  refine ⟨fun h => wrapped_iff.mp h.size, fun hfits => ?_⟩
  rw [wrapped_iff.mpr hfits]
  exact hbacked hfits

/-! ## The three maps -/

/-- **The array is as long as its slots exactly when their bytes fit in 32 bits.** -/
theorem ArrayMap.backed_iff (valueSize maxEntries : BitVec 32) :
    Backed (new valueSize maxEntries).data.size (valueSize.toNat * maxEntries.toNat) valueSize.toNat
      (new valueSize maxEntries).elemLookup ↔ valueSize.toNat * maxEntries.toNat < 2 ^ 32 := by
  refine Maps.backed_iff (BitVec.toNat_mul ..) fun hfits => ?_
  rw [Nat.mul_comm] at hfits ⊢
  refine @backed_of_index _ _ _ _ BitVec.toNat ?_ fun i j a b _ _ h => BitVec.eq_of_toNat_eq h
  intro key a hkey
  unfold elemLookup at hkey
  split at hkey
  · cases hkey
  · rename_i hlt
    have hlt : key.toNat < maxEntries.toNat := Nat.lt_of_not_le hlt
    exact ⟨hlt, (Except.ok.inj hkey).symm.trans (QueueMap.offset_toNat hfits hlt)⟩

/-- The CPUs of a map, as `int`s. -/
abbrev Cpu (ncpu : BitVec 32) := {cpu : BitVec 32 // cpu.msb = false ∧ cpu < ncpu}

/-- A processor's number is not negative. -/
theorem toNat_signExtend {x : BitVec 32} (hx : x.msb = false) : (x.signExtend 64).toNat = x.toNat := by
  rw [BitVec.signExtend_eq_setWidth_of_msb_false hx, BitVec.toNat_setWidth]
  exact Nat.mod_eq_of_lt (Nat.lt_of_lt_of_le x.isLt (by decide))

/-- Where a slot starts, when nothing wraps. -/
theorem PerCpuArrayMap.dataAt_eq {valueSize maxEntries ncpu key cpu : BitVec 32}
    (hfits : maxEntries.toNat * ncpu.toNat * valueSize.toNat < 2 ^ 32) (hkey : key < maxEntries)
    (hcpu : cpu.msb = false) (hcpu' : cpu < ncpu) :
    dataAt valueSize ncpu (key.setWidth 64) (cpu.signExtend 64) =
      (key.toNat * ncpu.toNat + cpu.toNat) * valueSize.toNat := by
  have hwide : ∀ x : BitVec 32, (x.setWidth 64).toNat = x.toNat := by
    intro x
    rw [BitVec.toNat_setWidth]
    exact Nat.mod_eq_of_lt (Nat.lt_of_lt_of_le x.isLt (by decide))
  have hkey' : key.toNat + 1 ≤ maxEntries.toNat := hkey
  have hlt : cpu.toNat < ncpu.toNat := hcpu'
  have hbound : (key.toNat * ncpu.toNat + cpu.toNat) * valueSize.toNat < 2 ^ 32 := by
    refine Nat.lt_of_le_of_lt (Nat.mul_le_mul_right _ ?_) hfits
    calc key.toNat * ncpu.toNat + cpu.toNat ≤ (key.toNat + 1) * ncpu.toNat := by
          rw [Nat.succ_mul]
          exact Nat.add_le_add_left (Nat.le_of_lt hlt) _
      _ ≤ maxEntries.toNat * ncpu.toNat := Nat.mul_le_mul_right _ hkey'
  have hdata : dataAt valueSize ncpu (key.setWidth 64) (cpu.signExtend 64) =
      (key.toNat * valueSize.toNat * (ncpu.signExtend 64).toNat + cpu.toNat * valueSize.toNat) % 2 ^ 64 := by
    simp only [dataAt, BitVec.toNat_add, BitVec.toNat_mul, hwide, toNat_signExtend hcpu, Nat.mod_add_mod,
      Nat.add_mod_mod, Nat.mod_mul_mod]
  -- an `ncpu` that is negative as an `int` leaves one key, or no bytes
  have hproduct : key.toNat * valueSize.toNat * (ncpu.signExtend 64).toNat =
      key.toNat * ncpu.toNat * valueSize.toNat := by
    cases hmsb : ncpu.msb with
    | false => rw [toNat_signExtend hmsb, Nat.mul_right_comm]
    | true =>
        have hlarge : 2 ^ 31 ≤ ncpu.toNat := BitVec.msb_eq_true_iff_two_mul_ge.mp hmsb |> fun h => by omega
        rcases Nat.eq_zero_or_pos valueSize.toNat with hzero | hpos
        · rw [hzero, Nat.mul_zero, Nat.zero_mul, Nat.mul_zero]
        · have hsmall : maxEntries.toNat * 2 ^ 31 < 2 ^ 32 := by
            refine Nat.lt_of_le_of_lt (Nat.mul_le_mul_left _ hlarge) (Nat.lt_of_le_of_lt ?_ hfits)
            exact Nat.le_mul_of_pos_right _ hpos
          have hfirst : key.toNat = 0 := by omega
          rw [hfirst, Nat.zero_mul, Nat.zero_mul, Nat.zero_mul, Nat.zero_mul]
  rw [hdata, hproduct, ← Nat.add_mul, Nat.mod_eq_of_lt (Nat.lt_trans hbound (by decide))]

/-- The same for an array with a slot for each processor. -/
theorem PerCpuArrayMap.backed_iff (valueSize maxEntries ncpu : BitVec 32) :
    Backed (new valueSize maxEntries ncpu).data.size (valueSize.toNat * maxEntries.toNat * ncpu.toNat) valueSize.toNat
      (fun (i : Cpu ncpu × BitVec 32) => (new valueSize maxEntries ncpu).elemLookup i.1.1 i.2) ↔
      valueSize.toNat * maxEntries.toNat * ncpu.toNat < 2 ^ 32 := by
  have hexact : valueSize.toNat * maxEntries.toNat * ncpu.toNat = maxEntries.toNat * ncpu.toNat * valueSize.toNat := by
    rw [Nat.mul_assoc, Nat.mul_comm]
  rw [hexact]
  refine Maps.backed_iff ?_ fun hfits => ?_
  · change (maxEntries * ncpu * valueSize).toNat = _
    rw [BitVec.toNat_mul, BitVec.toNat_mul, Nat.mod_mul_mod]
  · have hlookup : ∀ (i : Cpu ncpu × BitVec 32) a,
        (new valueSize maxEntries ncpu).elemLookup i.1.1 i.2 = .ok a →
        i.2 < maxEntries ∧ a = (i.2.toNat * ncpu.toNat + i.1.1.toNat) * valueSize.toNat := by
      rintro ⟨⟨cpu, hcpu, hcpu'⟩, key⟩ a hkey
      unfold elemLookup at hkey
      split at hkey
      · cases hkey
      · rename_i hlt
        have hlt : key < maxEntries := BitVec.not_le.mp hlt
        exact ⟨hlt, (Except.ok.inj hkey).symm.trans (dataAt_eq hfits hlt hcpu hcpu')⟩
    refine @backed_of_index _ _ _ _ (fun i => i.2.toNat * ncpu.toNat + i.1.1.toNat) ?_ ?_
    · intro i a hi
      obtain ⟨hkey, ha⟩ := hlookup i a hi
      have hcpu : i.1.1.toNat < ncpu.toNat := i.1.2.2
      refine ⟨?_, ha⟩
      calc i.2.toNat * ncpu.toNat + i.1.1.toNat < (i.2.toNat + 1) * ncpu.toNat := by
            rw [Nat.succ_mul]
            exact Nat.add_lt_add_left hcpu _
        _ ≤ maxEntries.toNat * ncpu.toNat := Nat.mul_le_mul_right _ hkey
    · rintro ⟨⟨cpu, hcpu, hcpu'⟩, key⟩ ⟨⟨cpu', hc, hc'⟩, key'⟩ a b - - h
      -- quotient and remainder by `ncpu`
      have hpos : 0 < ncpu.toNat := Nat.zero_lt_of_lt hcpu'
      have hmod := congrArg (· % ncpu.toNat) h
      have hdiv := congrArg (· / ncpu.toNat) h
      have hlt : cpu.toNat < ncpu.toNat := hcpu'
      have hlt' : cpu'.toNat < ncpu.toNat := hc'
      simp only [Nat.mul_add_mod_self_right, Nat.mod_eq_of_lt hlt, Nat.mod_eq_of_lt hlt'] at hmod
      simp only [Nat.add_comm (_ * _), Nat.add_mul_div_right _ _ hpos, Nat.div_eq_of_lt hlt, Nat.div_eq_of_lt hlt',
        Nat.zero_add] at hdiv
      obtain rfl := BitVec.eq_of_toNat_eq hmod
      obtain rfl := BitVec.eq_of_toNat_eq hdiv
      rfl

/-- The offset of the slot that an index of the queue map stands for. -/
def QueueMap.offset (valueSize : BitVec 32) {maxEntries : BitVec 32} (index : {i : BitVec 32 // i < maxEntries}) :
    Except Errno Nat := .ok (index.1 * valueSize).toNat

/-- And for the queue, whose indices are below the capacity by its own invariant. -/
theorem QueueMap.backed_iff {valueSize maxEntries : BitVec 32} {queue : QueueMap valueSize maxEntries}
    (hqueue : QueueMap.new valueSize maxEntries = some queue) :
    Backed queue.data.size (valueSize.toNat * maxEntries.toNat) valueSize.toNat
      (@QueueMap.offset valueSize maxEntries) ↔ valueSize.toNat * maxEntries.toNat < 2 ^ 32 := by
  rw [Nat.mul_comm]
  refine Maps.backed_iff ?_ fun hfits => ?_
  · unfold QueueMap.new at hqueue
    split at hqueue
    · cases hqueue
    · rw [← Option.some.inj hqueue]
      exact BitVec.toNat_mul ..
  · refine @backed_of_index _ _ _ _ (fun i => i.1.toNat) ?_ fun i j a b _ _ h => ?_
    · intro index a hindex
      exact ⟨index.2, (Except.ok.inj hindex).symm.trans (QueueMap.offset_toNat hfits index.2)⟩
    · exact Subtype.ext (BitVec.eq_of_toNat_eq h)

/-! ## The writes -/

/-- An update that passes its checks writes a slot that a lookup of the same key finds. -/
theorem checkUpdate_ok {maxEntries key : BitVec 32} {flags : BitVec 64} (h : checkUpdate maxEntries key flags = .ok ()) :
    ¬ maxEntries ≤ key := by
  unfold checkUpdate at h
  split at h
  · cases h
  split at h
  · cases h
  split at h
  · cases h
  · assumption

/-- In an exact vector no update leaves it. -/
theorem ArrayMap.elemUpdate_inside {valueSize maxEntries : BitVec 32} {exact : Nat}
    (h : Backed (new valueSize maxEntries).data.size exact valueSize.toNat (new valueSize maxEntries).elemLookup)
    (key : BitVec 32) (value : Vector Byte valueSize.toNat) (flags : BitVec 64) :
    (new valueSize maxEntries).elemUpdate key value flags ≠ none := by
  unfold elemUpdate
  split
  · exact Option.some_ne_none _
  · rename_i hcheck
    have hslot := h.inside key _ (if_neg (checkUpdate_ok hcheck))
    rw [Buffer.write_eq (by rw [Vector.length_toList]; exact hslot)]
    exact Option.some_ne_none _

/-- A backed array is not written past its end, on any processor. -/
theorem PerCpuArrayMap.elemUpdate_inside {valueSize maxEntries ncpu : BitVec 32} {exact : Nat}
    (h : Backed (new valueSize maxEntries ncpu).data.size exact valueSize.toNat
      (fun (i : Cpu ncpu × BitVec 32) => (new valueSize maxEntries ncpu).elemLookup i.1.1 i.2))
    (cpu : Cpu ncpu) (key : BitVec 32) (value : Vector Byte valueSize.toNat) (flags : BitVec 64) :
    (new valueSize maxEntries ncpu).elemUpdate cpu.1 key value flags ≠ none := by
  unfold elemUpdate
  split
  · exact Option.some_ne_none _
  · rename_i hcheck
    have hslot := h.inside (cpu, key) _ (if_neg (checkUpdate_ok hcheck))
    rw [Buffer.write_eq (by rw [Vector.length_toList]; exact hslot)]
    exact Option.some_ne_none _

/-- **The backing stores are exact when the exact size fits in 32 bits, and only then.** -/
theorem backingStore_exact_iff (valueSize maxEntries ncpu : BitVec 32) :
    (Backed (ArrayMap.new valueSize maxEntries).data.size (valueSize.toNat * maxEntries.toNat) valueSize.toNat
        (ArrayMap.new valueSize maxEntries).elemLookup ↔ valueSize.toNat * maxEntries.toNat < 2 ^ 32) ∧
      (Backed (PerCpuArrayMap.new valueSize maxEntries ncpu).data.size
        (valueSize.toNat * maxEntries.toNat * ncpu.toNat) valueSize.toNat
        (fun (i : Cpu ncpu × BitVec 32) => (PerCpuArrayMap.new valueSize maxEntries ncpu).elemLookup i.1.1 i.2) ↔
        valueSize.toNat * maxEntries.toNat * ncpu.toNat < 2 ^ 32) ∧
      ∀ queue ∈ QueueMap.new valueSize maxEntries,
        (Backed queue.data.size (valueSize.toNat * maxEntries.toNat) valueSize.toNat
          (@QueueMap.offset valueSize maxEntries) ↔ valueSize.toNat * maxEntries.toNat < 2 ^ 32) :=
  ⟨ArrayMap.backed_iff valueSize maxEntries, PerCpuArrayMap.backed_iff valueSize maxEntries ncpu,
    fun _ hqueue => QueueMap.backed_iff hqueue⟩

/-- The first and the last of 65537 keys share a slot of 65536 bytes, the only one there is. -/
theorem arrayMap_keys_overlap :
    (ArrayMap.new 65536 65537).elemLookup 0 = .ok 0 ∧ (ArrayMap.new 65536 65537).elemLookup 65536 = .ok 0 ∧
      ¬ Backed (ArrayMap.new 65536 65537).data.size (65536 * 65537) 65536 (ArrayMap.new 65536 65537).elemLookup := by
  refine ⟨by decide, by decide, fun h => ?_⟩
  have hsize : (ArrayMap.new 65536 65537).data.size = 65536 := by decide
  exact absurd (hsize.symm.trans h.size) (by decide)

end Maps
