import FreeProbe.Lib.Machine
import FreeProbe.Maps.Common
import Mathlib.Data.List.AList

/-!
# `Maps.PerCpuHashMap` — `per_cpu_hash_map_impl`

One table for all CPUs: a key has the values of the CPUs one after the other. The helpers update and delete on the
CPU they run on; the system call updates and deletes the whole entry. Both paths check the flags for valid bits, and
only the second one looks at what they say and at the capacity. The values are copied into a vector whose length is
computed with 32 bits, and an access outside of it ends an operation with `none`.
-/

namespace Maps

/-- `key_size`, `value_size`, `_max_entries` and `ncpu`. -/
structure PerCpuParams where
  keySize    : Nat
  valueSize  : BitVec 32
  maxEntries : BitVec 32
  ncpu       : BitVec 32

/-- A key has one value for each CPU, side by side. -/
abbrev PerCpuTable (p : PerCpuParams) := AList fun _ : Vector Byte p.keySize => List Byte

/-- Bytes copied over those from an offset on. -/
def copyInto (bytes : List Byte) (offset : Nat) (value : List Byte) : Option (List Byte) :=
  if offset + value.length ≤ bytes.length then
    some (bytes.take offset ++ value ++ bytes.drop (offset + value.length))
  else none

/-- The operations, by a program on a CPU or by user space. -/
inductive PerCpuOp (p : PerCpuParams) where
  | elemUpdate (cpu : Fin p.ncpu.toNat) (key : Vector Byte p.keySize) (value : Vector Byte p.valueSize.toNat)
      (flags : BitVec 64)
  | elemDelete (cpu : Fin p.ncpu.toNat) (key : Vector Byte p.keySize)
  | elemUpdateUserspace (key : Vector Byte p.keySize) (value : Vector Byte (p.valueSize * p.ncpu).toNat)
      (flags : BitVec 64)
  | elemDeleteUserspace (key : Vector Byte p.keySize)
  | lookupAndDeleteUserspace (key : Vector Byte p.keySize)

namespace PerCpuTable

variable {p : PerCpuParams}

/-- `value_template`, all zeros. -/
def valueTemplate (p : PerCpuParams) : List Byte := List.replicate (p.valueSize * p.ncpu).toNat 0

/-- The offset of a CPU's value, an `unsigned int`. -/
def cpuOffset (p : PerCpuParams) (cpu : Nat) : Nat := (BitVec.ofNat 32 cpu * p.valueSize).toNat

/-- `elem_update`. -/
def elemUpdate (impl : PerCpuTable p) (cpu : Nat) (key : Vector Byte p.keySize) (value : List Byte)
    (flags : BitVec 64) : Option (Except Errno Unit × PerCpuTable p) :=
  if checkUpdateFlags flags then do
    let fullValue ← copyInto ((impl.lookup key).getD (valueTemplate p)) (cpuOffset p cpu) value
    return (.ok (), impl.insert key fullValue)
  else some (.error .einval, impl)

/-- `elem_delete` fills the values of the CPUs before its own. -/
def elemDelete (impl : PerCpuTable p) (cpu : Nat) (key : Vector Byte p.keySize) :
    Option (Except Errno Unit × PerCpuTable p) :=
  match impl.lookup key with
  | none => some (.ok (), impl)
  | some value => do
    let value ← copyInto value 0 (List.replicate (cpuOffset p cpu) 0)
    return (.ok (), impl.insert key value)

/-- `elem_update_userspace`. -/
def elemUpdateUserspace (impl : PerCpuTable p) (key : Vector Byte p.keySize) (value : List Byte) (flags : BitVec 64) :
    Except Errno Unit × PerCpuTable p :=
  if checkUpdateFlags flags then
    let elemExists := (impl.lookup key).isSome
    if flags = BPF_NOEXIST ∧ elemExists then (.error .eexist, impl)
    else if flags = BPF_EXIST ∧ ¬ elemExists then (.error .enoent, impl)
    else if ¬ elemExists ∧ impl.keys.length = p.maxEntries.toNat then (.error .e2big, impl)
    else (.ok (), impl.insert key value)
  else (.error .einval, impl)

/-- `elem_delete_userspace`. -/
def elemDeleteUserspace (impl : PerCpuTable p) (key : Vector Byte p.keySize) : Except Errno Unit × PerCpuTable p :=
  if (impl.lookup key).isSome then (.ok (), impl.erase key) else (.error .enoent, impl)

/-- One operation. -/
def apply (impl : PerCpuTable p) : PerCpuOp p → Option (Except Errno Unit × PerCpuTable p)
  | .elemUpdate cpu key value flags => impl.elemUpdate cpu.1 key value.toList flags
  | .elemDelete cpu key => impl.elemDelete cpu.1 key
  | .elemUpdateUserspace key value flags => some (impl.elemUpdateUserspace key value.toList flags)
  | .elemDeleteUserspace key => some (impl.elemDeleteUserspace key)
  | .lookupAndDeleteUserspace key => some (impl.elemDeleteUserspace key)

/-! ## The law of the flags and of the capacity

The three flags of an update, and the bound on the number of keys, which an update of a present key does not meet. -/

/-- What an update with these flags may do with a key that is stored or not. -/
def FlagsLaw (flags : BitVec 64) (stored : Prop) (failed : Prop) : Prop :=
  (flags = BPF_NOEXIST → (failed ↔ stored)) ∧ (flags = BPF_EXIST → (failed ↔ ¬ stored))

/-- An operation is lawful: it does not leave its vectors, the keys stay within the capacity, the flags say when an
    update fails, and one that fails changes nothing. -/
def Lawful (impl : PerCpuTable p) (op : PerCpuOp p) : Prop :=
  ∃ ret impl', impl.apply op = some (ret, impl') ∧ impl'.keys.length ≤ p.maxEntries.toNat ∧
    match op with
    | .elemUpdate _ key _ flags | .elemUpdateUserspace key _ flags =>
      FlagsLaw flags (key ∈ impl) (ret ≠ .ok ()) ∧ (ret ≠ .ok () → impl' = impl)
    | _ => True

/-- The condition on an operation and the table before it. -/
def Suits (impl : PerCpuTable p) : PerCpuOp p → Prop
  -- the helper's update is one that the flags and the capacity allow, and its value is inside the vector
  | .elemUpdate cpu key value flags =>
    if checkUpdateFlags flags then
      (flags = BPF_NOEXIST → key ∉ impl) ∧ (flags = BPF_EXIST → key ∈ impl) ∧
        (key ∉ impl → impl.keys.length < p.maxEntries.toNat) ∧
        cpuOffset p cpu.1 + value.toList.length ≤ ((impl.lookup key).getD (valueTemplate p)).length
    else True
  -- the values it clears are inside the vector
  | .elemDelete cpu key => ∀ value ∈ impl.lookup key, cpuOffset p cpu.1 ≤ value.length
  -- a new key under `BPF_NOEXIST` finds room
  | .elemUpdateUserspace key _ flags => flags = BPF_NOEXIST → key ∉ impl → impl.keys.length ≠ p.maxEntries.toNat
  | _ => True

section Keys

variable {κ : Type*} {ν : κ → Type*} [DecidableEq κ] {table : AList ν} {k : κ}

/-- A new key is one more. -/
theorem length_insert (v : ν k) :
    (table.insert k v).keys.length = if k ∈ table then table.keys.length else table.keys.length + 1 := by
  rw [AList.keys_insert, List.length_cons]
  split
  · rename_i hmem
    have hpos := List.length_pos_of_mem (AList.mem_keys.mp hmem)
    rw [List.length_erase_of_mem (AList.mem_keys.mp hmem)]
    omega
  · rename_i hmem
    rw [List.erase_of_not_mem fun h => hmem (AList.mem_keys.mpr h)]

/-- Erasing is none more. -/
theorem length_erase_le : (table.erase k).keys.length ≤ table.keys.length := by
  rw [AList.keys_erase]
  exact List.length_erase_le

end Keys

section Steps

variable {impl : PerCpuTable p} {key : Vector Byte p.keySize}

/-- A key that is stored. -/
theorem lookup_isSome_iff : (impl.lookup key).isSome = true ↔ key ∈ impl := AList.lookup_isSome

/-- The two flags are valid ones. -/
theorem flags_valid {flags : BitVec 64} (hinvalid : ¬ checkUpdateFlags flags = true) :
    flags ≠ BPF_NOEXIST ∧ flags ≠ BPF_EXIST := by
  constructor
  · rintro rfl
    exact hinvalid (by decide)
  · rintro rfl
    exact hinvalid (by decide)

/-- Flags that are none of the three ask for nothing. -/
theorem flagsLaw_invalid {flags : BitVec 64} (hinvalid : ¬ checkUpdateFlags flags = true) (stored failed : Prop) :
    FlagsLaw flags stored failed :=
  ⟨fun h => absurd h (flags_valid hinvalid).1, fun h => absurd h (flags_valid hinvalid).2⟩

/-- **`elem_update`** on a CPU. -/
theorem elemUpdate_lawful_iff (hcount : impl.keys.length ≤ p.maxEntries.toNat) (cpu : Fin p.ncpu.toNat)
    (value : Vector Byte p.valueSize.toNat) (flags : BitVec 64) :
    impl.Lawful (.elemUpdate cpu key value flags) ↔ impl.Suits (.elemUpdate cpu key value flags) := by
  unfold Lawful Suits apply elemUpdate copyInto
  dsimp only
  by_cases hvalid : checkUpdateFlags flags = true
  · rw [if_pos hvalid, if_pos hvalid]
    by_cases hfit : cpuOffset p cpu.1 + value.toList.length ≤ ((impl.lookup key).getD (valueTemplate p)).length
    · rw [if_pos hfit, Option.bind_eq_bind, Option.bind_some]
      constructor
      · rintro ⟨ret, impl', heq, hcap, hlaw, -⟩
        cases heq
        refine ⟨fun hflag hmem => ?_, fun hflag => ?_, fun hmem => ?_, hfit⟩
        · exact absurd rfl ((hlaw.1 hflag).mpr hmem)
        · by_contra hmem
          exact absurd rfl ((hlaw.2 hflag).mpr hmem)
        · rw [length_insert, if_neg hmem] at hcap
          exact hcap
      · rintro ⟨hnoexist, hexist, hroom, -⟩
        refine ⟨_, _, rfl, ?_, ⟨fun hflag => ?_, fun hflag => ?_⟩, fun hfailed => absurd rfl hfailed⟩
        · rw [length_insert]
          split
          · exact hcount
          · rename_i hmem
            exact hroom hmem
        · exact ⟨fun hfailed => absurd rfl hfailed, fun hmem => absurd hmem (hnoexist hflag)⟩
        · exact ⟨fun hfailed => absurd rfl hfailed, fun hmem => absurd (hexist hflag) hmem⟩
    · rw [if_neg hfit]
      constructor
      · rintro ⟨ret, impl', heq, -⟩
        cases heq
      · rintro ⟨-, -, -, hfit'⟩
        exact absurd hfit' hfit
  · rw [if_neg hvalid, if_neg hvalid]
    exact ⟨fun _ => trivial, fun _ => ⟨_, _, rfl, hcount, flagsLaw_invalid hvalid _ _, fun _ => rfl⟩⟩

/-- **`elem_delete`** on a CPU. -/
theorem elemDelete_lawful_iff (hcount : impl.keys.length ≤ p.maxEntries.toNat) (cpu : Fin p.ncpu.toNat) :
    impl.Lawful (.elemDelete cpu key) ↔ impl.Suits (.elemDelete cpu key) := by
  unfold Lawful Suits apply elemDelete copyInto
  dsimp only
  cases hlookup : impl.lookup key with
  | none =>
      constructor
      · intro _ value hvalue
        cases hvalue
      · intro _
        exact ⟨_, _, rfl, hcount, trivial⟩
  | some value =>
      dsimp only
      rw [List.length_replicate, Nat.zero_add]
      by_cases hfit : cpuOffset p cpu.1 ≤ value.length
      · rw [if_pos hfit, Option.bind_eq_bind, Option.bind_some]
        refine ⟨fun _ value' hvalue' => ?_, fun _ => ⟨_, _, rfl, ?_, trivial⟩⟩
        · rw [← Option.mem_some_iff.mp hvalue']
          exact hfit
        · have hmem : key ∈ impl := lookup_isSome_iff.mp (by rw [hlookup]; rfl)
          rw [length_insert, if_pos hmem]
          exact hcount
      · rw [if_neg hfit]
        constructor
        · rintro ⟨ret, impl', heq, -⟩
          cases heq
        · intro hfit'
          exact absurd (hfit' value rfl) hfit

/-- **`elem_update_userspace`**, of the values of all CPUs. -/
theorem elemUpdateUserspace_lawful_iff (hcount : impl.keys.length ≤ p.maxEntries.toNat)
    (value : Vector Byte (p.valueSize * p.ncpu).toNat) (flags : BitVec 64) :
    impl.Lawful (.elemUpdateUserspace key value flags) ↔ impl.Suits (.elemUpdateUserspace key value flags) := by
  unfold Lawful Suits apply elemUpdateUserspace
  simp only [lookup_isSome_iff]
  have hne : BPF_NOEXIST ≠ BPF_EXIST := by decide
  by_cases hvalid : checkUpdateFlags flags = true
  swap
  · rw [if_neg hvalid]
    refine ⟨fun _ hflag => absurd hflag (flags_valid hvalid).1, fun _ => ?_⟩
    exact ⟨_, _, rfl, hcount, flagsLaw_invalid hvalid _ _, fun _ => rfl⟩
  rw [if_pos hvalid]
  by_cases hmem : key ∈ impl
  · -- the key is stored
    refine ⟨fun _ _ habsent => absurd hmem habsent, fun _ => ?_⟩
    by_cases hflag : flags = BPF_NOEXIST
    · rw [if_pos ⟨hflag, hmem⟩]
      refine ⟨_, _, rfl, hcount, ⟨fun _ => ⟨fun _ => hmem, fun _ => by simp⟩, fun hflag' => ?_⟩, fun _ => rfl⟩
      exact absurd (hflag.symm.trans hflag') hne
    · rw [if_neg fun h => hflag h.1, if_neg fun h => h.2 hmem, if_neg fun h => h.1 hmem]
      refine ⟨_, _, rfl, ?_, ⟨fun hflag' => absurd hflag' hflag, fun _ => ?_⟩, fun hfailed => absurd rfl hfailed⟩
      · rw [length_insert, if_pos hmem]
        exact hcount
      · exact ⟨fun hfailed => absurd rfl hfailed, fun habsent => absurd hmem habsent⟩
  · -- it is not
    rw [if_neg fun h => hmem h.2]
    by_cases hflag : flags = BPF_EXIST
    · rw [if_pos ⟨hflag, hmem⟩]
      refine ⟨fun _ hflag' => absurd (hflag'.symm.trans hflag) hne, fun _ => ?_⟩
      refine ⟨_, _, rfl, hcount, ⟨fun hflag' => ?_, fun _ => ⟨fun _ => hmem, fun _ => by simp⟩⟩, fun _ => rfl⟩
      exact absurd (hflag'.symm.trans hflag) hne
    · rw [if_neg fun h => hflag h.1]
      by_cases hfull : impl.keys.length = p.maxEntries.toNat
      · rw [if_pos ⟨hmem, hfull⟩]
        constructor
        · rintro ⟨ret, impl', heq, -, hlaw, -⟩ hflag' -
          cases heq
          exact absurd ((hlaw.1 hflag').mp (by simp)) hmem
        · intro hroom
          refine ⟨_, _, rfl, hcount, ⟨fun hflag' => absurd hfull (hroom hflag' hmem), fun hflag' => ?_⟩,
            fun _ => rfl⟩
          exact absurd hflag' hflag
      · rw [if_neg fun h => hfull h.2]
        refine ⟨fun _ _ _ => hfull, fun _ => ⟨_, _, rfl, ?_, ⟨fun _ => ?_, fun hflag' => absurd hflag' hflag⟩,
          fun hfailed => absurd rfl hfailed⟩⟩
        · rw [length_insert, if_neg hmem]
          omega
        · exact ⟨fun hfailed => absurd rfl hfailed, fun hmem' => absurd hmem' hmem⟩

/-- `elem_delete_userspace` frees an entry. -/
theorem elemDeleteUserspace_capacity (hcount : impl.keys.length ≤ p.maxEntries.toNat) :
    (impl.elemDeleteUserspace key).2.keys.length ≤ p.maxEntries.toNat := by
  unfold elemDeleteUserspace
  split
  · exact Nat.le_trans length_erase_le hcount
  · exact hcount

/-- **An operation is lawful exactly when it suits the table**, while the keys are within the capacity. -/
theorem lawful_iff (hcount : impl.keys.length ≤ p.maxEntries.toNat) (op : PerCpuOp p) :
    impl.Lawful op ↔ impl.Suits op := by
  cases op with
  | elemUpdate cpu key value flags => exact elemUpdate_lawful_iff hcount cpu value flags
  | elemDelete cpu key => exact elemDelete_lawful_iff hcount cpu
  | elemUpdateUserspace key value flags => exact elemUpdateUserspace_lawful_iff hcount value flags
  | elemDeleteUserspace key => exact ⟨fun _ => trivial, fun _ => ⟨_, _, rfl, elemDeleteUserspace_capacity hcount, trivial⟩⟩
  | lookupAndDeleteUserspace key =>
      exact ⟨fun _ => trivial, fun _ => ⟨_, _, rfl, elemDeleteUserspace_capacity hcount, trivial⟩⟩

/-- A lawful operation keeps the capacity. -/
theorem capacity_of_lawful {op : PerCpuOp p} (h : impl.Lawful op) :
    ∀ next ∈ impl.apply op, next.2.keys.length ≤ p.maxEntries.toNat := by
  obtain ⟨ret, impl', happly, hcap, -⟩ := h
  intro next hnext
  rw [Option.mem_def, happly, Option.some_inj] at hnext
  rw [← hnext]
  exact hcap

end Steps

end PerCpuTable

/-- **Capacity and flags** hold at every operation of a run, on either path, exactly when every operation suits the
    table it finds. -/
theorem perCpuHashMap_lawful_iff (p : PerCpuParams) (ops : List (PerCpuOp p)) :
    Lib.AllSteps PerCpuTable.apply PerCpuTable.Lawful (∅ : PerCpuTable p) ops ↔
      Lib.AllSteps PerCpuTable.apply PerCpuTable.Suits (∅ : PerCpuTable p) ops :=
  Lib.allSteps_iff_of_invariant (fun _ op hcount => PerCpuTable.lawful_iff hcount op)
    (fun _ op hcount hop => PerCpuTable.capacity_of_lawful ((PerCpuTable.lawful_iff hcount op).mpr hop))
    (Nat.zero_le _) ops

/-- Keys and values of one byte, one CPU and room for one key. -/
def oneKey : PerCpuParams := ⟨1, 1, 1, 1⟩

/-- Two updates by a helper make two keys. -/
theorem perCpuHashMap_over_capacity :
    ¬ Lib.AllSteps PerCpuTable.apply PerCpuTable.Lawful (∅ : PerCpuTable oneKey)
      [.elemUpdate ⟨0, by decide⟩ (single 1) (single 7) BPF_ANY, .elemUpdate ⟨0, by decide⟩ (single 2) (single 7) BPF_NOEXIST] := by
  rintro ⟨-, hafter⟩
  obtain ⟨⟨ret, impl', heq, hcap, -⟩, -⟩ := hafter _ rfl
  cases heq
  exact absurd hcap (by decide)

/-! ## The frame of a delete

A delete takes one key away and leaves the values of the others, on every processor. -/

/-- A copy that stays inside. -/
theorem copyInto_some {bytes value : List Byte} {offset : Nat} (h : offset + value.length ≤ bytes.length) :
    copyInto bytes offset value = some (bytes.take offset ++ value ++ bytes.drop (offset + value.length)) := if_pos h

/-- A byte after zeros have been copied. -/
theorem getElem?_copyInto_zeros {bytes result : List Byte} {offset n : Nat}
    (h : copyInto bytes offset (List.replicate n 0) = some result) (i : Nat) :
    result[i]? = if offset ≤ i ∧ i < offset + n then some 0 else bytes[i]? := by
  unfold copyInto at h
  rw [List.length_replicate] at h
  by_cases hfit : offset + n ≤ bytes.length
  · rw [if_pos hfit] at h
    obtain rfl := Option.some.inj h
    have htake : (bytes.take offset).length = offset := by
      rw [List.length_take, Nat.min_eq_left (Nat.le_of_add_right_le hfit)]
    rw [List.append_assoc]
    by_cases hlow : i < offset
    · rw [List.getElem?_append_left (by rwa [htake]), List.getElem?_take_of_lt hlow,
        if_neg fun hin => absurd hin.1 (Nat.not_le_of_lt hlow)]
    · rw [List.getElem?_append_right (by rw [htake]; exact Nat.le_of_not_lt hlow), htake]
      by_cases hhigh : i < offset + n
      · rw [List.getElem?_append_left (by rw [List.length_replicate]; omega), List.getElem?_replicate,
          if_pos (by omega), if_pos ⟨Nat.le_of_not_lt hlow, hhigh⟩]
      · rw [List.getElem?_append_right (by rw [List.length_replicate]; omega), List.length_replicate, List.getElem?_drop,
          if_neg fun hin => hhigh hin.2]
        congr 1
        omega
  · rw [if_neg hfit] at h
    cases h

namespace PerCpuTable

variable {p : PerCpuParams}

/-- **A delete is local**: it zeroes the value of its CPU in the key's record, and leaves everything else. -/
def DeleteIsLocal (impl : PerCpuTable p) (cpu : Nat) (key : Vector Byte p.keySize) : Prop :=
  ∀ value ∈ impl.lookup key, ∃ impl' value', impl.elemDelete cpu key = some (.ok (), impl') ∧
    copyInto value (cpu * p.valueSize.toNat) (List.replicate p.valueSize.toNat 0) = some value' ∧
    impl'.lookup key = some value' ∧ ∀ other, other ≠ key → impl'.lookup other = impl.lookup other

/-- **The condition on a record.** It holds a value for the CPU, and there and before it there are zeros already. -/
def DeleteFits (impl : PerCpuTable p) (cpu : Nat) (key : Vector Byte p.keySize) : Prop :=
  ∀ value ∈ impl.lookup key, (cpu + 1) * p.valueSize.toNat ≤ value.length ∧
    (∀ i < cpuOffset p cpu, value[i]? = some 0) ∧
    ∀ i, cpu * p.valueSize.toNat ≤ i → i < (cpu + 1) * p.valueSize.toNat → value[i]? = some 0

/-- The offset of a CPU's value, with 32-bit numbers, is no larger than it should be. -/
theorem cpuOffset_le (cpu : Nat) : cpuOffset p cpu ≤ cpu * p.valueSize.toNat := by
  unfold cpuOffset
  rw [BitVec.toNat_mul, BitVec.toNat_ofNat]
  exact (Nat.mod_le _ _).trans (Nat.mul_le_mul_right _ (Nat.mod_le _ _))

/-- **A delete is local exactly where it has nothing to zero.** -/
theorem deleteIsLocal_iff (p : PerCpuParams) (impl : PerCpuTable p) (cpu : Fin p.ncpu.toNat)
    (key : Vector Byte p.keySize) : impl.DeleteIsLocal cpu.1 key ↔ impl.DeleteFits cpu.1 key := by
  refine forall₂_congr fun value hvalue => ?_
  have hlookup : impl.lookup key = some value := hvalue
  have hoffset := cpuOffset_le (p := p) cpu.1
  constructor
  · rintro ⟨impl', value', hdelete, hslice, hnew, -⟩
    have hfit : (cpu.1 + 1) * p.valueSize.toNat ≤ value.length := by
      by_contra hshort
      unfold copyInto at hslice
      rw [List.length_replicate, ← Nat.succ_mul, if_neg hshort] at hslice
      cases hslice
    -- what the delete writes: as many zeros as the offset of the CPU, from the beginning
    have hzeros : 0 + (List.replicate (cpuOffset p cpu.1) (0 : Byte)).length ≤ value.length := by
      rw [List.length_replicate, Nat.zero_add]
      exact hoffset.trans ((Nat.mul_le_mul_right _ (Nat.le_succ _)).trans hfit)
    have hcopy := copyInto_some hzeros
    unfold elemDelete at hdelete
    simp only [hlookup, hcopy, Option.bind_eq_bind, Option.bind_some] at hdelete
    cases hdelete
    rw [AList.lookup_insert, Option.some_inj] at hnew
    rw [hnew] at hcopy
    refine ⟨hfit, fun i hi => ?_, fun i hle hlt => ?_⟩
    · -- a byte before the CPU's value: the delete zeroes it, and it is left alone
      have hcode := getElem?_copyInto_zeros hcopy i
      have hspec := getElem?_copyInto_zeros hslice i
      rw [if_pos ⟨Nat.zero_le _, by rwa [Nat.zero_add]⟩] at hcode
      rw [if_neg fun hin => absurd (hi.trans_le hoffset) (Nat.not_lt_of_le hin.1), hcode] at hspec
      exact hspec.symm
    · -- a byte of the CPU's value: it is zero, and the delete leaves it
      have hcode := getElem?_copyInto_zeros hcopy i
      have hspec := getElem?_copyInto_zeros hslice i
      rw [if_neg fun hin => absurd (hin.2.trans_le ((Nat.zero_add _).le.trans hoffset)) (Nat.not_lt_of_le hle)] at hcode
      rw [if_pos ⟨hle, by rwa [← Nat.succ_mul]⟩, hcode] at hspec
      exact hspec
  · rintro ⟨hfit, hbefore, hvalueZero⟩
    have hzeros : 0 + (List.replicate (cpuOffset p cpu.1) (0 : Byte)).length ≤ value.length := by
      rw [List.length_replicate, Nat.zero_add]
      exact hoffset.trans ((Nat.mul_le_mul_right _ (Nat.le_succ _)).trans hfit)
    have hslice : cpu.1 * p.valueSize.toNat + (List.replicate p.valueSize.toNat (0 : Byte)).length ≤ value.length := by
      rw [List.length_replicate, ← Nat.succ_mul]
      exact hfit
    obtain ⟨cleared, hcopy⟩ : ∃ cleared, copyInto value 0 (List.replicate (cpuOffset p cpu.1) 0) = some cleared :=
      ⟨_, copyInto_some hzeros⟩
    have hspec := copyInto_some hslice
    have hdelete : impl.elemDelete cpu.1 key = some (.ok (), impl.insert key cleared) := by
      unfold elemDelete
      simp only [hlookup, hcopy, Option.bind_eq_bind, Option.bind_some]
      rfl
    refine ⟨_, _, hdelete, hspec, ?_, fun other hne => AList.lookup_insert_ne hne⟩
    rw [AList.lookup_insert, Option.some_inj]
    refine List.ext_getElem? fun i => ?_
    rw [getElem?_copyInto_zeros hcopy, getElem?_copyInto_zeros hspec, Nat.zero_add, ← Nat.succ_mul]
    by_cases hlow : i < cpuOffset p cpu.1
    · rw [if_pos ⟨Nat.zero_le _, hlow⟩, if_neg fun hin => absurd (hlow.trans_le hoffset) (Nat.not_lt_of_le hin.1), hbefore i hlow]
    · rw [if_neg fun hin => hlow hin.2]
      by_cases hin : cpu.1 * p.valueSize.toNat ≤ i ∧ i < (cpu.1 + 1) * p.valueSize.toNat
      · rw [if_pos hin, hvalueZero i hin.1 hin.2]
      · rw [if_neg hin]

/-- A delete on CPU 1 zeroes the value of CPU 0. -/
theorem delete_not_local : ¬ ∀ (p : PerCpuParams) (impl : PerCpuTable p) (cpu : Fin p.ncpu.toNat)
    (key : Vector Byte p.keySize), impl.DeleteIsLocal cpu.1 key := by
  intro h
  have hlocal := h ⟨1, 1, 1, 2⟩ ((∅ : PerCpuTable ⟨1, 1, 1, 2⟩).insert (single 1) [7, 9]) ⟨1, by decide⟩ (single 1)
  obtain ⟨impl', value', hdelete, hslice, hnew, -⟩ := hlocal [7, 9] (AList.lookup_insert _)
  cases hdelete
  cases hslice
  exact absurd hnew (by decide)

end PerCpuTable

end Maps
