import FreeProbe.Lib.Memory
import FreeProbe.Maps.Common

/-!
# `Maps.BloomFilter` — `bloom_filter_map_impl`

A bit array whose number of bits is a power of two. A push sets one bit for each hash function and a peek tests them;
both take an index from `hash_value`, masked with the number of bits less one. The seed is an input.
-/

namespace Maps

open Lib.Memory

/-- `bloom_hash_algorithm` -/
inductive BloomHashAlgorithm where
  | DJB2
  | JHASH
deriving DecidableEq, Repr

/-! ## `jhash` -/

/-- The internal state of `jhash`. -/
structure JhashState where
  a : BitVec 32
  b : BitVec 32
  c : BitVec 32

/-- `static_cast<uint32_t>(k[i]) << shift` -/
def jhashByte (k : List Byte) (i shift : Nat) : BitVec 32 := (k.getD i 0).setWidth 32 <<< shift

/-- Twelve bytes added, and the mix. -/
def jhashBlock (k : List Byte) (s : JhashState) : JhashState :=
  let a := s.a + (jhashByte k 0 0 + jhashByte k 1 8 + jhashByte k 2 16 + jhashByte k 3 24)
  let b := s.b + (jhashByte k 4 0 + jhashByte k 5 8 + jhashByte k 6 16 + jhashByte k 7 24)
  let c := s.c + (jhashByte k 8 0 + jhashByte k 9 8 + jhashByte k 10 16 + jhashByte k 11 24)
  let a := (a - c) ^^^ c.rotateLeft 4
  let c := c + b
  let b := (b - a) ^^^ a.rotateLeft 6
  let a := a + c
  let c := (c - b) ^^^ b.rotateLeft 8
  let b := b + a
  let a := (a - c) ^^^ c.rotateLeft 16
  let c := c + b
  let b := (b - a) ^^^ a.rotateLeft 19
  let a := a + c
  let c := (c - b) ^^^ b.rotateLeft 4
  let b := b + a
  ⟨a, b, c⟩

/-- `while (length > 12)`; the first argument bounds the rounds. -/
def jhashLoop : Nat → List Byte → JhashState → List Byte × JhashState
  | 0, k, s => (k, s)
  | fuel + 1, k, s => if 12 < k.length then jhashLoop fuel (k.drop 12) (jhashBlock k s) else (k, s)

/-- The last bytes: the cases of the `switch` fall through to the lower ones, so byte `i` is added where there are more
than `i`; `jhashByte` is 0 where there are not. -/
def jhashTail (k : List Byte) (s : JhashState) : JhashState where
  a := s.a + jhashByte k 3 24 + jhashByte k 2 16 + jhashByte k 1 8 + jhashByte k 0 0
  b := s.b + jhashByte k 7 24 + jhashByte k 6 16 + jhashByte k 5 8 + jhashByte k 4 0
  c := s.c + jhashByte k 11 24 + jhashByte k 10 16 + jhashByte k 9 8 + jhashByte k 8 0

/-- The final mix. -/
def jhashFinal (s : JhashState) : BitVec 32 :=
  let c := s.c ^^^ s.b
  let c := c - s.b.rotateLeft 14
  let a := s.a ^^^ c
  let a := a - c.rotateLeft 11
  let b := s.b ^^^ a
  let b := b - a.rotateLeft 25
  let c := c ^^^ b
  let c := c - b.rotateLeft 16
  let a := a ^^^ c
  let a := a - c.rotateLeft 4
  let b := b ^^^ a
  let b := b - a.rotateLeft 14
  let c := c ^^^ b
  c - b.rotateLeft 24

/-- Jenkins' hash of the bytes of a key. -/
def jhash (key : List Byte) (initval : BitVec 32) : BitVec 32 :=
  let init := 0xdeadbeef + BitVec.ofNat 32 key.length + initval
  let last := jhashLoop key.length key ⟨init, init, init⟩
  if last.1.length = 0 then last.2.c else jhashFinal (jhashTail last.1 last.2)

/-! ## The filter -/

/-- `bloom_filter_map_impl` -/
structure BloomFilter (valueSize : BitVec 32) where
  nrHashes         : BitVec 32
  hashAlgorithm    : BloomHashAlgorithm
  hashSeed         : BitVec 32
  bitArraySizeBits : BitVec 64
  bitArrayMask     : BitVec 32
  bitArray         : Buffer Byte

/-- The operations. -/
inductive BloomFilterOp (valueSize : Nat) where
  | push (value : Option (Vector Byte valueSize)) (flags : BitVec 64)
  | update (value : Option (Vector Byte valueSize)) (flags : BitVec 64)
  | peek (value : Option (Vector Byte valueSize))

namespace BloomFilter

/-- `calculate_optimal_bit_array_size`: a power of two of bits, up to `2 ^ 31`. -/
def calculateOptimalBitArraySize (maxEntries nrHashes : BitVec 32) : BitVec 64 :=
  let optimalSize := maxEntries.setWidth 64 * nrHashes.setWidth 64 * 7 / 5
  let optimalSize := if optimalSize < 64 then 64 else optimalSize
  if optimalSize > 1#64 <<< 31 then 1#64 <<< 31 else optimalSize

/-- `while (power_of_2_bits < _bit_array_size_bits)`, for at most `fuel` rounds. -/
def powerOf2Loop (size : BitVec 64) : Nat → BitVec 64 → Option (BitVec 64)
  | 0, _ => none
  | fuel + 1, power => if power < size then powerOf2Loop size fuel (power <<< 1) else some power

variable {valueSize : BitVec 32}

/-- The constructor; `none` is a throw. -/
def new (valueSize maxEntries nrHashes : BitVec 32) (hashAlgorithm : BloomHashAlgorithm) (hashSeed : BitVec 32) :
    Option (BloomFilter valueSize) :=
  if valueSize = 0 ∨ maxEntries = 0 then none
  else if nrHashes = 0 ∨ nrHashes > 15 then none
  else do
    let bits ← powerOf2Loop (calculateOptimalBitArraySize maxEntries nrHashes) 64 1
    return {
      nrHashes := nrHashes
      hashAlgorithm := hashAlgorithm
      hashSeed := hashSeed
      bitArraySizeBits := bits
      bitArrayMask := (bits - 1).setWidth 32
      bitArray := ⟨((bits + 7) / 8).toNat, fun _ => 0⟩ }

/-- The loop and the mixing of the djb2 hash. -/
def djb2 (value : List Byte) (init : BitVec 32) : BitVec 32 :=
  let hash := value.foldl (fun (hash : BitVec 32) byte => (hash <<< 5) + hash + byte.setWidth 32) init
  let hash := (hash ^^^ hash >>> 16) * 0x85ebca6b
  let hash := (hash ^^^ hash >>> 13) * 0xc2b2ae35
  hash ^^^ hash >>> 16

/-- `hash_value`, masked into the array. -/
def hashValue (map : BloomFilter valueSize) (value : Vector Byte valueSize.toNat) (hashIndex : BitVec 32) : BitVec 32 :=
  let hash := match map.hashAlgorithm with
    | .JHASH => jhash value.toList (map.hashSeed + hashIndex)
    | .DJB2 => djb2 value.toList (map.hashSeed + hashIndex * 0x9e3779b9)
  hash &&& map.bitArrayMask

/-- `set_bit` -/
def setBit (map : BloomFilter valueSize) (bitIndex : BitVec 32) : BloomFilter valueSize :=
  let byteIndex := bitIndex.toNat / 8
  let bitOffset := bitIndex.toNat % 8
  if byteIndex < map.bitArray.size then
    { map with bitArray := ⟨map.bitArray.size,
      Function.update map.bitArray.cells byteIndex (map.bitArray.cells byteIndex ||| 1#8 <<< bitOffset)⟩ }
  else map

/-- `test_bit` -/
def testBit (map : BloomFilter valueSize) (bitIndex : BitVec 32) : Bool :=
  let byteIndex := bitIndex.toNat / 8
  let bitOffset := bitIndex.toNat % 8
  if byteIndex < map.bitArray.size then map.bitArray.cells byteIndex &&& 1#8 <<< bitOffset ≠ 0 else false

/-- The bit indices of a value, one for each hash function. -/
def bitIndices (map : BloomFilter valueSize) (value : Vector Byte valueSize.toNat) : List (BitVec 32) :=
  (List.range map.nrHashes.toNat).map fun i => map.hashValue value (BitVec.ofNat 32 i)

/-- The loop of `map_push_elem` and of `elem_update`. -/
def setBits (map : BloomFilter valueSize) (value : Vector Byte valueSize.toNat) : BloomFilter valueSize :=
  (map.bitIndices value).foldl setBit map

/-- `map_push_elem` -/
def mapPushElem (map : BloomFilter valueSize) (value : Option (Vector Byte valueSize.toNat)) (flags : BitVec 64) :
    Except Errno Unit × BloomFilter valueSize :=
  match value with
  | none => (.error .einval, map)
  | some value => if flags ≠ BPF_ANY then (.error .einval, map) else (.ok (), map.setBits value)

/-- `elem_update` pushes. -/
def elemUpdate (map : BloomFilter valueSize) (value : Option (Vector Byte valueSize.toNat)) (flags : BitVec 64) :
    Except Errno Unit × BloomFilter valueSize :=
  match value with
  | none => (.error .einval, map)
  | some value => if flags ≠ BPF_ANY then (.error .einval, map) else (.ok (), map.setBits value)

/-- `map_peek_elem` -/
def mapPeekElem (map : BloomFilter valueSize) (value : Option (Vector Byte valueSize.toNat)) : Except Errno Unit :=
  match value with
  | none => .error .einval
  | some value => if (map.bitIndices value).all map.testBit then .ok () else .error .enoent

/-- One operation. -/
def apply (map : BloomFilter valueSize) : BloomFilterOp valueSize.toNat → Except Errno Unit × BloomFilter valueSize
  | .push value flags => map.mapPushElem value flags
  | .update value flags => map.elemUpdate value flags
  | .peek value => (map.mapPeekElem value, map)

/-- Some operations. -/
def run (map : BloomFilter valueSize) (ops : List (BloomFilterOp valueSize.toNat)) : BloomFilter valueSize :=
  ops.foldl (fun map op => (map.apply op).2) map

end BloomFilter

/-- The value that an operation pushes, if it is not refused. -/
def BloomFilterOp.pushed {valueSize : Nat} : BloomFilterOp valueSize → Option (Vector Byte valueSize)
  | .push value flags | .update value flags => if flags = BPF_ANY then value else none
  | .peek _ => none

namespace BloomFilter

/-! ## The bits -/

/-- A mask of one bit. -/
theorem and_one_shift_ne_zero_iff {x : Byte} {offset : Nat} (h : offset < 8) :
    x &&& 1#8 <<< offset ≠ 0 ↔ x.getLsbD offset = true := by
  constructor
  · intro hne
    by_contra hbit
    refine hne (BitVec.eq_of_getLsbD_eq fun i hi => ?_)
    rw [BitVec.getLsbD_and]
    by_cases heq : i = offset
    · subst heq
      rw [Bool.not_eq_true] at hbit
      rw [hbit]
      simp
    · have hmask : (1#8 <<< offset).getLsbD i = false := by
        simp
        omega
      rw [hmask]
      simp
  · intro hbit hzero
    have hand := congrArg (fun y => BitVec.getLsbD y offset) hzero
    simp only [BitVec.getLsbD_and, hbit, Bool.true_and] at hand
    simp [h] at hand

section Bits

variable {valueSize : BitVec 32} {map : BloomFilter valueSize}

/-- A bit index lies in the array. -/
def InArray (map : BloomFilter valueSize) (bitIndex : BitVec 32) : Prop := bitIndex.toNat / 8 < map.bitArray.size

/-- A bit of the array. -/
theorem testBit_iff (map : BloomFilter valueSize) {bitIndex : BitVec 32} (h : map.InArray bitIndex) :
    map.testBit bitIndex = true ↔ (map.bitArray.cells (bitIndex.toNat / 8)).getLsbD (bitIndex.toNat % 8) = true := by
  have htest : map.testBit bitIndex =
      decide (map.bitArray.cells (bitIndex.toNat / 8) &&& 1#8 <<< (bitIndex.toNat % 8) ≠ 0) := if_pos h
  rw [htest, decide_eq_true_iff]
  exact and_one_shift_ne_zero_iff (Nat.mod_lt _ (by decide))

/-- What a filter keeps besides its bits. -/
structure SameShape (map map' : BloomFilter valueSize) : Prop where
  indices : map'.bitIndices = map.bitIndices
  size    : map'.bitArray.size = map.bitArray.size

/-- A bit that is set stays set. -/
structure Grows (map map' : BloomFilter valueSize) : Prop extends SameShape map map' where
  bits : ∀ bitIndex, map.testBit bitIndex = true → map'.testBit bitIndex = true

/-- No bit more. -/
theorem Grows.refl (map : BloomFilter valueSize) : Grows map map := ⟨⟨rfl, rfl⟩, fun _ h => h⟩

/-- Some bits more, and then some others. -/
theorem Grows.trans {map₁ map₂ map₃ : BloomFilter valueSize} (h₁ : Grows map₁ map₂) (h₂ : Grows map₂ map₃) :
    Grows map₁ map₃ where
  indices := h₂.indices.trans h₁.indices
  size := h₂.size.trans h₁.size
  bits bitIndex h := h₂.bits bitIndex (h₁.bits bitIndex h)

/-- One bit is set, and no other changes to 0. -/
theorem setBit_spec (bitIndex : BitVec 32) :
    Grows map (map.setBit bitIndex) ∧ (map.InArray bitIndex → (map.setBit bitIndex).testBit bitIndex = true) := by
  by_cases hin : map.InArray bitIndex
  · have hset : map.setBit bitIndex = { map with bitArray := ⟨map.bitArray.size,
        Function.update map.bitArray.cells (bitIndex.toNat / 8)
          (map.bitArray.cells (bitIndex.toNat / 8) ||| 1#8 <<< (bitIndex.toNat % 8))⟩ } := if_pos hin
    have hself : (1#8 <<< (bitIndex.toNat % 8)).getLsbD (bitIndex.toNat % 8) = true := by
      have hlt : bitIndex.toNat % 8 < 8 := Nat.mod_lt _ (by decide)
      simp [hlt]
    have hsize : (map.setBit bitIndex).bitArray.size = map.bitArray.size := by rw [hset]
    have hindices : (map.setBit bitIndex).bitIndices = map.bitIndices := by
      rw [hset]
      rfl
    have hinside {other : BitVec 32} (h : map.InArray other) : (map.setBit bitIndex).InArray other := by
      unfold InArray
      rwa [hsize]
    refine ⟨⟨⟨hindices, hsize⟩, fun other hother => ?_⟩, fun _ => ?_⟩
    · have hin' : map.InArray other := by
        by_contra hout
        have htest : map.testBit other = false := if_neg hout
        rw [htest] at hother
        cases hother
      rw [testBit_iff map hin'] at hother
      rw [testBit_iff _ (hinside hin'), hset]
      by_cases hbyte : other.toNat / 8 = bitIndex.toNat / 8
      · simp only [hbyte, Function.update_self, BitVec.getLsbD_or]
        rw [hbyte] at hother
        rw [hother, Bool.true_or]
      · simp only [Function.update_of_ne hbyte]
        exact hother
    · rw [testBit_iff _ (hinside hin), hset]
      simp only [Function.update_self, BitVec.getLsbD_or, hself, Bool.or_true]
  · have hset : map.setBit bitIndex = map := if_neg hin
    rw [hset]
    exact ⟨.refl map, fun h => absurd h hin⟩

/-- The bits of a list of indices; the induction is on the list. -/
theorem foldl_setBit_spec (indices : List (BitVec 32)) (map : BloomFilter valueSize) :
    Grows map (indices.foldl setBit map) ∧
      ∀ bitIndex ∈ indices, map.InArray bitIndex → (indices.foldl setBit map).testBit bitIndex = true := by
  induction indices generalizing map with
  | nil => exact ⟨.refl map, fun bitIndex h => absurd h List.not_mem_nil⟩
  | cons first indices ih =>
      obtain ⟨hgrows, hfirst⟩ : Grows map (map.setBit first) ∧ _ := setBit_spec first
      obtain ⟨hrest, hset⟩ := ih (map.setBit first)
      refine ⟨hgrows.trans hrest, fun bitIndex hmem hin => ?_⟩
      rcases List.mem_cons.mp hmem with rfl | hmem
      · exact hrest.bits _ (hfirst hin)
      · refine hset bitIndex hmem ?_
        unfold InArray
        rw [hgrows.size]
        exact hin

/-! ## Pushing -/

/-- **No index reaches the guard** of `set_bit` and `test_bit`. -/
def IndicesFit (map : BloomFilter valueSize) : Prop := ∀ value hashIndex, map.InArray (map.hashValue value hashIndex)

/-- A filter whose array has the bits that its mask lets through. -/
structure Sized (map : BloomFilter valueSize) : Prop where
  fits : ∃ k ≤ 31, map.bitArrayMask.toNat = 2 ^ k - 1 ∧ map.bitArray.size = (2 ^ k + 7) / 8

/-- The mask is less than the size, so each index is one of the array. -/
theorem Sized.indicesFit (h : map.Sized) : map.IndicesFit := by
  intro value hashIndex
  obtain ⟨k, -, hmask, hsize⟩ := h.fits
  have hpos : 0 < 2 ^ k := Nat.two_pow_pos k
  have hle : (map.hashValue value hashIndex).toNat ≤ 2 ^ k - 1 := by
    rw [← hmask]
    unfold hashValue
    rw [BitVec.toNat_and]
    exact Nat.and_le_right
  unfold InArray
  rw [hsize]
  omega

/-- Each index is a hash of the value. -/
theorem mem_bitIndices {value : Vector Byte valueSize.toNat} {bitIndex : BitVec 32} (h : bitIndex ∈ map.bitIndices value) :
    ∃ hashIndex, bitIndex = map.hashValue value hashIndex := by
  obtain ⟨i, -, rfl⟩ := List.mem_map.mp h
  exact ⟨_, rfl⟩

/-- A value is a member: all its bits are set. -/
def Member (map : BloomFilter valueSize) (value : Vector Byte valueSize.toNat) : Prop :=
  ∀ bitIndex ∈ map.bitIndices value, map.testBit bitIndex = true

/-- A peek finds the values whose bits are all set. -/
theorem mapPeekElem_iff {value : Vector Byte valueSize.toNat} : map.mapPeekElem (some value) = .ok () ↔ map.Member value := by
  show (if (map.bitIndices value).all map.testBit then _ else _) = _ ↔ _
  by_cases hall : (map.bitIndices value).all map.testBit = true
  · rw [if_pos hall]
    exact ⟨fun _ => List.all_eq_true.mp hall, fun _ => rfl⟩
  · rw [if_neg hall]
    exact ⟨fun h => (by cases h), fun h => absurd (List.all_eq_true.mpr h) hall⟩

/-- Which stay set. -/
theorem Member.of_grows {map' : BloomFilter valueSize} {value : Vector Byte valueSize.toNat} (hgrows : Grows map map')
    (h : map.Member value) : map'.Member value := by
  intro bitIndex hmem
  rw [hgrows.indices] at hmem
  exact hgrows.bits bitIndex (h bitIndex hmem)

/-- **A push sets the bits of its value** and clears none. -/
theorem setBits_spec (hfit : map.IndicesFit) (value : Vector Byte valueSize.toNat) :
    Grows map (map.setBits value) ∧ (map.setBits value).Member value := by
  obtain ⟨hgrows, hset⟩ := foldl_setBit_spec (map.bitIndices value) map
  refine ⟨hgrows, fun bitIndex hmem => ?_⟩
  have hmem' : bitIndex ∈ map.bitIndices value := by
    rw [← hgrows.indices]
    exact hmem
  obtain ⟨hashIndex, rfl⟩ := mem_bitIndices hmem'
  exact hset _ hmem' (hfit value hashIndex)

/-- Setting a bit leaves the mask. -/
theorem setBit_mask (map : BloomFilter valueSize) (bitIndex : BitVec 32) :
    (map.setBit bitIndex).bitArrayMask = map.bitArrayMask := by
  unfold setBit
  dsimp only
  split <;> rfl

/-- And so does a push. -/
theorem setBits_mask (map : BloomFilter valueSize) (value : Vector Byte valueSize.toNat) :
    (map.setBits value).bitArrayMask = map.bitArrayMask := by
  unfold setBits
  generalize map.bitIndices value = indices
  induction indices generalizing map with
  | nil => rfl
  | cons first indices ih => exact (ih (map.setBit first)).trans (setBit_mask map first)

/-- **One operation** keeps the size and every bit, and what it pushes is a member afterwards. -/
theorem apply_spec (h : map.Sized) (op : BloomFilterOp valueSize.toNat) :
    (map.apply op).2.Sized ∧ Grows map (map.apply op).2 ∧ ∀ value ∈ op.pushed, (map.apply op).2.Member value := by
  have hpush (value : Option (Vector Byte valueSize.toNat)) (flags : BitVec 64) :
      (map.mapPushElem value flags).2.Sized ∧ Grows map (map.mapPushElem value flags).2 ∧
        ∀ pushed ∈ (if flags = BPF_ANY then value else none), (map.mapPushElem value flags).2.Member pushed := by
    cases value with
    | none =>
        refine ⟨h, .refl map, fun pushed hmem => ?_⟩
        rw [ite_self] at hmem
        cases hmem
    | some value =>
        unfold mapPushElem
        by_cases hflags : flags = BPF_ANY
        · obtain ⟨hgrows, hmember⟩ := setBits_spec h.indicesFit value
          simp only [hflags, ne_eq, not_true_eq_false, if_false, if_true]
          refine ⟨⟨?_⟩, hgrows, fun pushed hmem => ?_⟩
          · rw [setBits_mask, hgrows.size]
            exact h.fits
          · cases hmem
            exact hmember
        · simp only [hflags, ne_eq, not_false_eq_true, if_true, if_false]
          refine ⟨h, .refl map, fun pushed hmem => ?_⟩
          cases hmem
  cases op with
  | push value flags => exact hpush value flags
  -- the loop and the checks are those of a push
  | update value flags => exact hpush value flags
  | peek value =>
      refine ⟨h, .refl map, fun pushed hmem => ?_⟩
      cases hmem

/-- A run keeps the size and every bit. -/
theorem run_spec (h : map.Sized) (ops : List (BloomFilterOp valueSize.toNat)) :
    (map.run ops).Sized ∧ Grows map (map.run ops) ∧ ∀ op ∈ ops, ∀ value ∈ op.pushed, (map.run ops).Member value := by
  induction ops generalizing map with
  | nil => exact ⟨h, .refl map, fun op hop => absurd hop List.not_mem_nil⟩
  | cons first ops ih =>
      obtain ⟨hsized, hgrows, hfirst⟩ := apply_spec h first
      obtain ⟨hsized', hgrows', hrest⟩ := ih hsized
      refine ⟨hsized', hgrows.trans hgrows', fun op hop value hvalue => ?_⟩
      rcases List.mem_cons.mp hop with rfl | hop
      · exact (hfirst value hvalue).of_grows hgrows'
      · exact hrest op hop value hvalue

end Bits

/-! ## The constructor -/

/-- The loop ends with a power of two; the induction is on the rounds that are left. -/
theorem powerOf2Loop_spec {size : BitVec 64} (hsize : size.toNat ≤ 2 ^ 31) (fuel : Nat) {power : BitVec 64} {j : Nat}
    (hpower : power.toNat = 2 ^ j) (hj : j ≤ 31) (hfuel : 31 < j + fuel) :
    ∃ bits, powerOf2Loop size fuel power = some bits ∧ ∃ k ≤ 31, bits.toNat = 2 ^ k := by
  induction fuel generalizing power j with
  | zero => omega
  | succ fuel ih =>
      unfold powerOf2Loop
      by_cases hlt : power < size
      · rw [if_pos hlt]
        have hj' : j < 31 := by
          rw [BitVec.lt_def, hpower] at hlt
          exact (Nat.pow_lt_pow_iff_right (by decide)).mp (hlt.trans_le hsize)
        have hnext : (power <<< 1).toNat = 2 ^ (j + 1) := by
          have hle : 2 ^ (j + 1) ≤ 2 ^ 31 := Nat.pow_le_pow_right (by decide) hj'
          rw [BitVec.toNat_shiftLeft, hpower, Nat.shiftLeft_eq, Nat.pow_one, ← Nat.pow_succ, Nat.mod_eq_of_lt (by omega)]
        exact ih hnext hj' (by omega)
      · rw [if_neg hlt]
        exact ⟨power, rfl, j, hj, hpower⟩

/-- The number of bits fits in 32 bits. -/
theorem calculateOptimalBitArraySize_le (maxEntries nrHashes : BitVec 32) :
    (calculateOptimalBitArraySize maxEntries nrHashes).toNat ≤ 2 ^ 31 := by
  unfold calculateOptimalBitArraySize
  dsimp only
  generalize (if maxEntries.setWidth 64 * nrHashes.setWidth 64 * 7 / 5 < 64 then (64 : BitVec 64)
    else maxEntries.setWidth 64 * nrHashes.setWidth 64 * 7 / 5) = size
  have hlimit : (1#64 <<< 31).toNat = 2 ^ 31 := by decide
  by_cases hlarge : size > 1#64 <<< 31
  · rw [if_pos hlarge, hlimit]
  · rw [if_neg hlarge]
    rw [gt_iff_lt, BitVec.lt_def, hlimit] at hlarge
    exact Nat.le_of_not_lt hlarge

/-- **The constructor** makes a filter of the right size for every pair of sizes and every allowed number of hash
functions. -/
theorem new_spec {valueSize maxEntries nrHashes : BitVec 32} (hvalue : valueSize ≠ 0) (hmax : maxEntries ≠ 0)
    (hhashes : nrHashes ≠ 0 ∧ nrHashes ≤ 15) (hashAlgorithm : BloomHashAlgorithm) (hashSeed : BitVec 32) :
    ∃ map, new valueSize maxEntries nrHashes hashAlgorithm hashSeed = some map ∧ map.Sized := by
  obtain ⟨bits, hbits, k, hk, hpower⟩ := powerOf2Loop_spec (calculateOptimalBitArraySize_le maxEntries nrHashes) 64
    (show (1 : BitVec 64).toNat = 2 ^ 0 from rfl) (Nat.zero_le 31) (by decide)
  have hle : 2 ^ k ≤ 2 ^ 31 := Nat.pow_le_pow_right (by decide) hk
  have hpos : 0 < 2 ^ k := Nat.two_pow_pos k
  have hnew : new valueSize maxEntries nrHashes hashAlgorithm hashSeed = some {
      nrHashes := nrHashes
      hashAlgorithm := hashAlgorithm
      hashSeed := hashSeed
      bitArraySizeBits := bits
      bitArrayMask := (bits - 1).setWidth 32
      bitArray := ⟨((bits + 7) / 8).toNat, fun _ => 0⟩ } := by
    have hfew : ¬ nrHashes > 15 := fun hmany => BitVec.not_le.mpr hmany hhashes.2
    unfold new
    rw [if_neg (not_or.mpr ⟨hvalue, hmax⟩), if_neg (not_or.mpr ⟨hhashes.1, hfew⟩), hbits]
    rfl
  refine ⟨_, hnew, ⟨k, hk, ?_, ?_⟩⟩
  · have hone : (1 : BitVec 64).toNat = 1 := rfl
    rw [BitVec.toNat_setWidth, BitVec.toNat_sub, hpower, hone]
    omega
  · have hseven : (7 : BitVec 64).toNat = 7 := rfl
    have height : (8 : BitVec 64).toNat = 8 := rfl
    show ((bits + 7) / 8).toNat = _
    rw [BitVec.toNat_udiv, BitVec.toNat_add, hpower, hseven, height]
    omega

end BloomFilter

/-- **No false negatives**: after every run, each pushed value is found, and no index ever reaches the guard. -/
theorem bloomFilter_noFalseNegatives {valueSize maxEntries nrHashes : BitVec 32} (hvalue : valueSize ≠ 0)
    (hmax : maxEntries ≠ 0) (hhashes : nrHashes ≠ 0 ∧ nrHashes ≤ 15) (hashAlgorithm : BloomHashAlgorithm)
    (hashSeed : BitVec 32) :
    ∃ map, BloomFilter.new valueSize maxEntries nrHashes hashAlgorithm hashSeed = some map ∧
      ∀ ops, (map.run ops).IndicesFit ∧
        ∀ op ∈ ops, ∀ value ∈ op.pushed, (map.run ops).mapPeekElem (some value) = .ok () := by
  obtain ⟨map, hnew, hsized⟩ := BloomFilter.new_spec hvalue hmax hhashes hashAlgorithm hashSeed
  refine ⟨map, hnew, fun ops => ?_⟩
  obtain ⟨hsized', -, hmember⟩ := BloomFilter.run_spec hsized ops
  exact ⟨hsized'.indicesFit, fun op hop value hvalue => BloomFilter.mapPeekElem_iff.mpr (hmember op hop value hvalue)⟩

/-- A filter for a hundred values of four bytes with five hash functions: two values are pushed, and both are found. -/
theorem bloomFilter_noFalseNegatives_fiveHashes :
    ∃ map : BloomFilter 4, BloomFilter.new 4 100 5 .JHASH 42 = some map ∧
      let map' := map.run [.push (some #v[1, 2, 3, 4]) BPF_ANY, .peek none, .update (some #v[255, 0, 0, 7]) BPF_ANY]
      map'.IndicesFit ∧ map'.mapPeekElem (some #v[1, 2, 3, 4]) = .ok () ∧
        map'.mapPeekElem (some #v[255, 0, 0, 7]) = .ok () := by
  obtain ⟨map, hnew, hruns⟩ := @bloomFilter_noFalseNegatives 4 100 5 (by decide) (by decide) (by decide)
    .JHASH 42
  obtain ⟨hfit, hfound⟩ := hruns
    [.push (some #v[1, 2, 3, 4]) BPF_ANY, .peek none, .update (some #v[255, 0, 0, 7]) BPF_ANY]
  exact ⟨map, hnew, hfit, hfound _ (.head _) _ rfl, hfound _ (.tail _ (.tail _ (.head _))) _ rfl⟩

end Maps
