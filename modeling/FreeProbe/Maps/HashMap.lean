import FreeProbe.Lib.LinearProbing
import FreeProbe.Maps.Common
import Mathlib.NumberTheory.Bertrand

/-!
# `Maps.HashMap` — `bpftime_hash_map`

The fixed-size hash map of the runtime: open addressing, linear probing, and a bucket count rounded up to a
prime. A bucket is the 32-bit fill mark, the key and the value that lie one after the other in `data_buffer`.
The loops of `elem_lookup`, `elem_update` and `elem_delete` are one `do … while` loop with three endings, so
they share `findBucket`.
-/

namespace Maps

open Lib.LinearProbing

/-! ## `bpftime_hasher` -/

/-- `for (size_t i = 5; i * i <= n; i += 6)` -/
def isPrimeLoop (n i : Nat) : Bool :=
  if i * i ≤ n then
    if n % i = 0 ∨ n % (i + 2) = 0 then false else isPrimeLoop n (i + 6)
  else true
termination_by n + 1 - i
decreasing_by
  have : i ≤ n := Nat.le_trans (Nat.le_mul_self i) ‹_›
  omega

def isPrime (n : Nat) : Bool :=
  if n ≤ 1 then false
  else if n ≤ 3 then true
  else if n % 2 = 0 ∨ n % 3 = 0 then false
  else isPrimeLoop n 5

/-- `while (!is_prime(n)) ++n;`, for at most `fuel` rounds. -/
def nextPrimeLoop : Nat → Nat → Nat
  | 0, n => n
  | fuel + 1, n => if isPrime n then n else nextPrimeLoop fuel (n + 1)

/-- There is a prime between `n` and `2 * n`, and 2 is the next one after 0, so the fuel is never spent
    (`nextPrime_prime`). -/
def nextPrime (n : Nat) : Nat := nextPrimeLoop (n + 3) n

/-- `hash_func`, modulo `2 ^ 64` as `size_t` is. -/
def hashFunc {keySize : Nat} (key : Vector Byte keySize) : BitVec 64 :=
  key.toList.foldl (fun hash byte => hash * 31 + byte.setWidth 64) 0

/-! ## The map -/

/-- One element of `data_buffer`. -/
structure Bucket (keySize valueSize : Nat) where
  filled : BitVec 32
  key    : Vector Byte keySize
  value  : Vector Byte valueSize
deriving DecidableEq

def Bucket.isEmpty {keySize valueSize : Nat} (b : Bucket keySize valueSize) : Bool := b.filled == 0

/-- The key that a probe sees in a bucket. -/
def Bucket.keyOf {keySize valueSize : Nat} (b : Bucket keySize valueSize) : Option (Vector Byte keySize) :=
  if b.isEmpty then none else some b.key

/-- `_num_buckets` is the adjusted number, `_max_element_count` the original one. -/
structure HashMap (keySize valueSize : Nat) where
  numBuckets      : Nat
  maxElementCount : Nat
  count           : Nat
  buckets         : Nat → Bucket keySize valueSize

namespace HashMap

variable {keySize valueSize : Nat}

/-- The constructor. The size of `data_buffer`, as many elements as buckets, is taken to fit into a `size_t`. -/
def new (numBuckets : Nat) : HashMap keySize valueSize where
  numBuckets := nextPrime numBuckets
  maxElementCount := numBuckets
  count := 0
  buckets := fun _ => ⟨0, Vector.replicate keySize 0, Vector.replicate valueSize 0⟩

def getKey (map : HashMap keySize valueSize) (index : Nat) : Vector Byte keySize := (map.buckets index).key

def getValue (map : HashMap keySize valueSize) (index : Nat) : Vector Byte valueSize :=
  (map.buckets index).value

/-- The key in a bucket, for the probe. -/
def keyAt (map : HashMap keySize valueSize) (index : Nat) : Option (Vector Byte keySize) :=
  (map.buckets index).keyOf

/-- `hash_func(key, _key_size) % _num_buckets` -/
def home (map : HashMap keySize valueSize) (key : Vector Byte keySize) : Nat :=
  (hashFunc key).toNat % map.numBuckets

/-- The loop of the three operations: from the key's home bucket, around the buckets, to the first that is
    empty or has the key. -/
def findBucket (map : HashMap keySize valueSize) (key : Vector Byte keySize) : Probe :=
  probe map.keyAt map.numBuckets key (map.home key)

def setBucket (map : HashMap keySize valueSize) (index : Nat) (b : Bucket keySize valueSize) :
    HashMap keySize valueSize := { map with buckets := Function.update map.buckets index b }

/-- The value that `elem_lookup` returns a pointer to. -/
def elemLookup (map : HashMap keySize valueSize) (key : Vector Byte keySize) : Option (Vector Byte valueSize) :=
  match map.findBucket key with
  | .vacant _ => none
  | .found index => some (map.getValue index)
  | .exhausted => none

def elemUpdate (map : HashMap keySize valueSize) (key : Vector Byte keySize) (value : Vector Byte valueSize) :
    Bool × HashMap keySize valueSize :=
  match map.findBucket key with
  | .vacant index =>
    if map.count ≥ map.maxElementCount then (false, map)
    else (true, { map.setBucket index ⟨1, key, value⟩ with count := map.count + 1 })
  | .found index => (true, map.setBucket index { map.buckets index with value := value })
  | .exhausted => (false, map)

/-- `set_empty` clears the fill mark; key and value bytes stay. -/
def elemDelete (map : HashMap keySize valueSize) (key : Vector Byte keySize) :
    Bool × HashMap keySize valueSize :=
  match map.findBucket key with
  | .vacant _ => (false, map)
  | .found index =>
    (true, { map.setBucket index { map.buckets index with filled := 0 } with count := map.count - 1 })
  | .exhausted => (false, map)

def getElemCount (map : HashMap keySize valueSize) : Nat := map.count

end HashMap

/-! ## The bucket count is a prime -/

theorem isPrimeLoop_iff (n i : Nat) :
    isPrimeLoop n i = true ↔
      ∀ k, (i + 6 * k) * (i + 6 * k) ≤ n → ¬ n % (i + 6 * k) = 0 ∧ ¬ n % (i + 6 * k + 2) = 0 := by
  fun_induction isPrimeLoop n i with
  | case1 i hle hdiv =>
      refine ⟨fun h => absurd h Bool.false_ne_true, fun h => ?_⟩
      obtain ⟨h0, h2⟩ := h 0 hle
      exact absurd hdiv (by rw [Nat.mul_zero, Nat.add_zero] at h0 h2; tauto)
  | case2 i hle hdiv ih =>
      rw [ih]
      constructor
      · intro h k hk
        cases k with
        | zero => rw [Nat.mul_zero, Nat.add_zero]; tauto
        | succ k => rw [show i + 6 * (k + 1) = i + 6 + 6 * k by ring] at hk ⊢; exact h k hk
      · intro h k hk
        rw [show i + 6 + 6 * k = i + 6 * (k + 1) by ring] at hk ⊢
        exact h (k + 1) hk
  | case3 i hgt =>
      refine ⟨fun _ k hk => ?_, fun _ => rfl⟩
      exact absurd (Nat.le_trans (Nat.mul_le_mul (Nat.le_add_right i _) (Nat.le_add_right i _)) hk) hgt

/-- **`is_prime` decides primality.** -/
theorem isPrime_iff (n : Nat) : isPrime n = true ↔ n.Prime := by
  unfold isPrime
  split
  · next h => exact ⟨fun h' => absurd h' Bool.false_ne_true, fun hp => absurd hp.one_lt (by omega)⟩
  split
  · next h1 h3 =>
      refine ⟨fun _ => ?_, fun _ => rfl⟩
      obtain rfl | rfl : n = 2 ∨ n = 3 := by omega
      · exact Nat.prime_two
      · exact Nat.prime_three
  split
  · next h1 h3 hdiv =>
      refine ⟨fun h' => absurd h' Bool.false_ne_true, fun hp => ?_⟩
      rcases hdiv with h | h
      · have := (Nat.prime_dvd_prime_iff_eq Nat.prime_two hp).mp (Nat.dvd_of_mod_eq_zero h); omega
      · have := (Nat.prime_dvd_prime_iff_eq Nat.prime_three hp).mp (Nat.dvd_of_mod_eq_zero h); omega
  · next h1 h3 hdiv =>
      rw [isPrimeLoop_iff]
      constructor
      · intro h
        by_contra hnp
        -- the least factor is 5 + 6k or 7 + 6k, and its square is at most `n`
        have hp := Nat.minFac_prime (n := n) (by omega)
        have hdvd := Nat.minFac_dvd n
        have hsq := Nat.minFac_sq_le_self (by omega) hnp
        rw [pow_two] at hsq
        have h2 : n.minFac % 2 ≠ 0 := fun h2 =>
          hdiv (.inl (Nat.mod_eq_zero_of_dvd ((Nat.dvd_of_mod_eq_zero h2).trans hdvd)))
        have h3 : n.minFac % 3 ≠ 0 := fun h3 =>
          hdiv (.inr (Nat.mod_eq_zero_of_dvd ((Nat.dvd_of_mod_eq_zero h3).trans hdvd)))
        have hmod := Nat.mod_eq_zero_of_dvd hdvd
        have hone := hp.one_lt
        generalize n.minFac = p at *
        obtain ⟨k, hk⟩ : ∃ k, p = 5 + 6 * k ∨ p = 5 + 6 * k + 2 := ⟨(p - 5) / 6, by omega⟩
        rcases hk with rfl | rfl
        · exact (h k hsq).1 hmod
        · exact (h k (Nat.le_trans (Nat.mul_le_mul (by omega) (by omega)) hsq)).2 hmod
      · intro hp k hk
        have hlt : 5 + 6 * k + 2 < n := by nlinarith
        refine ⟨fun h => ?_, fun h => ?_⟩
        · have := (Nat.dvd_prime hp).mp (Nat.dvd_of_mod_eq_zero h); omega
        · have := (Nat.dvd_prime hp).mp (Nat.dvd_of_mod_eq_zero h); omega

theorem nextPrimeLoop_prime {fuel n p : Nat} (hp : p.Prime) (hn : n ≤ p) (hfuel : p < n + fuel) :
    (nextPrimeLoop fuel n).Prime ∧ n ≤ nextPrimeLoop fuel n := by
  induction fuel generalizing n with
  | zero => omega
  | succ fuel ih =>
      unfold nextPrimeLoop
      split
      · next h => exact ⟨(isPrime_iff n).mp h, Nat.le_refl n⟩
      · next h =>
          have hne : n ≠ p := by
            rintro rfl
            exact h ((isPrime_iff n).mpr hp)
          obtain ⟨hprime, hle⟩ := ih (n := n + 1) (by omega) (by omega)
          exact ⟨hprime, Nat.le_of_succ_le hle⟩

/-- **`next_prime` returns a prime** that is no smaller than its argument. -/
theorem nextPrime_prime (n : Nat) : (nextPrime n).Prime ∧ n ≤ nextPrime n := by
  cases n with
  | zero => exact nextPrimeLoop_prime Nat.prime_two (Nat.zero_le _) (by decide)
  | succ n =>
      obtain ⟨p, hp, hlt, hle⟩ := Nat.exists_prime_lt_and_le_two_mul (n + 1) (Nat.succ_ne_zero n)
      exact nextPrimeLoop_prime hp (Nat.le_of_lt hlt) (by omega)

end Maps
