import Mathlib.Algebra.BigOperators.Group.List.Basic
import Mathlib.Algebra.Order.BigOperators.Group.List
import Mathlib.Data.BitVec
import Mathlib.Data.Int.ModEq

/-!
# `Helper.CsumDiff` — `bpftime_csum_diff`

The words of `to` and the complements of those of `from` are added to the seed in an `int`, whose sums wrap; a negative
sum is answered with `-EINVAL`, and no carry is folded in. Complements are negatives modulo `65535`, so the sum without
wrapping is what the helper should return (`unwrapped_modEq`). The returned `int` is that sum, but for a multiple of
`2 ^ 32`, where it is not negative.
-/

namespace Csum

def EINVAL : Int := 22

variable (cells : Nat → BitVec 8)

/-- `*((uint16_t *)p + i)`. -/
def word (p i : Nat) : BitVec 16 := cells (p + 2 * i + 1) ++ cells (p + 2 * i)

/-- `for (int i = 0; i < size / 2; i++) csum_diff += (uint16_t)…`, which reads nothing where `p` is null. -/
def addWords (f : BitVec 16 → BitVec 16) (p : Nat) (size : Int) (csumDiff : BitVec 32) : BitVec 32 :=
  if p ≠ 0 then
    (List.range (size.tdiv 2).toNat).foldl (fun csumDiff i => csumDiff + (f (word cells p i)).setWidth 32) csumDiff
  else csumDiff

def bpftime_csum_diff (fromBuf : Nat) (fromSize : Int) (toBuf : Nat) (toSize : Int) (seed : BitVec 32) : Int :=
  if fromSize.tmod 4 ≠ 0 ∨ toSize.tmod 4 ≠ 0 then -EINVAL
  else
    let csumDiff := addWords cells id toBuf toSize seed
    let csumDiff := addWords cells (~~~ ·) fromBuf fromSize csumDiff
    if csumDiff.toInt < 0 then -EINVAL else csumDiff.toInt

/-! ## The sum without wrapping -/

/-- The words of a buffer; a null pointer has none. -/
def words (p : Nat) (size : Int) : List (BitVec 16) :=
  if p ≠ 0 then (List.range (size / 2).toNat).map (word cells p) else []

def sum (f : BitVec 16 → BitVec 16) (xs : List (BitVec 16)) : Nat := (xs.map fun x => (f x).toNat).sum

/-- What is added to the seed. -/
def unwrapped (fromBuf : Nat) (fromSize : Int) (toBuf : Nat) (toSize : Int) : Nat :=
  sum id (words cells toBuf toSize) + sum (~~~ ·) (words cells fromBuf fromSize)

/-- The sum of `to`'s words less that of `from`'s. -/
def difference (fromBuf : Nat) (fromSize : Int) (toBuf : Nat) (toSize : Int) : Int :=
  sum id (words cells toBuf toSize) - sum id (words cells fromBuf fromSize)

variable {cells} {fromBuf toBuf p : Nat} {fromSize toSize size : Int} {seed : BitVec 32} {f : BitVec 16 → BitVec 16}

@[simp] theorem sum_nil : sum f [] = 0 := rfl

@[simp] theorem sum_cons (x : BitVec 16) (xs : List (BitVec 16)) : sum f (x :: xs) = (f x).toNat + sum f xs := by
  simp [sum]

theorem sum_le (xs : List (BitVec 16)) : sum f xs ≤ xs.length * 65535 := by
  induction xs with
  | nil => simp
  | cons x xs ih =>
      have hword := (f x).isLt
      rw [sum_cons, List.length_cons]
      omega

/-- A complement is a negative modulo `65535`. -/
theorem sum_not_modEq (xs : List (BitVec 16)) : (sum (~~~ ·) xs : Int) ≡ -(sum id xs : Int) [ZMOD 65535] := by
  induction xs with
  | nil => rfl
  | cons x xs ih =>
      have hword : ((~~~x).toNat : Int) ≡ -(x.toNat : Int) [ZMOD 65535] := by
        have hx := x.isLt
        rw [BitVec.toNat_not, Int.modEq_iff_dvd]
        refine ⟨-1, ?_⟩
        omega
      have hsum := Int.ModEq.add hword ih
      rw [sum_cons, sum_cons, Nat.cast_add, Nat.cast_add, neg_add]
      exact hsum

variable (cells fromBuf toBuf fromSize toSize) in
/-- **The sum without wrapping is the difference**, modulo `65535`. -/
theorem unwrapped_modEq :
    (unwrapped cells fromBuf fromSize toBuf toSize : Int) ≡ difference cells fromBuf fromSize toBuf toSize [ZMOD 65535] := by
  rw [unwrapped, difference, Nat.cast_add, sub_eq_add_neg]
  exact Int.ModEq.add_left _ (sum_not_modEq _)

variable (cells p) in
theorem length_words_le (hsize : size ≤ 512) : (words cells p size).length ≤ 256 := by
  unfold words
  split
  · rw [List.length_map, List.length_range]
    omega
  · exact Nat.zero_le _

variable (cells fromBuf toBuf) in
/-- Short buffers alone do not come near `2 ^ 31`. -/
theorem unwrapped_lt (hfrom : fromSize ≤ 512) (hto : toSize ≤ 512) :
    unwrapped cells fromBuf fromSize toBuf toSize < 2 ^ 25 := by
  have hlengthTo := length_words_le cells toBuf hto
  have hlengthFrom := length_words_le cells fromBuf hfrom
  have hsumTo := sum_le (f := id) (words cells toBuf toSize)
  have hsumFrom := sum_le (f := (~~~ ·)) (words cells fromBuf fromSize)
  unfold unwrapped
  omega

/-! ## The sum in an `int` -/

theorem foldl_words (is : List Nat) (csumDiff : BitVec 32) :
    is.foldl (fun csumDiff i => csumDiff + (f (word cells p i)).setWidth 32) csumDiff =
      csumDiff + BitVec.ofNat 32 (sum f (is.map (word cells p))) := by
  induction is generalizing csumDiff with
  | nil => simp
  | cons i is ih =>
      have hword : (f (word cells p i)).setWidth 32 = BitVec.ofNat 32 (f (word cells p i)).toNat := by
        simp
      rw [List.foldl_cons, ih, List.map_cons, sum_cons, BitVec.ofNat_add, hword, BitVec.add_assoc]

theorem addWords_eq (hsize : 4 ∣ size) (csumDiff : BitVec 32) :
    addWords cells f p size csumDiff = csumDiff + BitVec.ofNat 32 (sum f (words cells p size)) := by
  have hhalf : (size.tdiv 2).toNat = (size / 2).toNat := by
    rw [Int.tdiv_eq_ediv_of_dvd (Int.dvd_trans (by decide) hsize)]
  unfold addWords words
  split
  · rw [hhalf, foldl_words]
  · simp

/-- An `int` is an error where it is negative. -/
theorem answer_eq (csumDiff : BitVec 32) :
    (if csumDiff.toInt < 0 then -EINVAL else csumDiff.toInt) =
      if csumDiff.toNat < 2 ^ 31 then (csumDiff.toNat : Int) else -EINVAL := by
  have hint := BitVec.toInt_eq_toNat_cond csumDiff
  have hlt := csumDiff.isLt
  by_cases hhigh : csumDiff.toNat < 2 ^ 31
  · rw [if_pos (by omega)] at hint
    rw [if_pos hhigh, if_neg (by omega), hint]
  · rw [if_neg (by omega)] at hint
    rw [if_neg hhigh, if_pos (by omega)]

/-- What the helper returns for buffers of whole words. -/
theorem bpftime_csum_diff_eq (hfrom : 4 ∣ fromSize) (hto : 4 ∣ toSize) :
    bpftime_csum_diff cells fromBuf fromSize toBuf toSize seed =
      if (seed.toNat + unwrapped cells fromBuf fromSize toBuf toSize) % 2 ^ 32 < 2 ^ 31 then
        (((seed.toNat + unwrapped cells fromBuf fromSize toBuf toSize) % 2 ^ 32 : Nat) : Int)
      else -EINVAL := by
  have hsizes : ¬ (fromSize.tmod 4 ≠ 0 ∨ toSize.tmod 4 ≠ 0) := by
    rw [not_or, not_not, not_not]
    exact ⟨Int.tmod_eq_zero_of_dvd hfrom, Int.tmod_eq_zero_of_dvd hto⟩
  have hsum : addWords cells (~~~ ·) fromBuf fromSize (addWords cells id toBuf toSize seed) =
      seed + BitVec.ofNat 32 (unwrapped cells fromBuf fromSize toBuf toSize) := by
    rw [addWords_eq hto, addWords_eq hfrom, BitVec.add_assoc, ← BitVec.ofNat_add, unwrapped]
  rw [bpftime_csum_diff, if_neg hsizes]
  simp only [hsum]
  rw [answer_eq, BitVec.toNat_add, BitVec.toNat_ofNat, Nat.add_mod_mod]

/-! ## When the difference is returned -/

/-- The returned value is the difference where it is the sum without wrapping. -/
theorem modEq_difference_iff (result start : Int) :
    result ≡ start + difference cells fromBuf fromSize toBuf toSize [ZMOD 65535] ↔
      result ≡ start + unwrapped cells fromBuf fromSize toBuf toSize [ZMOD 65535] := by
  have hsum := Int.ModEq.add_left start (unwrapped_modEq cells fromBuf toBuf fromSize toSize)
  exact ⟨fun h => h.trans hsum.symm, fun h => h.trans hsum⟩

/-- The seed as an unsigned number: the sum is below `2 ^ 31`, or the error number is what the sum should be. From
    `2 ^ 32` on the sum has lost a carry. -/
theorem unsigned_modEq_iff {n added : Nat} (hn : n < 2 ^ 32) (hadded : added < 2 ^ 25) :
    (if (n + added) % 2 ^ 32 < 2 ^ 31 then (((n + added) % 2 ^ 32 : Nat) : Int) else -EINVAL) ≡ n + added [ZMOD 65535] ↔
      n + added < 2 ^ 31 ∨ n + added < 2 ^ 32 ∧ 65535 ∣ n + added + 22 := by
  rw [Int.modEq_iff_dvd]
  by_cases hlow : n + added < 2 ^ 32
  · rw [Nat.mod_eq_of_lt hlow]
    by_cases hint : n + added < 2 ^ 31
    · rw [if_pos hint, Nat.cast_add, sub_self]
      exact iff_of_true (dvd_zero _) (Or.inl hint)
    · rw [if_neg hint, EINVAL]
      omega
  · rw [if_pos (by omega)]
    omega

/-- The seed as an `int`: the sum is one, or the error number is what it should be. -/
theorem signed_modEq_iff {n : BitVec 32} {added : Nat} (hadded : added < 2 ^ 25) :
    (if (n.toNat + added) % 2 ^ 32 < 2 ^ 31 then (((n.toNat + added) % 2 ^ 32 : Nat) : Int) else -EINVAL) ≡
        n.toInt + added [ZMOD 65535] ↔
      0 ≤ n.toInt + added ∧ n.toInt + added < 2 ^ 31 ∨ 65535 ∣ n.toInt + added + 22 := by
  have hint := BitVec.toInt_eq_toNat_cond n
  have hn := n.isLt
  rw [Int.modEq_iff_dvd]
  by_cases hneg : n.toNat < 2 ^ 31
  · rw [if_pos (by omega)] at hint
    rw [hint, Nat.mod_eq_of_lt (by omega)]
    by_cases hhigh : n.toNat + added < 2 ^ 31
    · rw [if_pos hhigh]
      omega
    · rw [if_neg hhigh, EINVAL]
      omega
  · rw [if_neg (by omega)] at hint
    rw [hint]
    by_cases hcarry : n.toNat + added < 2 ^ 32
    · rw [Nat.mod_eq_of_lt hcarry, if_neg (by omega), EINVAL]
      omega
    · -- the sum is back above zero
      rw [Nat.mod_eq_sub_mod (by omega), Nat.mod_eq_of_lt (by omega), if_pos (by omega)]
      omega

/-- **The helper returns the difference exactly when the sum with the seed is below `2 ^ 31`**, or when it happens to be
    congruent to the error number; the seed taken as an unsigned number, or as the `int` that it is. -/
theorem csum_diff_modEq_iff (hfrom : 4 ∣ fromSize) (hfromMax : fromSize ≤ 512) (hto : 4 ∣ toSize) (htoMax : toSize ≤ 512) :
    (bpftime_csum_diff cells fromBuf fromSize toBuf toSize seed ≡
          seed.toNat + difference cells fromBuf fromSize toBuf toSize [ZMOD 65535] ↔
        seed.toNat + unwrapped cells fromBuf fromSize toBuf toSize < 2 ^ 31 ∨
          seed.toNat + unwrapped cells fromBuf fromSize toBuf toSize < 2 ^ 32 ∧
            65535 ∣ seed.toNat + unwrapped cells fromBuf fromSize toBuf toSize + 22) ∧
      (bpftime_csum_diff cells fromBuf fromSize toBuf toSize seed ≡
          seed.toInt + difference cells fromBuf fromSize toBuf toSize [ZMOD 65535] ↔
        0 ≤ seed.toInt + unwrapped cells fromBuf fromSize toBuf toSize ∧
            seed.toInt + unwrapped cells fromBuf fromSize toBuf toSize < 2 ^ 31 ∨
          65535 ∣ seed.toInt + unwrapped cells fromBuf fromSize toBuf toSize + 22) := by
  have hadded := unwrapped_lt cells fromBuf toBuf hfromMax htoMax
  rw [modEq_difference_iff, modEq_difference_iff, bpftime_csum_diff_eq hfrom hto]
  exact ⟨unsigned_modEq_iff seed.isLt hadded, signed_modEq_iff hadded⟩

/-- The word `1` at `16`, and zeros. -/
def oneWord (a : Nat) : BitVec 8 := if a = 16 then 1 else 0

theorem csum_diff_modEq_iff_small :
    bpftime_csum_diff oneWord 16 4 32 4 5 ≡ (5 : BitVec 32).toNat + difference oneWord 16 4 32 4 [ZMOD 65535] :=
  (csum_diff_modEq_iff (by decide) (by decide) (by decide) (by decide)).1.mpr (by decide)

/-- A seed with its highest bit set, and four bytes to take away: the answer is `-EINVAL`. -/
theorem not_modEq_high_seed :
    bpftime_csum_diff oneWord 16 4 32 4 0x80000000 = -EINVAL ∧
      ¬ bpftime_csum_diff oneWord 16 4 32 4 0x80000000 ≡
        (0x80000000 : BitVec 32).toNat + difference oneWord 16 4 32 4 [ZMOD 65535] ∧
      ¬ bpftime_csum_diff oneWord 16 4 32 4 0x80000000 ≡
        (0x80000000 : BitVec 32).toInt + difference oneWord 16 4 32 4 [ZMOD 65535] := by
  decide

end Csum
