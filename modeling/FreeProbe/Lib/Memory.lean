import Mathlib.Data.BitVec
import Mathlib.Data.Int.ModEq
import Mathlib.Data.List.Range

/-!
# `Lib.Memory` — bounded memory and circular positions

A buffer is cells `0, 1, …` of which the first `size` exist; a `read` or a `write` that leaves them is `none`. What an
access gives is a fact about `load` and `store` on the cells.

A circular buffer of `n` cells keeps what is at position `p` in cell `p % n`. Positions only grow; those of one window
of length `n` lie in different cells (`mod_inj`), so on a window the cells can be seen unrolled: a store that wraps is
one store of the unrolled cells (`wrap_storeWrapped`). A free-running counter of `w` bits is a position modulo
`2 ^ w`, which a buffer of `2 ^ k` cells does not see (`counter_mod`).
-/

namespace Lib.Memory

variable {α : Type*}

/-! ## Cells -/

/-- The cells from a place on, so many. -/
def load (cells : Nat → α) (a n : Nat) : List α := (List.range n).map fun i => cells (a + i)

/-- The cells with a list written over them. -/
def store (cells : Nat → α) (a : Nat) (xs : List α) : Nat → α :=
  fun b => if a ≤ b then xs[b - a]?.getD (cells b) else cells b

variable {cells cells' : Nat → α} {a b n : Nat} {xs ys : List α}

/-- As many as were asked for. -/
@[simp] theorem length_load : (load cells a n).length = n := by simp [load]

/-- No cells. -/
@[simp] theorem load_zero : load cells a 0 = [] := rfl

/-- One of them. -/
theorem getElem_load {i : Nat} (h : i < (load cells a n).length) : (load cells a n)[i] = cells (a + i) := by
  simp [load]

/-- Equal cells load alike. -/
theorem load_congr (h : ∀ i < n, cells (a + i) = cells' (b + i)) : load cells a n = load cells' b n := by
  refine List.map_congr_left fun i hi => ?_
  exact h i (List.mem_range.mp hi)

/-- What a range holds, cell by cell. -/
theorem load_eq (hlength : xs.length = n) (h : ∀ i, (hi : i < xs.length) → cells (a + i) = xs[i]) :
    load cells a n = xs := by
  refine List.ext_getElem (by simp [hlength]) fun i hi hi' => ?_
  rw [getElem_load, h i hi']

/-- A load in two parts. -/
theorem load_add (m : Nat) : load cells a (m + n) = load cells a m ++ load cells (a + m) n := by
  simp [load, List.range_add, Nat.add_assoc]

/-- A cell that was written. -/
theorem store_in {i : Nat} (h : i < xs.length) : store cells a xs (a + i) = xs[i] := by
  rw [store, if_pos (Nat.le_add_right a i), Nat.add_sub_cancel_left, List.getElem?_eq_getElem h, Option.getD_some]

/-- One that was not. -/
theorem store_out (h : b < a ∨ a + xs.length ≤ b) : store cells a xs b = cells b := by
  unfold store
  split
  · rw [List.getElem?_eq_none (by omega), Option.getD_none]
  · rfl

/-- Nothing is written. -/
@[simp] theorem store_nil : store cells a [] = cells := by
  funext b
  exact store_out (by simp only [List.length_nil]; omega)

/-- What was written is loaded. -/
theorem load_store : load (store cells a xs) a xs.length = xs := load_eq rfl fun _ hi => store_in hi

/-- A store elsewhere. -/
theorem load_store_disjoint (h : a + n ≤ b ∨ b + xs.length ≤ a) : load (store cells b xs) a n = load cells a n := by
  refine load_congr fun i hi => store_out ?_
  omega

/-- A store in two parts. -/
theorem store_append : store cells a (xs ++ ys) = store (store cells a xs) (a + xs.length) ys := by
  funext b
  by_cases hlow : b < a + xs.length
  · rw [store_out (Or.inl hlow)]
    by_cases ha : a ≤ b
    · obtain ⟨i, rfl⟩ := Nat.exists_eq_add_of_le ha
      have hi : i < xs.length := by omega
      have hi' : i < (xs ++ ys).length := by
        rw [List.length_append]
        omega
      rw [store_in hi, store_in hi', List.getElem_append_left hi]
    · rw [store_out (Or.inl (by omega)), store_out (Or.inl (by omega))]
  · by_cases hhigh : b < a + (xs ++ ys).length
    · rw [List.length_append] at hhigh
      obtain ⟨i, rfl⟩ := Nat.exists_eq_add_of_le (Nat.le_of_not_lt hlow)
      have hi : i < ys.length := by omega
      have hi' : xs.length + i < (xs ++ ys).length := by
        rw [List.length_append]
        omega
      rw [store_in hi, Nat.add_assoc, store_in hi', List.getElem_append_right (Nat.le_add_right _ _)]
      simp
    · rw [List.length_append] at hhigh
      rw [store_out (Or.inr (by rw [List.length_append]; omega)), store_out (Or.inr (by omega)),
        store_out (Or.inr (by omega))]

/-- A store within the range. -/
theorem load_store_inside {o : Nat} (h : o + xs.length ≤ n) :
    load (store cells (a + o) xs) a n = (load cells a n).take o ++ xs ++ (load cells a n).drop (o + xs.length) := by
  obtain ⟨m, rfl⟩ := Nat.exists_eq_add_of_le h
  have hbefore : (load cells a (o + xs.length + m)).take o = load cells a o := by
    rw [Nat.add_assoc, load_add, List.take_left' length_load]
  have hafter : (load cells a (o + xs.length + m)).drop (o + xs.length) = load cells (a + (o + xs.length)) m := by
    rw [load_add, List.drop_left' length_load]
  rw [hbefore, hafter, load_add, load_add, load_store, load_store_disjoint (Or.inl (Nat.le_refl _)),
    load_store_disjoint (Or.inr (by omega))]

/-! ## Bounded memory -/

/-- The cells from `size` on do not exist. -/
structure Buffer (α : Type*) where
  size  : Nat
  cells : Nat → α

namespace Buffer

/-- A load from a buffer, if it is inside. -/
def read (buffer : Buffer α) (a n : Nat) : Option (List α) :=
  if a + n ≤ buffer.size then some (load buffer.cells a n) else none

/-- A store to one, if it is inside. -/
def write (buffer : Buffer α) (a : Nat) (xs : List α) : Option (Buffer α) :=
  if a + xs.length ≤ buffer.size then some { buffer with cells := store buffer.cells a xs } else none

variable {buffer : Buffer α}

/-- Inside, it is the load. -/
theorem read_eq (h : a + n ≤ buffer.size) : buffer.read a n = some (load buffer.cells a n) := if_pos h

/-- Inside, it is the store. -/
theorem write_eq (h : a + xs.length ≤ buffer.size) :
    buffer.write a xs = some { buffer with cells := store buffer.cells a xs } := if_pos h

/-- Past the end, there is none. -/
theorem write_none (h : buffer.size < a + xs.length) : buffer.write a xs = none := if_neg (Nat.not_le_of_lt h)

end Buffer

/-! ## Circular positions -/

/-- Positions of one window are in different cells. -/
theorem mod_inj {c p q : Nat} (hp : c ≤ p) (hp' : p < c + n) (hq : c ≤ q) (hq' : q < c + n) (h : p % n = q % n) :
    p = q := by
  refine Nat.ModEq.eq_of_abs_lt h ?_
  rw [abs_lt]
  omega

/-- A place of a ring, in front of its end. -/
theorem mod_add_low {p i : Nat} (h : p % n + i < n) : (p + i) % n = p % n + i := by
  rw [← Nat.mod_add_mod, Nat.mod_eq_of_lt h]

/-- And one behind it. -/
theorem mod_add_high {p i : Nat} (h : n ≤ p % n + i) (hi : p % n + i - n < n) : (p + i) % n = p % n + i - n := by
  rw [← Nat.mod_add_mod, Nat.mod_eq_sub_mod h, Nat.mod_eq_of_lt hi]

/-- The cells as a position sees them. -/
def wrap (n : Nat) (cells : Nat → α) (p : Nat) : α := cells (p % n)

/-- A store at a position, in two pieces where it goes past the last cell. -/
def storeWrapped (n : Nat) (cells : Nat → α) (p : Nat) (xs : List α) : Nat → α :=
  if p % n + xs.length ≤ n then store cells (p % n) xs
  else store (store cells (p % n) (xs.take (n - p % n))) 0 (xs.drop (n - p % n))

/-- A cell that a wrapped store writes. -/
theorem storeWrapped_in (hfit : xs.length ≤ n) (p : Nat) {i : Nat} (hi : i < xs.length) :
    storeWrapped n cells p xs ((p + i) % n) = xs[i] := by
  have hn : 0 < n := by omega
  have hp : p % n < n := Nat.mod_lt p hn
  unfold storeWrapped
  split
  · rw [mod_add_low (by omega)]
    exact store_in hi
  · by_cases hfirst : p % n + i < n
    · -- the first piece
      have hi' : i < (xs.take (n - p % n)).length := by
        rw [List.length_take]
        omega
      rw [mod_add_low hfirst, store_out (Or.inr (by rw [List.length_drop]; omega)), store_in hi', List.getElem_take]
    · have hcell : (p + i) % n = 0 + (p % n + i - n) := by
        rw [mod_add_high (by omega) (by omega), Nat.zero_add]
      have hi' : p % n + i - n < (xs.drop (n - p % n)).length := by
        rw [List.length_drop]
        omega
      rw [hcell, store_in hi', List.getElem_drop]
      congr 1
      omega

/-- A cell that a wrapped store leaves alone. -/
theorem storeWrapped_out (hfit : xs.length ≤ n) (p : Nat) (hb : b < n) (hout : ∀ i < xs.length, (p + i) % n ≠ b) :
    storeWrapped n cells p xs b = cells b := by
  have hn : 0 < n := by omega
  have hp : p % n < n := Nat.mod_lt p hn
  have hlow : ∀ i < xs.length, p % n + i < n → p % n + i ≠ b := by
    intro i hi hin heq
    refine hout i hi ?_
    rw [mod_add_low hin, heq]
  have hhigh : ∀ i < xs.length, n ≤ p % n + i → p % n + i - n ≠ b := by
    intro i hi hin heq
    refine hout i hi ?_
    have hlast : i < n := Nat.lt_of_lt_of_le hi hfit
    rw [mod_add_high hin (by omega), heq]
  unfold storeWrapped
  split
  · refine store_out ?_
    by_contra hin
    exact hlow (b - p % n) (by omega) (by omega) (by omega)
  · rw [store_out, store_out]
    · rw [List.length_take]
      by_contra hin
      exact hlow (b - p % n) (by omega) (by omega) (by omega)
    · rw [List.length_drop]
      by_contra hin
      exact hhigh (b + n - p % n) (by omega) (by omega) (by omega)

/-- **A wrapped store is one store of the unrolled cells**, on every window that contains it. -/
theorem wrap_storeWrapped {c p q : Nat} (hp : c ≤ p) (hp' : p + xs.length ≤ c + n) (hq : c ≤ q) (hq' : q < c + n) :
    wrap n (storeWrapped n cells p xs) q = store (wrap n cells) p xs q := by
  have hfit : xs.length ≤ n := by omega
  by_cases hin : p ≤ q ∧ q < p + xs.length
  · obtain ⟨i, rfl⟩ := Nat.exists_eq_add_of_le hin.1
    have hi : i < xs.length := by omega
    rw [wrap, storeWrapped_in hfit p hi, store_in hi]
  · rw [store_out (by omega), wrap, wrap]
    refine storeWrapped_out hfit p (Nat.mod_lt q (by omega)) ?_
    intro i hi heq
    have := mod_inj (c := c) (by omega) (by omega) hq hq' heq
    omega

/-- What a wrapped store leaves of a range before it in the window. -/
theorem load_wrap_before {c p : Nat} (hp : c ≤ p) (hp' : p + xs.length ≤ c + n) (ha : c ≤ a) (hbefore : a + b ≤ p) :
    load (wrap n (storeWrapped n cells p xs)) a b = load (wrap n cells) a b := by
  refine load_congr fun i hi => ?_
  rw [wrap_storeWrapped hp hp' (by omega) (by omega)]
  exact store_out (Or.inl (by omega))

/-- What a wrapped store stores. -/
theorem load_wrap_stored (hfit : xs.length ≤ n) (p : Nat) :
    load (wrap n (storeWrapped n cells p xs)) p xs.length = xs :=
  load_eq rfl fun _ hi => storeWrapped_in hfit p hi

/-- What a position sees depends on its cell alone. -/
theorem load_wrap_congr {p q : Nat} (h : p % n = q % n) (m : Nat) : load (wrap n cells) p m = load (wrap n cells) q m := by
  refine load_congr fun i _ => ?_
  rw [wrap, wrap, Nat.add_mod, h, ← Nat.add_mod]

/-! ## Free-running counters -/

/-- A mask is a remainder. -/
theorem toNat_and_mask {w k : Nat} {x mask : BitVec w} (h : mask.toNat = 2 ^ k - 1) :
    (x &&& mask).toNat = x.toNat % 2 ^ k := by
  rw [BitVec.toNat_and, h, Nat.and_two_pow_sub_one_eq_mod]

/-- A counter that wraps has the same place in the ring. -/
theorem counter_mod {w k : Nat} (hk : k ≤ w) (p : Nat) : (BitVec.ofNat w p).toNat % 2 ^ k = p % 2 ^ k := by
  rw [BitVec.toNat_ofNat, Nat.mod_mod_of_dvd _ (Nat.pow_dvd_pow 2 hk)]

/-- The distance of two counters, where it fits. -/
theorem counter_sub {w p d : Nat} (hd : d < 2 ^ w) : (BitVec.ofNat w (p + d) - BitVec.ofNat w p).toNat = d := by
  rw [BitVec.ofNat_add, add_sub_cancel_left, BitVec.toNat_ofNat, Nat.mod_eq_of_lt hd]

/-! ## Little-endian numbers -/

/-- The `n` bytes of a number, the lowest one first. -/
def leBytes : Nat → Nat → List (BitVec 8)
  | 0, _ => []
  | n + 1, x => BitVec.ofNat 8 x :: leBytes n (x / 2 ^ 8)

/-- The number of its bytes, low byte first. -/
def leNat : List (BitVec 8) → Nat
  | [] => 0
  | b :: bs => b.toNat + 2 ^ 8 * leNat bs

/-- As many bytes as were asked for. -/
@[simp] theorem length_leBytes (n x : Nat) : (leBytes n x).length = n := by
  induction n generalizing x with
  | zero => rfl
  | succ n ih => simp [leBytes, ih]

/-- One of them. -/
theorem getElem_leBytes {n x i : Nat} (h : i < (leBytes n x).length) : (leBytes n x)[i] = BitVec.ofNat 8 (x / 2 ^ (8 * i)) := by
  induction n generalizing x i with
  | zero => cases h
  | succ n ih =>
    cases i with
    | zero => rw [Nat.mul_zero, Nat.pow_zero, Nat.div_one]; rfl
    | succ i =>
      have hpow : 2 ^ (8 * (i + 1)) = 2 ^ 8 * 2 ^ (8 * i) := by rw [← Nat.pow_add, Nat.mul_add_one, Nat.add_comm]
      rw [hpow, ← Nat.div_div_eq_div_mul]
      exact ih _

/-- **A number is read back from its bytes, if it fits in them.** -/
theorem leNat_leBytes {n x : Nat} (h : x < 2 ^ (8 * n)) : leNat (leBytes n x) = x := by
  induction n generalizing x with
  | zero =>
      rw [Nat.mul_zero, Nat.pow_zero] at h
      exact (Nat.lt_one_iff.mp h).symm
  | succ n ih =>
      have hdiv : x / 2 ^ 8 < 2 ^ (8 * n) := by
        rw [Nat.div_lt_iff_lt_mul (by decide), ← Nat.pow_add]
        exact h
      rw [leBytes, leNat, ih hdiv, BitVec.toNat_ofNat, Nat.mod_add_div]

/-- And what is read fits. -/
theorem leNat_lt (bs : List (BitVec 8)) : leNat bs < 2 ^ (8 * bs.length) := by
  induction bs with
  | nil => exact Nat.one_pos
  | cons b bs ih =>
      have hb := b.isLt
      rw [leNat, List.length_cons, Nat.mul_succ, Nat.pow_add]
      omega

/-- The bytes above those that are taken do not matter. -/
theorem leBytes_mod (n x : Nat) : leBytes n (x % 2 ^ (8 * n)) = leBytes n x := by
  induction n generalizing x with
  | zero => rfl
  | succ n ih =>
      have hlow : BitVec.ofNat 8 (x % 2 ^ (8 * (n + 1))) = BitVec.ofNat 8 x := by
        apply BitVec.eq_of_toNat_eq
        rw [BitVec.toNat_ofNat, BitVec.toNat_ofNat, Nat.mod_mod_of_dvd _ (Nat.pow_dvd_pow 2 (by omega))]
      have hhigh : x % 2 ^ (8 * (n + 1)) / 2 ^ 8 = x / 2 ^ 8 % 2 ^ (8 * n) := by
        rw [Nat.mul_succ, Nat.add_comm, Nat.pow_add, Nat.mod_mul_right_div_self]
      rw [leBytes, leBytes, hlow, hhigh, ih]

end Lib.Memory
