import FreeProbe.Lib.Memory

/-!
# `Lib.Fixups` — code with fields to be filled in

An assembler that meets a jump before its target leaves a field in the code and fills it in when the target is known.
`fill` goes through the references in order and stops at the first that cannot be resolved: the fields before it are
filled in, it and the ones behind it keep what they held.
-/

namespace Lib.Fixups

open Lib.Memory

variable {α ρ : Type*} (start : ρ → Nat) (resolve : ρ → Option (List α))

/-- Fill in the fields of the references; whether all were. -/
def fill : List ρ → (Nat → α) → (Nat → α) × Bool
  | [], code => (code, true)
  | r :: rs, code =>
    match resolve r with
    | none => (code, false)
    | some xs => fill rs (store code (start r) xs)

variable {start resolve} {code : Nat → α} {r : ρ} {rs : List ρ} {xs : List α}

theorem fill_cons_some (h : resolve r = some xs) :
    fill start resolve (r :: rs) code = fill start resolve rs (store code (start r) xs) := by
  simp only [fill, h]

theorem fill_cons_none (h : resolve r = none) : fill start resolve (r :: rs) code = (code, false) := by
  simp only [fill, h]

/-- All fields are filled in exactly where all references are resolved. -/
theorem fill_all_iff : (fill start resolve rs code).2 = true ↔ ∀ r ∈ rs, (resolve r).isSome := by
  induction rs generalizing code with
  | nil => simp [fill]
  | cons r rs ih =>
      rw [List.forall_mem_cons]
      cases h : resolve r with
      | none => simp [fill_cons_none h]
      | some xs =>
          rw [fill_cons_some h, ih]
          simp

/-! ## Fields apart from each other -/

variable {width : ρ → Nat}

/-- The fields of two references share no place. -/
def Apart (start width : ρ → Nat) (r r' : ρ) : Prop :=
  start r + width r ≤ start r' ∨ start r' + width r' ≤ start r

/-- A field that no reference has stays. -/
theorem load_fill_outside {a n : Nat} (hwidth : ∀ r ∈ rs, ∀ xs, resolve r = some xs → xs.length = width r)
    (hout : ∀ r ∈ rs, a + n ≤ start r ∨ start r + width r ≤ a) :
    load (fill start resolve rs code).1 a n = load code a n := by
  induction rs generalizing code with
  | nil => rfl
  | cons r rs ih =>
      rw [List.forall_mem_cons] at hwidth hout
      cases h : resolve r with
      | none => rw [fill_cons_none h]
      | some xs =>
          rw [fill_cons_some h, ih hwidth.2 hout.2, load_store_disjoint]
          rw [hwidth.1 xs h]
          exact hout.1

/-- A field that was filled in holds what its reference is resolved to. -/
theorem load_fill (hwidth : ∀ r ∈ rs, ∀ xs, resolve r = some xs → xs.length = width r)
    (hapart : rs.Pairwise (Apart start width)) (hall : (fill start resolve rs code).2 = true) (hr : r ∈ rs)
    (h : resolve r = some xs) : load (fill start resolve rs code).1 (start r) (width r) = xs := by
  induction rs generalizing code with
  | nil => cases hr
  | cons q rs ih =>
      rw [List.forall_mem_cons] at hwidth
      rw [List.pairwise_cons] at hapart
      obtain ⟨ys, hys⟩ := Option.isSome_iff_exists.mp (fill_all_iff.mp hall q List.mem_cons_self)
      rw [fill_cons_some hys] at hall ⊢
      rcases List.mem_cons.mp hr with rfl | hr
      · obtain rfl : ys = xs := Option.some.inj (hys.symm.trans h)
        have hlen := hwidth.1 ys hys
        rw [load_fill_outside hwidth.2 hapart.1, ← hlen, load_store]
      · exact ih hwidth.2 hapart.2 hall hr

/-! ## Signed little-endian fields -/

/-- The signed number that bytes stand for. -/
def leInt (bs : List (BitVec 8)) : Int := Int.bmod (leNat bs) (2 ^ (8 * bs.length))

theorem leNat_leBytes_mod (n x : Nat) : leNat (leBytes n x) = x % 2 ^ (8 * n) := by
  induction n generalizing x with
  | zero => rw [Nat.mul_zero, Nat.pow_zero, Nat.mod_one]; rfl
  | succ n ih =>
      rw [leBytes, leNat, ih, BitVec.toNat_ofNat, Nat.mul_succ, Nat.add_comm (8 * n), Nat.pow_add, Nat.mod_mul]

/-- The low bytes of a word are its number where they can hold that. -/
theorem leInt_leBytes {n w : Nat} (hw : 8 * n ≤ w) {x : BitVec w} (hlow : -2 ^ (8 * n) ≤ 2 * x.toInt)
    (hhigh : 2 * x.toInt < 2 ^ (8 * n)) : leInt (leBytes n x.toNat) = x.toInt := by
  have hmod : leInt (leBytes n x.toNat) = Int.bmod x.toInt (2 ^ (8 * n)) := by
    rw [leInt, length_leBytes, leNat_leBytes_mod, BitVec.toInt_eq_toNat_bmod,
      Int.bmod_bmod_of_dvd (Nat.pow_dvd_pow 2 hw), Int.natCast_emod, Int.emod_bmod]
  rw [hmod]
  refine Int.bmod_eq_of_le_mul_two ?_ ?_
  · push_cast
    omega
  · push_cast
    omega

end Lib.Fixups
