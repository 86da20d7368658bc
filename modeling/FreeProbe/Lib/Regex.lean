import Mathlib.Computability.Language

/-!
# `Lib.Regex` — regular expressions over classes of letters

The languages are Mathlib's. Matching is by derivatives, and the constructors `cat` and `either` drop what cannot match,
so that a derivative does not grow with the letters it has seen.
-/

namespace Lib

/-- A regular expression; `sat` is a class of letters. -/
inductive Regex (α : Type) where
  | never
  | nothing
  | sat (p : α → Bool)
  | seq (r s : Regex α)
  | alt (r s : Regex α)
  | many (r : Regex α)

namespace Regex

variable {α : Type} {r s : Regex α} {x : α} {word : List α}

/-- What the expression stands for. -/
def language : Regex α → Language α
  | .never => 0
  | .nothing => 1
  | .sat p => {word | ∃ x, p x = true ∧ word = [x]}
  | .seq r s => r.language * s.language
  | .alt r s => r.language + s.language
  | .many r => KStar.kstar r.language

/-! ## Forms -/

/-- Or nothing. -/
def opt (r : Regex α) : Regex α := .alt r .nothing

/-- At least once. -/
def some (r : Regex α) : Regex α := .seq r (.many r)

/-- The letters of a word, in order. -/
def lit [DecidableEq α] : List α → Regex α
  | [] => .nothing
  | x :: xs => .seq (.sat (decide <| · = x)) (lit xs)

/-- One of a list. -/
def oneOf : List (Regex α) → Regex α
  | [] => .never
  | r :: rs => .alt r (oneOf rs)

/-- A list, in order. -/
def seqs : List (Regex α) → Regex α
  | [] => .nothing
  | r :: rs => .seq r (seqs rs)

/-! ## Matching -/

/-- Whether the empty word matches. -/
def nullable : Regex α → Bool
  | .never | .sat _ => false
  | .nothing | .many _ => true
  | .seq r s => r.nullable && s.nullable
  | .alt r s => r.nullable || s.nullable

/-- In order, where an impossible first part makes all impossible. -/
def cat : Regex α → Regex α → Regex α
  | .never, _ => .never
  | .nothing, s => s
  | r, s => .seq r s

/-- One of two, where an impossible one is left out. -/
def either : Regex α → Regex α → Regex α
  | .never, s => s
  | r, .never => r
  | r, s => .alt r s

/-- What is left to match after the letter. -/
def deriv (x : α) : Regex α → Regex α
  | .never | .nothing => .never
  | .sat p => if p x then .nothing else .never
  | .seq r s => if r.nullable then either (cat (r.deriv x) s) (s.deriv x) else cat (r.deriv x) s
  | .alt r s => either (r.deriv x) (s.deriv x)
  | .many r => cat (r.deriv x) (.many r)

/-- `std::regex_match` -/
def fullMatch : Regex α → List α → Bool
  | r, [] => r.nullable
  | r, x :: word => fullMatch (r.deriv x) word

/-- `std::regex_search` for a pattern that starts with `^`. -/
def prefixMatch : Regex α → List α → Bool
  | r, [] => r.nullable
  | r, x :: word => r.nullable || prefixMatch (r.deriv x) word

/-! ## Matching is membership -/

/-- The empty word in two parts. -/
theorem nil_mem_mul {l m : Language α} : [] ∈ l * m ↔ [] ∈ l ∧ [] ∈ m := by
  rw [Language.mem_mul]
  constructor
  · rintro ⟨a, ha, b, hb, hab⟩
    obtain ⟨rfl, rfl⟩ := List.append_eq_nil_iff.mp hab
    exact ⟨ha, hb⟩
  · rintro ⟨hl, hm⟩
    exact ⟨[], hl, [], hm, rfl⟩

/-- The first letter of a word of a product is in its first part, unless that part is empty. -/
theorem cons_mem_mul {l m : Language α} :
    x :: word ∈ l * m ↔ (∃ a b, x :: a ∈ l ∧ b ∈ m ∧ a ++ b = word) ∨ [] ∈ l ∧ x :: word ∈ m := by
  rw [Language.mem_mul]
  constructor
  · rintro ⟨a, ha, b, hb, hab⟩
    cases a with
    | nil =>
      rw [List.nil_append] at hab
      exact Or.inr ⟨ha, hab ▸ hb⟩
    | cons y a =>
      obtain ⟨rfl, rfl⟩ := List.cons_eq_cons.mp hab
      exact Or.inl ⟨a, b, ha, hb, rfl⟩
  · rintro (⟨a, b, ha, hb, rfl⟩ | ⟨hnil, hm⟩)
    · exact ⟨x :: a, ha, b, hb, rfl⟩
    · exact ⟨[], hnil, x :: word, hm, rfl⟩

/-- A repetition of a word begins with a round that is not empty. -/
theorem cons_mem_kstar {l : Language α} :
    x :: word ∈ KStar.kstar l ↔ ∃ a b, x :: a ∈ l ∧ b ∈ KStar.kstar l ∧ a ++ b = word := by
  constructor
  · intro h
    obtain ⟨parts, hflat, hparts⟩ := Language.mem_kstar_iff_exists_nonempty.mp h
    cases parts with
    | nil => cases hflat
    | cons part parts =>
      obtain ⟨hpart, hne⟩ := hparts part List.mem_cons_self
      obtain ⟨y, a, rfl⟩ := List.exists_cons_of_ne_nil hne
      obtain ⟨rfl, rfl⟩ := List.cons_eq_cons.mp hflat
      have hrest : parts.flatten ∈ KStar.kstar l :=
        Language.join_mem_kstar fun p hp => (hparts p (List.mem_cons_of_mem _ hp)).1
      exact ⟨a, parts.flatten, hpart, hrest, rfl⟩
  · rintro ⟨a, b, ha, hb, rfl⟩
    obtain ⟨parts, rfl, hparts⟩ := Language.mem_kstar.mp hb
    have hall : ∀ p ∈ (x :: a) :: parts, p ∈ l := List.forall_mem_cons.mpr ⟨ha, hparts⟩
    exact Language.join_mem_kstar hall

/-- The expression matches the empty word. -/
theorem nullable_iff : r.nullable = true ↔ [] ∈ r.language := by
  induction r with
  | never => exact ⟨fun h => (Bool.noConfusion h), fun h => h.elim⟩
  | nothing => exact ⟨fun _ => rfl, fun _ => rfl⟩
  | sat p =>
    constructor
    · intro h
      cases h
    · rintro ⟨x, -, hx⟩
      cases hx
  | seq r s hr hs => rw [nullable, Bool.and_eq_true, hr, hs, language, nil_mem_mul]
  | alt r s hr hs => rw [nullable, Bool.or_eq_true, hr, hs, language, Language.mem_add]
  | many r => exact ⟨fun _ => Language.nil_mem_kstar _, fun _ => rfl⟩

/-- The short cut changes no language. -/
theorem language_cat : (cat r s).language = r.language * s.language := by
  cases r with
  | never => exact (zero_mul _).symm
  | nothing => exact (one_mul _).symm
  | _ => rfl

/-- Nor does this one. -/
theorem language_either : (either r s).language = r.language + s.language := by
  cases r with
  | never => exact (zero_add _).symm
  | _ =>
    cases s with
    | never => exact (add_zero _).symm
    | _ => rfl

/-- The derivative's words are the words that go on from the letter. -/
theorem mem_language_deriv : word ∈ (r.deriv x).language ↔ x :: word ∈ r.language := by
  induction r generalizing word with
  | never => exact Iff.rfl
  | nothing => exact ⟨fun h => h.elim, fun h => by cases h⟩
  | sat p =>
    rw [deriv]
    by_cases hp : p x = true
    · rw [if_pos hp]
      constructor
      · intro h
        obtain rfl : word = [] := h
        exact ⟨x, hp, rfl⟩
      · rintro ⟨y, -, hy⟩
        exact (List.cons_eq_cons.mp hy).2
    · rw [if_neg hp]
      constructor
      · exact fun h => h.elim
      · rintro ⟨y, hy, heq⟩
        exact absurd ((List.cons_eq_cons.mp heq).1 ▸ hy) hp
  | seq r s hr hs =>
    have hcat : word ∈ (cat (r.deriv x) s).language ↔ ∃ a b, x :: a ∈ r.language ∧ b ∈ s.language ∧ a ++ b = word := by
      rw [language_cat, Language.mem_mul]
      constructor
      · rintro ⟨a, ha, b, hb, hab⟩
        exact ⟨a, b, hr.mp ha, hb, hab⟩
      · rintro ⟨a, b, ha, hb, hab⟩
        exact ⟨a, hr.mpr ha, b, hb, hab⟩
    rw [deriv, language, cons_mem_mul, ← nullable_iff]
    by_cases hnull : r.nullable = true
    · rw [if_pos hnull, language_either, Language.mem_add, hcat, hs, and_iff_right hnull]
    · rw [if_neg hnull, hcat, or_iff_left fun h => hnull h.1]
  | alt r s hr hs => rw [deriv, language_either, Language.mem_add, hr, hs, language, Language.mem_add]
  | many r hr =>
    rw [deriv, language_cat, Language.mem_mul, language, cons_mem_kstar]
    constructor
    · rintro ⟨a, ha, b, hb, hab⟩
      exact ⟨a, b, hr.mp ha, hb, hab⟩
    · rintro ⟨a, b, ha, hb, hab⟩
      exact ⟨a, hr.mpr ha, b, hb, hab⟩

/-- **Matching decides the language.** -/
theorem fullMatch_iff : r.fullMatch word = true ↔ word ∈ r.language := by
  induction word generalizing r with
  | nil => exact nullable_iff
  | cons x word ih => rw [fullMatch, ih, mem_language_deriv]

/-! ## Words of a form -/

/-- A word of a sequence is made of words of its parts. -/
theorem flatten_mem_seqs {rs : List (Regex α)} {parts : List (List α)}
    (h : List.Forall₂ (fun r part => part ∈ r.language) rs parts) : parts.flatten ∈ (seqs rs).language := by
  induction h with
  | nil => exact Language.nil_mem_one
  | cons hpart _ ih => exact Language.append_mem_mul hpart ih

/-- Characters of one class. -/
theorem mem_some_sat {p : α → Bool} (hne : word ≠ []) (h : ∀ x ∈ word, p x = true) :
    word ∈ (some (.sat p)).language := by
  obtain ⟨x, rest, rfl⟩ := List.exists_cons_of_ne_nil hne
  obtain ⟨hx, hrest⟩ := List.forall_mem_cons.mp h
  have hmany : rest ∈ KStar.kstar (sat p).language := by
    refine Language.mem_kstar.mpr ⟨rest.map fun y => [y], ?_, ?_⟩
    · rw [← List.flatMap_def, List.flatMap_singleton']
    · intro y hy
      obtain ⟨z, hz, rfl⟩ := List.mem_map.mp hy
      exact ⟨z, hrest z hz, rfl⟩
  exact Language.append_mem_mul (a := [x]) ⟨x, hx, rfl⟩ hmany

end Regex

end Lib
