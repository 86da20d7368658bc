import Mathlib.Data.BitVec
import FreeProbe.Lib.Regex

/-!
# `Ptx.Text` — texts, lines and the classes of characters

A `std::string` is its bytes. The classes are those of the C locale, as `std::regex` has them.
-/

namespace Ptx

open Lib

abbrev Text := List (BitVec 8)

def chr (c : Char) : BitVec 8 := BitVec.ofNat 8 c.toNat

def str (s : String) : Text := s.toList.map chr

def newline : BitVec 8 := chr '\n'

/-- The lines `std::getline` returns one after another; a newline at the end begins no further one. -/
def getlines : Text → List Text
  | [] => []
  | c :: cs =>
    if c = newline then [] :: getlines cs
    else match getlines cs with
      | [] => [[c]]
      | l :: ls => (c :: l) :: ls

/-- A text of lines. -/
def unlines (lines : List Text) : Text := lines.flatMap (· ++ [newline])

theorem getlines_append {l : Text} (h : newline ∉ l) (rest : Text) :
    getlines (l ++ newline :: rest) = l :: getlines rest := by
  induction l with
  | nil => rw [List.nil_append, getlines, if_pos rfl]
  | cons c l ih =>
    have hc : c ≠ newline := fun hc => h (hc ▸ List.mem_cons_self)
    have hl : newline ∉ l := fun hl => h (List.mem_cons_of_mem _ hl)
    rw [List.cons_append, getlines, if_neg hc, ih hl]

theorem getlines_unlines {lines : List Text} (h : ∀ l ∈ lines, newline ∉ l) : getlines (unlines lines) = lines := by
  induction lines with
  | nil => rfl
  | cons l lines ih =>
    obtain ⟨hl, hlines⟩ := List.forall_mem_cons.mp h
    rw [unlines, List.flatMap_cons, List.append_assoc, List.singleton_append, getlines_append hl]
    exact congrArg (List.cons l) (ih hlines)

/-- `\s` -/
def isSpace (c : BitVec 8) : Bool := c == chr ' ' || (9 ≤ c.toNat && c.toNat ≤ 13)

/-- `.`, which is anything but the end of a line -/
def isAny (c : BitVec 8) : Bool := c != newline && c != chr '\r'

def isDigit (c : BitVec 8) : Bool := 48 ≤ c.toNat && c.toNat ≤ 57

/-- `\w` -/
def isWord (c : BitVec 8) : Bool :=
  isDigit c || (65 ≤ c.toNat && c.toNat ≤ 90) || (97 ≤ c.toNat && c.toNat ≤ 122) || c == chr '_'

/-! ## Parts of patterns -/

/-- `\s*` -/
def spaces : Regex (BitVec 8) := .many (.sat isSpace)

def word (s : String) : Regex (BitVec 8) := .lit (str s)

def words (ss : List String) : Regex (BitVec 8) := .oneOf (ss.map word)

end Ptx
