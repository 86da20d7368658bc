import Mathlib.Data.List.Basic
import Mathlib.Logic.Function.Basic

/-!
# `Lib.LinkedList` — doubly linked lists in a heap

The links of the nodes are a function from addresses. `Segment` says that a list of addresses is linked in both
directions between two outer neighbours. Segments compose (`segment_append`), are kept by writes elsewhere, and a
write to a link at an end of a segment moves that end (`segment_setNext`, `segment_setPrev`), so a splice is a few
of these rules.
-/

namespace Lib.LinkedList

variable {P : Type*}

/-- The two links of a node. -/
structure Links (P : Type*) where
  next : Option P
  prev : Option P

/-- The addresses `ps` are linked, in order, between `before` and `after`. -/
def Segment (links : P → Links P) : Option P → List P → Option P → Prop
  | _, [], _ => True
  | before, p :: ps, after =>
    (links p).prev = before ∧ (links p).next = ps.head?.or after ∧ Segment links (some p) ps after

theorem segment_congr {links links' : P → Links P} {before after : Option P} {ps : List P}
    (h : ∀ p ∈ ps, links' p = links p) (hseg : Segment links before ps after) : Segment links' before ps after := by
  induction ps generalizing before with
  | nil => trivial
  | cons p ps ih =>
      obtain ⟨hprev, hnext, hrest⟩ := hseg
      rw [← h p List.mem_cons_self] at hprev hnext
      exact ⟨hprev, hnext, ih (fun q hq => h q (List.mem_cons_of_mem p hq)) hrest⟩

/-- **Segments compose**, each being the other's neighbour. -/
theorem segment_append {links : P → Links P} {before after : Option P} {ps qs : List P} :
    Segment links before (ps ++ qs) after ↔
      Segment links before ps (qs.head?.or after) ∧ Segment links (ps.getLast?.or before) qs after := by
  induction ps generalizing before with
  | nil => simp [Segment]
  | cons p ps ih =>
      have hhead : (ps ++ qs).head?.or after = ps.head?.or (qs.head?.or after) := by
        rw [List.head?_append, Option.or_assoc]
      have hlast : (p :: ps).getLast?.or before = ps.getLast?.or (some p) := by
        rw [List.getLast?_cons]
        cases ps.getLast? <;> rfl
      rw [List.cons_append, Segment, Segment, ih, hhead, hlast, and_assoc, and_assoc]

section Writes

variable [DecidableEq P]

def setNext (links : P → Links P) (p : P) (next : Option P) : P → Links P :=
  Function.update links p { links p with next := next }

def setPrev (links : P → Links P) (p : P) (prev : Option P) : P → Links P :=
  Function.update links p { links p with prev := prev }

variable {links : P → Links P} {before after : Option P} {ps : List P} {p : P}

@[simp] theorem setNext_of_ne {q : P} {next : Option P} (h : q ≠ p) : setNext links p next q = links q :=
  Function.update_of_ne h _ _

@[simp] theorem setPrev_of_ne {q : P} {prev : Option P} (h : q ≠ p) : setPrev links p prev q = links q :=
  Function.update_of_ne h _ _

@[simp] theorem setNext_self {next : Option P} : setNext links p next p = { links p with next := next } :=
  Function.update_self _ _ _

@[simp] theorem setPrev_self {prev : Option P} : setPrev links p prev p = { links p with prev := prev } :=
  Function.update_self _ _ _

/-- A write elsewhere keeps a segment. -/
theorem segment_setNext_of_not_mem {next : Option P} (h : p ∉ ps) (hseg : Segment links before ps after) :
    Segment (setNext links p next) before ps after :=
  segment_congr (fun _ hq => setNext_of_ne fun heq => h (heq ▸ hq)) hseg

theorem segment_setPrev_of_not_mem {prev : Option P} (h : p ∉ ps) (hseg : Segment links before ps after) :
    Segment (setPrev links p prev) before ps after :=
  segment_congr (fun _ hq => setPrev_of_ne fun heq => h (heq ▸ hq)) hseg

/-- The last node's `next` decides what the segment ends at. -/
theorem segment_setNext {next : Option P} (h : p ∉ ps) (hseg : Segment links before (ps ++ [p]) after) :
    Segment (setNext links p next) before (ps ++ [p]) next := by
  obtain ⟨hps, hprev, -, -⟩ := segment_append.mp hseg
  refine segment_append.mpr ⟨segment_setNext_of_not_mem h hps, ?_, ?_, trivial⟩
  · rw [setNext_self, hprev]
  · rw [setNext_self, List.head?_nil, Option.none_or]

/-- The first node's `prev` decides what the segment starts at. -/
theorem segment_setPrev {prev : Option P} (h : p ∉ ps) (hseg : Segment links before (p :: ps) after) :
    Segment (setPrev links p prev) prev (p :: ps) after := by
  obtain ⟨-, hnext, hps⟩ := hseg
  refine ⟨?_, ?_, segment_setPrev_of_not_mem h hps⟩
  · rw [setPrev_self]
  · rw [setPrev_self, hnext]

end Writes

/-! ## Whole lists -/

/-- `ps` is the list between a head and a tail pointer. -/
structure Listed (links : P → Links P) (head tail : Option P) (ps : List P) : Prop where
  nodup  : ps.Nodup
  head   : head = ps.head?
  tail   : tail = ps.getLast?
  linked : Segment links none ps none

theorem Listed.nil (links : P → Links P) : Listed links none none [] := ⟨List.nodup_nil, rfl, rfl, trivial⟩

/-- A node's neighbours. -/
theorem Listed.links_eq {links : P → Links P} {head tail : Option P} {ps qs : List P} {p : P}
    (h : Listed links head tail (ps ++ p :: qs)) : (links p).prev = ps.getLast? ∧ (links p).next = qs.head? := by
  obtain ⟨-, hprev, hnext, -⟩ := segment_append.mp h.linked
  rw [Option.or_none] at hprev hnext
  exact ⟨hprev, hnext⟩

section Splices

variable [DecidableEq P] {links : P → Links P} {head tail : Option P}

theorem setPrev_same {p : P} {prev : Option P} (h : (links p).prev = prev) : setPrev links p prev = links := by
  funext q
  by_cases hq : q = p
  · rw [hq, setPrev_self, ← h]
  · rw [setPrev_of_ne hq]

/-- A node put before the head. -/
theorem Listed.pushFront {ps : List P} {p h : P} (hl : Listed links head tail (h :: ps)) (hnew : p ∉ h :: ps) :
    Listed (setPrev (setPrev (setNext links p (some h)) p none) h (some p)) (some p) tail (p :: h :: ps) := by
  have hne : p ≠ h := fun heq => hnew (heq ▸ List.mem_cons_self)
  have hrest : Segment (setPrev (setNext links p (some h)) p none) none (h :: ps) none :=
    segment_setPrev_of_not_mem hnew (segment_setNext_of_not_mem hnew hl.linked)
  refine ⟨List.nodup_cons.mpr ⟨hnew, hl.nodup⟩, rfl, ?_, ?_, ?_, ?_⟩
  · rw [hl.tail, List.getLast?_cons_cons]
  · rw [setPrev_of_ne hne, setPrev_self]
  · rw [setPrev_of_ne hne, setPrev_self, setNext_self]
    rfl
  · exact segment_setPrev (List.nodup_cons.mp hl.nodup).1 hrest

/-- A node taken out, where it has a neighbour on both sides. -/
theorem Listed.unlinkMiddle {ps qs : List P} {a p b : P} (hl : Listed links head tail (ps ++ a :: p :: b :: qs)) :
    Listed (setPrev (setNext links a (some b)) b (some a)) head tail (ps ++ a :: b :: qs) := by
  have hsub : (ps ++ a :: b :: qs).Sublist (ps ++ a :: p :: b :: qs) := by simp
  have hnodup := hl.nodup.sublist hsub
  obtain ⟨hps, -, hab⟩ := List.nodup_append.mp hnodup
  have hlinked := hl.linked
  rw [show ps ++ a :: p :: b :: qs = (ps ++ [a]) ++ ([p] ++ b :: qs) by simp] at hlinked
  obtain ⟨hfirst, hrest⟩ := segment_append.mp hlinked
  obtain ⟨-, hlast⟩ := segment_append.mp hrest
  have ha : a ∉ ps := fun hmem => hab a hmem a List.mem_cons_self rfl
  have hb : b ∉ ps ++ [a] := by
    rw [show ps ++ a :: b :: qs = (ps ++ [a]) ++ b :: qs by simp] at hnodup
    exact fun hmem => (List.nodup_append.mp hnodup).2.2 b hmem b List.mem_cons_self rfl
  have haq : a ∉ b :: qs := (List.nodup_cons.mp (List.nodup_append.mp hnodup).2.1).1
  have hbq : b ∉ qs := (List.nodup_cons.mp (List.nodup_cons.mp (List.nodup_append.mp hnodup).2.1).2).1
  refine ⟨hnodup, ?_, ?_, ?_⟩
  · rw [hl.head]
    cases ps <;> rfl
  · rw [hl.tail]
    simp [List.getLast?_append, List.getLast?_cons_cons]
  · -- up to `a`, and from `b` on
    rw [show ps ++ a :: b :: qs = (ps ++ [a]) ++ b :: qs by simp]
    refine segment_append.mpr ⟨?_, ?_⟩
    · exact segment_setPrev_of_not_mem hb (segment_setNext ha hfirst)
    · rw [List.getLast?_append, List.getLast?_singleton, Option.some_or]
      exact segment_setPrev hbq (segment_setNext_of_not_mem haq hlast)

/-- The last node taken out, where it is not the only one. -/
theorem Listed.unlinkLast {ps : List P} {a p : P} (hl : Listed links head tail (ps ++ [a, p])) :
    Listed (setNext links a none) head (some a) (ps ++ [a]) := by
  have hsub : (ps ++ [a]).Sublist (ps ++ [a, p]) := by simp
  have hnodup := hl.nodup.sublist hsub
  have hlinked := hl.linked
  rw [show ps ++ [a, p] = (ps ++ [a]) ++ [p] by simp] at hlinked
  obtain ⟨hfirst, -⟩ := segment_append.mp hlinked
  have ha : a ∉ ps := fun hmem => (List.nodup_append.mp hnodup).2.2 a hmem a List.mem_cons_self rfl
  refine ⟨hnodup, ?_, ?_, segment_setNext ha hfirst⟩
  · rw [hl.head]
    cases ps <;> rfl
  · simp

/-- The first node taken out, where it is not the only one. -/
theorem Listed.unlinkFirst {ps : List P} {p b : P} (hl : Listed links head tail (p :: b :: ps)) :
    Listed (setPrev links b none) (some b) tail (b :: ps) := by
  have hnodup := (List.nodup_cons.mp hl.nodup).2
  obtain ⟨-, -, hrest⟩ := hl.linked
  refine ⟨hnodup, rfl, ?_, segment_setPrev (List.nodup_cons.mp hnodup).1 hrest⟩
  rw [hl.tail, List.getLast?_cons_cons]

end Splices

end Lib.LinkedList
