import Mathlib.Data.List.Basic

/-!
# `Lib.Machine` — machines, their runs and their refinement

A machine answers each operation with a result and its next state, or gets stuck. A reference never does. A relation
between their states that every operation keeps, with equal results, is kept by every run (`runAll_refines`).
-/

namespace Lib

variable {σ τ ι ρ : Type*}

/-- The results of the operations, in order, and the state they end in. -/
def runAll (apply : σ → ι → Option (ρ × σ)) (s : σ) : List ι → Option (List ρ × σ)
  | [] => some ([], s)
  | i :: is => do
    let (r, s) ← apply s i
    let (rs, s) ← runAll apply s is
    return (r :: rs, s)

def runRef (apply : τ → ι → ρ × τ) (t : τ) : List ι → List ρ × τ
  | [] => ([], t)
  | i :: is =>
    let (r, t) := apply t i
    let (rs, t) := runRef apply t is
    (r :: rs, t)

theorem runRef_append (apply : τ → ι → ρ × τ) (t : τ) (is js : List ι) :
    runRef apply t (is ++ js) = ((runRef apply t is).1 ++ (runRef apply (runRef apply t is).2 js).1,
      (runRef apply (runRef apply t is).2 js).2) := by
  induction is generalizing t with
  | nil => rfl
  | cons i is ih =>
      rw [List.cons_append]
      simp only [runRef, ih]
      rfl

/-- The machine does what its reference does, and their states stay related. -/
def Refines (apply : σ → ι → Option (ρ × σ)) (ref : τ → ι → ρ × τ) (R : σ → τ → Prop) : Prop :=
  ∀ s t i, R s t → ∃ s', apply s i = some ((ref t i).1, s') ∧ R s' (ref t i).2

/-- **The run rule.** What each operation refines, every run refines. -/
theorem runAll_refines {apply : σ → ι → Option (ρ × σ)} {ref : τ → ι → ρ × τ} {R : σ → τ → Prop}
    (hstep : Refines apply ref R) {s : σ} {t : τ} (h : R s t) (is : List ι) :
    ∃ s', runAll apply s is = some ((runRef ref t is).1, s') ∧ R s' (runRef ref t is).2 := by
  induction is generalizing s t with
  | nil => exact ⟨s, rfl, h⟩
  | cons i is ih =>
      obtain ⟨s', hstep, h'⟩ := hstep s t i h
      obtain ⟨s'', hrun, h''⟩ := ih h'
      refine ⟨s'', ?_, h''⟩
      simp only [runAll, hstep, Option.bind_eq_bind, Option.bind_some, hrun]
      rfl

/-- Each operation meets a condition in the state it is applied to. -/
def AllSteps (apply : σ → ι → Option (ρ × σ)) (C : σ → ι → Prop) : σ → List ι → Prop
  | _, [] => True
  | s, i :: is => C s i ∧ ∀ next ∈ apply s i, AllSteps apply C next.2 is

instance AllSteps.decidable (apply : σ → ι → Option (ρ × σ)) (C : σ → ι → Prop) [∀ s i, Decidable (C s i)] :
    ∀ s is, Decidable (AllSteps apply C s is)
  | _, [] => inferInstanceAs (Decidable True)
  | s, i :: is =>
    have := fun s' => AllSteps.decidable apply C s' is
    inferInstanceAs (Decidable (C s i ∧ ∀ next ∈ apply s i, AllSteps apply C next.2 is))

theorem allSteps_of_forall {apply : σ → ι → Option (ρ × σ)} {C : σ → ι → Prop} (h : ∀ s i, C s i) (s : σ) (is : List ι) :
    AllSteps apply C s is := by
  induction is generalizing s with
  | nil => trivial
  | cons i is ih => exact ⟨h s i, fun next _ => ih next.2⟩

theorem allSteps_congr {apply : σ → ι → Option (ρ × σ)} {C D : σ → ι → Prop} (h : ∀ s i, C s i ↔ D s i) (s : σ)
    (is : List ι) : AllSteps apply C s is ↔ AllSteps apply D s is := by
  induction is generalizing s with
  | nil => exact Iff.rfl
  | cons i is ih => exact and_congr (h s i) (forall₂_congr fun next _ => ih next.2)

/-- **The run rule under a condition.** What each operation refines where it meets the condition, every run whose
    operations all meet it refines. -/
theorem runAll_refines_of_allSteps {apply : σ → ι → Option (ρ × σ)} {ref : τ → ι → ρ × τ} {R : σ → τ → Prop}
    {C : σ → ι → Prop}
    (hstep : ∀ s t i, R s t → C s i → ∃ s', apply s i = some ((ref t i).1, s') ∧ R s' (ref t i).2)
    {s : σ} {t : τ} (h : R s t) {is : List ι} (hcond : AllSteps apply C s is) :
    ∃ s', runAll apply s is = some ((runRef ref t is).1, s') ∧ R s' (runRef ref t is).2 := by
  induction is generalizing s t with
  | nil => exact ⟨s, rfl, h⟩
  | cons i is ih =>
      obtain ⟨hi, hafter⟩ := hcond
      obtain ⟨s', hstep, h'⟩ := hstep s t i h hi
      obtain ⟨s'', hrun, h''⟩ := ih h' (hafter ((ref t i).1, s') hstep)
      refine ⟨s'', ?_, h''⟩
      simp only [runAll, hstep, Option.bind_eq_bind, Option.bind_some, hrun]
      rfl

/-- Where one condition gives another, under an invariant that it keeps. -/
theorem allSteps_of_invariant {apply : σ → ι → Option (ρ × σ)} {C D : σ → ι → Prop} {I : σ → Prop}
    (h : ∀ s i, I s → D s i → C s i) (hkeeps : ∀ s i, I s → D s i → ∀ next ∈ apply s i, I next.2) {s : σ} (hI : I s)
    {is : List ι} (hD : AllSteps apply D s is) : AllSteps apply C s is := by
  induction is generalizing s with
  | nil => trivial
  | cons i is ih =>
      obtain ⟨hi, hafter⟩ := hD
      exact ⟨h s i hI hi, fun next hnext => ih (hkeeps s i hI hi next hnext) (hafter next hnext)⟩

/-- Where an operation keeps an invariant if it meets either of two conditions, which are the same under it. -/
theorem allSteps_iff_of_invariant {apply : σ → ι → Option (ρ × σ)} {C D : σ → ι → Prop} {I : σ → Prop}
    (h : ∀ s i, I s → (C s i ↔ D s i)) (hkeeps : ∀ s i, I s → D s i → ∀ next ∈ apply s i, I next.2) {s : σ} (hI : I s)
    (is : List ι) : AllSteps apply C s is ↔ AllSteps apply D s is := by
  induction is generalizing s with
  | nil => exact Iff.rfl
  | cons i is ih =>
      constructor
      · rintro ⟨hi, hafter⟩
        have hD := (h s i hI).mp hi
        exact ⟨hD, fun next hnext => (ih (hkeeps s i hI hD next hnext)).mp (hafter next hnext)⟩
      · rintro ⟨hD, hafter⟩
        exact ⟨(h s i hI).mpr hD, fun next hnext => (ih (hkeeps s i hI hD next hnext)).mpr (hafter next hnext)⟩

/-- **The invariant rule.** Where the operations meet the condition under which they keep the invariant, the run is not
    stuck, keeps it, and all its results are as those of one operation. -/
theorem runAll_invariant {apply : σ → ι → Option (ρ × σ)} {C : σ → ι → Prop} {I : σ → Prop} {Q : ρ → Prop}
    (hstep : ∀ s i, I s → C s i → ∃ r s', apply s i = some (r, s') ∧ I s' ∧ Q r) {s : σ} (h : I s) {is : List ι}
    (hcond : AllSteps apply C s is) : ∃ rs s', runAll apply s is = some (rs, s') ∧ I s' ∧ ∀ r ∈ rs, Q r := by
  induction is generalizing s with
  | nil => exact ⟨[], s, rfl, h, by simp⟩
  | cons i is ih =>
      obtain ⟨hi, hafter⟩ := hcond
      obtain ⟨r, s', hstep, h', hr⟩ := hstep s i h hi
      obtain ⟨rs, s'', hrun, h'', hrs⟩ := ih h' (hafter (r, s') hstep)
      refine ⟨r :: rs, s'', ?_, h'', ?_⟩
      · simp only [runAll, hstep, Option.bind_eq_bind, Option.bind_some, hrun]
        rfl
      · intro r' hr'
        rcases List.mem_cons.mp hr' with rfl | hr'
        · exact hr
        · exact hrs r' hr'

/-- Where an operation that does not meet the condition is stuck or has a bad result, a run that is not stuck and has no
    bad result meets it all along. -/
theorem allSteps_of_run {apply : σ → ι → Option (ρ × σ)} {C : σ → ι → Prop} {I : σ → Prop} {Q : ρ → Prop}
    (hkeeps : ∀ s i, I s → C s i → ∀ next ∈ apply s i, I next.2)
    (hbad : ∀ s i, I s → ¬ C s i → ∀ next ∈ apply s i, ¬ Q next.1)
    {s : σ} (h : I s) {is : List ι} {out : List ρ × σ} (hrun : runAll apply s is = some out) (hQ : ∀ r ∈ out.1, Q r) :
    AllSteps apply C s is := by
  induction is generalizing s out with
  | nil => trivial
  | cons i is ih =>
      obtain ⟨next, hstep, hrun⟩ := Option.bind_eq_some_iff.mp hrun
      obtain ⟨out', hrest, heq⟩ := Option.bind_eq_some_iff.mp hrun
      cases heq
      have hi : C s i := by
        by_contra hnot
        exact hbad s i h hnot next hstep (hQ next.1 (List.mem_cons_self ..))
      refine ⟨hi, fun next' hnext => ?_⟩
      rw [Option.mem_def, hstep, Option.some.injEq] at hnext
      subst hnext
      exact ih (hkeeps s i h hi next hstep) hrest fun r hr => hQ r (List.mem_cons_of_mem _ hr)

/-- **What a result promises of later ones.** After a result `r` the state meets `D r`, which every operation keeps, and
    under which its result agrees with `r`. -/
theorem runAll_pairwise {apply : σ → ι → Option (ρ × σ)} {D : ρ → σ → Prop} {R : ρ → ρ → Prop} {I : σ → Prop}
    (hkeeps : ∀ s i next, I s → apply s i = some next → I next.2)
    (hgives : ∀ s i next, I s → apply s i = some next → D next.1 next.2)
    (hlater : ∀ r s i next, I s → D r s → apply s i = some next → D r next.2 ∧ R r next.1)
    {s : σ} (h : I s) {is : List ι} {out : List ρ × σ} (hrun : runAll apply s is = some out) : out.1.Pairwise R := by
  -- what holds of one result holds of all those after it
  have hall : ∀ (is : List ι) (s : σ) (out : List ρ × σ), I s → runAll apply s is = some out →
      ∀ r, D r s → ∀ r' ∈ out.1, R r r' := by
    intro is
    induction is with
    | nil =>
        intro s out _ hrun r _ r' hr'
        cases hrun
        simp at hr'
    | cons i is ih =>
        intro s out h hrun r hD r' hr'
        obtain ⟨next, hstep, hrun⟩ := Option.bind_eq_some_iff.mp hrun
        obtain ⟨out', hrest, heq⟩ := Option.bind_eq_some_iff.mp hrun
        cases heq
        obtain ⟨hD', hR⟩ := hlater r s i next h hD hstep
        rcases List.mem_cons.mp hr' with rfl | hr'
        · exact hR
        · exact ih next.2 out' (hkeeps s i next h hstep) hrest r hD' r' hr'
  induction is generalizing s out with
  | nil =>
      cases hrun
      exact List.Pairwise.nil
  | cons i is ih =>
      obtain ⟨next, hstep, hrun⟩ := Option.bind_eq_some_iff.mp hrun
      obtain ⟨out', hrest, heq⟩ := Option.bind_eq_some_iff.mp hrun
      cases heq
      have h' := hkeeps s i next h hstep
      exact List.Pairwise.cons (hall is next.2 out' h' hrest next.1 (hgives s i next h hstep)) (ih h' hrest)

/-- **The invariant rule** for a machine without results, that keeps an invariant and never gets stuck under
    it. -/
theorem foldlM_invariant {apply : σ → ι → Option σ} {I : σ → Prop}
    (hstep : ∀ s i, I s → ∃ s', apply s i = some s' ∧ I s') {s : σ} (h : I s) (is : List ι) :
    ∃ s', is.foldlM apply s = some s' ∧ I s' := by
  induction is generalizing s with
  | nil => exact ⟨s, rfl, h⟩
  | cons i is ih =>
      obtain ⟨s', hstep, h'⟩ := hstep s i h
      obtain ⟨s'', hrun, h''⟩ := ih h'
      refine ⟨s'', ?_, h''⟩
      rw [List.foldlM_cons, hstep]
      exact hrun

end Lib
