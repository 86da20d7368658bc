import Mathlib.Data.List.Induction

/-!
# `Lib.Steps` — labelled transition systems and their runs

A system is a step relation over a state type, labelled by events. A run is built back-to-front
(`snoc`), so an induction over it sees the last step. The two rules every client uses are here: a
predicate on `(history, state)` that one step preserves holds after every run (`Run.induct`), and a state
invariant does as well (`Run.invariant`).
-/

namespace Lib

/-- A labelled step relation: `step s e s'` is one step of event `e` from `s` to `s'`. -/
structure System (σ : Type*) (ε : Type*) where
  step : σ → ε → σ → Prop

variable {σ ε : Type*} {S : System σ ε}

/-- `Run S s₀ es s`: the events `es`, in order, lead from `s₀` to `s`. -/
inductive Run (S : System σ ε) (s₀ : σ) : List ε → σ → Prop where
  | nil : Run S s₀ [] s₀
  | snoc {es : List ε} {s s' : σ} {e : ε} : Run S s₀ es s → S.step s e s' → Run S s₀ (es ++ [e]) s'

/-- A one-step run. -/
theorem Run.single {s s' : σ} {e : ε} (h : S.step s e s') : Run S s [e] s' :=
  List.nil_append [e] ▸ Run.snoc Run.nil h

/-- Runs compose. -/
theorem Run.append {s₀ s s' : σ} {es fs : List ε} (h : Run S s₀ es s) (h' : Run S s fs s') :
    Run S s₀ (es ++ fs) s' := by
  induction h' with
  | nil => simpa using h
  | snoc _ hstep ih => rw [← List.append_assoc]; exact Run.snoc ih hstep

/-- **The run rule with history.** What one step preserves, relative to the events so far, every run
    preserves. -/
theorem Run.induct {s₀ : σ} {P : List ε → σ → Prop} (h0 : P [] s₀)
    (hstep : ∀ es s e s', Run S s₀ es s → P es s → S.step s e s' → P (es ++ [e]) s')
    {es : List ε} {s : σ} (h : Run S s₀ es s) : P es s := by
  induction h with
  | nil => exact h0
  | snoc hr hs ih => exact hstep _ _ _ _ hr ih hs

/-- `I` is preserved by every step. -/
def Preserved (S : System σ ε) (I : σ → Prop) : Prop := ∀ s e s', I s → S.step s e s' → I s'

/-- **The invariant rule.** -/
theorem Run.invariant {s₀ : σ} {I : σ → Prop} (h0 : I s₀) (hI : Preserved S I)
    {es : List ε} {s : σ} (h : Run S s₀ es s) : I s :=
  h.induct (P := fun _ s => I s) h0 (fun _ s e s' _ hs hst => hI s e s' hs hst)

/-- A run that ends in an event splits off its last step. -/
theorem Run.snoc_inv {s₀ s' : σ} {es : List ε} {e : ε} (h : Run S s₀ (es ++ [e]) s') :
    ∃ s, Run S s₀ es s ∧ S.step s e s' := by
  generalize hl : es ++ [e] = l at h
  cases h with
  | nil => exact absurd hl (by simp)
  | snoc hr hs =>
      obtain ⟨rfl, he⟩ := List.append_inj' hl rfl
      obtain rfl : e = _ := by simpa using he
      exact ⟨_, hr, hs⟩

/-- A run over a concatenation passes through a middle state. -/
theorem Run.append_inv {s₀ s' : σ} {es fs : List ε} (h : Run S s₀ (es ++ fs) s') :
    ∃ s, Run S s₀ es s ∧ Run S s fs s' := by
  induction fs using List.reverseRecOn generalizing s' with
  | nil => exact ⟨s', by simpa using h, Run.nil⟩
  | append_singleton fs f ih =>
      rw [← List.append_assoc] at h
      obtain ⟨t, ht, hstep⟩ := h.snoc_inv
      obtain ⟨s, hs, hr⟩ := ih ht
      exact ⟨s, hs, Run.snoc hr hstep⟩

/-- A run of no event stays where it is. -/
theorem Run.nil_inv {s₀ s : σ} (h : Run S s₀ [] s) : s = s₀ := by
  generalize hl : ([] : List ε) = l at h
  cases h with
  | nil => rfl
  | snoc => exact absurd hl (by simp)

/-- A run whose events start with `e` starts with a step of `e`. -/
theorem Run.cons_inv {s₀ s' : σ} {e : ε} {es : List ε} (h : Run S s₀ (e :: es) s') :
    ∃ s, S.step s₀ e s ∧ Run S s es s' := by
  rw [← List.singleton_append] at h
  obtain ⟨s, hs, hr⟩ := h.append_inv
  rw [← List.nil_append [e]] at hs
  obtain ⟨s₁, hnil, hstep⟩ := hs.snoc_inv
  exact ⟨s, hnil.nil_inv ▸ hstep, hr⟩

/-! ## Systems with fewer steps -/

/-- The steps that meet a condition on the state before them and on their event. -/
def System.restrict (S : System σ ε) (C : σ → ε → Prop) : System σ ε where
  step s e s' := C s e ∧ S.step s e s'

/-- A run whose steps all meet a condition is a run. -/
theorem Run.of_restrict {C : σ → ε → Prop} {s₀ s : σ} {es : List ε} (h : Run (S.restrict C) s₀ es s) :
    Run S s₀ es s := by
  induction h with
  | nil => exact Run.nil
  | snoc _ hstep ih => exact ih.snoc hstep.2

end Lib
