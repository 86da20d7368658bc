import Mathlib.Tactic.TypeStar

/-!
# `Lib.Lockstep` — two machines step by step

A machine goes on, ends with a result, or is stuck. Where related states step to related ones, as long as the first
machine's state meets a condition, the runs of any length end alike (`Along.lockstep`).
-/

namespace Lib

variable {σ τ α β : Type*}

/-- What a step leads to. -/
inductive StepResult (σ α : Type*) where
  | next (s : σ)
  | exit (a : α)
  | stuck

/-- Results alike: related states, related ends, or both stuck. -/
inductive StepResult.Rel (R : σ → τ → Prop) (Q : α → β → Prop) : StepResult σ α → StepResult τ β → Prop
  | next {s : σ} {t : τ} (h : R s t) : Rel R Q (.next s) (.next t)
  | exit {a : α} {b : β} (h : Q a b) : Rel R Q (.exit a) (.exit b)
  | stuck : Rel R Q .stuck .stuck

/-- A run of so many steps, or up to its end. -/
def runFor (step : σ → StepResult σ α) : Nat → σ → StepResult σ α
  | 0, s => .next s
  | n + 1, s =>
    match step s with
    | .next s' => runFor step n s'
    | .exit a => .exit a
    | .stuck => .stuck

/-- The states that a run of so many steps steps from meet a condition. -/
def Along (step : σ → StepResult σ α) (C : σ → Prop) : Nat → σ → Prop
  | 0, _ => True
  | n + 1, s => C s ∧ ∀ s', step s = .next s' → Along step C n s'

/-- A run meets what follows from an invariant. -/
theorem Along.of_inv {step : σ → StepResult σ α} {I C : σ → Prop} (hstep : ∀ s s', I s → step s = .next s' → I s')
    (hC : ∀ s, I s → C s) (n : Nat) {s : σ} (h : I s) : Along step C n s := by
  induction n generalizing s with
  | zero => trivial
  | succ n ih => exact ⟨hC s h, fun s' hs => ih (hstep s s' h hs)⟩

/-- **The run rule.** -/
theorem Along.lockstep {step : σ → StepResult σ α} {step' : τ → StepResult τ β} {C : σ → Prop} {R : σ → τ → Prop}
    {Q : α → β → Prop} (hstep : ∀ s t, R s t → C s → StepResult.Rel R Q (step s) (step' t)) {n : Nat} {s : σ} {t : τ}
    (h : R s t) (hC : Along step C n s) : StepResult.Rel R Q (runFor step n s) (runFor step' n t) := by
  induction n generalizing s t with
  | zero => exact .next h
  | succ n ih =>
      obtain ⟨hs, hafter⟩ := hC
      have hboth := hstep s t h hs
      rw [runFor, runFor]
      generalize step s = r at hboth hafter ⊢
      generalize step' t = r' at hboth ⊢
      cases hboth with
      | next hR => exact ih hR (hafter _ rfl)
      | exit hQ => exact .exit hQ
      | stuck => exact .stuck

end Lib
