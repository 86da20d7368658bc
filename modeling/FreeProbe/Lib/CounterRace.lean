import FreeProbe.Lib.Steps
import Mathlib.Logic.Function.Basic

/-!
# `Lib.CounterRace` — unsynchronised counters that reset at a bound

Any number of clients share counters. A client loads one, increments its copy, stores the copy back modulo
the counter's width, compares it with the bound and, when the bound is reached, stores zero. No two of these
are atomic together, so updates are lost, a stale store can undo a reset, and a counter can hold a value at
or above the bound. It never does so unattended: somebody still owes the reset (`Covered.step`).
-/

namespace Lib

/-- Where a client is between its load and its reset, with the value in its register. -/
inductive Phase (β : Type*) where
  | idle
  | loaded (b : β) (r : Nat)
  | incremented (b : β) (r : Nat)
  | stored (b : β) (r : Nat)
  | resetting (b : β)

variable {β ι : Type*} [DecidableEq β]

/-- One step of one client, on the counters and its own phase. -/
inductive PhaseStep (rate width : Nat) : (β → Nat) → Phase β → (β → Nat) → Phase β → Prop where
  | load (c : β → Nat) (b : β) : PhaseStep rate width c .idle c (.loaded b (c b))
  | inc (c : β → Nat) (b : β) (r : Nat) : PhaseStep rate width c (.loaded b r) c (.incremented b (r + 1))
  | store (c : β → Nat) (b : β) (r : Nat) :
      PhaseStep rate width c (.incremented b r) (Function.update c b (r % width)) (.stored b r)
  | skip (c : β → Nat) (b : β) {r : Nat} (h : r < rate) : PhaseStep rate width c (.stored b r) c .idle
  | take (c : β → Nat) (b : β) {r : Nat} (h : rate ≤ r) :
      PhaseStep rate width c (.stored b r) c (.resetting b)
  | reset (c : β → Nat) (b : β) : PhaseStep rate width c (.resetting b) (Function.update c b 0) .idle

/-- A client in this phase will set `b` to zero before it is done. -/
def Phase.Owes (rate : Nat) (b : β) : Phase β → Prop
  | .stored b' r => b' = b ∧ rate ≤ r
  | .resetting b' => b' = b
  | _ => False

/-- **The race invariant.** A counter at or above the bound has a client that owes its reset. -/
def Covered (rate : Nat) (c : β → Nat) (phase : ι → Phase β) : Prop :=
  ∀ b, rate ≤ c b → ∃ i, (phase i).Owes rate b

/-- What a client's step does to the obligations: a counter that it leaves at or above the bound either was
    so before and the client's own debt on it is still there, or the client has just incurred the debt. -/
theorem PhaseStep.owes {rate width : Nat} {c c' : β → Nat} {p p' : Phase β}
    (h : PhaseStep rate width c p c' p') {b : β} (hb : rate ≤ c' b) (hrate : 0 < rate) :
    p'.Owes rate b ∨ (rate ≤ c b ∧ ¬ p.Owes rate b) := by
  cases h with
  | load b' => exact .inr ⟨hb, id⟩
  | inc b' r => exact .inr ⟨hb, id⟩
  | store b' r =>
      by_cases hbb : b = b'
      · subst hbb
        rw [Function.update_self] at hb
        exact .inl ⟨rfl, Nat.le_trans hb (Nat.mod_le ..)⟩
      · rw [Function.update_of_ne hbb] at hb
        exact .inr ⟨hb, id⟩
  | skip b' hr => exact .inr ⟨hb, fun h => Nat.not_le_of_lt hr h.2⟩
  | take b' hr =>
      by_cases hbb : b' = b
      · exact .inl hbb
      · exact .inr ⟨hb, fun h => hbb h.1⟩
  | reset b' =>
      by_cases hbb : b = b'
      · subst hbb
        rw [Function.update_self] at hb
        exact absurd hb (Nat.not_le_of_lt hrate)
      · rw [Function.update_of_ne hbb] at hb
        exact .inr ⟨hb, fun h => hbb h.symm⟩

variable [DecidableEq ι]

/-- **The invariant is preserved** by a step of any client. -/
theorem Covered.step {rate width : Nat} (hrate : 0 < rate) {c c' : β → Nat} {phase : ι → Phase β} {i : ι}
    {p' : Phase β} (hc : Covered rate c phase) (h : PhaseStep rate width c (phase i) c' p') :
    Covered rate c' (Function.update phase i p') := by
  intro b hb
  rcases h.owes hb hrate with hi | ⟨hb', hni⟩
  · exact ⟨i, by rwa [Function.update_self]⟩
  · obtain ⟨j, hj⟩ := hc b hb'
    have hji : j ≠ i := fun h => hni (h ▸ hj)
    exact ⟨j, by rwa [Function.update_of_ne hji]⟩

omit [DecidableEq β] [DecidableEq ι] in
/-- With every client idle, all counters are below the bound. -/
theorem Covered.idle {rate : Nat} {c : β → Nat} {phase : ι → Phase β} (hc : Covered rate c phase)
    (hidle : ∀ i, phase i = .idle) (b : β) : c b < rate := by
  refine Nat.lt_of_not_le fun hb => ?_
  obtain ⟨i, hi⟩ := hc b hb
  rw [hidle i] at hi
  exact hi

end Lib
