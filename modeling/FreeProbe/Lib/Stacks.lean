import Mathlib.Data.List.Perm.Basic
import Mathlib.Data.List.Flatten

/-!
# `Lib.Stacks` — the stacks of any number of threads

Each thread has a stack of frames, innermost first. What is said of all frames of all threads, a count or a property of
each, is said of their list `frames`, which a step of one thread changes at one place: it is known up to order
(`frames_push`, `frames_pop`, `frames_replaceTop`).
-/

namespace Lib

/-- One stack for each thread, numbered from zero. -/
structure Stacks (φ : Type*) where
  perThread : List (List φ)

namespace Stacks

variable {φ : Type*} {s : Stacks φ} {t : Nat}

/-- The frames of all threads. -/
def frames (s : Stacks φ) : List φ := s.perThread.flatten

/-- The innermost frame of a thread. -/
def top (s : Stacks φ) (t : Nat) : Option φ := s.perThread[t]?.bind List.head?

def spawn (s : Stacks φ) : Stacks φ := ⟨s.perThread ++ [[]]⟩

def push (s : Stacks φ) (t : Nat) (fr : φ) : Stacks φ := ⟨s.perThread.modify t (fr :: ·)⟩

def pop (s : Stacks φ) (t : Nat) : Stacks φ := ⟨s.perThread.modify t List.tail⟩

def replaceTop (s : Stacks φ) (t : Nat) (fr : φ) : Stacks φ := ⟨s.perThread.modify t fun stack => fr :: stack.tail⟩

@[simp] theorem frames_spawn (s : Stacks φ) : s.spawn.frames = s.frames := by
  simp [frames, spawn]

/-- A change of one stack, of all frames. -/
theorem flatten_modify {threads : List (List φ)} {stack : List φ} (h : threads[t]? = some stack)
    (f : List φ → List φ) :
    ∃ others, threads.flatten.Perm (stack ++ others) ∧ (threads.modify t f).flatten.Perm (f stack ++ others) := by
  induction threads generalizing t with
  | nil => simp at h
  | cons first threads ih =>
      cases t with
      | zero =>
          obtain rfl : first = stack := by simpa using h
          exact ⟨threads.flatten, .refl _, .refl _⟩
      | succ t =>
          obtain ⟨others, hold, hnew⟩ := ih (by simpa using h)
          refine ⟨first ++ others, ?_, ?_⟩
          · rw [List.flatten_cons]
            exact (hold.append_left first).trans (List.perm_append_comm_assoc ..)
          · rw [List.modify_succ_cons, List.flatten_cons]
            exact (hnew.append_left first).trans (List.perm_append_comm_assoc ..)

theorem frames_push (h : t < s.perThread.length) (fr : φ) : (s.push t fr).frames.Perm (fr :: s.frames) := by
  obtain ⟨others, hold, hnew⟩ := flatten_modify (List.getElem?_eq_getElem h) (fr :: ·)
  exact hnew.trans ((hold.symm).cons fr)

/-- A thread that has an innermost frame has a stack with that frame on top. -/
theorem exists_stack {fr : φ} (h : s.top t = some fr) : ∃ rest, s.perThread[t]? = some (fr :: rest) := by
  obtain ⟨stack, hstack, hhead⟩ := Option.bind_eq_some_iff.mp h
  obtain ⟨rest, rfl⟩ := List.head?_eq_some_iff.mp hhead
  exact ⟨rest, hstack⟩

theorem frames_pop {fr : φ} (h : s.top t = some fr) : s.frames.Perm (fr :: (s.pop t).frames) := by
  obtain ⟨rest, hstack⟩ := exists_stack h
  obtain ⟨others, hold, hnew⟩ := flatten_modify hstack List.tail
  exact hold.trans (hnew.symm.cons fr)

theorem frames_replaceTop {old : φ} (h : s.top t = some old) (fr : φ) :
    (s.replaceTop t fr).frames.Perm (fr :: (s.pop t).frames) := by
  obtain ⟨rest, hstack⟩ := exists_stack h
  obtain ⟨others, hold, hnew⟩ := flatten_modify hstack fun stack => fr :: stack.tail
  obtain ⟨others', hold', hnew'⟩ := flatten_modify hstack List.tail
  have hothers : others.Perm others' := (List.perm_append_left_iff _).mp (hold.symm.trans hold')
  exact hnew.trans (((hothers.append_left _).trans hnew'.symm).cons fr)

theorem mem_of_top {fr : φ} (h : s.top t = some fr) : fr ∈ s.frames :=
  (frames_pop h).mem_iff.mpr (List.mem_cons_self ..)

end Stacks

end Lib
