import FreeProbe.Vm.EbpfFlow
import FreeProbe.Vm.Jit

/-!
# `Vm.JitBlocks` — what block splitting computes

The block starts depend on the instructions alone. `isBlockStart` says which they are without the loop, and
`splitBlocks_ok` that the pass finds these.
-/

namespace Vm

/-! ## Positions -/

/-- An instruction has one slot or two. -/
theorem width_pos (inst : EbpfInst) : 0 < inst.width := by
  unfold EbpfInst.width
  split <;> omega

/-- A position is one of the program. -/
theorem mem_positionsFrom {insts : Insts} {fuel pc p : Nat} (h : p ∈ positionsFrom insts fuel pc) :
    pc ≤ p ∧ p < insts.length := by
  induction fuel generalizing pc with
  | zero => exact nomatch h
  | succ fuel ih =>
      rw [positionsFrom] at h
      split at h
      · next hpc =>
          rcases List.mem_cons.mp h with rfl | h
          · exact ⟨Nat.le_refl _, hpc⟩
          · obtain ⟨hle, hlt⟩ := ih h
            exact ⟨Nat.le_trans (Nat.le_add_right _ _) hle, hlt⟩
      · exact nomatch h

/-- The position after a position, as far as there is one. -/
theorem next_mem_positionsFrom {insts : Insts} {fuel pc p : Nat} (hfuel : insts.length ≤ pc + fuel)
    (h : p ∈ positionsFrom insts fuel pc) (hlt : p + (insts.inst p).width < insts.length) :
    p + (insts.inst p).width ∈ positionsFrom insts fuel pc := by
  induction fuel generalizing pc with
  | zero => exact nomatch h
  | succ fuel ih =>
      have hw := width_pos (insts.inst pc)
      rw [positionsFrom] at h ⊢
      split at h
      · next hpc =>
          rw [if_pos hpc]
          rcases List.mem_cons.mp h with rfl | h
          · refine List.mem_cons_of_mem _ ?_
            cases fuel with
            | zero => omega
            | succ fuel =>
                rw [positionsFrom, if_pos hlt]
                exact List.mem_cons_self
          · exact List.mem_cons_of_mem _ (ih (by omega) h)
      · exact nomatch h

/-- The instruction behind one. -/
theorem next_mem_positions {insts : Insts} {p : Nat} (h : p ∈ positions insts)
    (hlt : p + (insts.inst p).width < insts.length) : p + (insts.inst p).width ∈ positions insts :=
  next_mem_positionsFrom (Nat.le_add_left _ _) h hlt

/-- A position is less than the length. -/
theorem lt_of_mem_positions {insts : Insts} {p : Nat} (h : p ∈ positions insts) : p < insts.length :=
  (mem_positionsFrom h).2

/-! ## Block starts -/

/-- The position that the loop marks for the target of instruction `i`. -/
def marked (insts : Insts) (i : Nat) : Option Nat :=
  let curr := insts.inst i
  let target := if isImmJmp curr then curr.immTarget i else curr.offsetTarget i
  if (isImmJmp curr ∨ isJmp curr) ∧ 0 ≤ target ∧ target < insts.length then some target.toNat else none

/-- Position 0, what stands after an instruction of a jump class, and what such an instruction's offset (or
    an `EBPF_OP_JA_IMM`'s immediate) leads to. -/
def isBlockStart (insts : Insts) (i : Nat) : Bool :=
  i == 0 || (List.range insts.length).any fun j =>
    (decide (j > 0) && isJmp (insts.inst (j - 1)) && j == i) || marked insts j == some i

/-- No `EBPF_OP_JA_IMM` leads out of the vector. -/
def ImmJmpsInside (insts : Insts) : Prop :=
  ∀ i, i < insts.length → isImmJmp (insts.inst i) = true →
    0 ≤ (insts.inst i).immTarget i ∧ (insts.inst i).immTarget i < insts.length

/-- What the loop has marked after `k` rounds. -/
def markedBefore (insts : Insts) (k i : Nat) : Bool :=
  i == 0 || (List.range k).any fun j =>
    (decide (j > 0) && isJmp (insts.inst (j - 1)) && j == i) || marked insts j == some i

/-- One round more of `split_blocks`. -/
theorem markedBefore_succ (insts : Insts) (k i : Nat) :
    markedBefore insts (k + 1) i =
      (markedBefore insts k i || (decide (k > 0) && isJmp (insts.inst (k - 1)) && k == i) || marked insts k == some i) := by
  unfold markedBefore
  rw [List.range_succ, List.any_append, List.any_cons, List.any_nil, Bool.or_false]
  simp only [Bool.or_assoc]

/-- Setting a mark. -/
theorem update_true (blockBegin : Nat → Bool) (k i : Nat) :
    Function.update blockBegin k true i = (blockBegin i || k == i) := by
  by_cases h : i = k
  · simp [h]
  · rw [Function.update_of_ne h]
    simp [Ne.symm h]

/-- One round, where it stays inside. -/
theorem splitStep_eq {insts : Insts} {k : Nat}
    (h : isImmJmp (insts.inst k) = true →
      0 ≤ (insts.inst k).immTarget k ∧ (insts.inst k).immTarget k < insts.length) :
    splitStep insts (markedBefore insts k) k = .ok (markedBefore insts (k + 1)) := by
  have hafter : (if k > 0 && isJmp (insts.inst (k - 1)) then Function.update (markedBefore insts k) k true
      else markedBefore insts k) = fun i =>
        markedBefore insts k i || (decide (k > 0) && isJmp (insts.inst (k - 1)) && k == i) := by
    funext i
    split
    · next hjmp => rw [update_true, hjmp, Bool.true_and]
    · next hjmp => simp [hjmp]
  unfold splitStep
  simp only [hafter]
  split
  · next himm =>
      rw [if_pos (h himm)]
      congr 1
      funext i
      rw [update_true, markedBefore_succ, marked]
      simp [himm, h himm]
  · next himm =>
      split
      · next hjmp =>
          congr 1
          funext i
          rw [update_true, markedBefore_succ, marked]
          simp [himm, hjmp]
      · next hjmp =>
          congr 1
          funext i
          rw [markedBefore_succ, marked]
          simp [himm, hjmp]

/-- A jump by `imm` out of the program writes past the marks. -/
theorem splitStep_undefined {insts : Insts} {k : Nat} {blockBegin : Nat → Bool} (himm : isImmJmp (insts.inst k) = true)
    (h : ¬ (0 ≤ (insts.inst k).immTarget k ∧ (insts.inst k).immTarget k < insts.length)) :
    splitStep insts blockBegin k = .error .undefined := by
  unfold splitStep
  simp only
  rw [if_pos himm, if_neg h]

/-- The loop, `k` rounds of it: it stops at the first `EBPF_OP_JA_IMM` that leads out. -/
theorem splitRounds (insts : Insts) (k : Nat) :
    ((∀ i < k, isImmJmp (insts.inst i) = true →
        0 ≤ (insts.inst i).immTarget i ∧ (insts.inst i).immTarget i < insts.length) →
      (List.range k).foldlM (splitStep insts) (Function.update (fun _ => false) 0 true) =
        .ok (markedBefore insts k)) ∧
    (¬ (∀ i < k, isImmJmp (insts.inst i) = true →
        0 ≤ (insts.inst i).immTarget i ∧ (insts.inst i).immTarget i < insts.length) →
      (List.range k).foldlM (splitStep insts) (Function.update (fun _ => false) 0 true) = .error .undefined) := by
  induction k with
  | zero =>
      refine ⟨?_, ?_⟩
      · intro _
        change Except.ok _ = Except.ok _
        congr 1
        funext i
        rw [update_true]
        simp [markedBefore, Bool.beq_comm (a := i)]
      · intro h
        exact absurd (by simp) h
  | succ k ih =>
      rw [List.range_succ, List.foldlM_append]
      refine ⟨?_, ?_⟩
      · intro h
        rw [ih.1 fun i hi => h i (Nat.lt_succ_of_lt hi)]
        simp [splitStep_eq (h k (Nat.lt_succ_self k)), bind, Except.bind, pure, Except.pure]
      · intro h
        by_cases hk : ∀ i < k, isImmJmp (insts.inst i) = true →
            0 ≤ (insts.inst i).immTarget i ∧ (insts.inst i).immTarget i < insts.length
        · rw [ih.1 hk]
          -- the rounds before stay inside, so round `k` is the one that does not
          have hlast : ¬ (isImmJmp (insts.inst k) = true →
              0 ≤ (insts.inst k).immTarget k ∧ (insts.inst k).immTarget k < insts.length) := by
            intro hlast
            refine h fun i hi => ?_
            rcases Nat.lt_succ_iff_lt_or_eq.mp hi with hi | rfl
            · exact hk i hi
            · exact hlast
          obtain ⟨himm, hout⟩ := Classical.not_imp.mp hlast
          simp [splitStep_undefined himm hout, bind, Except.bind]
        · rw [ih.2 hk]
          rfl

/-- **The pass marks the block starts**, if it stays inside the vector. -/
theorem splitBlocks_ok {insts : Insts} (h : ImmJmpsInside insts) :
    splitBlocks insts = .ok (isBlockStart insts) :=
  (splitRounds insts insts.length).1 h

/-- So a program with one has no run. -/
theorem splitBlocks_undefined {insts : Insts} (h : ¬ ImmJmpsInside insts) :
    splitBlocks insts = .error .undefined :=
  (splitRounds insts insts.length).2 h

/-- The first instruction starts a block. -/
theorem isBlockStart_zero (insts : Insts) : isBlockStart insts 0 = true := rfl

/-- The others that do are of the program. -/
theorem isBlockStart_lt {insts : Insts} {i : Nat} (hne : i ≠ 0) (h : isBlockStart insts i = true) :
    i < insts.length := by
  simp only [isBlockStart, Bool.or_eq_true, beq_iff_eq, List.any_eq_true, List.mem_range, Bool.and_eq_true,
    decide_eq_true_eq] at h
  rcases h with h | ⟨j, hj, ⟨-, rfl⟩ | hmark⟩
  · exact absurd h hne
  · exact hj
  · simp only [marked, Option.ite_none_right_eq_some, Option.some.injEq] at hmark
    obtain ⟨⟨-, hle, hlt⟩, rfl⟩ := hmark
    exact (Int.toNat_lt hle).mpr hlt

/-- What stands after an instruction of a jump class starts a block. -/
theorem isBlockStart_succ {insts : Insts} {i : Nat} (hjmp : isJmp (insts.inst i) = true)
    (hlt : i + 1 < insts.length) : isBlockStart insts (i + 1) = true := by
  simp only [isBlockStart, Bool.or_eq_true, List.any_eq_true, List.mem_range]
  exact Or.inr ⟨i + 1, hlt, Or.inl (by simp [hjmp])⟩

end Vm
