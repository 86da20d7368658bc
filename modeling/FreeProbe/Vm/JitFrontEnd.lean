import FreeProbe.Vm.JitLayout

/-!
# `Vm.JitFrontEnd` — the loops of `generateModule`, step by step

The three loops over the instructions with their `uint16_t` counters, and every index that they use into the
instruction vector and into `blockBegin`. A counter that is compared with a larger size never gets there.
`front_ends` says that where the vector fits the counters and the indices stay inside, the machine comes to what
`generateModule` of `Vm.Jit` returns. Every vector is one that `load_code` takes (`exists_loadCode`).
-/

namespace Vm

/-! ## Loading -/

/-- An `ebpf_inst` of 8 bytes. -/
def decodeInst (b0 b1 b2 b3 b4 b5 b6 b7 : BitVec 8) : EbpfInst where
  opcode := b0
  dst := b1.extractLsb' 0 4
  src := b1.extractLsb' 4 4
  offset := b3 ++ b2
  imm := b7 ++ b6 ++ b5 ++ b4

/-- The bytes of a program, eight for each instruction. -/
def decodeInsts : List (BitVec 8) → Insts
  | b0 :: b1 :: b2 :: b3 :: b4 :: b5 :: b6 :: b7 :: rest => decodeInst b0 b1 b2 b3 b4 b5 b6 b7 :: decodeInsts rest
  | _ => []

/-- `load_code`; `none` is `-EINVAL`. -/
def loadCode (code : List (BitVec 8)) : Option Insts :=
  if code.length % 8 ≠ 0 then none else some (decodeInsts code)

/-- The bytes of an instruction. -/
def encodeInst (inst : EbpfInst) : List (BitVec 8) :=
  [inst.opcode, inst.src ++ inst.dst, inst.offset.extractLsb' 0 8, inst.offset.extractLsb' 8 8,
    inst.imm.extractLsb' 0 8, inst.imm.extractLsb' 8 8, inst.imm.extractLsb' 16 8, inst.imm.extractLsb' 24 8]

/-- A word from its bytes. -/
theorem imm_bytes (x : BitVec 32) :
    x.extractLsb' 24 8 ++ x.extractLsb' 16 8 ++ x.extractLsb' 8 8 ++ x.extractLsb' 0 8 = x := by
  have hhigh : x.extractLsb' 24 8 ++ x.extractLsb' 16 8 = x.extractLsb' 16 16 :=
    BitVec.extractLsb'_append_extractLsb'_eq_extractLsb' rfl
  have hthree : x.extractLsb' 16 16 ++ x.extractLsb' 8 8 = x.extractLsb' 8 24 :=
    BitVec.extractLsb'_append_extractLsb'_eq_extractLsb' rfl
  have hall : x.extractLsb' 8 24 ++ x.extractLsb' 0 8 = x.extractLsb' 0 32 :=
    BitVec.extractLsb'_append_extractLsb'_eq_extractLsb' rfl
  rw [hhigh, hthree, hall, BitVec.extractLsb'_eq_self]

/-- An instruction from its bytes. -/
theorem decodeInst_encode (inst : EbpfInst) :
    decodeInst inst.opcode (inst.src ++ inst.dst) (inst.offset.extractLsb' 0 8) (inst.offset.extractLsb' 8 8)
      (inst.imm.extractLsb' 0 8) (inst.imm.extractLsb' 8 8) (inst.imm.extractLsb' 16 8) (inst.imm.extractLsb' 24 8) =
        inst := by
  have hdst : (inst.src ++ inst.dst).extractLsb' 0 4 = inst.dst := BitVec.extractLsb'_append_eq_right
  have hsrc : (inst.src ++ inst.dst).extractLsb' 4 4 = inst.src := BitVec.extractLsb'_append_eq_left
  have hoffset : inst.offset.extractLsb' 8 8 ++ inst.offset.extractLsb' 0 8 = inst.offset :=
    BitVec.extractLsb'_append_extractLsb'
  rw [decodeInst, hdst, hsrc, hoffset, imm_bytes]

/-- A program from its bytes. -/
theorem decodeInsts_encode (insts : Insts) : decodeInsts (insts.flatMap encodeInst) = insts := by
  induction insts with
  | nil => rfl
  | cons inst insts ih =>
      rw [List.flatMap_cons, encodeInst, List.cons_append, List.cons_append, List.cons_append, List.cons_append,
        List.cons_append, List.cons_append, List.cons_append, List.cons_append, List.nil_append, decodeInsts,
        decodeInst_encode, ih]

/-- **Every vector is loaded from some code.** -/
theorem exists_loadCode (insts : Insts) : ∃ code, loadCode code = some insts := by
  have hlength : (insts.flatMap encodeInst).length = 8 * insts.length := by
    induction insts with
    | nil => rfl
    | cons inst insts ih =>
        rw [List.flatMap_cons, List.length_append, ih, List.length_cons]
        show 8 + _ = _
        omega
  refine ⟨insts.flatMap encodeInst, ?_⟩
  rw [loadCode, if_neg (by omega), decodeInsts_encode]

/-! ## Accesses -/

/-- An index into one of the two vectors; both have the size of the program. -/
inductive VectorAccess where
  | insts (index : Int)
  | blockBegin (index : Int)
deriving DecidableEq, Repr

/-- The index that is accessed. -/
def VectorAccess.index : VectorAccess → Int
  | insts index => index
  | blockBegin index => index

/-- The index is below the size; a negative one is not, as a `size_t`. -/
def VectorAccess.InRange (size : Nat) (a : VectorAccess) : Prop := 0 ≤ a.index ∧ a.index < size

/-- A computation and the indices it uses. -/
structure Accessing (α : Type) where
  value    : α
  accesses : List VectorAccess

namespace Accessing

instance : Monad Accessing where
  pure a := ⟨a, []⟩
  bind x f := ⟨(f x.value).value, x.accesses ++ (f x.value).accesses⟩

variable {α β : Type}

/-- A value without access. -/
@[simp] theorem value_pure (a : α) : (pure a : Accessing α).value = a := rfl

/-- Which makes none. -/
@[simp] theorem accesses_pure (a : α) : (pure a : Accessing α).accesses = [] := rfl

/-- One computation after another. -/
@[simp] theorem value_bind (x : Accessing α) (f : α → Accessing β) : (x >>= f).value = (f x.value).value := rfl

/-- Makes the accesses of both. -/
@[simp] theorem accesses_bind (x : Accessing α) (f : α → Accessing β) :
    (x >>= f).accesses = x.accesses ++ (f x.value).accesses := rfl

/-- All the indices are below the size. -/
def Inside (size : Nat) (x : Accessing α) : Prop := ∀ a ∈ x.accesses, a.InRange size

variable {size : Nat}

/-- No access is out of range. -/
theorem inside_pure (a : α) : (pure a : Accessing α).Inside size := fun _ h => nomatch h

/-- If neither has one. -/
theorem Inside.bind {x : Accessing α} {f : α → Accessing β} (hx : x.Inside size) (hf : (f x.value).Inside size) :
    (x >>= f).Inside size := by
  intro a ha
  rcases List.mem_append.mp ha with ha | ha
  · exact hx a ha
  · exact hf a ha

end Accessing

/-- `insts[i]` -/
def readInsts (insts : Insts) (i : Nat) : Accessing EbpfInst := ⟨insts.inst i, [.insts i]⟩

/-- `blockBegin[i]` -/
def readBlockBegin (blockBegin : Nat → Bool) (i : Nat) : Accessing Bool := ⟨blockBegin i, [.blockBegin i]⟩

/-- `blockBegin[index] = true` -/
def markBlockBegin (blockBegin : Nat → Bool) (index : Int) : Accessing (Nat → Bool) :=
  ⟨Function.update blockBegin index.toNat true, [.blockBegin index]⟩

/-! ## The loops -/

/-- Where `generateModule` is. -/
inductive FrontState where
  /-- Block splitting. -/
  | split (i : BitVec 16) (blockBegin : Nat → Bool)
  /-- Block creation; a key of `instBlocks` is a `uint16_t`. -/
  | create (i : BitVec 16) (blockBegin instBlocks : Nat → Bool)
  /-- Code generation. -/
  | emit (pc : BitVec 16) (currBB : Nat) (blockBegin instBlocks : Nat → Bool) (code : List (Nat × Emitted))
  | ended (result : JitResult Module)

section Loops

variable (args : JitArgs)

/-- What stands after an instruction of a jump class. -/
def markAfterJmp (i : Nat) (blockBegin : Nat → Bool) : Accessing (Nat → Bool) :=
  if i > 0 then do
    let prev ← readInsts args.insts (i - 1)
    if isJmp prev then markBlockBegin blockBegin i else pure blockBegin
  else pure blockBegin

/-- What a jump leads to: the index of an `EBPF_OP_JA_IMM` is not compared with the size. -/
def markTarget (curr : EbpfInst) (i : Nat) (blockBegin : Nat → Bool) : Accessing (Nat → Bool) :=
  if isImmJmp curr then markBlockBegin blockBegin (curr.immTarget i)
  else if isJmp curr ∧ 0 ≤ curr.offsetTarget i ∧ curr.offsetTarget i < args.insts.length then
    markBlockBegin blockBegin (curr.offsetTarget i)
  else pure blockBegin

/-- One round of the first loop. -/
def splitRound (i : Nat) (blockBegin : Nat → Bool) : Accessing (Nat → Bool) := do
  let curr ← readInsts args.insts i
  markTarget args curr i (← markAfterJmp args i blockBegin)

/-- One round of the second loop. What it enters in `localFuncRetBlks` is `isLocalFuncRetBlk` of its blocks. -/
def createRound (i : Nat) (blockBegin instBlocks : Nat → Bool) : Accessing (Nat → Bool) := do
  let begins ← readBlockBegin blockBegin i
  if begins then
    if i > 1 then do
      let _ ← readInsts args.insts (i - 1)
      pure (Function.update instBlocks i true)
    else pure (Function.update instBlocks i true)
  else pure instBlocks

/-- The branches to the next block, and `verifyModule`. -/
def finishModule (instBlocks : Nat → Bool) (code : List (Nat × Emitted)) : JitResult Module :=
  let m : Module := ⟨(List.range args.insts.length).filter instBlocks, code⟩
  if !args.isGpu && !m.verify then .error (.error .invalidModule) else .ok m

/-- An `LDDW` reads its second slot if that is there. -/
def readNext (inst : EbpfInst) (pc : Nat) : Accessing EbpfInst :=
  if inst.dst ≤ 10 ∧ inst.src ≤ 10 ∧ inst.opcode = EBPF_OP_LDDW ∧ pc + 1 < args.insts.length then
    readInsts args.insts (pc + 1)
  else pure inst

/-- One round of the third loop. An `LDDW` moves the counter past its second slot. -/
def emitRound (pc : BitVec 16) (currBB : Nat) (blockBegin instBlocks : Nat → Bool) (code : List (Nat × Emitted)) :
    Accessing FrontState := do
  let inst ← readInsts args.insts pc.toNat
  let begins ← readBlockBegin blockBegin pc.toNat
  let currBB := if begins then pc.toNat else currBB
  let _ ← readNext args inst pc.toNat
  match emitInst args instBlocks pc.toNat with
  | .error fault => pure (.ended (.error fault))
  | .ok piece =>
    pure (.emit (pc + BitVec.ofNat 16 inst.width) currBB blockBegin instBlocks (code ++ [(currBB, ⟨pc.toNat, inst, piece⟩)]))

/-- A test of a loop's condition, and a round or the way to the next loop. -/
def frontStep : FrontState → Accessing FrontState
  | .split i blockBegin =>
    if i.toNat < args.insts.length then do
      let blockBegin ← splitRound args i.toNat blockBegin
      pure (.split (i + 1) blockBegin)
    else pure (.create 0 blockBegin fun _ => false)
  | .create i blockBegin instBlocks =>
    if i.toNat < args.insts.length then do
      let instBlocks ← createRound args i.toNat blockBegin instBlocks
      pure (.create (i + 1) blockBegin instBlocks)
    else pure (.emit 0 0 blockBegin instBlocks [])
  | .emit pc currBB blockBegin instBlocks code =>
    if pc.toNat < args.insts.length then emitRound args pc currBB blockBegin instBlocks code
    else pure (.ended (finishModule args instBlocks code))
  | .ended result => pure (.ended result)

/-- `blockBegin[0] = true` -/
def frontStart : Accessing FrontState :=
  if args.insts.isEmpty then pure (.ended (.error (.error .noInstructions)))
  else do
    let blockBegin ← markBlockBegin (fun _ => false) 0
    pure (.split 0 blockBegin)

/-- Some rounds of the front end. -/
def frontSteps (s : FrontState) : Nat → Accessing FrontState
  | 0 => pure s
  | n + 1 => do frontSteps (← frontStep args s) n

/-- `generateModule`, as far as `n` steps take it. -/
def frontRun (n : Nat) : Accessing FrontState := do frontSteps args (← frontStart args) n

end Loops

/-- The run comes to a module or an error. -/
def Returns (args : JitArgs) : Prop :=
  ∃ n, (∃ m, (frontRun args n).value = .ended (.ok m)) ∨ ∃ e, (frontRun args n).value = .ended (.error (.error e))

/-- The front end ends, and no index it uses is out of range. -/
structure FrontEnds (args : JitArgs) : Prop where
  returns : Returns args
  inside : ∀ n, (frontRun args n).Inside args.insts.length

/-- The program fits the counters, no `EBPF_OP_JA_IMM` leads out of it, and the first instruction that cannot be
    emitted is not a local call without a return block. -/
def FrontFits (args : JitArgs) : Prop :=
  args.insts = [] ∨
    args.insts.length ≤ 0xffff ∧ ImmJmpsInside args.insts ∧
      ¬ ∃ p ∈ positions args.insts, FailsAssertion args.insts p ∧
        ∀ q ∈ positions args.insts, q < p → Emittable args q

/-! ## Ending -/

section Ending

variable {args : JitArgs}

/-- From the state, the machine ends in the result, with all indices inside. -/
inductive EndsIn (args : JitArgs) : FrontState → JitResult Module → Prop where
  | ended (r : JitResult Module) : EndsIn args (.ended r) r
  | step {s : FrontState} {r : JitResult Module} (hinside : (frontStep args s).Inside args.insts.length)
      (h : EndsIn args (frontStep args s).value r) : EndsIn args s r

/-- After the end nothing is done. -/
theorem frontSteps_ended (r : JitResult Module) (n : Nat) : frontSteps args (.ended r) n = pure (.ended r) := by
  induction n with
  | zero => rfl
  | succ n ih => exact ih

/-- The end is reached in so many rounds. -/
theorem EndsIn.exists_steps {s : FrontState} {r : JitResult Module} (h : EndsIn args s r) :
    ∃ n, (frontSteps args s n).value = .ended r := by
  induction h with
  | ended r => exact ⟨0, rfl⟩
  | step _ _ ih =>
      obtain ⟨n, hn⟩ := ih
      exact ⟨n + 1, hn⟩

/-- With all accesses inside on the way. -/
theorem EndsIn.steps_inside {s : FrontState} {r : JitResult Module} (h : EndsIn args s r) (n : Nat) :
    (frontSteps args s n).Inside args.insts.length := by
  induction h generalizing n with
  | ended r =>
      rw [frontSteps_ended]
      exact Accessing.inside_pure _
  | step hinside _ ih =>
      cases n with
      | zero => exact Accessing.inside_pure _
      | succ n => exact hinside.bind (ih n)

/-- There is one end. -/
theorem EndsIn.eq {s : FrontState} {r r' : JitResult Module} (h : EndsIn args s r) {n : Nat}
    (hn : (frontSteps args s n).value = .ended r') : r' = r := by
  induction h generalizing n with
  | ended r =>
      rw [frontSteps_ended] at hn
      exact (FrontState.ended.inj hn).symm
  | @step s _ hinside h ih =>
      cases n with
      | zero =>
          -- a state that is ended already steps to itself
          have hs : s = .ended r' := hn
          subst hs
          exact ih (n := 0) rfl
      | succ n => exact ih hn

end Ending

/-! ## The first loop -/

section Splitting

variable {args : JitArgs} {i : Nat} {blockBegin : Nat → Bool}

/-- A natural number below the size. -/
theorem inRange_nat {j size : Nat} (h : j < size) : 0 ≤ (j : Int) ∧ (j : Int) < size := by omega

/-- The instruction of a round is one of the program. -/
theorem readInsts_inside (hi : i < args.insts.length) : (readInsts args.insts i).Inside args.insts.length := by
  intro a ha
  rw [List.mem_singleton.mp ha]
  exact inRange_nat hi

/-- And so is the one before it. -/
theorem markAfterJmp_inside (hi : i < args.insts.length) :
    (markAfterJmp args i blockBegin).Inside args.insts.length := by
  unfold markAfterJmp
  split
  · refine Accessing.Inside.bind (readInsts_inside (by omega)) ?_
    split
    · intro a ha
      rw [List.mem_singleton.mp ha]
      exact inRange_nat hi
    · exact Accessing.inside_pure _
  · exact Accessing.inside_pure _

/-- A round reads inside, and marks inside unless an `EBPF_OP_JA_IMM` leads out. -/
theorem splitRound_inside (hi : i < args.insts.length)
    (himm : isImmJmp (args.insts.inst i) = true →
      0 ≤ (args.insts.inst i).immTarget i ∧ (args.insts.inst i).immTarget i < args.insts.length) :
    (splitRound args i blockBegin).Inside args.insts.length := by
  refine Accessing.Inside.bind (readInsts_inside hi) (Accessing.Inside.bind (markAfterJmp_inside hi) ?_)
  unfold markTarget
  split
  · next hcurr =>
      intro a ha
      rw [List.mem_singleton.mp ha]
      exact himm hcurr
  · split
    · next hcurr =>
        intro a ha
        rw [List.mem_singleton.mp ha]
        exact hcurr.2
    · exact Accessing.inside_pure _

/-- An `EBPF_OP_JA_IMM` marks its target, wherever that is. -/
theorem splitRound_imm (hcurr : isImmJmp (args.insts.inst i) = true) :
    .blockBegin ((args.insts.inst i).immTarget i) ∈ (splitRound args i blockBegin).accesses := by
  refine List.mem_append_right _ (List.mem_append_right _ ?_)
  show _ ∈ (markTarget args (args.insts.inst i) i _).accesses
  rw [markTarget, if_pos hcurr]
  exact List.mem_singleton_self _

/-- The instruction behind a jump starts a block. -/
theorem markAfterJmp_value : (markAfterJmp args i blockBegin).value =
    if i > 0 && isJmp (args.insts.inst (i - 1)) then Function.update blockBegin i true else blockBegin := by
  unfold markAfterJmp
  by_cases hi : i > 0
  · rw [if_pos hi]
    by_cases hjmp : isJmp (args.insts.inst (i - 1)) = true
    · have hprev : isJmp (readInsts args.insts (i - 1)).value = true := hjmp
      rw [Accessing.value_bind, if_pos hprev, if_pos (by simp [hi, hjmp])]
      rfl
    · have hprev : ¬ isJmp (readInsts args.insts (i - 1)).value = true := hjmp
      rw [Accessing.value_bind, if_neg hprev, if_neg (by simp [hjmp])]
      rfl
  · rw [if_neg hi, if_neg (by simp [hi])]
    rfl

/-- The round of `Vm.Jit`. -/
theorem splitRound_value (himm : isImmJmp (args.insts.inst i) = true →
      0 ≤ (args.insts.inst i).immTarget i ∧ (args.insts.inst i).immTarget i < args.insts.length) :
    splitStep args.insts blockBegin i = .ok (splitRound args i blockBegin).value := by
  have hvalue : (splitRound args i blockBegin).value =
      (markTarget args (args.insts.inst i) i (markAfterJmp args i blockBegin).value).value := rfl
  rw [hvalue, markAfterJmp_value]
  unfold splitStep markTarget
  simp only
  split
  · next hcurr =>
      rw [if_pos (himm hcurr)]
      rfl
  · split
    · rfl
    · rfl

/-- A round takes what is marked before it to what is marked after it. -/
theorem splitRound_marked (himm : isImmJmp (args.insts.inst i) = true →
      0 ≤ (args.insts.inst i).immTarget i ∧ (args.insts.inst i).immTarget i < args.insts.length) :
    (splitRound args i (markedBefore args.insts i)).value = markedBefore args.insts (i + 1) :=
  Except.ok.inj ((splitRound_value himm).symm.trans (splitStep_eq himm))

/-- **A vector longer than the counter is never split.** -/
theorem split_diverges (hlong : 0xffff < args.insts.length) (n : Nat) (i : BitVec 16) (blockBegin : Nat → Bool) :
    ∃ i' blockBegin', (frontSteps args (.split i blockBegin) n).value = .split i' blockBegin' := by
  induction n generalizing i blockBegin with
  | zero => exact ⟨i, blockBegin, rfl⟩
  | succ n ih =>
      have hi : i.toNat < args.insts.length := Nat.lt_of_lt_of_le i.isLt hlong
      have hstep : (frontStep args (.split i blockBegin)).value =
          .split (i + 1) (splitRound args i.toNat blockBegin).value := by
        rw [frontStep, if_pos hi]
        rfl
      rw [frontSteps, Accessing.value_bind, hstep]
      exact ih _ _

end Splitting

/-! ## A vector that fits -/

section Fitting

variable {args : JitArgs} {r : JitResult Module}

/-- A counter is its position. -/
theorem toNat_counter {k : Nat} (hk : k ≤ 0xffff) : (BitVec.ofNat 16 k).toNat = k := by
  rw [BitVec.toNat_ofNat]
  exact Nat.mod_eq_of_lt (Nat.lt_succ_of_le hk)

/-- The 16-bit counter. -/
theorem counter_add (k d : Nat) : BitVec.ofNat 16 k + BitVec.ofNat 16 d = BitVec.ofNat 16 (k + d) := by
  rw [BitVec.ofNat_add]

/-- **The first loop** ends with all starts of blocks, from any round on. -/
theorem ends_split (hlen : args.insts.length ≤ 0xffff) (hinside : ImmJmpsInside args.insts)
    (h : EndsIn args (.create 0 (isBlockStart args.insts) fun _ => false) r) (d k : Nat)
    (hk : k + d = args.insts.length) : EndsIn args (.split (BitVec.ofNat 16 k) (markedBefore args.insts k)) r := by
  have hcounter := toNat_counter (show k ≤ 0xffff by omega)
  induction d generalizing k with
  | zero =>
      have hstop : ¬ (BitVec.ofNat 16 k).toNat < args.insts.length := by omega
      refine .step ?_ ?_
      · rw [frontStep, if_neg hstop]
        exact Accessing.inside_pure _
      · rw [frontStep, if_neg hstop]
        obtain rfl : k = args.insts.length := by omega
        exact h
  | succ d ih =>
      have hgo : (BitVec.ofNat 16 k).toNat < args.insts.length := by omega
      refine .step ?_ ?_
      · rw [frontStep, if_pos hgo, hcounter]
        exact (splitRound_inside (by omega) (hinside k (by omega))).bind (Accessing.inside_pure _)
      · rw [frontStep, if_pos hgo, hcounter, Accessing.value_bind, splitRound_marked (hinside k (by omega))]
        show EndsIn args (.split (BitVec.ofNat 16 k + BitVec.ofNat 16 1) _) r
        rw [counter_add]
        exact ih (k + 1) (by omega) (toNat_counter (by omega))

/-- The blocks of the positions below `k`. -/
def blocksBelow (insts : Insts) (k i : Nat) : Bool := decide (i < k) && isBlockStart insts i

/-- A round of the second loop. -/
theorem createRound_blocks (k : Nat) :
    (createRound args k (isBlockStart args.insts) (blocksBelow args.insts k)).value = blocksBelow args.insts (k + 1) := by
  have hsame (hstart : isBlockStart args.insts k = true) :
      Function.update (blocksBelow args.insts k) k true = blocksBelow args.insts (k + 1) := by
    funext i
    by_cases hi : i = k
    · subst hi
      simp [blocksBelow, hstart]
    · rw [Function.update_of_ne hi, blocksBelow, blocksBelow]
      congr 1
      exact decide_eq_decide.mpr (by omega)
  unfold createRound
  rw [Accessing.value_bind]
  by_cases hstart : isBlockStart args.insts k = true
  · rw [if_pos (show (readBlockBegin (isBlockStart args.insts) k).value = true from hstart)]
    split
    · exact hsame hstart
    · exact hsame hstart
  · rw [if_neg (show ¬ (readBlockBegin (isBlockStart args.insts) k).value = true from hstart)]
    funext i
    by_cases hi : i = k
    · subst hi
      simp [blocksBelow, hstart]
    · show blocksBelow args.insts k i = blocksBelow args.insts (k + 1) i
      rw [blocksBelow, blocksBelow]
      congr 1
      exact decide_eq_decide.mpr (by omega)

/-- It reads the mark of its instruction. -/
theorem readBlockBegin_inside {blockBegin : Nat → Bool} {i : Nat} (hi : i < args.insts.length) :
    (readBlockBegin blockBegin i).Inside args.insts.length := by
  intro a ha
  rw [List.mem_singleton.mp ha]
  exact inRange_nat hi

/-- And nothing out of range. -/
theorem createRound_inside {blockBegin instBlocks : Nat → Bool} {i : Nat} (hi : i < args.insts.length) :
    (createRound args i blockBegin instBlocks).Inside args.insts.length := by
  refine (readBlockBegin_inside hi).bind ?_
  split
  · split
    · exact (readInsts_inside (by omega)).bind (Accessing.inside_pure _)
    · exact Accessing.inside_pure _
  · exact Accessing.inside_pure _

/-- Only positions of the vector start blocks. -/
theorem blocksBelow_length (hne : args.insts ≠ []) : blocksBelow args.insts args.insts.length = isBlockStart args.insts := by
  funext i
  rw [blocksBelow]
  by_cases hi : i < args.insts.length
  · rw [decide_eq_true hi, Bool.true_and]
  · rw [decide_eq_false hi, Bool.false_and]
    have hpos := List.length_pos_of_ne_nil hne
    cases hstart : isBlockStart args.insts i with
    | false => rfl
    | true => exact absurd (isBlockStart_lt (by omega) hstart) hi

/-- **The second loop** ends with a block for each start. -/
theorem ends_create (hlen : args.insts.length ≤ 0xffff) (hne : args.insts ≠ [])
    (h : EndsIn args (.emit 0 0 (isBlockStart args.insts) (isBlockStart args.insts) []) r) (d k : Nat)
    (hk : k + d = args.insts.length) :
    EndsIn args (.create (BitVec.ofNat 16 k) (isBlockStart args.insts) (blocksBelow args.insts k)) r := by
  have hcounter := toNat_counter (show k ≤ 0xffff by omega)
  induction d generalizing k with
  | zero =>
      have hstop : ¬ (BitVec.ofNat 16 k).toNat < args.insts.length := by omega
      refine .step ?_ ?_
      · rw [frontStep, if_neg hstop]
        exact Accessing.inside_pure _
      · rw [frontStep, if_neg hstop]
        obtain rfl : k = args.insts.length := by omega
        rw [blocksBelow_length hne]
        exact h
  | succ d ih =>
      have hgo : (BitVec.ofNat 16 k).toNat < args.insts.length := by omega
      refine .step ?_ ?_
      · rw [frontStep, if_pos hgo, hcounter]
        exact (createRound_inside (by omega)).bind (Accessing.inside_pure _)
      · rw [frontStep, if_pos hgo, hcounter, Accessing.value_bind, createRound_blocks]
        show EndsIn args (.create (BitVec.ofNat 16 k + BitVec.ofNat 16 1) _ _) r
        rw [counter_add]
        exact ih (k + 1) (by omega) (toNat_counter (by omega))

/-- An emitted `LDDW` has its second slot. -/
theorem width_inside {pc : Nat} {piece : Code} (hpc : pc < args.insts.length)
    (h : emitInst args (isBlockStart args.insts) pc = .ok piece) :
    pc + (args.insts.inst pc).width ≤ args.insts.length := by
  unfold EbpfInst.width
  split
  · next hop =>
      have hemittable : Emittable args pc := by
        by_contra hno
        have hspec := emitInst_spec args pc
        by_cases hfails : FailsAssertion args.insts pc
        · rw [(hspec.undefined hfails).2] at h
          cases h
        · obtain ⟨e, he⟩ := hspec.refused hno hfails
          rw [he] at h
          cases h
      have hlddw := hemittable.2.2
      rw [hop] at hlddw
      exact hlddw.1.1
  · exact hpc

/-- The second slot is read only where there is one. -/
theorem readNext_inside {inst : EbpfInst} {pc : Nat} : (readNext args inst pc).Inside args.insts.length := by
  unfold readNext
  split
  · next hnext => exact readInsts_inside hnext.2.2.2
  · exact Accessing.inside_pure _

/-- The third loop ends as the emission of `Vm.Jit` does. -/
theorem ends_emit (hlen : args.insts.length ≤ 0xffff) (fuel pc currBB : Nat) (code : List (Nat × Emitted))
    (hpc : pc ≤ args.insts.length) (hfuel : args.insts.length ≤ pc + fuel) :
    EndsIn args (.emit (BitVec.ofNat 16 pc) currBB (isBlockStart args.insts) (isBlockStart args.insts) code)
      (emitFrom args (isBlockStart args.insts) fuel pc currBB >>= fun rest =>
        finishModule args (isBlockStart args.insts) (code ++ rest)) := by
  have hcounter := toNat_counter (show pc ≤ 0xffff by omega)
  -- the loop ends at the last instruction, or emits one and goes on
  induction fuel generalizing pc currBB code with
  | zero =>
      have hstop : ¬ (BitVec.ofNat 16 pc).toNat < args.insts.length := by omega
      refine .step ?_ ?_
      · rw [frontStep, if_neg hstop]
        exact Accessing.inside_pure _
      · rw [frontStep, if_neg hstop]
        show EndsIn args (.ended _) (finishModule args _ (code ++ []))
        rw [List.append_nil]
        exact .ended _
  | succ fuel ih =>
      by_cases hpc' : pc < args.insts.length
      · have hgo : (BitVec.ofNat 16 pc).toNat < args.insts.length := by omega
        have hround : (emitRound args (BitVec.ofNat 16 pc) currBB (isBlockStart args.insts) (isBlockStart args.insts)
            code).Inside args.insts.length := by
          rw [emitRound, hcounter]
          refine (readInsts_inside hpc').bind ((readBlockBegin_inside hpc').bind (readNext_inside.bind ?_))
          split
          · exact Accessing.inside_pure _
          · exact Accessing.inside_pure _
        refine .step ?_ ?_
        · rw [frontStep, if_pos hgo]
          exact hround
        · rw [frontStep, if_pos hgo, emitRound, hcounter, Accessing.value_bind, Accessing.value_bind,
            Accessing.value_bind, emitFrom, if_pos hpc']
          cases hinst : emitInst args (isBlockStart args.insts) pc with
          | error fault => exact .ended _
          | ok piece =>
              have hwidth := width_inside hpc' hinst
              have hpos := width_pos (args.insts.inst pc)
              have hrest := ih (pc + (args.insts.inst pc).width)
                (if isBlockStart args.insts pc then pc else currBB)
                (code ++ [(if isBlockStart args.insts pc then pc else currBB, ⟨pc, args.insts.inst pc, piece⟩)])
                hwidth (by omega) (toNat_counter (by omega))
              rw [← counter_add] at hrest
              simp only [bind, Except.bind] at hrest ⊢
              cases hfrom : emitFrom args (isBlockStart args.insts) fuel (pc + (args.insts.inst pc).width)
                  (if isBlockStart args.insts pc then pc else currBB) with
              | error fault =>
                  rw [hfrom] at hrest
                  exact hrest
              | ok rest =>
                  rw [hfrom] at hrest
                  simp only [List.append_assoc, List.singleton_append] at hrest
                  exact hrest
      · have hstop : ¬ (BitVec.ofNat 16 pc).toNat < args.insts.length := by omega
        refine .step ?_ ?_
        · rw [frontStep, if_neg hstop]
          exact Accessing.inside_pure _
        · rw [frontStep, if_neg hstop, emitFrom, if_neg hpc']
          show EndsIn args (.ended _) (finishModule args _ (code ++ []))
          rw [List.append_nil]
          exact .ended _

/-- **The machine comes to what `generateModule` returns**, and all its indices are inside. -/
theorem front_ends (hne : args.insts ≠ []) (hlen : args.insts.length ≤ 0xffff) (hinside : ImmJmpsInside args.insts) :
    EndsIn args (.split 0 (Function.update (fun _ => false) 0 true)) (generateModule args) := by
  have hmodule : generateModule args = emitFrom args (isBlockStart args.insts) args.insts.length 0 0 >>= fun rest =>
      finishModule args (isBlockStart args.insts) ([] ++ rest) := by
    unfold generateModule
    rw [if_neg (by simpa using hne), if_neg (Nat.not_lt.mpr hlen), splitBlocks_ok hinside]
    rfl
  have hblocks : (fun _ => false) = blocksBelow args.insts 0 := by
    funext i
    simp [blocksBelow]
  have hmarked : Function.update (fun _ => false) 0 true = markedBefore args.insts 0 := by
    funext i
    rw [update_true]
    simp [markedBefore, Bool.beq_comm (a := i)]
  have hemit := ends_emit hlen args.insts.length 0 0 [] (Nat.zero_le _) (Nat.le_add_left _ _)
  rw [← hmodule] at hemit
  have hcreate := ends_create hlen hne hemit args.insts.length 0 (Nat.zero_add _)
  rw [← hblocks] at hcreate
  rw [hmarked]
  exact ends_split hlen hinside hcreate args.insts.length 0 (Nat.zero_add _)

end Fitting

/-! ## The front end -/

/-- The start marks block 0 of a vector that has one. -/
theorem frontStart_inside (args : JitArgs) : (frontStart args).Inside args.insts.length := by
  unfold frontStart
  split
  · exact Accessing.inside_pure _
  · next hne =>
      have hpos : 0 < args.insts.length := List.length_pos_of_ne_nil (by simpa using hne)
      refine Accessing.Inside.bind (fun a ha => ?_) (Accessing.inside_pure _)
      rw [List.mem_singleton.mp ha]
      exact inRange_nat hpos

/-- The first instruction starts a block. -/
theorem frontStart_value {args : JitArgs} (hne : args.insts ≠ []) :
    (frontStart args).value = .split 0 (Function.update (fun _ => false) 0 true) := by
  unfold frontStart
  rw [if_neg (by simpa using hne)]
  rfl

/-- A machine that ends does so in the front end's way. -/
theorem frontEnds_of_endsIn {args : JitArgs} {r : JitResult Module} (h : EndsIn args (frontStart args).value r) :
    FrontEnds args ↔ (∃ m, r = .ok m) ∨ ∃ e, r = .error (.error e) := by
  constructor
  · rintro ⟨⟨n, ⟨m, hn⟩ | ⟨e, hn⟩⟩, -⟩
    · exact .inl ⟨m, (h.eq hn).symm⟩
    · exact .inr ⟨e, (h.eq hn).symm⟩
  · intro hr
    obtain ⟨n, hn⟩ := h.exists_steps
    refine ⟨⟨n, ?_⟩, fun n => (frontStart_inside args).bind (h.steps_inside n)⟩
    rcases hr with ⟨m, rfl⟩ | ⟨e, rfl⟩
    · exact .inl ⟨m, hn⟩
    · exact .inr ⟨e, hn⟩

/-- What a later step uses, the whole run has used. -/
theorem mem_accesses_steps {args : JitArgs} {a : VectorAccess} (n : Nat) {s : FrontState}
    (h : a ∈ (frontStep args (frontSteps args s n).value).accesses) : a ∈ (frontSteps args s (n + 1)).accesses := by
  induction n generalizing s with
  | zero => exact List.mem_append_left _ h
  | succ n ih => exact List.mem_append_right _ (ih h)

/-- The first loop comes to every position. -/
theorem split_reaches {args : JitArgs} (hlen : args.insts.length ≤ 0xffff) (k j : Nat) (hk : j + k ≤ args.insts.length)
    (blockBegin : Nat → Bool) :
    ∃ blockBegin', (frontSteps args (.split (BitVec.ofNat 16 j) blockBegin) k).value =
      .split (BitVec.ofNat 16 (j + k)) blockBegin' := by
  induction k generalizing j blockBegin with
  | zero => exact ⟨blockBegin, rfl⟩
  | succ k ih =>
      have hcounter := toNat_counter (show j ≤ 0xffff by omega)
      have hgo : (BitVec.ofNat 16 j).toNat < args.insts.length := by omega
      obtain ⟨blockBegin', hrest⟩ := ih (j + 1) (by omega) (splitRound args j blockBegin).value
      refine ⟨blockBegin', ?_⟩
      rw [frontSteps, frontStep, if_pos hgo, hcounter, Accessing.value_bind, Accessing.value_bind, Accessing.value_pure]
      rw [← counter_add] at hrest
      rw [show j + (k + 1) = j + 1 + k by omega]
      exact hrest

/-- An `EBPF_OP_JA_IMM` that leads out is used as an index. -/
theorem not_inside_of_imm {args : JitArgs} (hne : args.insts ≠ []) (hlen : args.insts.length ≤ 0xffff)
    (himm : ¬ ImmJmpsInside args.insts) : ¬ ∀ n, (frontRun args n).Inside args.insts.length := by
  intro hinside
  refine himm fun i hi hcurr => ?_
  obtain ⟨blockBegin, hreach⟩ := split_reaches hlen i 0 (by omega) (Function.update (fun _ => false) 0 true)
  have hgo : (BitVec.ofNat 16 (0 + i)).toNat < args.insts.length := by
    rw [toNat_counter (by omega)]
    omega
  have hused : VectorAccess.blockBegin ((args.insts.inst i).immTarget i) ∈ (frontRun args (i + 1)).accesses := by
    refine List.mem_append_right _ ?_
    rw [frontStart_value hne]
    refine mem_accesses_steps i ?_
    rw [show FrontState.split 0 = FrontState.split (BitVec.ofNat 16 0) from rfl, hreach, frontStep, if_pos hgo,
      toNat_counter (by omega), Nat.zero_add]
    exact List.mem_append_left _ (splitRound_imm hcurr)
  exact hinside _ _ hused

/-- What `generateModule` ends in, where the vector fits the counters and the indices stay inside. -/
theorem returns_iff_fits {args : JitArgs} (hne : args.insts ≠ []) (hlen : args.insts.length ≤ 0xffff)
    (hinside : ImmJmpsInside args.insts) :
    ((∃ m, generateModule args = .ok m) ∨ ∃ e, generateModule args = .error (.error e)) ↔ FrontFits args := by
  have hspec := generateModule_spec args
  -- a vector that fits is accepted or refused
  have hfits (hfit : FrontFits args) : Accepted args ∨ Refused args := by
    obtain ⟨-, -, hassert⟩ := hfit.resolve_left hne
    by_cases hall : (∀ p ∈ positions args.insts, Emittable args p) ∧ (args.isGpu = true ∨ LastBlockEnds args.insts)
    · exact .inl ⟨hne, hlen, hinside, hall.1, hall.2⟩
    · exact .inr (.inr ⟨hlen, hinside, hassert, hall⟩)
  generalize generateModule args = r at hspec
  cases hspec with
  | @accepted m haccepted hrefused hcompiled =>
      refine iff_of_true (.inl ⟨m, rfl⟩) (.inr ⟨hlen, hinside, fun hfails => ?_⟩)
      exact ((emission args).undefined hfails).1 haccepted.2.2.2.1
  | @refused e hrefused haccepted =>
      refine iff_of_true (.inr ⟨e, rfl⟩) ?_
      obtain ⟨-, -, hassert, -⟩ := hrefused.resolve_left hne
      exact .inr ⟨hlen, hinside, hassert⟩
  | undefined hrefused haccepted =>
      refine iff_of_false ?_ fun hfit => (hfits hfit).elim haccepted hrefused
      rintro (⟨m, hm⟩ | ⟨e, he⟩)
      · cases hm
      · cases he
  | diverges hrefused haccepted =>
      refine iff_of_false ?_ fun hfit => (hfits hfit).elim haccepted hrefused
      rintro (⟨m, hm⟩ | ⟨e, he⟩)
      · cases hm
      · cases he

/-- **The front end ends, with all indices in range, exactly if the program fits it.** -/
theorem frontEnds_iff (args : JitArgs) : FrontEnds args ↔ FrontFits args := by
  by_cases hne : args.insts = []
  · have hstart : (frontStart args).value = .ended (.error (.error .noInstructions)) := by
      unfold frontStart
      rw [if_pos (by simp [hne])]
      rfl
    refine iff_of_true ((frontEnds_of_endsIn (r := .error (.error .noInstructions)) ?_).mpr (.inr ⟨_, rfl⟩)) (.inl hne)
    rw [hstart]
    exact .ended _
  by_cases hlen : args.insts.length ≤ 0xffff
  · by_cases hinside : ImmJmpsInside args.insts
    · have hends := front_ends hne hlen hinside
      rw [← frontStart_value hne] at hends
      exact (frontEnds_of_endsIn hends).trans (returns_iff_fits hne hlen hinside)
    · refine iff_of_false (fun h => not_inside_of_imm hne hlen hinside h.inside) fun hfit => ?_
      exact hinside (hfit.resolve_left hne).2.1
  · refine iff_of_false ?_ fun hfit => hlen (hfit.resolve_left hne).1
    rintro ⟨⟨n, hn⟩, -⟩
    obtain ⟨i, blockBegin, hsplit⟩ :=
      split_diverges (Nat.lt_of_not_le hlen) n 0 (Function.update (fun _ => false) 0 true)
    rw [← frontStart_value hne] at hsplit
    have hrun : (frontRun args n).value = .split i blockBegin := hsplit
    rcases hn with ⟨m, hn⟩ | ⟨e, hn⟩
    · rw [hrun] at hn
      cases hn
    · rw [hrun] at hn
      cases hn

/-- A jump behind the end of a program of one instruction. -/
def jumpOut : JitArgs where
  insts := [⟨EBPF_OP_JA_IMM, 0, 0, 0, 0⟩]
  lddw := ⟨none, none, none, none, none⟩
  extFuncs := []
  mapValHelper := false
  patchMapValAtCompileTime := true
  isGpu := false

/-- Its target is used as an index. -/
theorem jumpOut_not_ends : ¬ FrontEnds jumpOut := by
  intro h
  have hout := h.inside 1 (.blockBegin 1) (by decide)
  exact absurd hout.2 (by decide)

end Vm
