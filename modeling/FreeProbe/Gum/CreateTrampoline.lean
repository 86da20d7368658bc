import FreeProbe.Gum.X86Relocator

/-!
# `Gum.CreateTrampoline` — how large a trampoline is

`_gum_interceptor_backend_create_trampoline` down to its bytes: the guard with its two paths, the leave trampoline, the
relocated instructions, the jump back. A slice has 256 bytes, which is asserted when they are written.

Without the guard, or where five bytes of the function are enough, that holds of every function. Where sixteen are
needed the guard leaves room for 175 bytes, and eight short branches to the outside take 160 and the jump back.
-/

namespace Gum

open X86 Lib.Memory GumX86Writer GumX86Relocator

/-- `GUM_INTERCEPTOR_CODE_SLICE_SIZE`, the size of every slice. -/
def gumInterceptorCodeSliceSize : Nat := 256

/-- `GUM_INTERCEPTOR_FULL_REDIRECT_SIZE`. -/
def gumInterceptorFullRedirectSize : Nat := 16

/-- `GUM_INTERCEPTOR_NEAR_REDIRECT_SIZE`. -/
def gumInterceptorNearRedirectSize : Nat := 5

/-- What a trampoline is made from: the function and its context, what the code allocator gives, where the thunks are,
    and where the two label ids are stored. -/
structure TrampolineRequest where
  type             : GumInterceptorType
  functionAddress  : Word
  functionContext  : Word
  nearSlice        : Option Word
  slice            : Word
  memory           : Nat → Byte
  enterThunk       : Word
  leaveThunk       : Word
  samplingSkip     : Word
  invokeTrampoline : Word

namespace TrampolineRequest

variable (t : TrampolineRequest)

/-- The near slice that is used: none is asked for when the function is patched to its replacement. -/
def usedNearSlice : Option Word := if t.type = .default then t.nearSlice else none

/-- `trampoline_slice->data`. -/
def trampolineSlice : Word := t.usedNearSlice.getD t.slice

/-- `redirect_code_size`. -/
def redirectCodeSize : Nat :=
  if t.usedNearSlice.isSome then gumInterceptorNearRedirectSize else gumInterceptorFullRedirectSize

/-- `gum_interceptor_backend_prepare_trampoline`. -/
def prepareTrampoline (cs : Capstone) : Bool := canRelocate cs t.functionAddress t.redirectCodeSize

def skipLabel : Label := .literal .samplingSkip t.samplingSkip

def invokeLabel : Label := .literal .invokeTrampoline t.invokeTrampoline

/-! ## The code -/

/-- The guard between the pushed context and the jump into the enter thunk. -/
def putSamplingGuard (cw : GumX86Writer) : GumX86Writer :=
  let cw := ((cw.putPushReg .rax).putPushReg .rcx).putPushReg .rdx
  let cw := cw.putMovRegRegOffsetPtr .rax .rsp 0x18
  let cw := (cw.putMovRegFsU32Ptr .rdx (gumTcbTidOffset.setWidth 32)).putAndRegU32 .rdx 0x3f
  let cw := ((cw.putBytes [0x0f, 0xb6, 0x0c, 0x10]).putBytes [0xff, 0xc1]).putBytes [0x88, 0x0c, 0x10]
  let cw := cw.putCmpRegI32 .rcx (BitVec.ofNat 32 gumSampleRate)
  let cw := (cw.putJccShortLabel X86Insn.jl.jccOpcode t.skipLabel).putBytes [0xc6, 0x04, 0x10, 0x00]
  ((cw.putPopReg .rdx).putPopReg .rcx).putPopReg .rax

/-- The path of a call that is not sampled. -/
def putSamplingSkip (cw : GumX86Writer) : GumX86Writer :=
  let cw := (((cw.putLabel t.skipLabel).putPopReg .rdx).putPopReg .rcx).putPopReg .rax
  (cw.putAddRegImm .rsp 8).putJmpNearLabel t.invokeLabel

/-- The context's address, where the code finds it, and the enter trampoline. -/
def putOnEnter (cw : GumX86Writer) : GumX86Writer :=
  let functionCtxPtr := cw.cur
  let cw := (cw.putBytes (leBytes 8 t.functionContext.toNat)).putPushNearPtr functionCtxPtr
  t.putSamplingSkip ((t.putSamplingGuard cw).putJmpAddress t.enterThunk)

def putOnLeave (functionCtxPtr : Word) (cw : GumX86Writer) : GumX86Writer :=
  (cw.putPushNearPtr functionCtxPtr).putJmpAddress t.leaveThunk

/-- Everything in front of the relocated instructions. -/
def putEntries (cw : GumX86Writer) : GumX86Writer :=
  let entered := if t.type = .fast then cw else t.putOnLeave cw.cur (t.putOnEnter cw)
  entered.putLabel t.invokeLabel

/-- `_gum_interceptor_backend_create_trampoline` up to its flush, for the instructions that were read. -/
def emitTrampoline (rl : GumX86Relocator) : Except RelocatorAbort GumX86Writer :=
  (rl.writeAll (t.putEntries (.reset t.memory t.trampolineSlice))).map fun cw =>
    if rl.eoi then cw else cw.putJmpAddress (t.functionAddress + BitVec.ofNat 64 rl.relocBytes)

/-! ## Its size and its labels -/

/-- The jump into the enter thunk. -/
def enterJmpSize : Nat := jmpSize (t.trampolineSlice + 63) t.enterThunk

/-- The jump into the leave thunk. -/
def leaveJmpSize : Nat := jmpSize (t.trampolineSlice + BitVec.ofNat 64 (63 + t.enterJmpSize + 12 + 6)) t.leaveThunk

/-- Where the relocated instructions start. -/
def entriesSize : Nat := if t.type = .fast then 0 else 63 + t.enterJmpSize + 12 + (6 + t.leaveJmpSize)

def entriesMarks : List (Label × Nat) :=
  (if t.type = .fast then [] else [(t.skipLabel, 63 + t.enterJmpSize)]) ++ [(t.invokeLabel, t.entriesSize)]

def entriesLinks : List LabelRef :=
  if t.type = .fast then []
  else [⟨t.skipLabel, 56, .short⟩, ⟨t.invokeLabel, 63 + t.enterJmpSize + 12, .near⟩]

variable {t} (cw : GumX86Writer)

theorem emits_putSamplingGuard :
    Emits cw (t.putSamplingGuard cw) 49 [] [⟨t.skipLabel, cw.offset + 42, .short⟩] := by
  have hsaved := ((emits_putPushReg cw .rax).trans (emits_putPushReg _ .rcx)).trans (emits_putPushReg _ .rdx)
  have hctx := hsaved.trans (emits_putMovRegRegOffsetPtr _ .rax .rsp 0x18)
  have htid := hctx.trans (emits_putBytes _
    (0x64 :: 0x48 :: 0x8b :: (GumX86Reg.rdx.index <<< 3 ||| 0x04) :: 0x25 ::
      leBytes 4 (gumTcbTidOffset.setWidth 32 : BitVec 32).toNat))
  have hbucket := htid.trans (emits_putBytes _
    (0x48 :: 0x81 :: (0xe0 ||| GumX86Reg.rdx.index) :: leBytes 4 (0x3f : BitVec 32).toNat))
  have hcounted := ((hbucket.trans (emits_putBytes _ [0x0f, 0xb6, 0x0c, 0x10])).trans
    (emits_putBytes _ [0xff, 0xc1])).trans (emits_putBytes _ [0x88, 0x0c, 0x10])
  have hcmp := hcounted.trans (emits_putBytes _
    (0x48 :: 0x81 :: (0xf8 ||| GumX86Reg.rcx.index) :: leBytes 4 (BitVec.ofNat 32 gumSampleRate).toNat))
  have hjl := hcmp.trans (emits_putJccShortLabel _ X86Insn.jl.jccOpcode t.skipLabel)
  have hreset := hjl.trans (emits_putBytes _ [0xc6, 0x04, 0x10, 0x00])
  have hall := ((hreset.trans (emits_putPopReg _ .rdx)).trans (emits_putPopReg _ .rcx)).trans
    (emits_putPopReg _ .rax)
  rw [hcmp.offset] at hall
  exact hall

theorem emits_putSamplingSkip :
    Emits cw (t.putSamplingSkip cw) 12 [(t.skipLabel, cw.offset)] [⟨t.invokeLabel, cw.offset + 12, .near⟩] := by
  have hpops := (((emits_putLabel cw t.skipLabel).trans (emits_putPopReg _ .rdx)).trans
    (emits_putPopReg _ .rcx)).trans (emits_putPopReg _ .rax)
  have hadd := hpops.trans (emits_putBytes _
    (0x48 :: 0x83 :: (0xc0 ||| GumX86Reg.rsp.index) :: leBytes 1 (8 : Word).toNat))
  have hall := hadd.trans (emits_putJmpNearLabel _ t.invokeLabel)
  rw [hadd.offset] at hall
  exact hall

/-- A pointer a little in front of the code is in reach. -/
theorem emits_putPushNearPtr {address : Word} {k : Nat} (hcur : cw.cur = address + BitVec.ofNat 64 k)
    (hk : k ≤ 1000) : Emits cw (cw.putPushNearPtr address) 6 [] [] := by
  have hdistance : address - (cw.cur + 6) = BitVec.ofInt 64 (-(k + 6)) := by
    have hsum : cw.cur + 6 = address + BitVec.ofNat 64 (k + 6) := by
      rw [hcur, BitVec.ofNat_add, add_assoc]
      rfl
    rw [hsum, sub_add_self, BitVec.ofInt_neg]
    rfl
  have hnear : WithinInt32 (address - (cw.cur + 6)).toInt := by
    rw [hdistance, BitVec.toInt_ofInt_eq_self (by decide) (by omega) (by omega)]
    constructor <;> omega
  rw [putPushNearPtr, if_pos hnear]
  exact emits_putBytes cw _

theorem emits_putOnEnter (hstart : cw.offset = 0) :
    let enterJmp := jmpSize (cw.cur + 63) t.enterThunk
    Emits cw (t.putOnEnter cw) (63 + enterJmp + 12) [(t.skipLabel, 63 + enterJmp)]
      [⟨t.skipLabel, 56, .short⟩, ⟨t.invokeLabel, 63 + enterJmp + 12, .near⟩] := by
  have hctx := emits_putBytes cw (leBytes 8 t.functionContext.toNat)
  rw [length_leBytes] at hctx
  have hpush := hctx.trans (emits_putPushNearPtr _ hctx.cur (by decide))
  have hguard := hpush.trans (emits_putSamplingGuard (t := t) _)
  have hjmp := hguard.trans (emits_putJmpAddress _ t.enterThunk)
  have hall := hjmp.trans (emits_putSamplingSkip (t := t) _)
  rw [hpush.offset, hjmp.offset, hguard.cur, hstart, Nat.zero_add, Nat.zero_add] at hall
  exact hall

theorem emits_putOnLeave {functionCtxPtr : Word} {k : Nat} (hcur : cw.cur = functionCtxPtr + BitVec.ofNat 64 k)
    (hk : k ≤ 1000) :
    Emits cw (t.putOnLeave functionCtxPtr cw)
      (6 + jmpSize (functionCtxPtr + BitVec.ofNat 64 (k + 6)) t.leaveThunk) [] [] := by
  have hpush := emits_putPushNearPtr cw hcur hk
  have hall := hpush.trans (emits_putJmpAddress _ t.leaveThunk)
  rw [hpush.cur, hcur, add_assoc, ← BitVec.ofNat_add] at hall
  exact hall

variable (t) in
/-- What stands in front of the relocated instructions. -/
theorem emits_putEntries :
    Emits (.reset t.memory t.trampolineSlice) (t.putEntries (.reset t.memory t.trampolineSlice)) t.entriesSize
      t.entriesMarks t.entriesLinks := by
  have hcur : (GumX86Writer.reset t.memory t.trampolineSlice).cur = t.trampolineSlice := add_zero _
  unfold putEntries entriesSize entriesMarks entriesLinks
  by_cases hfast : t.type = .fast
  · simp only [if_pos hfast]
    rw [entriesSize, if_pos hfast]
    exact emits_putLabel _ t.invokeLabel
  · simp only [if_neg hfast]
    rw [entriesSize, if_neg hfast, hcur]
    have henter := emits_putOnEnter (t := t) (.reset t.memory t.trampolineSlice) rfl
    have hsize := jmpSize_le ((GumX86Writer.reset t.memory t.trampolineSlice).cur + 63) t.enterThunk
    have hleave := henter.trans (emits_putOnLeave (t := t) _ henter.cur (by omega))
    have hall := hleave.trans (emits_putLabel _ t.invokeLabel)
    rw [hleave.offset, hcur] at hall
    have hzero : (GumX86Writer.reset t.memory t.trampolineSlice).offset = 0 := rfl
    have henterJmp : jmpSize (t.trampolineSlice + 63) t.enterThunk = t.enterJmpSize := rfl
    have hleaveJmp : jmpSize (t.trampolineSlice + BitVec.ofNat 64 (63 + t.enterJmpSize + 12 + 6)) t.leaveThunk =
      t.leaveJmpSize := rfl
    rw [hzero, Nat.zero_add, henterJmp, hleaveJmp] at hall
    exact hall

variable (t) (rl : GumX86Relocator)

/-- The relocated instructions, where they are written. -/
def placed : List Placed := rl.layout t.trampolineSlice t.entriesSize rl.inputInsns

/-- The jump back, where the function goes on behind the instructions. -/
def backSize : Nat :=
  if rl.eoi then 0
  else jmpSize (t.trampolineSlice + BitVec.ofNat 64 (t.entriesSize + layoutSize (t.placed rl)))
    (t.functionAddress + BitVec.ofNat 64 rl.relocBytes)

/-- All labels in the order they are put. -/
def marks : List (Label × Nat) := t.entriesMarks ++ (t.placed rl).flatMap (Placed.marks t.trampolineSlice)

/-- All references in the order they are made. -/
def links : List LabelRef := t.entriesLinks ++ (t.placed rl).flatMap (Placed.links t.trampolineSlice)

variable {t rl}

theorem emits_emitTrampoline (hwf : ∀ insn ∈ rl.inputInsns, insn.WellFormed) :
    ∃ cw, t.emitTrampoline rl = .ok cw ∧
      Emits (.reset t.memory t.trampolineSlice) cw (t.entriesSize + layoutSize (t.placed rl) + t.backSize rl)
        (t.marks rl) (t.links rl) := by
  have hentries := t.emits_putEntries
  obtain ⟨cw, hok, hall⟩ := emits_writeAll hwf (t.putEntries (.reset t.memory t.trampolineSlice))
  have hstart : 0 + t.entriesSize = t.entriesSize := Nat.zero_add _
  have hcur : (GumX86Writer.reset t.memory t.trampolineSlice).cur = t.trampolineSlice := add_zero _
  rw [hentries.base, hentries.offset] at hall
  simp only [GumX86Writer.reset, hstart] at hall
  have hwritten := hentries.trans hall
  unfold emitTrampoline backSize
  rw [hok]
  refine ⟨_, rfl, ?_⟩
  by_cases heoi : rl.eoi
  · simp only [if_pos heoi]
    exact hwritten
  · simp only [if_neg heoi]
    have hback := hwritten.trans (emits_putJmpAddress _ (t.functionAddress + BitVec.ofNat 64 rl.relocBytes))
    rw [hwritten.cur, hcur, List.append_nil, List.append_nil] at hback
    exact hback

/-! ## Whether it fits -/

variable (t rl) in
/-- The trampoline is written, and in its slice. -/
def Fits : Prop := ∃ cw, t.emitTrampoline rl = .ok cw ∧ cw.offset ≤ gumInterceptorCodeSliceSize

variable {cs : Capstone}

variable (t) in
theorem redirectCodeSize_pos : 0 < t.redirectCodeSize := by
  unfold redirectCodeSize
  split <;> decide

theorem fits_iff_size (hwf : ∀ insn ∈ rl.inputInsns, insn.WellFormed) :
    t.Fits rl ↔ t.entriesSize + layoutSize (t.placed rl) + t.backSize rl ≤ 256 := by
  obtain ⟨cw, hok, hemits⟩ := emits_emitTrampoline (t := t) hwf
  have hoffset : cw.offset = t.entriesSize + layoutSize (t.placed rl) + t.backSize rl :=
    hemits.offset.trans (Nat.zero_add _)
  rw [← hoffset]
  constructor
  · rintro ⟨cw', hok', hfits⟩
    rw [hok] at hok'
    cases hok'
    exact hfits
  · exact fun hfits => ⟨cw, hok, hfits⟩

theorem entriesSize_fast (h : t.type = .fast) : t.entriesSize = 0 := if_pos h

theorem entriesSize_default (h : t.type ≠ .fast) : t.entriesSize = 81 + t.enterJmpSize + t.leaveJmpSize := by
  rw [entriesSize, if_neg h]
  omega

variable (t rl) in
theorem backSize_le : t.backSize rl ≤ 16 := by
  unfold backSize
  split
  · decide
  · exact jmpSize_le _ _

/-- Every byte that a redirection needs, but the last, is one of an instruction that grows tenfold at most. -/
theorem layoutSize_placed_le {n : Nat} (h : Prologue cs t.functionAddress (n + 1) rl) :
    layoutSize (t.placed rl) ≤ 10 * n + 44 := by
  obtain ⟨init, insn, hinsns, hinit⟩ := h.last
  have hwf := h.consecutive.wellFormed
  rw [hinsns] at hwf
  have hbefore := layoutSize_le rl (fun i hi => hwf i (List.mem_append_left _ hi)) t.trampolineSlice
    t.entriesSize
  have hlast := (form_size_le rl (hwf insn List.mem_concat_self)
    (t.trampolineSlice + BitVec.ofNat 64
      (t.entriesSize + layoutSize (rl.layout t.trampolineSlice t.entriesSize init)))).1
  rw [placed, hinsns, layout_append, layoutSize_append, layoutSize_singleton]
  omega

/-- **The trampoline fits its slice** exactly if it has no guard, or its slice is near, or the instructions leave room
    for the jumps to the thunks and back. -/
theorem trampoline_fits_iff (h : readPrologue cs t.functionAddress t.redirectCodeSize = some rl) :
    t.Fits rl ↔ t.type = .fast ∨ t.usedNearSlice.isSome ∨
      layoutSize (t.placed rl) + t.enterJmpSize + t.leaveJmpSize + t.backSize rl ≤ 175 := by
  have hprologue := prologue_of_read t.redirectCodeSize_pos h
  have hback := t.backSize_le rl
  rw [fits_iff_size hprologue.consecutive.wellFormed]
  by_cases hfast : t.type = .fast
  · have hnear : t.usedNearSlice = none := by
      rw [usedNearSlice, hfast]
      rfl
    rw [redirectCodeSize, hnear] at hprologue
    have hplaced := layoutSize_placed_le (n := 15) hprologue
    rw [entriesSize_fast hfast]
    exact iff_of_true (by omega) (Or.inl hfast)
  · have henter : t.enterJmpSize ≤ 16 := jmpSize_le _ _
    have hleave : t.leaveJmpSize ≤ 16 := jmpSize_le _ _
    rw [entriesSize_default hfast]
    by_cases hnear : t.usedNearSlice.isSome
    · rw [redirectCodeSize, if_pos hnear] at hprologue
      have hplaced := layoutSize_placed_le (n := 4) hprologue
      exact iff_of_true (by omega) (Or.inr (Or.inl hnear))
    · rw [or_iff_right hfast, or_iff_right hnear]
      omega

end TrampolineRequest

/-! ## Sixteen bytes of branches -/

/-- `je`, 0x70 bytes ahead. -/
def jeAhead (a : Word) : CsInsn := ⟨.je, a, [0x74, 0x70], .imm (a + 0x72), 0, 0, 0, 0, []⟩

theorem jeAhead_wellFormed (a : Word) : (jeAhead a).WellFormed where
  size_pos := Nat.zero_lt_two
  size_le := Nat.le_add_left 2 13
  jump h := by
    rcases h with h | h <;> cases h
  conditional _ := ⟨Nat.le_refl 2, _, rfl⟩
  ripRelative h := absurd rfl h.1

/-- A function that starts with eight such branches. -/
def branches : Capstone where
  disasmIter a := if (a - 0x400000).toNat ∈ [0, 2, 4, 6, 8, 10, 12, 14] then some (jeAhead a) else none
  address a insn h := by
    cases (Option.ite_none_right_eq_some.mp h).2
    rfl
  wellFormed a insn h := by
    cases (Option.ite_none_right_eq_some.mp h).2
    exact jeAhead_wellFormed a

/-- Its hook, the code far away as `slice` is, the thunks in the slices before it. -/
def branchesRequest (nearSlice : Option Word) : TrampolineRequest where
  type := .default
  functionAddress := 0x400000
  functionContext := 0x7f0000100000
  nearSlice := nearSlice
  slice := 0x7f0000000300
  memory := fun _ => 0
  enterThunk := 0x7f0000000000
  leaveThunk := 0x7f0000000100
  samplingSkip := 0x7f0000200000
  invokeTrampoline := 0x7f0000200010

/-- The branches that are read: `n` of them. -/
def branchesRead (n : Nat) : GumX86Relocator where
  inputStart := 0x400000
  inputInsns := (List.range n).map fun i => jeAhead (0x400000 + BitVec.ofNat 64 (2 * i))
  eoi := false

/-- Near the function the trampoline fits. -/
theorem trampoline_fits_near : (branchesRequest (some 0x500000)).Fits (branchesRead 3) :=
  (TrampolineRequest.trampoline_fits_iff (t := branchesRequest (some 0x500000))
    (show readPrologue branches _ _ = some (branchesRead 3) from rfl)).mpr
    (Or.inr (Or.inl rfl))

/-- Far from it, eight branches of 20 bytes each do not. -/
theorem trampoline_not_fits :
    ¬ ∀ (cs : Capstone) (t : TrampolineRequest) (rl : GumX86Relocator),
      readPrologue cs t.functionAddress t.redirectCodeSize = some rl → t.Fits rl := by
  intro h
  have hwf : ∀ insn ∈ (branchesRead 8).inputInsns, insn.WellFormed := by
    intro insn hmem
    obtain ⟨i, -, rfl⟩ := List.mem_map.mp hmem
    exact jeAhead_wellFormed _
  have hfits := h branches (branchesRequest none) (branchesRead 8) rfl
  rw [TrampolineRequest.fits_iff_size hwf] at hfits
  revert hfits
  decide

end Gum
