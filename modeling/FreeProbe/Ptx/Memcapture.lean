import Mathlib.Tactic.IntervalCases
import FreeProbe.Ptx.Text
import FreeProbe.Vm.EbpfMachine

/-!
# `Ptx.Memcapture` — a copy of the source line for the probe

`patch_memcapture`: after each line that loads or stores, the patched text calls a function of its own, which is the
probe's program behind a prologue. The prologue lowers `r10`, points `r1` at the place and writes the line there, eight
bytes to an immediate.

A line's bytes are plain chars, signed here, and one above 127 is widened with its sign before it is shifted into the
immediate: it sets every later byte of its eight. So the copy is right exactly where such a byte is the last of its
eight or is followed by bytes that were all ones anyway, and the line and its NUL fit the stack (`captures_iff`). There
is no bound on the length of a line (`longLine_matches`).
-/

namespace Ptx

open Lib Lib.Memory Vm

/-! ## The lines that are matched -/

/-- `((s|u|b)(8|16|32|64))|b128|(f(16|16x2|32|64))` -/
def accessType : Regex (BitVec 8) :=
  .oneOf [.seq (words ["s", "u", "b"]) (words ["8", "16", "32", "64"]), word "b128",
    .seq (word "f") (words ["16", "16x2", "32", "64"])]

/-- `ld_st_pattern` -/
def ldStPattern : Regex (BitVec 8) :=
  .seqs [spaces, words ["ld", "st"], word ".", .opt (words ["const", "global", "local", "param"]), word ".", accessType,
    .some (word " "), .some (.sat isAny), word ",", .many (word " "), .some (.sat isAny), word ";", spaces]

/-! ## The prologue -/

/-- `(int32_t)line.size()` -/
def lineSize (line : Text) : Int := (BitVec.ofNat 32 line.length).toInt

/-- The bytes that are reserved for the text of a line, in whole words. -/
def totalLength (line : Text) : Int := (lineSize line + 1 + 7).tdiv 8 * 8

/-- The values of `j` that the inner loop runs through. -/
def packedBytes (line : Text) (i : Nat) : List Nat := (List.range 8).filter fun j => ((j + i : Nat) : Int) < lineSize line

/-- `curr`: a `char` is widened with its sign. -/
def packWord (line : Text) (i : Nat) : BitVec 64 :=
  (packedBytes line i).foldl (fun curr j => curr ||| (line.getD (i + j) 0).signExtend 64 <<< (j * 8)) 0

/-- The instructions that put a word on the stack. -/
def storeWord (line : Text) (i : Nat) : Insts :=
  let curr := packWord line i
  [⟨EBPF_OP_LDDW, 2, 0, 0, curr.setWidth 32⟩, ⟨0, 0, 0, 0, (curr >>> 32).setWidth 32⟩,
    ⟨EBPF_OP_STXDW, 1, 2, BitVec.ofNat 16 i, 0⟩]

/-- `prep`; the loop runs while `i` is less than the size, in steps of 8. -/
def prologue (line : Text) : Insts :=
  ⟨EBPF_OP_STDW, 10, 0, -8, 0⟩ :: ⟨EBPF_OP_SUB64_IMM, 10, 0, 0, BitVec.ofInt 32 (totalLength line)⟩ ::
    ⟨EBPF_OP_MOV64_REG, 1, 10, 0, 0⟩ ::
      (List.range (((lineSize line).toNat + 7) / 8)).flatMap fun k => storeWord line (8 * k)

/-! ## The patch -/

/-- `count`, `out_body` and `out_funcs`. -/
structure Patch where
  count : Nat
  body  : Text
  funcs : Text

/-- The name of the function for a line. -/
def funcName (count : Nat) : Text := str "__memcapture__" ++ str (toString count)

section PatchMemcapture
-- `compile_ebpf_to_ptx_from_words`, of the instructions and the name
variable (compile : Insts → Text → Text)

/-- One line: a function and a call of it, if the line matches. -/
def patchLine (ebpf : Insts) (out : Patch) (line : Text) : Patch :=
  let body := out.body ++ line ++ [newline]
  if ldStPattern.fullMatch line then
    let count := out.count + 1
    { count
      body  := body ++ str "call " ++ funcName count ++ str ";\n"
      funcs := out.funcs ++ compile (prologue line ++ ebpf) (funcName count) ++ [newline] }
  else { out with body }

/-- The whole text. -/
def patchMemcapture (ptx : Text) (ebpf : Insts) : Text × Bool :=
  let out := (getlines ptx).foldl (patchLine compile ebpf) ⟨0, [], []⟩
  if out.count = 0 then (ptx, false) else (out.funcs ++ [newline] ++ out.body, true)

/-- The lines that are matched, in order. -/
def matchedLines (ptx : Text) : List Text := (getlines ptx).filter ldStPattern.fullMatch

/-- The functions of the patched text. -/
def captureFuncs (ebpf : Insts) (lines : List Text) (count : Nat) : Text :=
  (lines.zipIdx (count + 1)).flatMap fun p => compile (prologue p.1 ++ ebpf) (funcName p.2) ++ [newline]

/-- The function of the first line, and the others. -/
theorem captureFuncs_cons (ebpf : Insts) (line : Text) (lines : List Text) (count : Nat) :
    captureFuncs compile ebpf (line :: lines) count =
      compile (prologue line ++ ebpf) (funcName (count + 1)) ++ [newline] ++ captureFuncs compile ebpf lines (count + 1) := by
  rw [captureFuncs, List.zipIdx_cons, List.flatMap_cons]
  rfl

/-- The lines counted are those that match, and the functions are theirs. -/
theorem patchLines_spec (ebpf : Insts) (lines : List Text) (out : Patch) :
    (lines.foldl (patchLine compile ebpf) out).count = out.count + (lines.filter ldStPattern.fullMatch).length ∧
      (lines.foldl (patchLine compile ebpf) out).funcs =
        out.funcs ++ captureFuncs compile ebpf (lines.filter ldStPattern.fullMatch) out.count := by
  induction lines generalizing out with
  | nil => exact ⟨rfl, (List.append_nil _).symm⟩
  | cons line lines ih =>
    obtain ⟨hcount, hfuncs⟩ := ih (patchLine compile ebpf out line)
    rw [List.foldl_cons, hcount, hfuncs]
    by_cases hmatch : ldStPattern.fullMatch line = true
    · have hcount' : (patchLine compile ebpf out line).count = out.count + 1 := by rw [patchLine, if_pos hmatch]
      have hfuncs' : (patchLine compile ebpf out line).funcs =
          out.funcs ++ compile (prologue line ++ ebpf) (funcName (out.count + 1)) ++ [newline] := by
        rw [patchLine, if_pos hmatch]
      rw [List.filter_cons_of_pos hmatch, hcount', hfuncs', captureFuncs_cons, List.length_cons]
      constructor
      · omega
      · simp only [List.append_assoc]
    · have hpatch : patchLine compile ebpf out line = { out with body := out.body ++ line ++ [newline] } := if_neg hmatch
      rw [List.filter_cons_of_neg hmatch, hpatch]
      exact ⟨rfl, rfl⟩

/-- Each matched line has its function, which is its prologue and then the probe's program. -/
theorem patchMemcapture_funcs {ptx : Text} (hmatched : matchedLines ptx ≠ []) (ebpf : Insts) :
    ∃ body, patchMemcapture compile ptx ebpf = (captureFuncs compile ebpf (matchedLines ptx) 0 ++ [newline] ++ body, true) := by
  obtain ⟨hcount, hfuncs⟩ := patchLines_spec compile ebpf (getlines ptx) ⟨0, [], []⟩
  have hpos : ((getlines ptx).foldl (patchLine compile ebpf) ⟨0, [], []⟩).count ≠ 0 := by
    rw [hcount, Nat.zero_add]
    exact fun h => hmatched (List.length_eq_zero_iff.mp h)
  refine ⟨((getlines ptx).foldl (patchLine compile ebpf) ⟨0, [], []⟩).body, ?_⟩
  rw [patchMemcapture, if_neg hpos, hfuncs]
  rfl

end PatchMemcapture

/-! ## A captured line -/

/-- `r10` is the top of a stack of 512 bytes. -/
structure HasStack (s : Machine) : Prop where
  room   : 512 ≤ (s.regs 10).toNat
  mapped : ∀ d < 512, (s.mem (s.regs 10 - BitVec.ofNat 64 (d + 1))).isSome

/-- `r1` points at the line and its NUL, inside the stack of before, and no address the program makes from `r10` down is
in them. -/
structure Captured (s s' : Machine) (l : Text) : Prop where
  copy       : ∀ i, (hi : i < l.length) → s'.mem (s'.regs 1 + BitVec.ofNat 64 i) = some l[i]
  terminated : s'.mem (s'.regs 1 + BitVec.ofNat 64 l.length) = some 0
  low        : (s.regs 10).toNat ≤ (s'.regs 1).toNat + 512
  high       : (s'.regs 1).toNat + l.length + 1 ≤ (s.regs 10).toNat
  apart      : ∀ i ≤ l.length, ∀ d < 512, s'.regs 1 + BitVec.ofNat 64 i ≠ s'.regs 10 - BitVec.ofNat 64 (d + 1)

/-- The prologue of a line runs through and leaves the line captured. -/
def Captures (s : Machine) (line : Text) : Prop := ∃ s', runStraight (prologue line) s = some s' ∧ Captured s s' line

/-- **The condition.** The line and its NUL fit the stack, and a byte above 127 is the last of its eight or is followed
by a byte `0xff`. -/
def Copyable (l : Text) : Prop :=
  l.length < 512 ∧
    ∀ i, (hi : i < l.length) → 128 ≤ l[i].toNat → i % 8 ≠ 7 → l[i + 1]? = some 0xff

/-! ## The immediates -/

/-- What the prologue leaves at a place of the copy: a byte above 127 sets the later ones of its eight. -/
def copied (line : Text) (p : Nat) : BitVec 8 :=
  if ∃ j < p % 8, (line.getD (p / 8 * 8 + j) 0).msb = true then 0xff else line.getD p 0

section Pack
variable {line : Text} {i j m : Nat}

/-- A bit of the immediate is a bit of some byte in its place, or the sign of an earlier one. -/
theorem getLsbD_pack (js : List Nat) (f : Nat → BitVec 8) (init : BitVec 64) (t : Nat) :
    (js.foldl (fun curr j => curr ||| (f j).signExtend 64 <<< (j * 8)) init).getLsbD t =
      (init.getLsbD t || js.any fun j => ((f j).signExtend 64 <<< (j * 8)).getLsbD t) := by
  induction js generalizing init with
  | nil => rw [List.foldl_nil, List.any_nil, Bool.or_false]
  | cons j js ih => rw [List.foldl_cons, ih, BitVec.getLsbD_or, List.any_cons, Bool.or_assoc]

/-- The bits of byte `m` that a byte shifted by `j` bytes has. -/
theorem getLsbD_shifted (b : BitVec 8) {t : Nat} (hm : m < 8) (ht : t < 8) :
    (b.signExtend 64 <<< (j * 8)).getLsbD (8 * m + t) =
      if j < m then b.msb else if j = m then b.getLsbD t else false := by
  rw [BitVec.getLsbD_shiftLeft, BitVec.getLsbD_signExtend]
  have hlt : 8 * m + t < 64 := by omega
  rcases Nat.lt_trichotomy j m with hj | rfl | hj
  · have h1 : ¬ 8 * m + t < j * 8 := by omega
    have h2 : ¬ 8 * m + t - j * 8 < 8 := by omega
    have h3 : 8 * m + t - j * 8 < 64 := by omega
    simp [hlt, h1, h2, h3, hj]
  · have h1 : ¬ 8 * j + t < j * 8 := by omega
    have h2 : 8 * j + t - j * 8 = t := by omega
    simp [hlt, h1, h2, ht, Nat.lt_trans ht (by decide : 8 < 64)]
  · have h1 : 8 * m + t < j * 8 := by omega
    simp [hlt, h1, Nat.lt_asymm hj, Nat.ne_of_gt hj]

/-- The length of a line as an `int`. -/
theorem lineSize_eq (h : line.length < 2 ^ 31) : lineSize line = line.length := by
  rw [lineSize, BitVec.toInt_ofNat', Int.bmod_eq_of_le] <;> omega

/-- The bytes of a word are those of the line, as far as it goes. -/
theorem mem_packedBytes (h : line.length < 2 ^ 31) : j ∈ packedBytes line i ↔ j < 8 ∧ i + j < line.length := by
  rw [packedBytes, List.mem_filter, List.mem_range, lineSize_eq h, decide_eq_true_iff, Int.ofNat_lt, Nat.add_comm]

/-- The bytes of the immediates are those of the copy. -/
theorem byte_packWord (h : line.length < 2 ^ 31) (p : Nat) :
    BitVec.ofNat 8 ((packWord line (p / 8 * 8)).toNat / 2 ^ (8 * (p % 8))) = copied line p := by
  have hm : p % 8 < 8 := Nat.mod_lt p (by decide)
  have hp : p / 8 * 8 + p % 8 = p := by rw [Nat.mul_comm]; exact Nat.div_add_mod p 8
  have hzero : ∀ k, ¬ k < line.length → line.getD k 0 = 0 := fun k hk => by
    rw [List.getD_eq_getElem?_getD, List.getElem?_eq_none (Nat.le_of_not_lt hk)]
    rfl
  apply BitVec.eq_of_getLsbD_eq
  intro t ht
  have hbit : (BitVec.ofNat 8 ((packWord line (p / 8 * 8)).toNat / 2 ^ (8 * (p % 8)))).getLsbD t =
      (packWord line (p / 8 * 8)).getLsbD (8 * (p % 8) + t) := by
    rw [BitVec.getLsbD_ofNat, Nat.testBit_div_two_pow, decide_eq_true ht, Bool.true_and, Nat.add_comm]
    rfl
  -- bit for bit, the byte of the word is that of the line
  have hany : (packWord line (p / 8 * 8)).getLsbD (8 * (p % 8) + t) = (packedBytes line (p / 8 * 8)).any fun j =>
      if j < p % 8 then (line.getD (p / 8 * 8 + j) 0).msb
      else if j = p % 8 then (line.getD (p / 8 * 8 + j) 0).getLsbD t else false := by
    rw [packWord, getLsbD_pack, show (0 : BitVec 64) = 0#64 from rfl, BitVec.getLsbD_zero, Bool.false_or]
    exact congrArg _ (funext fun j => getLsbD_shifted _ hm ht)
  rw [hbit, hany, Bool.eq_iff_iff, List.any_eq_true, copied]
  by_cases hhigh : ∃ j < p % 8, (line.getD (p / 8 * 8 + j) 0).msb = true
  · obtain ⟨j, hj, hmsb⟩ := hhigh
    have hin : p / 8 * 8 + j < line.length := by
      by_contra hout
      rw [hzero _ hout] at hmsb
      cases hmsb
    rw [if_pos ⟨j, hj, hmsb⟩]
    constructor
    · intro _
      interval_cases t <;> rfl
    · exact fun _ => ⟨j, (mem_packedBytes h).mpr ⟨Nat.lt_trans hj hm, hin⟩, by rw [if_pos hj, hmsb]⟩
  · rw [if_neg hhigh]
    constructor
    · rintro ⟨j, -, hbit⟩
      split at hbit
      · next hj => exact absurd ⟨j, hj, hbit⟩ hhigh
      · split at hbit
        · next hj => rwa [hj, hp] at hbit
        · cases hbit
    · intro hbit
      have hin : p < line.length := by
        by_contra hout
        rw [hzero p hout] at hbit
        simp at hbit
      refine ⟨p % 8, (mem_packedBytes h).mpr ⟨hm, by rwa [hp]⟩, ?_⟩
      rw [if_neg (Nat.lt_irrefl _), if_pos rfl, hp]
      exact hbit

end Pack

/-! ## The run -/

section Run
variable {line : Text} {s : Machine}

/-- The two halves of an immediate, put together. -/
theorem imm_halves (x : BitVec 64) : (x >>> 32).setWidth 32 ++ x.setWidth 32 = x := by
  apply BitVec.eq_of_getLsbD_eq
  intro t ht
  rw [BitVec.getLsbD_append, BitVec.getLsbD_setWidth, BitVec.getLsbD_setWidth, BitVec.getLsbD_ushiftRight]
  by_cases h : t < 32
  · simp [h]
  · have hlow : t - 32 < 32 := by omega
    have hsum : 32 + (t - 32) = t := by omega
    simp [h, hlow, hsum]

/-- A small number is widened as it is. -/
theorem signExtend_ofNat {w n : Nat} (h : 2 * n < 2 ^ w) :
    (BitVec.ofNat w n).signExtend 64 = BitVec.ofNat 64 n := by
  have hn : n < 2 ^ w := by omega
  have hmsb : (BitVec.ofNat w n).msb = false := by
    rw [BitVec.msb_eq_false_iff_two_mul_lt, BitVec.toNat_ofNat, Nat.mod_eq_of_lt hn]
    exact h
  apply BitVec.eq_of_toNat_eq
  rw [BitVec.signExtend_eq_setWidth_of_msb_false hmsb, BitVec.toNat_setWidth, BitVec.toNat_ofNat, BitVec.toNat_ofNat,
    Nat.mod_eq_of_lt hn]

/-- The addresses of two places are as far apart as the places. -/
theorem toNat_sub_place (r : BitVec 64) {p q : Nat} (hp : p < 512) (hq : q < 512) :
    (r + BitVec.ofNat 64 p - (r + BitVec.ofNat 64 q)).toNat = if q ≤ p then p - q else 2 ^ 64 + p - q := by
  rw [add_sub_add_left_eq_sub, BitVec.toNat_sub, BitVec.toNat_ofNat, BitVec.toNat_ofNat]
  split <;> omega

/-- Eight bytes go to their place; the rest of the memory stays. -/
theorem run_storeWord (line : Text) (k : Nat) (rest : Insts) (hk : 8 * k + 8 ≤ 512)
    (hmapped : ∀ i < 8, (s.mem (s.regs 1 + BitVec.ofNat 64 (8 * k + i))).isSome) :
    ∃ s', runStraight (storeWord line (8 * k) ++ rest) s = runStraight rest s' ∧ s'.regs 1 = s.regs 1 ∧
      s'.regs 10 = s.regs 10 ∧
      s'.mem = s.written (s.regs 1 + BitVec.ofNat 64 (8 * k)) (leBytes 8 (packWord line (8 * k)).toNat) := by
  let s1 := s.set 2 (packWord line (8 * k))
  have hload : s.set 2 ((packWord line (8 * k) >>> 32).setWidth 32 ++ (packWord line (8 * k)).setWidth 32) = s1 := by
    rw [imm_halves]
  have hstore : s1.store (s1.regs 1 + BitVec.ofNat 64 (8 * k)) (leBytes 8 (packWord line (8 * k)).toNat) =
      some { s1 with mem := s1.written (s1.regs 1 + BitVec.ofNat 64 (8 * k)) (leBytes 8 (packWord line (8 * k)).toNat) } := by
    apply Machine.store_eq
    intro i hi
    rw [length_leBytes] at hi
    have hplace := hmapped i hi
    rw [BitVec.ofNat_add, ← add_assoc] at hplace
    exact hplace
  refine ⟨{ s1 with mem := s1.written (s1.regs 1 + BitVec.ofNat 64 (8 * k)) (leBytes 8 (packWord line (8 * k)).toNat) },
    ?_, rfl, rfl, rfl⟩
  rw [storeWord, List.cons_append, List.cons_append, runStraight_lddw rfl, List.cons_append, List.nil_append]
  show runStraight _ (s.set 2 _) = _
  rw [hload]
  apply runStraight_cons (show EBPF_OP_STXDW ≠ EBPF_OP_LDDW by decide)
  rw [exec_stxdw rfl, signExtend_ofNat (by omega)]
  exact hstore

/-- The loop: from the word `q` on, `c` words are in their places and no other place is touched. -/
theorem run_storeWords (hline : line.length < 2 ^ 31) (c q : Nat) (hfit : 8 * (q + c) ≤ 512)
    (hmapped : ∀ p < 8 * (q + c), (s.mem (s.regs 1 + BitVec.ofNat 64 p)).isSome) :
    ∃ s', runStraight ((List.range' q c).flatMap fun k => storeWord line (8 * k)) s = some s' ∧ s'.regs 1 = s.regs 1 ∧
      s'.regs 10 = s.regs 10 ∧
      ∀ p < 512, s'.mem (s.regs 1 + BitVec.ofNat 64 p) =
        if 8 * q ≤ p ∧ p < 8 * (q + c) then some (copied line p) else s.mem (s.regs 1 + BitVec.ofNat 64 p) := by
  induction c generalizing q s with
  | zero =>
    refine ⟨s, rfl, rfl, rfl, fun p _ => ?_⟩
    rw [if_neg (by omega)]
  | succ c ih =>
    have hword : 8 * q + 8 ≤ 512 := by omega
    obtain ⟨s1, hrun1, hreg1, hreg10, hmem1⟩ := run_storeWord line q
      ((List.range' (q + 1) c).flatMap fun k => storeWord line (8 * k)) hword fun i hi => hmapped _ (by omega)
    have hmapped1 : ∀ p < 8 * (q + 1 + c), (s1.mem (s1.regs 1 + BitVec.ofNat 64 p)).isSome := by
      intro p hp
      rw [hmem1, hreg1]
      exact Machine.isSome_written (hmapped p (by omega))
    obtain ⟨s', hrun, h1, h10, hmem⟩ := ih (q + 1) (by omega) hmapped1
    refine ⟨s', ?_, h1.trans hreg1, h10.trans hreg10, fun p hp => ?_⟩
    · rw [List.range'_succ, List.flatMap_cons]
      exact hrun1.trans hrun
    · rw [← hreg1, hmem p hp, hmem1, hreg1]
      have hoff := toNat_sub_place (s.regs 1) (p := p) (q := 8 * q) hp (by omega)
      by_cases hthis : 8 * q ≤ p ∧ p < 8 * q + 8
      · have hi : p - 8 * q < (leBytes 8 (packWord line (8 * q)).toNat).length := by
          rw [length_leBytes]
          omega
        have hplace : s.regs 1 + BitVec.ofNat 64 p = s.regs 1 + BitVec.ofNat 64 (8 * q) + BitVec.ofNat 64 (p - 8 * q) := by
          rw [add_assoc, ← BitVec.ofNat_add]
          congr 2
          omega
        have hfloor : 8 * q = p / 8 * 8 := by omega
        have hrem : p - 8 * q = p % 8 := by omega
        rw [if_neg (by omega), if_pos (by omega), hplace, Machine.written_in hi (by rw [length_leBytes]; decide),
          getElem_leBytes, hrem, hfloor, byte_packWord hline]
      · have hother : (8 * (q + 1) ≤ p ∧ p < 8 * (q + 1 + c)) ↔ 8 * q ≤ p ∧ p < 8 * (q + (c + 1)) := by omega
        have hout : s.written (s.regs 1 + BitVec.ofNat 64 (8 * q)) (leBytes 8 (packWord line (8 * q)).toNat)
            (s.regs 1 + BitVec.ofNat 64 p) = s.mem (s.regs 1 + BitVec.ofNat 64 p) := by
          apply Machine.written_out
          rw [hoff, length_leBytes]
          split <;> omega
        rw [hout, if_congr hother rfl rfl]

/-- The text, the byte that ends it, and up to the next word. -/
theorem totalLength_eq (hline : line.length < 2 ^ 31) : totalLength line = (8 * (line.length / 8 + 1) : Nat) := by
  rw [totalLength, lineSize_eq hline, Int.tdiv_eq_ediv_of_nonneg (by omega)]
  omega

/-- Behind the last word there is nothing of the line. -/
theorem copied_behind {p : Nat} (h : line.length ≤ p / 8 * 8) : copied line p = 0 := by
  have hnone : ∀ k, line.length ≤ k → line.getD k 0 = 0 := fun k hk => by
    rw [List.getD_eq_getElem?_getD, List.getElem?_eq_none hk]
    rfl
  have hlow : ¬ ∃ j < p % 8, (line.getD (p / 8 * 8 + j) 0).msb = true := by
    rintro ⟨j, -, hmsb⟩
    rw [hnone _ (by omega)] at hmsb
    cases hmsb
  rw [copied, if_neg hlow, hnone p (by omega)]

/-- The prologue runs through: `r1` and `r10` are at the start of the copy, whose every place is written. -/
theorem run_prologue (hs : HasStack s) (hline : line.length < 512) :
    ∃ s', runStraight (prologue line) s = some s' ∧
      s'.regs 1 = s.regs 10 - BitVec.ofNat 64 (8 * (line.length / 8 + 1)) ∧ s'.regs 10 = s'.regs 1 ∧
      ∀ p < 8 * (line.length / 8 + 1), s'.mem (s'.regs 1 + BitVec.ofNat 64 p) = some (copied line p) := by
  have hline31 : line.length < 2 ^ 31 := by omega
  generalize ht : 8 * (line.length / 8 + 1) = t
  have hfit : t ≤ 512 := by omega
  have hcount : ((lineSize line).toNat + 7) / 8 = (line.length + 7) / 8 := by rw [lineSize_eq hline31, Int.toNat_natCast]
  have himm : (BitVec.ofInt 32 (totalLength line)).signExtend 64 = BitVec.ofNat 64 t := by
    rw [totalLength_eq hline31, ht, BitVec.ofInt_natCast]
    exact signExtend_ofNat (by omega)
  let r := s.regs 10 - BitVec.ofNat 64 t
  -- The place `p` lies `t - p` below the top.
  have hplace : ∀ p < t, r + BitVec.ofNat 64 p = s.regs 10 - BitVec.ofNat 64 (t - 1 - p + 1) := by
    intro p hp
    have hsplit : t = t - 1 - p + 1 + p := by omega
    show s.regs 10 - BitVec.ofNat 64 t + BitVec.ofNat 64 p = _
    rw [congrArg (BitVec.ofNat 64) hsplit, BitVec.ofNat_add _ p, sub_add_eq_sub_sub, sub_add_cancel]
  let s1 : Machine := { s with mem := s.written (s.regs 10 - 8) (leBytes 8 0) }
  have hstdw : (⟨EBPF_OP_STDW, 10, 0, -8, 0⟩ : EbpfInst).exec s = some s1 := by
    have haddr : s.regs 10 + (-8 : BitVec 16).signExtend 64 = s.regs 10 - 8 := by
      rw [sub_eq_add_neg]
      rfl
    rw [exec_stdw rfl, haddr]
    apply Machine.store_eq
    intro i hi
    rw [length_leBytes] at hi
    have hbyte := hs.mapped (7 - i) (by omega)
    have haddr : s.regs 10 - BitVec.ofNat 64 (7 - i + 1) = s.regs 10 - 8 + BitVec.ofNat 64 i := by
      interval_cases i <;> bv_omega
    rw [haddr] at hbyte
    exact hbyte
  let s3 := (s1.set 10 r).set 1 r
  have hsub : (⟨EBPF_OP_SUB64_IMM, 10, 0, 0, BitVec.ofInt 32 (totalLength line)⟩ : EbpfInst).exec s1 = some (s1.set 10 r) := by
    rw [exec_sub64_imm rfl]
    show some (s1.set 10 (s.regs 10 - (BitVec.ofInt 32 (totalLength line)).signExtend 64)) = _
    rw [himm]
  have hmov : (⟨EBPF_OP_MOV64_REG, 1, 10, 0, 0⟩ : EbpfInst).exec (s1.set 10 r) = some s3 := exec_mov64_reg rfl rfl
  have hmapped : ∀ p < 8 * (0 + (line.length + 7) / 8), (s3.mem (s3.regs 1 + BitVec.ofNat 64 p)).isSome := by
    intro p hp
    show (s.written (s.regs 10 - 8) (leBytes 8 0) (r + BitVec.ofNat 64 p)).isSome
    rw [hplace p (by omega)]
    exact Machine.isSome_written (hs.mapped _ (by omega))
  obtain ⟨s', hrun, h1, h10, hmem⟩ := run_storeWords hline31 ((line.length + 7) / 8) 0 (by omega) hmapped
  refine ⟨s', ?_, h1, h10.trans h1.symm, fun p hp => ?_⟩
  · rw [prologue, runStraight_cons (show EBPF_OP_STDW ≠ EBPF_OP_LDDW by decide) hstdw,
      runStraight_cons (show EBPF_OP_SUB64_IMM ≠ EBPF_OP_LDDW by decide) hsub,
      runStraight_cons (show EBPF_OP_MOV64_REG ≠ EBPF_OP_LDDW by decide) hmov, hcount, List.range_eq_range']
    exact hrun
  · rw [h1, hmem p (by omega)]
    by_cases hword : p < 8 * ((line.length + 7) / 8)
    · rw [if_pos (by omega)]
    · -- The line fills its last word: what follows is the word that was zeroed first.
      rw [if_neg (by omega), copied_behind (by omega)]
      have hi : p + 8 - t < (leBytes 8 0).length := by
        rw [length_leBytes]
        omega
      have haddr : r + BitVec.ofNat 64 p = s.regs 10 - 8 + BitVec.ofNat 64 (p + 8 - t) := by
        rw [hplace p hp]
        have hlast : t - 1 - p + 1 = 8 - (p + 8 - t) := by omega
        have hsmall : p + 8 - t < 8 := by omega
        rw [hlast]
        generalize p + 8 - t = k at hsmall
        interval_cases k <;> bv_omega
      show s.written (s.regs 10 - 8) (leBytes 8 0) (r + BitVec.ofNat 64 p) = some 0
      rw [haddr, Machine.written_in hi (by rw [length_leBytes]; decide), getElem_leBytes, Nat.zero_div]
      rfl

/-- The copy is the line and a NUL exactly where each byte above 127 keeps to itself or changes nothing. -/
theorem copied_eq_iff {l : Text} : (∀ p ≤ l.length, copied l p = l.getD p 0) ↔
    ∀ i, (hi : i < l.length) → 128 ≤ l[i].toNat → i % 8 ≠ 7 → l[i + 1]? = some 0xff := by
  have hmsb : ∀ b : BitVec 8, b.msb = true ↔ 128 ≤ b.toNat := by decide
  have hget : ∀ i, (hi : i < l.length) → l.getD i 0 = l[i] := fun i hi => by
    rw [List.getD_eq_getElem?_getD, List.getElem?_eq_getElem hi]
    rfl
  constructor
  · intro h i hi hhigh hlast
    have hnext : copied l (i + 1) = 0xff := by
      have hbefore : ∃ j < (i + 1) % 8, (l.getD ((i + 1) / 8 * 8 + j) 0).msb = true := by
        refine ⟨i % 8, by omega, ?_⟩
        have hplace : (i + 1) / 8 * 8 + i % 8 = i := by omega
        rw [hplace, hget i hi, hmsb]
        exact hhigh
      rw [copied, if_pos hbefore]
    rw [h (i + 1) hi, List.getD_eq_getElem?_getD] at hnext
    cases hat : l[i + 1]? with
    | none =>
      rw [hat] at hnext
      cases hnext
    | some b =>
      rw [hat] at hnext
      exact congrArg some hnext
  · intro h p hp
    -- From the high byte on, each byte of the eight is `0xff`.
    have hrun : ∀ m j, j + m = p % 8 → 0 < m → (l.getD (p / 8 * 8 + j) 0).msb = true → l.getD p 0 = 0xff := by
      intro m
      induction m with
      | zero => exact fun _ _ h => absurd h (Nat.lt_irrefl 0)
      | succ m ih =>
        intro j hj _ hhigh
        have hin : p / 8 * 8 + j < l.length := by omega
        have hnext : l.getD (p / 8 * 8 + (j + 1)) 0 = 0xff := by
          rw [hget _ hin, hmsb] at hhigh
          have hff := h _ hin hhigh (by omega)
          rw [List.getD_eq_getElem?_getD, ← Nat.add_assoc, hff]
          rfl
        rcases Nat.eq_zero_or_pos m with rfl | hm
        · have hplace : p / 8 * 8 + (j + 1) = p := by omega
          rw [← hnext, hplace]
        · exact ih (j + 1) (by omega) hm (by rw [hnext]; rfl)
    by_cases hhigh : ∃ j < p % 8, (l.getD (p / 8 * 8 + j) 0).msb = true
    · rw [copied, if_pos hhigh]
      obtain ⟨j, hj, hmsb⟩ := hhigh
      exact (hrun (p % 8 - j) j (by omega) (by omega) hmsb).symm
    · rw [copied, if_neg hhigh]

/-- The prologue leaves the line captured exactly where the line is copyable. -/
theorem captures_iff_copyable (hs : HasStack s) : Captures s line ↔ Copyable line := by
  have hroom := hs.room
  constructor
  · rintro ⟨s', hrun, hcaptured⟩
    have hline : line.length < 512 := by
      have hlow := hcaptured.low
      have hhigh := hcaptured.high
      omega
    refine ⟨hline, copied_eq_iff.mp fun p hp => ?_⟩
    obtain ⟨s'', hrun', -, -, hmem⟩ := run_prologue hs hline
    obtain rfl : s'' = s' := Option.some.inj (hrun'.symm.trans hrun)
    have hcopied := hmem p (by omega)
    rcases Nat.lt_or_eq_of_le hp with hlt | rfl
    · rw [hcaptured.copy p hlt] at hcopied
      rw [List.getD_eq_getElem?_getD, List.getElem?_eq_getElem hlt]
      exact (Option.some.inj hcopied).symm
    · rw [hcaptured.terminated] at hcopied
      rw [List.getD_eq_getElem?_getD, List.getElem?_eq_none (Nat.le_refl _)]
      exact (Option.some.inj hcopied).symm
  · rintro ⟨hline, hbytes⟩
    obtain ⟨s', hrun, h1, h10, hmem⟩ := run_prologue hs hline
    have hcopy := copied_eq_iff.mpr hbytes
    have hnat : (s'.regs 1).toNat + 8 * (line.length / 8 + 1) = (s.regs 10).toNat := by
      rw [h1]
      bv_omega
    refine ⟨s', hrun, fun i hi => ?_, ?_, by omega, by omega, fun i hi d hd heq => ?_⟩
    · rw [hmem i (by omega), hcopy i (by omega), List.getD_eq_getElem?_getD, List.getElem?_eq_getElem hi]
      rfl
    · rw [hmem _ (by omega), hcopy _ (Nat.le_refl _), List.getD_eq_getElem?_getD, List.getElem?_eq_none (Nat.le_refl _)]
      rfl
    · rw [h10] at heq
      bv_omega

end Run

/-! ## Lines the source has -/

/-- A load of a parameter whose name has `k` letters. -/
def paramLine (k : Nat) : Text := str "ld.param.u64 %rd1, [" ++ List.replicate k (chr 'a') ++ str "];"

/-- No length is too long to be matched. -/
theorem paramLine_matches (k : Nat) : ldStPattern.fullMatch (paramLine k) = true := by
  have hname : str "[" ++ List.replicate k (chr 'a') ++ str "]" ∈ (Regex.some (.sat isAny)).language := by
    apply Regex.mem_some_sat
    · exact List.cons_ne_nil _ _
    · intro c hc
      rcases List.mem_append.mp hc with hc | hc
      · rcases List.mem_append.mp hc with hc | hc
        · obtain rfl : c = chr '[' := List.mem_singleton.mp hc
          decide
        · rw [List.eq_of_mem_replicate hc]
          rfl
      · obtain rfl : c = chr ']' := List.mem_singleton.mp hc
        decide
  have hparts : paramLine k = [[], str "ld", str ".", str "param", str ".", str "u64", str " ", str "%rd1", str ",", str " ",
      str "[" ++ List.replicate k (chr 'a') ++ str "]", str ";", []].flatten := by
    have hhead : str "ld.param.u64 %rd1, [" = [str "ld", str ".", str "param", str ".", str "u64", str " ", str "%rd1", str ",",
        str " ", str "["].flatten := by decide
    have htail : str "];" = str "]" ++ str ";" := by decide
    rw [paramLine, hhead, htail]
    simp only [List.flatten_cons, List.flatten_nil, List.append_assoc, List.append_nil, List.nil_append]
  rw [Regex.fullMatch_iff, hparts]
  apply Regex.flatten_mem_seqs
  have hmem : ∀ {r : Regex (BitVec 8)} {w : Text}, r.fullMatch w = true → w ∈ r.language := Regex.fullMatch_iff.mp
  exact .cons (hmem (by decide)) (.cons (hmem (by decide)) (.cons (hmem (by decide)) (.cons (hmem (by decide))
    (.cons (hmem (by decide)) (.cons (hmem (by decide)) (.cons (hmem (by decide)) (.cons (hmem (by decide))
      (.cons (hmem (by decide)) (.cons (hmem (by decide)) (.cons hname (.cons (hmem (by decide))
        (.cons (hmem (by decide)) .nil))))))))))))

/-- A text of one matched line. -/
theorem matchedLines_one {line : Text} (h : newline ∉ line) (hmatch : ldStPattern.fullMatch line = true) :
    matchedLines (line ++ [newline]) = [line] := by
  rw [matchedLines, getlines_append h, List.filter_cons_of_pos hmatch]
  rfl

/-- **The prologue on every matched line of every text.** -/
theorem matchedLine_captures_iff (ptx : Text) :
    ∀ line ∈ matchedLines ptx, ∀ s, HasStack s → (Captures s line ↔ Copyable line) :=
  fun _ _ _ hs => captures_iff_copyable hs

/-- The whole memory mapped and zero. -/
def freshMachine : Machine := ⟨fun _ => 512, fun _ => some 0⟩

/-- A machine with 512 bytes of stack. -/
theorem freshMachine_hasStack : HasStack freshMachine := ⟨by decide, fun _ _ => rfl⟩

/-- A store with a byte above 127 in a comment. -/
def commentLine : Text := str "st.global.u32 [%rd1], %r2; // caf" ++ [0xe9] ++ str ";"

/-- The store without the comment. -/
def storeLine : Text := str "st.global.u32 [%rd1], %r2;"

/-- A store to global memory. -/
theorem matchedLine_captures_iff_store :
    storeLine ∈ matchedLines (storeLine ++ [newline]) ∧ HasStack freshMachine ∧ Captures freshMachine storeLine := by
  have hmem : storeLine ∈ matchedLines (storeLine ++ [newline]) := by
    rw [matchedLines_one (by decide) (by decide +kernel)]
    exact List.mem_singleton_self _
  have hascii : ∀ i, (hi : i < storeLine.length) → ¬ 128 ≤ storeLine[i].toNat := by decide +kernel
  have hcopyable : Copyable storeLine := ⟨by decide, fun i hi hhigh => absurd hhigh (hascii i hi)⟩
  exact ⟨hmem, freshMachine_hasStack, (matchedLine_captures_iff _ _ hmem _ freshMachine_hasStack).mpr hcopyable⟩

/-- A name of 500 letters is past the stack's end; the byte of the comment spoils the `;` behind it. -/
theorem not_captures :
    (∃ line ∈ matchedLines (paramLine 500 ++ [newline]), HasStack freshMachine ∧ ¬ Captures freshMachine line) ∧
      ∃ line ∈ matchedLines (commentLine ++ [newline]), HasStack freshMachine ∧ ¬ Captures freshMachine line := by
  constructor
  · have hnewline : newline ∉ paramLine 500 := by
      intro h
      rcases List.mem_append.mp h with h | h
      · rcases List.mem_append.mp h with h | h
        · exact absurd h (by decide)
        · exact absurd (List.eq_of_mem_replicate h) (by decide)
      · exact absurd h (by decide)
    have hlength : (paramLine 500).length = 522 := by
      rw [paramLine, List.length_append, List.length_append, List.length_replicate]
      rfl
    refine ⟨paramLine 500, ?_, freshMachine_hasStack, fun h => ?_⟩
    · rw [matchedLines_one hnewline (paramLine_matches 500)]
      exact List.mem_singleton_self _
    · have hfit := ((captures_iff_copyable freshMachine_hasStack).mp h).1
      omega
  · refine ⟨commentLine, ?_, freshMachine_hasStack, fun h => ?_⟩
    · rw [matchedLines_one (by decide) (by decide +kernel)]
      exact List.mem_singleton_self _
    · have hbyte := ((captures_iff_copyable freshMachine_hasStack).mp h).2 33 (by decide) (by decide) (by decide)
      exact absurd hbyte (by decide)

end Ptx
