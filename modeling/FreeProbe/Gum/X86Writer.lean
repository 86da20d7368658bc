import FreeProbe.Lib.Fixups
import FreeProbe.Gum.Trampoline

/-!
# `Gum.X86Writer` — the code writer

`GumX86Writer` for x86-64: the writer's calls that a trampoline uses, byte by byte, with their labels. Places are
offsets from `base`; `code` and `pc` are one in a writer that was reset.

A label's id is a pointer, made up from what is at hand: the address of a string, of an instruction, or of the code
being written. `Label` keeps what an id was made for, `pointer` is all that the writer compares.
-/

namespace Gum

open X86 Lib.Memory Lib.Fixups

/-! ## Labels -/

/-- What a label is for. -/
inductive Label where
  | literal (label : TrampolineLabel) (pointer : Word)
  | insn (address : Word)
  | isTrue (code : Word)
  | isFalse (code : Word)
  | callTargetStorage (code : Word)
  | carryOn (code : Word)
deriving DecidableEq, Repr

/-- The id that stands for it. -/
def Label.pointer : Label → Word
  | .literal _ pointer => pointer
  | .insn address => address
  | .isTrue code => code <<< 1 ||| 1
  | .isFalse code => code <<< 1 ||| 0
  | .callTargetStorage code => code + 1
  | .carryOn code => code + 2

/-- `GumX86LabelRefSize`. An absolute reference is made in 32-bit code only. -/
inductive LabelRefSize where
  | short
  | near
deriving DecidableEq, Repr

/-- `GumX86LabelRef`: `address` is the place behind the field. -/
structure LabelRef where
  id      : Label
  address : Nat
  size    : LabelRefSize
deriving DecidableEq, Repr

def LabelRefSize.width : LabelRefSize → Nat
  | .short => 1
  | .near => 4

def LabelRef.width (r : LabelRef) : Nat := r.size.width

/-- Where the field starts. -/
def LabelRef.field (r : LabelRef) : Nat := r.address - r.width

/-- `GUM_IS_WITHIN_INT8_RANGE`. -/
abbrev WithinInt8 (d : Int) : Prop := -128 ≤ d ∧ d ≤ 127

/-- `GUM_IS_WITHIN_INT32_RANGE`. -/
abbrev WithinInt32 (d : Int) : Prop := -2147483648 ≤ d ∧ d ≤ 2147483647

/-- The 64-bit registers without an extended index. -/
inductive GumX86Reg where
  | rax | rcx | rdx | rbx | rsp | rbp | rsi | rdi
deriving DecidableEq, Repr

def GumX86Reg.index : GumX86Reg → Byte
  | .rax => 0
  | .rcx => 1
  | .rdx => 2
  | .rbx => 3
  | .rsp => 4
  | .rbp => 5
  | .rsi => 6
  | .rdi => 7

/-- `GUM_X86_RAX + index`. -/
def GumX86Reg.ofIndex (index : Byte) : GumX86Reg :=
  match index.toNat with
  | 0 => .rax
  | 1 => .rcx
  | 2 => .rdx
  | 3 => .rbx
  | 4 => .rsp
  | 5 => .rbp
  | 6 => .rsi
  | _ => .rdi

/-! ## The writer -/

/-- `labelDefs` are the labels in the order they were put; the table holds the first of each id. -/
structure GumX86Writer where
  base      : Word
  code      : Nat → Byte
  offset    : Nat
  labelDefs : List (Label × Nat)
  labelRefs : List LabelRef

namespace GumX86Writer

variable (self : GumX86Writer)

/-- `gum_x86_writer_reset`, over what the memory holds there. -/
def reset (memory : Nat → Byte) (codeAddress : Word) : GumX86Writer := ⟨codeAddress, memory, 0, [], []⟩

/-- `gum_x86_writer_cur`, and `pc`. -/
def cur : Word := self.base + BitVec.ofNat 64 self.offset

def putBytes (data : List Byte) : GumX86Writer :=
  { self with code := store self.code self.offset data, offset := self.offset + data.length }

/-- `gum_metal_hash_table_lookup` in the label table. -/
def lookup (id : Label) : Option Nat := (self.labelDefs.find? fun d => d.1.pointer = id.pointer).map Prod.snd

/-- The first label of an id stays in the table. -/
def putLabel (id : Label) : GumX86Writer := { self with labelDefs := self.labelDefs ++ [(id, self.offset)] }

def addLabelReferenceHere (id : Label) (size : LabelRefSize) : GumX86Writer :=
  { self with labelRefs := self.labelRefs ++ [⟨id, self.offset, size⟩] }

/-- What `gum_x86_writer_flush` writes into the field of a reference. -/
def patchOf (r : LabelRef) : Option (List Byte) :=
  match self.lookup r.id with
  | none => none
  | some targetAddress =>
    let distance : BitVec 32 := BitVec.ofInt 32 (targetAddress - r.address)
    match r.size with
    | .short => if WithinInt8 distance.toInt then some (leBytes 1 distance.toNat) else none
    | .near => some (leBytes 4 distance.toNat)

def flush : GumX86Writer × Bool :=
  let filled := fill LabelRef.field self.patchOf self.labelRefs self.code
  ({ self with code := filled.1, labelRefs := [] }, filled.2)

/-! ## Instructions -/

/-- A distance as it stands in a field of `n` bytes. -/
def rel (n : Nat) (target next : Word) : List Byte := leBytes n (target - next).toNat

/-- `gum_x86_writer_put_push_near_ptr`. -/
def putPushNearPtr (address : Word) : GumX86Writer :=
  if WithinInt32 (address - (self.cur + 6)).toInt then
    self.putBytes (0xff :: 0x35 :: rel 4 address (self.cur + 6))
  else self

def putPushReg (reg : GumX86Reg) : GumX86Writer := self.putBytes [0x50 ||| reg.index]

def putPopReg (reg : GumX86Reg) : GumX86Writer := self.putBytes [0x58 ||| reg.index]

/-- The byte that an address off `rsp` needs behind `modrm`. -/
def sib (base : GumX86Reg) : List Byte := if base = .rsp then [0x24] else []

/-- The byte of a register and of the base of an address or a second register. -/
def modrm (mode : Byte) (reg rm : GumX86Reg) : Byte := mode ||| reg.index <<< 3 ||| rm.index

/-- An address of a base and an offset, which is 1 byte long if it can be. -/
def offsetPtr (reg base : GumX86Reg) (offset : Word) : List Byte :=
  if WithinInt8 offset.toInt then modrm 0x40 reg base :: (sib base ++ leBytes 1 offset.toNat)
  else modrm 0x80 reg base :: (sib base ++ leBytes 4 offset.toNat)

def putMovRegRegOffsetPtr (dst src : GumX86Reg) (srcOffset : Word) : GumX86Writer :=
  self.putBytes (0x48 :: 0x8b :: offsetPtr dst src srcOffset)

def putMovRegRegPtr (dst src : GumX86Reg) : GumX86Writer := self.putMovRegRegOffsetPtr dst src 0

def putMovRegOffsetPtrReg (dst : GumX86Reg) (dstOffset : Word) (src : GumX86Reg) : GumX86Writer :=
  if dstOffset = 0 ∧ dst ≠ .rbp then
    self.putBytes (0x48 :: 0x89 :: modrm 0x00 src dst :: sib dst)
  else self.putBytes (0x48 :: 0x89 :: offsetPtr src dst dstOffset)

/-- `gum_x86_writer_put_mov_reg_fs_u32_ptr`. -/
def putMovRegFsU32Ptr (dst : GumX86Reg) (fsOffset : BitVec 32) : GumX86Writer :=
  self.putBytes (0x64 :: 0x48 :: 0x8b :: (dst.index <<< 3 ||| 0x04) :: 0x25 :: leBytes 4 fsOffset.toNat)

/-- `gum_x86_writer_put_and_reg_u32`. -/
def putAndRegU32 (reg : GumX86Reg) (immValue : BitVec 32) : GumX86Writer :=
  if reg = .rax then self.putBytes (0x48 :: 0x25 :: leBytes 4 immValue.toNat)
  else self.putBytes (0x48 :: 0x81 :: (0xe0 ||| reg.index) :: leBytes 4 immValue.toNat)

/-- `gum_x86_writer_put_cmp_reg_i32`. -/
def putCmpRegI32 (reg : GumX86Reg) (immValue : BitVec 32) : GumX86Writer :=
  if reg = .rax then self.putBytes (0x48 :: 0x3d :: leBytes 4 immValue.toNat)
  else self.putBytes (0x48 :: 0x81 :: (0xf8 ||| reg.index) :: leBytes 4 immValue.toNat)

def putAddRegImm (reg : GumX86Reg) (immValue : Word) : GumX86Writer :=
  if WithinInt8 immValue.toInt then
    self.putBytes (0x48 :: 0x83 :: (0xc0 ||| reg.index) :: leBytes 1 immValue.toNat)
  else if reg = .rax then self.putBytes (0x48 :: 0x05 :: leBytes 4 immValue.toNat)
  else self.putBytes (0x48 :: 0x81 :: (0xc0 ||| reg.index) :: leBytes 4 immValue.toNat)

/-- `gum_x86_writer_put_mov_reg_address`, of a 64-bit register. -/
def putMovRegAddress (dst : GumX86Reg) (address : Word) : GumX86Writer :=
  self.putBytes (0x48 :: (0xb8 ||| dst.index) :: leBytes 8 address.toNat)

def putLeaRegRegOffset (dst src : GumX86Reg) (srcOffset : Word) : GumX86Writer :=
  self.putBytes (0x48 :: 0x8d :: modrm 0x80 dst src :: (sib src ++ leBytes 4 srcOffset.toNat))

def putXchgRegRegPtr (left right : GumX86Reg) : GumX86Writer :=
  if right = .rbp then self.putBytes [0x48, 0x87, modrm 0x00 left right ||| 0x40, 0x00]
  else self.putBytes (0x48 :: 0x87 :: modrm 0x00 left right :: sib right)

def putRet : GumX86Writer := self.putBytes [0xc3]

/-! ## Branches -/

def putJmpAddress (address : Word) : GumX86Writer :=
  if WithinInt8 (address - (self.cur + 2)).toInt then self.putBytes (0xeb :: rel 1 address (self.cur + 2))
  else if WithinInt32 (address - (self.cur + 5)).toInt then self.putBytes (0xe9 :: rel 4 address (self.cur + 5))
  else self.putBytes (0xff :: 0x25 :: leBytes 4 2 ++ [0x0f, 0x0b] ++ leBytes 8 address.toNat)

def putShortJmp (target : Word) : GumX86Writer :=
  if WithinInt8 (target - (self.cur + 2)).toInt then self.putBytes (0xeb :: rel 1 target (self.cur + 2)) else self

def putNearJmp (target : Word) : GumX86Writer :=
  if WithinInt32 (target - (self.cur + 5)).toInt then self.putBytes (0xe9 :: rel 4 target (self.cur + 5))
  else self.putBytes (0xff :: 0x25 :: leBytes 4 2 ++ [0x0f, 0x0b] ++ leBytes 8 target.toNat)

def putJmpShortLabel (id : Label) : GumX86Writer := (self.putShortJmp self.cur).addLabelReferenceHere id .short

def putJmpNearLabel (id : Label) : GumX86Writer := (self.putNearJmp self.cur).addLabelReferenceHere id .near

/-- `gum_x86_writer_put_jcc_short`, without a hint. -/
def putJccShort (opcode : Byte) (target : Word) : GumX86Writer :=
  if WithinInt8 (target - (self.cur + 2)).toInt then self.putBytes (opcode :: rel 1 target (self.cur + 2)) else self

/-- `gum_x86_writer_put_jcc_near`; `none` where it returns `FALSE`. -/
def putJccNear (opcode : Byte) (target : Word) : Option GumX86Writer :=
  if WithinInt32 (target - (self.cur + 6)).toInt then
    some (self.putBytes (0x0f :: (0x10 + opcode) :: rel 4 target (self.cur + 6)))
  else none

def putJccShortLabel (opcode : Byte) (id : Label) : GumX86Writer :=
  (self.putJccShort opcode self.cur).addLabelReferenceHere id .short

def putCallIndirect (address : Word) : GumX86Writer :=
  if WithinInt32 (address - (self.cur + 6)).toInt then
    self.putBytes (0xff :: 0x15 :: rel 4 address (self.cur + 6))
  else self

/-- `gum_x86_writer_put_call_indirect_label`. -/
def putCallIndirectLabel (id : Label) : GumX86Writer :=
  (self.putCallIndirect self.cur).addLabelReferenceHere id .near

/-- `gum_x86_writer_put_call_address`: a target out of reach is stored behind the call and jumped over. -/
def putCallAddress (address : Word) : GumX86Writer :=
  if WithinInt32 (address - (self.cur + 5)).toInt then self.putBytes (0xe8 :: rel 4 address (self.cur + 5))
  else
    ((((self.putCallIndirectLabel (.callTargetStorage self.cur)).putJmpShortLabel (.carryOn self.cur)).putLabel
      (.callTargetStorage self.cur)).putBytes (leBytes 8 address.toNat)).putLabel (.carryOn self.cur)

/-! ## What the calls add -/

@[simp] theorem length_rel (n : Nat) (target next : Word) : (rel n target next).length = n := length_leBytes _ _

/-- From one writer to the next: so many bytes, these labels and these references more. -/
structure Emits (w w' : GumX86Writer) (n : Nat) (marks : List (Label × Nat)) (links : List LabelRef) : Prop where
  base      : w'.base = w.base
  offset    : w'.offset = w.offset + n
  labelDefs : w'.labelDefs = w.labelDefs ++ marks
  labelRefs : w'.labelRefs = w.labelRefs ++ links

variable {w w' w'' : GumX86Writer} {n n' : Nat} {marks marks' : List (Label × Nat)} {links links' : List LabelRef}

theorem Emits.refl : Emits w w 0 [] [] := ⟨rfl, rfl, (List.append_nil _).symm, (List.append_nil _).symm⟩

theorem Emits.trans (h : Emits w w' n marks links) (h' : Emits w' w'' n' marks' links') :
    Emits w w'' (n + n') (marks ++ marks') (links ++ links') where
  base := h'.base.trans h.base
  offset := by rw [h'.offset, h.offset, Nat.add_assoc]
  labelDefs := by rw [h'.labelDefs, h.labelDefs, List.append_assoc]
  labelRefs := by rw [h'.labelRefs, h.labelRefs, List.append_assoc]

theorem Emits.cur (h : Emits w w' n marks links) : w'.cur = w.cur + BitVec.ofNat 64 n := by
  rw [GumX86Writer.cur, GumX86Writer.cur, h.base, h.offset, BitVec.ofNat_add, ← add_assoc]

theorem emits_putBytes (w : GumX86Writer) (data : List Byte) : Emits w (w.putBytes data) data.length [] [] :=
  ⟨rfl, rfl, (List.append_nil _).symm, (List.append_nil _).symm⟩

theorem Emits.size_eq (h : Emits w w' n marks links) (hn : n = n') : Emits w w' n' marks links := hn ▸ h

theorem emits_putLabel (w : GumX86Writer) (id : Label) : Emits w (w.putLabel id) 0 [(id, w.offset)] [] :=
  ⟨rfl, rfl, rfl, (List.append_nil _).symm⟩

theorem emits_addLabelReferenceHere (w : GumX86Writer) (id : Label) (size : LabelRefSize) :
    Emits w (w.addLabelReferenceHere id size) 0 [] [⟨id, w.offset, size⟩] := ⟨rfl, rfl, (List.append_nil _).symm, rfl⟩

theorem emits_putPushReg (w : GumX86Writer) (reg : GumX86Reg) : Emits w (w.putPushReg reg) 1 [] [] :=
  emits_putBytes w _

theorem emits_putPopReg (w : GumX86Writer) (reg : GumX86Reg) : Emits w (w.putPopReg reg) 1 [] [] :=
  emits_putBytes w _

theorem emits_putMovRegAddress (w : GumX86Writer) (dst : GumX86Reg) (address : Word) :
    Emits w (w.putMovRegAddress dst address) 10 [] [] := emits_putBytes w _

theorem emits_putRet (w : GumX86Writer) : Emits w w.putRet 1 [] [] := emits_putBytes w _

/-- The bytes of an address: one more off the stack pointer. -/
theorem length_offsetPtr (reg base : GumX86Reg) (offset : Word) :
    (offsetPtr reg base offset).length =
      (if base = .rsp then 1 else 0) + if WithinInt8 offset.toInt then 2 else 5 := by
  unfold offsetPtr sib
  split <;> split <;> simp

theorem emits_putMovRegRegOffsetPtr (w : GumX86Writer) (dst src : GumX86Reg) (srcOffset : Word) :
    Emits w (w.putMovRegRegOffsetPtr dst src srcOffset)
      (2 + ((if src = .rsp then 1 else 0) + if WithinInt8 srcOffset.toInt then 2 else 5)) [] [] := by
  refine (emits_putBytes w _).size_eq ?_
  rw [List.length_cons, List.length_cons, length_offsetPtr, Nat.add_comm 2]

theorem emits_putMovRegOffsetPtrReg (w : GumX86Writer) (dst src : GumX86Reg) {dstOffset : Word} (h : dstOffset ≠ 0) :
    Emits w (w.putMovRegOffsetPtrReg dst dstOffset src)
      (2 + ((if dst = .rsp then 1 else 0) + if WithinInt8 dstOffset.toInt then 2 else 5)) [] [] := by
  rw [putMovRegOffsetPtrReg, if_neg fun hzero => h hzero.1]
  refine (emits_putBytes w _).size_eq ?_
  rw [List.length_cons, List.length_cons, length_offsetPtr, Nat.add_comm 2]

theorem emits_putLeaRegRegOffset (w : GumX86Writer) (dst src : GumX86Reg) (srcOffset : Word) :
    Emits w (w.putLeaRegRegOffset dst src srcOffset) ((if src = .rsp then 1 else 0) + 7) [] [] := by
  refine (emits_putBytes w _).size_eq ?_
  unfold sib
  split <;> simp

/-- The bytes of a jump: it takes the shortest form that reaches. -/
def jmpSize (pc address : Word) : Nat :=
  if WithinInt8 (address - (pc + 2)).toInt then 2
  else if WithinInt32 (address - (pc + 5)).toInt then 5
  else 16

theorem jmpSize_le (pc address : Word) : jmpSize pc address ≤ 16 := by
  unfold jmpSize
  split
  · decide
  · split <;> decide

theorem emits_putJmpAddress (w : GumX86Writer) (address : Word) :
    Emits w (w.putJmpAddress address) (jmpSize w.cur address) [] [] := by
  unfold putJmpAddress jmpSize
  split
  · exact emits_putBytes w _
  · split <;> exact emits_putBytes w _

/-- A jump to itself, which a reference is put behind, always reaches. -/
theorem sub_add_self (pc k : Word) : pc - (pc + k) = -k := by
  rw [sub_add_cancel_left]

theorem emits_putJmpShortLabel (w : GumX86Writer) (id : Label) :
    Emits w (w.putJmpShortLabel id) 2 [] [⟨id, w.offset + 2, .short⟩] := by
  have hjmp : w.putShortJmp w.cur = w.putBytes (0xeb :: rel 1 w.cur (w.cur + 2)) := by
    rw [putShortJmp, sub_add_self, if_pos (by decide)]
  rw [putJmpShortLabel, hjmp]
  exact (emits_putBytes w _).trans (emits_addLabelReferenceHere _ id .short)

theorem emits_putJmpNearLabel (w : GumX86Writer) (id : Label) :
    Emits w (w.putJmpNearLabel id) 5 [] [⟨id, w.offset + 5, .near⟩] := by
  have hjmp : w.putNearJmp w.cur = w.putBytes (0xe9 :: rel 4 w.cur (w.cur + 5)) := by
    rw [putNearJmp, sub_add_self, if_pos (by decide)]
  rw [putJmpNearLabel, hjmp]
  exact (emits_putBytes w _).trans (emits_addLabelReferenceHere _ id .near)

theorem emits_putJccShortLabel (w : GumX86Writer) (opcode : Byte) (id : Label) :
    Emits w (w.putJccShortLabel opcode id) 2 [] [⟨id, w.offset + 2, .short⟩] := by
  have hjcc : w.putJccShort opcode w.cur = w.putBytes (opcode :: rel 1 w.cur (w.cur + 2)) := by
    rw [putJccShort, sub_add_self, if_pos (by decide)]
  rw [putJccShortLabel, hjcc]
  exact (emits_putBytes w _).trans (emits_addLabelReferenceHere _ id .short)

theorem emits_putCallIndirectLabel (w : GumX86Writer) (id : Label) :
    Emits w (w.putCallIndirectLabel id) 6 [] [⟨id, w.offset + 6, .near⟩] := by
  have hcall : w.putCallIndirect w.cur = w.putBytes (0xff :: 0x15 :: rel 4 w.cur (w.cur + 6)) := by
    rw [putCallIndirect, sub_add_self, if_pos (by decide)]
  rw [putCallIndirectLabel, hcall]
  exact (emits_putBytes w _).trans (emits_addLabelReferenceHere _ id .near)

/-- A call that does not reach: the indirect call, the jump over the stored target, the target. -/
theorem emits_putCallAddress_far {address : Word} (hfar : ¬ WithinInt32 (address - (w.cur + 5)).toInt) :
    Emits w (w.putCallAddress address) 16 [(.callTargetStorage w.cur, w.offset + 8), (.carryOn w.cur, w.offset + 16)]
      [⟨.callTargetStorage w.cur, w.offset + 6, .near⟩, ⟨.carryOn w.cur, w.offset + 8, .short⟩] := by
  have hcall := emits_putCallIndirectLabel w (.callTargetStorage w.cur)
  have hjmp := hcall.trans (emits_putJmpShortLabel _ (.carryOn w.cur))
  have htarget := (hjmp.trans (emits_putLabel _ (.callTargetStorage w.cur))).trans
    (emits_putBytes _ (leBytes 8 address.toNat))
  have hall := htarget.trans (emits_putLabel _ (.carryOn w.cur))
  rw [putCallAddress, if_neg hfar]
  rw [htarget.offset, hjmp.offset, hcall.offset, length_leBytes] at hall
  exact hall

end GumX86Writer

end Gum
