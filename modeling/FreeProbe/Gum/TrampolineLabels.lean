import FreeProbe.Gum.CreateTrampoline

/-!
# `Gum.TrampolineLabels` — where a trampoline's jumps lead

The one flush at the end resolves the guard's two references and those of the relocated branches. A reference comes
out right where its label was put, where a short field reaches, and where no other label has taken its id before.

What a branch out of the prologue refers to is put right behind it. A branch that stays in it refers to an instruction:
if it goes into the middle of one, the flush stops there and leaves the branch a jump to itself.
-/

namespace Gum

open X86 Lib.Memory Lib.Fixups GumX86Writer GumX86Relocator

/-! ## The flush

`gum_x86_writer_flush` resolves the references that were made, one after the other, and stops at the first that it
cannot. -/

namespace GumX86Writer

variable {cw : GumX86Writer} {r : LabelRef} {bs : List Byte}

/-- The label of a reference is the first of its id, and in reach. -/
def Resolves (cw : GumX86Writer) (r : LabelRef) : Prop :=
  ∃ place, (r.id, place) ∈ cw.labelDefs ∧ cw.lookup r.id = some place ∧
    (r.size = .short → WithinInt8 ((place : Int) - r.address))

/-- The flush succeeds, and what it writes into the field of each reference leads to where the label was put. -/
def LabelsResolved (cw : GumX86Writer) : Prop :=
  cw.flush.2 = true ∧ ∀ r ∈ cw.labelRefs, ∃ place, (r.id, place) ∈ cw.labelDefs ∧
    (r.address : Int) + leInt (load cw.flush.1.code r.field r.width) = place

/-- Labels and references that a slice has room for. -/
def Small (cw : GumX86Writer) : Prop := (∀ d ∈ cw.labelDefs, d.2 ≤ 1000) ∧ ∀ r ∈ cw.labelRefs, r.address ≤ 1000

/-- A label that is found was put, at that place. -/
theorem mem_of_lookup {id : Label} {place : Nat} (h : cw.lookup id = some place) :
    ∃ l, (l, place) ∈ cw.labelDefs ∧ l.pointer = id.pointer := by
  obtain ⟨d, hd, rfl⟩ := Option.map_eq_some_iff.mp h
  exact ⟨d.1, List.mem_of_find?_eq_some hd, by simpa using List.find?_some hd⟩

/-- A distance within a slice fits the word it is computed in. -/
theorem toInt_distance {place address : Nat} (hplace : place ≤ 1000) (haddress : address ≤ 1000) :
    (BitVec.ofInt 32 ((place : Int) - address)).toInt = place - address :=
  BitVec.toInt_ofInt_eq_self (by decide) (by omega) (by omega)

/-- What is written into a field stands for the distance. -/
theorem patchOf_spec (hsmall : cw.Small) (hr : r ∈ cw.labelRefs) (h : cw.patchOf r = some bs) :
    ∃ place, cw.lookup r.id = some place ∧ bs.length = r.width ∧ leInt bs = (place : Int) - r.address ∧
      (r.size = .short → WithinInt8 ((place : Int) - r.address)) := by
  unfold patchOf at h
  cases hlookup : cw.lookup r.id with
  | none =>
      rw [hlookup] at h
      cases h
  | some place =>
      obtain ⟨l, hl, -⟩ := mem_of_lookup hlookup
      have hdistance := toInt_distance (hsmall.1 _ hl) (hsmall.2 r hr)
      rw [hlookup] at h
      refine ⟨place, rfl, ?_⟩
      -- a short reference is checked for its range, a near one is not
      cases hsize : r.size with
      | short =>
          simp only [hsize] at h
          split at h
          · next hfits =>
              cases h
              have hwidth : r.width = 1 := by rw [LabelRef.width, hsize]; rfl
              refine ⟨by rw [length_leBytes, hwidth], ?_, fun _ => hdistance ▸ hfits⟩
              rw [leInt_leBytes (by decide) (by omega) (by omega), hdistance]
          · cases h
      | near =>
          simp only [hsize] at h
          cases h
          have hwidth : r.width = 4 := by rw [LabelRef.width, hsize]; rfl
          have hplace := hsmall.1 _ hl
          have haddress := hsmall.2 r hr
          refine ⟨by rw [length_leBytes, hwidth], ?_, nofun⟩
          rw [leInt_leBytes (by decide) (by rw [hdistance]; omega) (by rw [hdistance]; omega), hdistance]

/-- A reference that resolves is patched. -/
theorem patchOf_isSome (hsmall : cw.Small) (hr : r ∈ cw.labelRefs) (h : cw.Resolves r) : (cw.patchOf r).isSome := by
  obtain ⟨place, hmem, hlookup, hreach⟩ := h
  have hdistance := toInt_distance (hsmall.1 _ hmem) (hsmall.2 r hr)
  unfold patchOf
  rw [hlookup]
  cases hsize : r.size with
  | short =>
      simp only [hdistance, if_pos (hreach hsize)]
      rfl
  | near => rfl

/-- A flush is right exactly where every reference resolves. -/
theorem labelsResolved_iff (hsmall : cw.Small) (hapart : cw.labelRefs.Pairwise (Apart LabelRef.field LabelRef.width)) :
    cw.LabelsResolved ↔ ∀ r ∈ cw.labelRefs, cw.Resolves r := by
  -- a patch is as long as its field, so that no field is written over
  have hwidth : ∀ r ∈ cw.labelRefs, ∀ bs, cw.patchOf r = some bs → bs.length = r.width := by
    intro r hr bs hbs
    obtain ⟨-, -, hlen, -⟩ := patchOf_spec hsmall hr hbs
    exact hlen
  constructor
  · rintro ⟨hok, hfields⟩ r hr
    obtain ⟨bs, hbs⟩ := Option.isSome_iff_exists.mp (fill_all_iff.mp hok r hr)
    obtain ⟨place, hlookup, -, hdistance, hreach⟩ := patchOf_spec hsmall hr hbs
    obtain ⟨place', hmem, hfield⟩ := hfields r hr
    have hload : load cw.flush.1.code r.field r.width = bs := load_fill hwidth hapart hok hr hbs
    rw [hload, hdistance] at hfield
    obtain rfl : place' = place := by omega
    exact ⟨place', hmem, hlookup, hreach⟩
  -- every reference has its patch, so `flush` succeeds
  · intro h
    have hok : cw.flush.2 = true := fill_all_iff.mpr fun r hr => patchOf_isSome hsmall hr (h r hr)
    refine ⟨hok, fun r hr => ?_⟩
    obtain ⟨place, hmem, hlookup, -⟩ := h r hr
    obtain ⟨bs, hbs⟩ := Option.isSome_iff_exists.mp (patchOf_isSome hsmall hr (h r hr))
    obtain ⟨place', hlookup', -, hdistance, -⟩ := patchOf_spec hsmall hr hbs
    obtain rfl : place' = place := Option.some.inj (hlookup'.symm.trans hlookup)
    have hload : load cw.flush.1.code r.field r.width = bs := load_fill hwidth hapart hok hr hbs
    refine ⟨place', hmem, ?_⟩
    rw [hload, hdistance]
    omega

end GumX86Writer

/-! ## The labels of an instruction

The ids of an instruction's own labels are made up from where its code starts. A branch that stays inside of the
prologue refers to another instruction's, and to nothing else that is not its own. -/

namespace GumX86Relocator

variable {self : GumX86Relocator} {cs : Capstone} {insn : CsInsn} {insns : List CsInsn} {base code start : Word}
  {place : Nat} {f : Form} {p q : Placed} {r : LabelRef} {l : Label}

variable (self) in
/-- Every instruction is written as something. -/
theorem Form.size_pos_of (hwf : insn.WellFormed) (code : Word) : 0 < (self.form insn code).size := by
  have hpos := hwf.size_pos
  have hrip : 0 < ripSize insn code := by
    unfold ripSize
    split
    · split
      · decide
      · split
        · decide
        · split
          · split <;> decide
          · omega
    · exact hpos
  have hjmp : ∀ code target, 0 < jmpSize code target := by
    intro code target
    unfold jmpSize
    split
    · decide
    · split <;> decide
  unfold form
  by_cases hjump : insn.id = .call ∨ insn.id = .jmp
  · rw [if_pos hjump]
    unfold jumpForm
    split
    · decide
    · cases insn.operand with
      | imm target =>
          simp only
          split
          · split <;> decide
          · exact hjmp code target
      | mem => exact hrip
      | reg => exact hpos
      | invalid => exact hpos
  rw [if_neg hjump]
  by_cases hcond : insn.id.isConditional
  · obtain ⟨-, target, hoperand⟩ := hwf.conditional hcond
    rw [if_pos hcond, hoperand]
    simp only
    unfold branchForm
    split
    · exact Nat.zero_lt_two
    · split
      · decide
      · exact Nat.lt_of_lt_of_le (hjmp _ _) (Nat.le_add_left _ 4)
  · rw [if_neg hcond]
    exact hrip

/-- Labels lie in the code behind its start. -/
theorem Form.marks_le {n : Nat} (h : (l, n) ∈ f.marks code place) : n ≤ place + f.size := by
  cases f with
  | plain => cases h
  | innerBranch => cases h
  | farCall =>
      simp only [Form.marks, List.mem_cons, Prod.mk.injEq, List.not_mem_nil, or_false] at h
      simp only [Form.size]
      omega
  | farBranch =>
      simp only [Form.marks, List.mem_cons, Prod.mk.injEq, List.not_mem_nil, or_false] at h
      simp only [Form.size]
      omega

/-- The place in the code that a label is made up from. -/
def codeOf : Label → Option Word
  | .literal _ _ => none
  | .insn _ => none
  | .isTrue code => some code
  | .isFalse code => some code
  | .callTargetStorage code => some code
  | .carryOn code => some code

/-- The labels that an instruction puts are derived from where its code starts. -/
theorem Form.codeOf_marks {n : Nat} (h : (l, n) ∈ f.marks code place) : codeOf l = some code := by
  cases f with
  | plain => cases h
  | innerBranch => cases h
  | farCall =>
      simp only [Form.marks, List.mem_cons, Prod.mk.injEq, List.not_mem_nil, or_false] at h
      rcases h with ⟨rfl, -⟩ | ⟨rfl, -⟩ <;> rfl
  | farBranch =>
      simp only [Form.marks, List.mem_cons, Prod.mk.injEq, List.not_mem_nil, or_false] at h
      rcases h with ⟨rfl, -⟩ | ⟨rfl, -⟩ <;> rfl

/-- It puts each of them once. -/
theorem Form.marks_unique {n n' : Nat} (h : (l, n) ∈ f.marks code place) (h' : (l, n') ∈ f.marks code place) :
    n = n' := by
  cases f with
  | plain => cases h
  | innerBranch => cases h
  | farCall =>
      simp only [Form.marks, List.mem_cons, Prod.mk.injEq, List.not_mem_nil, or_false] at h h'
      rcases h with ⟨rfl, rfl⟩ | ⟨rfl, rfl⟩ <;> simpa [eq_comm] using h'
  | farBranch =>
      simp only [Form.marks, List.mem_cons, Prod.mk.injEq, List.not_mem_nil, or_false] at h h'
      rcases h with ⟨rfl, rfl⟩ | ⟨rfl, rfl⟩ <;> simpa [eq_comm] using h'

/-- A field lies in the code, and its reference behind it. -/
theorem Form.links_bounds (h : r ∈ f.links code place) :
    place ≤ r.field ∧ r.field + r.width = r.address ∧ r.address ≤ place + f.size := by
  cases f with
  | plain => cases h
  | innerBranch target =>
      simp only [Form.links, List.mem_cons, List.not_mem_nil, or_false] at h
      subst h
      simp only [LabelRef.field, LabelRef.width, LabelRefSize.width, Form.size]
      omega
  | farCall =>
      simp only [Form.links, List.mem_cons, List.not_mem_nil, or_false] at h
      rcases h with rfl | rfl <;> simp only [LabelRef.field, LabelRef.width, LabelRefSize.width, Form.size] <;> omega
  | farBranch =>
      simp only [Form.links, List.mem_cons, List.not_mem_nil, or_false] at h
      rcases h with rfl | rfl <;> simp only [LabelRef.field, LabelRef.width, LabelRefSize.width, Form.size] <;> omega

/-- And its references are in different fields. -/
theorem Form.links_apart : (f.links code place).Pairwise (Apart LabelRef.field LabelRef.width) := by
  cases f with
  | plain => exact .nil
  | innerBranch target => exact List.pairwise_singleton _ _
  | farCall =>
      refine List.pairwise_pair.mpr (Or.inl ?_)
      simp only [LabelRef.field, LabelRef.width, LabelRefSize.width]
      omega
  | farBranch =>
      refine List.pairwise_pair.mpr (Or.inl ?_)
      simp only [LabelRef.field, LabelRef.width, LabelRefSize.width]
      omega

/-- A reference is to an instruction, by a branch that stays inside, or to a label of the same instruction. -/
theorem Form.links_own (hsize : f.size ≤ 44) (h : r ∈ f.links code place) :
    (∃ target, f = .innerBranch target ∧ r = ⟨.insn target, place + 2, .short⟩) ∨
      ∃ n, (r.id, n) ∈ f.marks code place ∧ WithinInt8 ((n : Int) - r.address) := by
  -- only a branch within the prologue refers to another instruction
  cases f with
  | plain => cases h
  | innerBranch target =>
      simp only [Form.links, List.mem_cons, List.not_mem_nil, or_false] at h
      exact Or.inl ⟨target, rfl, h⟩
  | farCall =>
      simp only [Form.links, List.mem_cons, List.not_mem_nil, or_false] at h
      right
      rcases h with rfl | rfl
      · refine ⟨place + 8, by simp [Form.marks], ?_⟩
        constructor <;> push_cast <;> omega
      · refine ⟨place + 16, by simp [Form.marks], ?_⟩
        constructor <;> push_cast <;> omega
  | farBranch k =>
      simp only [Form.links, List.mem_cons, List.not_mem_nil, or_false] at h
      simp only [Form.size] at hsize
      right
      rcases h with rfl | rfl
      · refine ⟨place + 4, by simp [Form.marks], ?_⟩
        constructor <;> push_cast <;> omega
      · refine ⟨place + (4 + k), by simp [Form.marks], ?_⟩
        constructor <;> push_cast <;> omega

/-! ## The labels of a layout

An instruction's label has the address that it was read from. The prologue does not wrap around, so no two have the
same. -/

/-- The instructions in order. -/
theorem layout_insn : (self.layout base place insns).map Placed.insn = insns := by
  induction insns generalizing place with
  | nil => rfl
  | cons insn insns ih => exact congrArg (insn :: ·) ih

/-- An instruction is in the part of the code that its form takes. -/
theorem mem_layout (h : p ∈ self.layout base place insns) :
    p.insn ∈ insns ∧ p.form = self.form p.insn (base + BitVec.ofNat 64 p.place) ∧ place ≤ p.place ∧
      p.place + p.form.size ≤ place + layoutSize (self.layout base place insns) := by
  induction insns generalizing place with
  | nil => cases h
  | cons insn insns ih =>
      rw [layout, layoutSize_cons]
      rcases List.mem_cons.mp h with rfl | h
      · refine ⟨List.mem_cons_self, rfl, Nat.le_refl _, ?_⟩
        simp only
        omega
      · obtain ⟨hmem, hform, hlow, hhigh⟩ := ih h
        refine ⟨List.mem_cons_of_mem _ hmem, hform, by omega, ?_⟩
        simp only
        omega

/-- No two start at one place. -/
theorem layout_place_nodup (hwf : ∀ insn ∈ insns, insn.WellFormed) :
    ((self.layout base place insns).map Placed.place).Nodup := by
  induction insns generalizing place with
  | nil => exact List.nodup_nil
  | cons insn insns ih =>
      rw [List.forall_mem_cons] at hwf
      rw [layout, List.map_cons, List.nodup_cons]
      refine ⟨fun hmem => ?_, ih hwf.2⟩
      obtain ⟨p, hp, hplace⟩ := List.mem_map.mp hmem
      have hlow := (mem_layout hp).2.2.1
      have hpos := Form.size_pos_of self hwf.1 (base + BitVec.ofNat 64 place)
      simp only at hplace
      omega

/-- The references of all instructions are in different fields. -/
theorem layout_links_apart :
    ((self.layout base place insns).flatMap (Placed.links base)).Pairwise (Apart LabelRef.field LabelRef.width) := by
  induction insns generalizing place with
  | nil => exact .nil
  | cons insn insns ih =>
      rw [layout, List.flatMap_cons, List.pairwise_append]
      refine ⟨Form.links_apart, ih, fun r hr r' hr' => ?_⟩
      obtain ⟨p, hp, hr'⟩ := List.mem_flatMap.mp hr'
      obtain ⟨-, -, hlow, -⟩ := mem_layout hp
      obtain ⟨-, hfield, hhigh⟩ := Form.links_bounds hr
      obtain ⟨hlow', -, -⟩ := Form.links_bounds hr'
      simp only at hhigh
      exact Or.inl (by omega)

/-- Instructions that follow each other have addresses of their own. -/
theorem Consecutive.address (h : Consecutive cs start insns) (hmem : insn ∈ insns) :
    ∃ k < (insns.map CsInsn.size).sum, insn.address = start + BitVec.ofNat 64 k := by
  induction insns generalizing start with
  | nil => cases hmem
  | cons first insns ih =>
      have hpos := (cs.wellFormed _ _ h.1).size_pos
      have hfirst := cs.address _ _ h.1
      rw [List.map_cons, List.sum_cons]
      rcases List.mem_cons.mp hmem with rfl | hmem
      · exact ⟨0, by omega, by rw [hfirst]; exact (add_zero _).symm⟩
      · obtain ⟨k, hk, haddress⟩ := ih h.2 hmem
        refine ⟨first.size + k, by omega, ?_⟩
        rw [haddress, CsInsn.pc, hfirst, BitVec.ofNat_add, add_assoc]

/-- Nor at one address, as the prologue does not wrap around. -/
theorem Consecutive.address_nodup (h : Consecutive cs start insns)
    (hsum : (insns.map CsInsn.size).sum < 2 ^ 64) : (insns.map CsInsn.address).Nodup := by
  induction insns generalizing start with
  | nil => exact List.nodup_nil
  | cons first insns ih =>
      rw [List.map_cons, List.sum_cons] at hsum
      rw [List.map_cons, List.nodup_cons]
      refine ⟨fun hmem => ?_, ih h.2 (by omega)⟩
      obtain ⟨insn, hinsn, haddress⟩ := List.mem_map.mp hmem
      obtain ⟨k, hk, hpc⟩ := h.2.address hinsn
      have hpos := (cs.wellFormed _ _ h.1).size_pos
      rw [hpc, CsInsn.pc, add_assoc, ← BitVec.ofNat_add] at haddress
      have hzero : (BitVec.ofNat 64 (first.size + k)).toNat = 0 := congrArg BitVec.toNat (add_eq_left.mp haddress)
      rw [BitVec.toNat_ofNat, Nat.mod_eq_of_lt (by omega)] at hzero
      omega

end GumX86Relocator

/-! ## The labels of a trampoline

Those of the guard's two entries and those of the prologue, all in one slice. -/

namespace TrampolineRequest

variable {cs : Capstone} {t : TrampolineRequest} {rl : GumX86Relocator} {l : Label} {n n' : Nat} {r : LabelRef}

/-- A redirect takes up to 16 bytes. -/
theorem redirectCodeSize_le (t : TrampolineRequest) : ∃ k ≤ 15, t.redirectCodeSize = k + 1 := by
  unfold redirectCodeSize
  split
  · exact ⟨4, by decide, rfl⟩
  · exact ⟨15, by decide, rfl⟩

/-- The code before the relocated prologue is short. -/
theorem entriesSize_le (t : TrampolineRequest) : t.entriesSize ≤ 113 := by
  have henter : t.enterJmpSize ≤ 16 := jmpSize_le _ _
  have hleave : t.leaveJmpSize ≤ 16 := jmpSize_le _ _
  by_cases hfast : t.type = .fast
  · rw [entriesSize_fast hfast]
    omega
  · rw [entriesSize_default hfast]
    omega

/-- Where a relocated instruction is. -/
theorem placed_bounds (h : Prologue cs t.functionAddress t.redirectCodeSize rl) {p : Placed} (hp : p ∈ t.placed rl) :
    t.entriesSize ≤ p.place ∧ p.place + p.form.size ≤ 400 := by
  obtain ⟨k, hk, hredirect⟩ := t.redirectCodeSize_le
  rw [hredirect] at h
  have hsize := layoutSize_placed_le h
  have hentries := t.entriesSize_le
  obtain ⟨-, -, hlow, hhigh⟩ := mem_layout hp
  rw [← placed] at hhigh
  exact ⟨hlow, by omega⟩

/-- So is what is written for one instruction. -/
theorem form_placed_le (h : Prologue cs t.functionAddress t.redirectCodeSize rl) {p : Placed} (hp : p ∈ t.placed rl) :
    p.form.size ≤ 44 := by
  obtain ⟨hinsn, hform, -, -⟩ := mem_layout hp
  rw [hform]
  exact (form_size_le rl (h.consecutive.wellFormed _ hinsn) _).1

/-- The labels of a trampoline: those of its entries, one for each instruction, and those within an instruction. -/
theorem mem_marks_iff : (l, n) ∈ t.marks rl ↔ (l, n) ∈ t.entriesMarks ∨
    ∃ p ∈ t.placed rl, (l = .insn p.insn.address ∧ n = p.place) ∨
      (l, n) ∈ p.form.marks (t.trampolineSlice + BitVec.ofNat 64 p.place) p.place := by
  simp only [marks, List.mem_append, List.mem_flatMap, Placed.marks, List.mem_cons, Prod.mk.injEq]

/-- Its references: those of its entries and those of the instructions. -/
theorem mem_links_iff : r ∈ t.links rl ↔ r ∈ t.entriesLinks ∨
    ∃ p ∈ t.placed rl, r ∈ p.form.links (t.trampolineSlice + BitVec.ofNat 64 p.place) p.place := by
  simp only [links, List.mem_append, List.mem_flatMap, Placed.links]

/-- The two labels of the entries. -/
theorem mem_entriesMarks (h : (l, n) ∈ t.entriesMarks) :
    (l = t.skipLabel ∧ n = 63 + t.enterJmpSize ∨ l = t.invokeLabel ∧ n = t.entriesSize) ∧ n ≤ t.entriesSize := by
  unfold entriesMarks at h
  by_cases hfast : t.type = .fast
  · rw [if_pos hfast] at h
    simp only [List.nil_append, List.mem_singleton, Prod.mk.injEq] at h
    exact ⟨Or.inr h, by omega⟩
  · rw [if_neg hfast] at h
    simp only [List.cons_append, List.nil_append, List.mem_cons, List.not_mem_nil, or_false, Prod.mk.injEq] at h
    rw [entriesSize_default hfast] at h ⊢
    exact ⟨h, by omega⟩

/-- No label is far from the start of the trampoline. -/
theorem marks_le (h : Prologue cs t.functionAddress t.redirectCodeSize rl) (hmark : (l, n) ∈ t.marks rl) :
    n ≤ 400 := by
  rcases mem_marks_iff.mp hmark with hentry | ⟨p, hp, ⟨-, rfl⟩ | hown⟩
  · have hentries := t.entriesSize_le
    have hle := (mem_entriesMarks hentry).2
    omega
  · have hplace := (placed_bounds h hp).2
    omega
  · have hplace := (placed_bounds h hp).2
    have hle := Form.marks_le hown
    omega

/-- Two instructions of one place are one. -/
theorem placed_eq_of_place (h : Prologue cs t.functionAddress t.redirectCodeSize rl) {p q : Placed}
    (hp : p ∈ t.placed rl) (hq : q ∈ t.placed rl) (heq : p.place = q.place) : p = q :=
  List.inj_on_of_nodup_map (layout_place_nodup h.consecutive.wellFormed) hp hq heq

/-- Few bytes are relocated: the last instruction begins before the redirect is covered. -/
theorem relocBytes_le (h : Prologue cs t.functionAddress t.redirectCodeSize rl) : rl.relocBytes ≤ 30 := by
  obtain ⟨k, hk, hredirect⟩ := t.redirectCodeSize_le
  obtain ⟨init, insn, hinsns, hinit⟩ := h.last
  have hsize : insn.size ≤ 15 := by
    refine (h.consecutive.wellFormed insn ?_).size_le
    rw [hinsns]
    exact List.mem_concat_self
  rw [relocBytes, hinsns, List.map_append, List.sum_append, List.map_singleton, List.sum_singleton]
  omega

/-- And so are two of one address. -/
theorem placed_eq_of_address (h : Prologue cs t.functionAddress t.redirectCodeSize rl) {p q : Placed}
    (hp : p ∈ t.placed rl) (hq : q ∈ t.placed rl) (heq : p.insn.address = q.insn.address) : p = q := by
  have hbytes : rl.relocBytes < 2 ^ 64 := Nat.lt_of_le_of_lt (relocBytes_le h) (by decide)
  have hmap : (t.placed rl).map (fun p => p.insn.address) = rl.inputInsns.map CsInsn.address := by
    have hinsns : (t.placed rl).map Placed.insn = rl.inputInsns := layout_insn
    rw [← hinsns, List.map_map]
    rfl
  have hnodup := h.consecutive.address_nodup hbytes
  rw [← hmap] at hnodup
  exact List.inj_on_of_nodup_map hnodup hp hq heq

/-- An instruction's own labels are those of its place. -/
theorem placed_eq_of_codeOf (h : Prologue cs t.functionAddress t.redirectCodeSize rl) {p q : Placed}
    (hp : p ∈ t.placed rl) (hq : q ∈ t.placed rl)
    (hmark : (l, n) ∈ p.form.marks (t.trampolineSlice + BitVec.ofNat 64 p.place) p.place)
    (hmark' : (l, n') ∈ q.form.marks (t.trampolineSlice + BitVec.ofNat 64 q.place) q.place) : p = q := by
  refine placed_eq_of_place h hp hq ?_
  have hplace := (placed_bounds h hp).2
  have hplace' := (placed_bounds h hq).2
  have hcode := (Form.codeOf_marks hmark).symm.trans (Form.codeOf_marks hmark')
  have hnat := congrArg BitVec.toNat (add_left_cancel (Option.some.inj hcode))
  rw [BitVec.toNat_ofNat, BitVec.toNat_ofNat, Nat.mod_eq_of_lt (by omega), Nat.mod_eq_of_lt (by omega)] at hnat
  exact hnat

/-- A label is put once. -/
theorem marks_unique (h : Prologue cs t.functionAddress t.redirectCodeSize rl) (hmark : (l, n) ∈ t.marks rl)
    (hmark' : (l, n') ∈ t.marks rl) : n = n' := by
  -- the label of an entry, of an instruction, or within one; labels of two kinds differ
  rcases mem_marks_iff.mp hmark with hentry | ⟨p, hp, ⟨rfl, rfl⟩ | hown⟩
  · rcases mem_marks_iff.mp hmark' with hentry' | ⟨q, hq, ⟨rfl, -⟩ | hown'⟩
    · rcases (mem_entriesMarks hentry).1 with ⟨rfl, rfl⟩ | ⟨rfl, rfl⟩
      · rcases (mem_entriesMarks hentry').1 with ⟨-, hn⟩ | ⟨hl, -⟩
        · exact hn.symm
        · simp [skipLabel, invokeLabel] at hl
      · rcases (mem_entriesMarks hentry').1 with ⟨hl, -⟩ | ⟨-, hn⟩
        · simp [skipLabel, invokeLabel] at hl
        · exact hn.symm
    · rcases (mem_entriesMarks hentry).1 with ⟨hl, -⟩ | ⟨hl, -⟩ <;> simp [skipLabel, invokeLabel] at hl
    · have hcode := Form.codeOf_marks hown'
      rcases (mem_entriesMarks hentry).1 with ⟨rfl, -⟩ | ⟨rfl, -⟩ <;> cases hcode
  · rcases mem_marks_iff.mp hmark' with hentry' | ⟨q, hq, ⟨hl, rfl⟩ | hown'⟩
    · rcases (mem_entriesMarks hentry').1 with ⟨hl, -⟩ | ⟨hl, -⟩ <;> simp [skipLabel, invokeLabel] at hl
    · rw [placed_eq_of_address h hp hq (Label.insn.inj hl)]
    · cases Form.codeOf_marks hown'
  · have hcode := Form.codeOf_marks hown
    rcases mem_marks_iff.mp hmark' with hentry' | ⟨q, hq, ⟨rfl, -⟩ | hown'⟩
    · rcases (mem_entriesMarks hentry').1 with ⟨rfl, -⟩ | ⟨rfl, -⟩ <;> cases hcode
    · cases hcode
    · obtain rfl := placed_eq_of_codeOf h hp hq hown hown'
      exact Form.marks_unique hown hown'

/-- The two references of the entries. A fast trampoline has none. -/
theorem mem_entriesLinks (h : r ∈ t.entriesLinks) :
    (r = ⟨t.skipLabel, 56, .short⟩ ∨ r = ⟨t.invokeLabel, 63 + t.enterJmpSize + 12, .near⟩) ∧ t.type ≠ .fast := by
  unfold entriesLinks at h
  by_cases hfast : t.type = .fast
  · rw [if_pos hfast] at h
    cases h
  · rw [if_neg hfast] at h
    simp only [List.mem_cons, List.not_mem_nil, or_false] at h
    exact ⟨h, hfast⟩

/-- The guard's two fields and where they end. -/
theorem entriesLinks_bounds (h : r ∈ t.entriesLinks) : r.field + r.width = r.address ∧ r.address ≤ t.entriesSize := by
  obtain ⟨hr, hfast⟩ := mem_entriesLinks h
  have hsize := entriesSize_default hfast
  rcases hr with rfl | rfl
  · exact ⟨rfl, by simp only; omega⟩
  · simp only [LabelRef.field, LabelRef.width, LabelRefSize.width]
    omega

/-- They are in different fields. -/
theorem entriesLinks_apart : t.entriesLinks.Pairwise (Apart LabelRef.field LabelRef.width) := by
  unfold entriesLinks
  split
  · exact .nil
  · refine List.pairwise_pair.mpr (Or.inl ?_)
    simp only [LabelRef.field, LabelRef.width, LabelRefSize.width]
    omega

/-- All references are. -/
theorem links_apart : (t.links rl).Pairwise (Apart LabelRef.field LabelRef.width) := by
  rw [links, List.pairwise_append]
  refine ⟨entriesLinks_apart, layout_links_apart, fun r hr r' hr' => ?_⟩
  obtain ⟨p, hp, hr'⟩ := List.mem_flatMap.mp hr'
  obtain ⟨-, -, hlow, -⟩ := mem_layout hp
  obtain ⟨hfield, haddress⟩ := entriesLinks_bounds hr
  obtain ⟨hlow', -, -⟩ := Form.links_bounds hr'
  exact Or.inl (by omega)

/-- No reference is far from the start. -/
theorem links_le (h : Prologue cs t.functionAddress t.redirectCodeSize rl) (hr : r ∈ t.links rl) :
    r.address ≤ 400 := by
  rcases mem_links_iff.mp hr with hentry | ⟨p, hp, hr⟩
  · have hentries := t.entriesSize_le
    have haddress := (entriesLinks_bounds hentry).2
    omega
  · have hplace := (placed_bounds h hp).2
    have haddress := (Form.links_bounds hr).2.2
    omega

/-- Apart from the branches that stay in the prologue, a reference's label is put, and in reach. -/
theorem links_own (h : Prologue cs t.functionAddress t.redirectCodeSize rl) (hr : r ∈ t.links rl) :
    (∃ p ∈ t.placed rl, ∃ target, p.form = .innerBranch target ∧ r = ⟨.insn target, p.place + 2, .short⟩) ∨
      ∃ n, (r.id, n) ∈ t.marks rl ∧ WithinInt8 ((n : Int) - r.address) := by
  rcases mem_links_iff.mp hr with hentry | ⟨p, hp, hr⟩
  · right
    have henter : t.enterJmpSize ≤ 16 := jmpSize_le _ _
    have hleave : t.leaveJmpSize ≤ 16 := jmpSize_le _ _
    obtain ⟨rfl | rfl, hfast⟩ := mem_entriesLinks hentry
    · refine ⟨63 + t.enterJmpSize, mem_marks_iff.mpr (Or.inl ?_), ?_⟩
      · rw [entriesMarks, if_neg hfast]
        exact List.mem_cons_self
      · constructor <;> push_cast <;> omega
    · refine ⟨t.entriesSize, mem_marks_iff.mpr (Or.inl (List.mem_append_right _ List.mem_cons_self)), ?_⟩
      rw [entriesSize_default hfast]
      constructor <;> push_cast <;> omega
  · rcases Form.links_own (form_placed_le h hp) hr with ⟨target, hform, rfl⟩ | ⟨n, hmark, hreach⟩
    · exact Or.inl ⟨p, hp, target, hform, rfl⟩
    · exact Or.inr ⟨n, mem_marks_iff.mpr (Or.inr ⟨p, hp, Or.inr hmark⟩), hreach⟩

/-! ## When all labels are resolved

A short reference reaches 127 bytes. Whether all do is a matter of how the prologue is laid out. -/

variable (t rl)

/-- The trampoline is written, and its flush is right. -/
def Resolved : Prop := ∃ cw, t.emitTrampoline rl = .ok cw ∧ cw.LabelsResolved

/-- Where the first label of an id is put. -/
def firstPlace (pointer : Word) : Option Nat := ((t.marks rl).find? fun d => d.1.pointer = pointer).map Prod.snd

/-- A branch from one of the prologue's instructions into the prologue goes to one of them, and from the one's place in
    the trampoline an 8-bit distance reaches the other's. -/
def BranchesReach : Prop :=
  ∀ p ∈ t.placed rl, ∀ target, p.form = .innerBranch target →
    ∃ q ∈ t.placed rl, q.insn.address = target ∧ WithinInt8 ((q.place : Int) - (p.place + 2 : Nat))

/-- No label that is referred to has the id of one that was put before it at another place. -/
def IdsApart : Prop :=
  ∀ r ∈ t.links rl, ∀ place, (r.id, place) ∈ t.marks rl → t.firstPlace rl r.id.pointer = some place

variable {t rl}

/-- The writer's tables are the marks and links above. -/
theorem resolved_iff_links (h : Prologue cs t.functionAddress t.redirectCodeSize rl) :
    t.Resolved rl ↔ ∀ r ∈ t.links rl, ∃ place, (r.id, place) ∈ t.marks rl ∧
      t.firstPlace rl r.id.pointer = some place ∧ (r.size = .short → WithinInt8 ((place : Int) - r.address)) := by
  obtain ⟨cw, hok, hemits⟩ := emits_emitTrampoline (t := t) h.consecutive.wellFormed
  have hdefs : cw.labelDefs = t.marks rl := hemits.labelDefs
  have hrefs : cw.labelRefs = t.links rl := hemits.labelRefs
  have hsmall : cw.Small := by
    refine ⟨fun d hd => ?_, fun r hr => ?_⟩
    · rw [hdefs] at hd
      exact (marks_le h hd).trans (by decide)
    · rw [hrefs] at hr
      exact (links_le h hr).trans (by decide)
  have hapart : cw.labelRefs.Pairwise (Apart LabelRef.field LabelRef.width) := hrefs ▸ links_apart
  have hflush := labelsResolved_iff hsmall hapart
  simp only [Resolves, lookup, hdefs, hrefs] at hflush
  rw [Resolved, hok]
  constructor
  · rintro ⟨cw', hok', hresolved⟩
    cases hok'
    exact hflush.mp hresolved
  · exact fun hall => ⟨cw, rfl, hflush.mpr hall⟩

/-- **All labels are resolved** exactly if the branches that stay in the prologue go to its instructions, within reach,
    and no id stands for two labels. -/
theorem trampoline_labels_iff (h : readPrologue cs t.functionAddress t.redirectCodeSize = some rl) :
    t.Resolved rl ↔ t.BranchesReach rl ∧ t.IdsApart rl := by
  have hprologue := prologue_of_read t.redirectCodeSize_pos h
  rw [resolved_iff_links hprologue]
  constructor
  · intro hall
    constructor
    · intro p hp target hform
      have hlink : ⟨.insn target, p.place + 2, .short⟩ ∈ t.links rl := by
        refine mem_links_iff.mpr (Or.inr ⟨p, hp, ?_⟩)
        rw [hform]
        exact List.mem_cons_self
      -- the target of a branch is an instruction of the prologue, within a short jump
      obtain ⟨place, hmark, -, hreach⟩ := hall _ hlink
      rcases mem_marks_iff.mp hmark with hentry | ⟨q, hq, ⟨haddress, rfl⟩ | hown⟩
      · rcases (mem_entriesMarks hentry).1 with ⟨hl, -⟩ | ⟨hl, -⟩ <;> cases hl
      · exact ⟨q, hq, (Label.insn.inj haddress).symm, hreach rfl⟩
      · cases Form.codeOf_marks hown
    · intro r hr place hmark
      obtain ⟨place', hmark', hfirst, -⟩ := hall r hr
      rw [marks_unique hprologue hmark hmark']
      exact hfirst
  -- the references of the entries, and those that an instruction has to itself, always resolve
  · rintro ⟨hbranches, hids⟩ r hr
    rcases links_own hprologue hr with ⟨p, hp, target, hform, rfl⟩ | ⟨place, hmark, hreach⟩
    · obtain ⟨q, hq, haddress, hreach⟩ := hbranches p hp target hform
      have hmark : (.insn target, q.place) ∈ t.marks rl :=
        mem_marks_iff.mpr (Or.inr ⟨q, hq, Or.inl ⟨congrArg Label.insn haddress.symm, rfl⟩⟩)
      exact ⟨q.place, hmark, hids _ hr _ hmark, fun _ => hreach⟩
    · exact ⟨place, hmark, hids r hr place hmark, fun _ => hreach⟩

end TrampolineRequest

/-- Three branches out of the prologue need no label but the guard's. -/
theorem trampoline_labels_near : (branchesRequest (some 0x500000)).Resolved (branchesRead 3) := by
  refine (TrampolineRequest.trampoline_labels_iff (t := branchesRequest (some 0x500000))
    (show readPrologue branches _ _ = some (branchesRead 3) from rfl)).mpr ⟨fun p hp target hform => ?_, ?_⟩
  · have hplain : ∀ p ∈ (branchesRequest (some 0x500000)).placed (branchesRead 3), p.form = .plain 6 := by decide
    rw [hplain p hp] at hform
    cases hform
  · have hfirst : ∀ r ∈ (branchesRequest (some 0x500000)).links (branchesRead 3),
        ∀ d ∈ (branchesRequest (some 0x500000)).marks (branchesRead 3), d.1 = r.id →
          (branchesRequest (some 0x500000)).firstPlace (branchesRead 3) r.id.pointer = some d.2 := by decide
    exact fun r hr place hmark => hfirst r hr _ hmark rfl

/-- `je` over the prefix of what follows. -/
def jeOverLock : CsInsn := ⟨.je, 0x400000, [0x74, 0x01], .imm 0x400003, 0, 0, 0, 0, []⟩

/-- `lock cmpxchg [rdi], esi`. -/
def lockCmpxchg : CsInsn := ⟨.cmpxchg, 0x400002, [0xf0, 0x0f, 0xb1, 0x37], .mem, 0x37, 3, 0, 0, []⟩

/-- A function that leaves the prefix out if it can. -/
def optionalLock : Capstone where
  disasmIter a := if a = 0x400000 then some jeOverLock else if a = 0x400002 then some lockCmpxchg else none
  address a insn h := by
    split at h
    · next ha =>
        cases h
        exact ha.symm
    · obtain ⟨ha, hinsn⟩ := Option.ite_none_right_eq_some.mp h
      cases hinsn
      exact ha.symm
  wellFormed a insn h := by
    split at h
    · cases h
      exact ⟨by decide, by decide, by decide, fun _ => ⟨by decide, _, rfl⟩, by decide⟩
    · cases (Option.ite_none_right_eq_some.mp h).2
      exact ⟨by decide, by decide, by decide, fun hcond => absurd hcond (by decide), by decide⟩

/-- Behind the prefix no label is put, and the flush stops at the branch. -/
theorem trampoline_labels_not_resolved :
    ¬ ∀ (cs : Capstone) (t : TrampolineRequest) (rl : GumX86Relocator),
      readPrologue cs t.functionAddress t.redirectCodeSize = some rl → t.Resolved rl := by
  intro h
  let t := branchesRequest (some 0x500000)
  let rl : GumX86Relocator := ⟨0x400000, [jeOverLock, lockCmpxchg], false⟩
  have hread : readPrologue optionalLock t.functionAddress t.redirectCodeSize = some rl := rfl
  have hall := (TrampolineRequest.resolved_iff_links (prologue_of_read t.redirectCodeSize_pos hread)).mp
    (h optionalLock t rl hread)
  have hlink : ∃ r ∈ t.links rl, r.id = .insn 0x400003 := by decide
  have hmarks : ∀ d ∈ t.marks rl, d.1 ≠ .insn 0x400003 := by decide
  obtain ⟨r, hr, hid⟩ := hlink
  obtain ⟨place, hmark, -⟩ := hall r hr
  exact hmarks _ hmark hid

end Gum
