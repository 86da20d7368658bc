import FreeProbe.Lib.Memory
import FreeProbe.Ptx.RegisterGuard

/-!
# `Ptx.GuardRun` — runs of a guarded function

What the lines of a text mean is a parameter: each goes on, goes to another line or returns, and may change the registers
and the rest of the machine. The guard's lines have their own meaning. A guarded text runs as its lines do, with the
guard's lines before a line run whenever the run falls through to it; a jump goes to a label, which the guard's lines
stand before.
-/

namespace Ptx

open Lib Lib.Memory

/-! ## The registers a text declares -/

/-- A register of the text, with the type that it was declared with. -/
structure Register where
  type : Text
  name : Text
deriving DecidableEq

/-- A line without its comment. -/
def uncommented : Text → Text
  | [] => []
  | c :: cs => if (str "//").isPrefixOf (c :: cs) then [] else c :: uncommented cs

/-- The names that an operand of a declaration stands for. -/
def operandNames (operand : Text) : List Text :=
  match operand.splitOnP (· == chr '<') with
  | [base, count] => familyNames base (decimal (count.takeWhile isDigit))
  | _ => [operand]

/-- `.reg`, the type and the operands; a vector's type has two parts. -/
def statementRegisters (statement : Text) : List Register :=
  match (statement.splitOnP fun c => isSpace c || c == chr ',').filter (· ≠ []) with
  | [] => []
  | directive :: rest =>
    if directive = str ".reg" then
      let type := (rest.takeWhile fun t => t.head? = some (chr '.')).flatten
      ((rest.dropWhile fun t => t.head? = some (chr '.')).flatMap operandNames).map (Register.mk type)
    else []

/-- The registers that the statements of a line declare, but for predicates. -/
def lineRegisters (line : Text) : List Register :=
  (((uncommented line).splitOnP (· == chr ';')).dropLast.flatMap statementRegisters).filter fun r => r.type ≠ str ".pred"

/-- All registers that the text declares. -/
def declaredRegisters (ptx : Text) : List Register := (getlines ptx).flatMap lineRegisters

/-- `%SP` and `%SPL` are left alone. -/
def isStackPointer (r : Register) : Bool := r.name == str "%SP" || r.name == str "%SPL"

/-- Without the stack pointers, which the guard leaves out. -/
def lineGeneralRegisters (line : Text) : List Register := (lineRegisters line).filter fun r => !isStackPointer r

/-- The registers that are saved. -/
def generalRegisters (ptx : Text) : List Register := (getlines ptx).flatMap lineGeneralRegisters

/-! ## Lines and what is put before them

The pass puts the stores of all registers behind the declarations, and their loads before each return that it sees. -/

/-- A line of the guard's own. -/
def GuardLine.isOwn : GuardLine → Bool
  | .outside _ | .line _ => false
  | _ => true

/-- Each line of the text with the guard's lines before it. -/
def blocks (before : List GuardLine) : List GuardLine → List (List GuardLine × Text)
  | [] => []
  | .outside text :: gs => (before, text) :: blocks [] gs
  | .line text :: gs => (before, text) :: blocks [] gs
  | g :: gs => blocks (before ++ [g]) gs

/-- What the guard puts before line `i`. -/
def insertedBefore (ptx : Text) (i : Nat) : List GuardLine := (((blocks [] (guardedLines ptx))[i]?).getD ([], [])).1

/-- The stores, each with its offset. -/
def stores (addr : Int) : List GuardLine → List (Text × Int)
  | [] => []
  | .addAddr offset :: gs => stores offset gs
  | .store _ name :: gs => (name, addr) :: stores addr gs
  | _ :: gs => stores addr gs

/-- The loads, each with its offset. -/
def loads (addr : Int) : List GuardLine → List (Text × Int)
  | [] => []
  | .addAddr offset :: gs => loads offset gs
  | .load _ name :: gs => (name, addr) :: loads addr gs
  | _ :: gs => loads addr gs

/-- The slots: what the guard stores before the first `n` lines, and where. -/
def slotsUpTo (ptx : Text) (n : Nat) : List (Text × Int) :=
  (List.range n).flatMap fun i => stores 0 (insertedBefore ptx i)

/-- The slots that the stores of the whole text write to. -/
def slots (ptx : Text) : List (Text × Int) := slotsUpTo ptx (getlines ptx).length

/-- The size of the area that is declared. -/
def savedSize : List GuardLine → Int
  | [] => 0
  | .saveArea size :: _ => size
  | _ :: gs => savedSize gs

/-- The declared size of the save area. -/
def areaSize (ptx : Text) : Int := savedSize (guardedLines ptx)

/-! ## Meaning

A line changes registers and memory. What the pass has to know of a line is which registers it names. -/

/-- What a line does. -/
inductive Outcome (σ : Type) where
  | next (s : σ)
  | jump (target : Nat) (s : σ)
  | ret

/-- A register holds as many bytes as its type has; the upper ones of the number are zero. -/
abbrev Regs := Text → BitVec 64

/-- What each line of a text does; `ω` is all of the machine but the registers: predicates, parameters and memory. -/
abbrev Meaning (ω : Type) := Nat → Regs × ω → Outcome (Regs × ω)

/-- The kernel's registers and world, and what the guard adds to them: its two registers and the save area. -/
structure GuardedState (ω : Type) where
  regs  : Regs
  world : ω
  base  : Int
  addr  : Int
  area  : Buffer (BitVec 8)

/-- The bytes of a `st.local` or a `ld.local`. -/
def modifierBytes (modifier : Text) : Nat :=
  if modifier = str ".u8" then 1
  else if modifier = str ".u16" then 2
  else if modifier = str ".u32" then 4
  else 8

variable {ω : Type}

/-- A line of the guard. Addresses count from the start of the area; `none` is an access outside of it. -/
def GuardLine.exec (s : GuardedState ω) : GuardLine → Option (GuardedState ω)
  | .movBase => some { s with base := 0 }
  | .addAddr offset => some { s with addr := s.base + offset }
  | .store modifier name =>
    if 0 ≤ s.addr then
      (s.area.write s.addr.toNat (leBytes (modifierBytes modifier) (s.regs name).toNat)).map fun area => { s with area }
    else none
  | .load modifier name =>
    if 0 ≤ s.addr then
      (s.area.read s.addr.toNat (modifierBytes modifier)).map fun bytes =>
        { s with regs := Function.update s.regs name (BitVec.ofNat 64 (leNat bytes)) }
    else none
  | _ => some s

/-- Lines of the guard, one after the other. -/
def runGuard (s : GuardedState ω) (gs : List GuardLine) : Option (GuardedState ω) := gs.foldlM GuardLine.exec s

/-- The line that a run of the text executes after `n` others, and the state it sees. -/
def lineAt (m : Meaning ω) (start : Regs × ω) : Nat → Option (Nat × (Regs × ω))
  | 0 => some (0, start)
  | n + 1 => (lineAt m start n).bind fun c =>
    match m c.1 c.2 with
    | .next s' => some (c.1 + 1, s')
    | .jump target s' => some (target, s')
    | .ret => none

/-- The same of the guarded text: the state is the one behind the guard's lines. -/
def guardedAt (ptx : Text) (m : Meaning ω) (start : GuardedState ω) : Nat → Option (Nat × GuardedState ω)
  | 0 => (runGuard start (insertedBefore ptx 0)).map (0, ·)
  | n + 1 => (guardedAt ptx m start n).bind fun c =>
    match m c.1 (c.2.regs, c.2.world) with
    | .next s' =>
      (runGuard { c.2 with regs := s'.1, world := s'.2 } (insertedBefore ptx (c.1 + 1))).map (c.1 + 1, ·)
    | .jump target s' => some (target, { c.2 with regs := s'.1, world := s'.2 })
    | .ret => none

/-- A line that does nothing: a declaration, a comment, a brace. -/
def Idle (m : Meaning ω) (i : Nat) : Prop := ∀ s, m i s = .next s

/-! ## A guarded text

All registers are in their slots before the first line that does something, and are loaded from them where the function
returns. -/

/-- The guard saves and restores the registers of a list: in the text, and in a run of it. -/
structure Guarded (rs : List Register) (ptx : Text) (m : Meaning ω) (start : GuardedState ω) : Prop where
  /-- Each register has one slot. -/
  slot : ∀ r ∈ rs, ∃ offset, (slots ptx).filter (fun p => p.1 = r.name) = [(r.name, offset)]
  inside : ∀ p ∈ slots ptx, 0 ≤ p.2 ∧ p.2 + 8 ≤ areaSize ptx
  apart : (slots ptx).Pairwise fun p q => p.2 + 8 ≤ q.2 ∨ q.2 + 8 ≤ p.2
  /-- Before the first line that does something, all are stored. -/
  first : ∀ i < (getlines ptx).length, ¬ Idle m i → slotsUpTo ptx (i + 1) = slots ptx
  /-- A line that does not return sees the registers that it sees in the text as it was. -/
  values : ∀ n i s, lineAt m (start.regs, start.world) n = some (i, s) → m i s ≠ .ret →
    ∃ g, guardedAt ptx m start n = some (i, g) ∧ g.regs = s.1 ∧ g.world = s.2
  /-- At a line that returns, each register is loaded from its slot and is what it was at the start. -/
  restored : ∀ n i s, lineAt m (start.regs, start.world) n = some (i, s) → m i s = .ret →
    (∀ p ∈ slots ptx, p ∈ loads 0 (insertedBefore ptx i)) ∧
      ∃ g, guardedAt ptx m start n = some (i, g) ∧ m i (g.regs, g.world) = .ret ∧
        ∀ r ∈ rs, g.regs r.name = start.regs r.name

/-! ## The condition -/

/-- What `regDeclRegex` reads from a line: one register or one family. -/
def readRegisters (line : Text) : List Register :=
  match matchRegDecl line with
  | none => []
  | some decl => if isExcluded decl then [] else (registerNames decl).2.map (Register.mk decl.type)

/-- **The condition on the text.** The guard sees the function: a definition line, perhaps empty lines and comments, a
line that is the opening brace, the declarations, the body, and the first line that is a closing brace. Each declaration
has a line of its own, at the top, and is one that the guard reads and keeps. -/
structure Layout (ptx : Text) where
  before  : List Text
  header  : Text
  middle  : List Text
  opening : Text
  top     : List Text
  body    : List Text
  closing : Text
  after   : List Text
  lines_eq : getlines ptx = before ++ (header :: middle ++ opening :: top ++ body ++ [closing]) ++ after
  before_not : ∀ l ∈ before, isFuncDef l = false
  header_is : isFuncDef header = true
  middle_top : ∀ l ∈ middle, isOpeningBrace l = false ∧ isTopLine l = true
  opening_is : isOpeningBrace opening = true
  top_is : ∀ l ∈ top, isTopLine l = true
  top_ends : ∀ l ∈ (body ++ [closing]).head?, isTopLine l = false
  body_not : ∀ l ∈ top ++ body, isClosingBrace l = false
  closing_is : isClosingBrace closing = true
  after_not : ∀ l ∈ after, isFuncDef l = false
  /-- Up to the end of the declarations no line is a `ret`. -/
  no_ret : ∀ l ∈ header :: middle ++ opening :: top, isRet l = false
  top_reads : ∀ l ∈ top, lineGeneralRegisters l = readRegisters l
  above_none : ∀ l ∈ before ++ (header :: middle ++ [opening]), lineGeneralRegisters l = []
  below_none : ∀ l ∈ body ++ closing :: after, lineGeneralRegisters l = []
  no_conflict : ((top.filterMap matchRegDecl).filter fun d => !isExcluded d).Pairwise fun d d' =>
    ¬ (d.base = d'.base ∧ d'.count.isSome = decide (1 < (registerNames d).1))
  names_nodup : ((top.flatMap readRegisters).map Register.name).Nodup
  small : 8 * (top.flatMap readRegisters).length < 2 ^ 31

namespace Layout

variable {ptx : Text} (layout : Layout ptx)

/-- The lines of the function. -/
def lines : List Text := layout.header :: layout.middle ++ layout.opening :: layout.top ++ layout.body ++ [layout.closing]

/-- The number of the first line behind the declarations. -/
def point : Nat := layout.before.length + (layout.middle.length + 2 + layout.top.length)

/-- The guard's loads stand before the line: it is in the function, and a `ret` that `retRegex` matches. -/
def Reloaded (i : Nat) : Prop :=
  (getlines ptx)[i]?.any isRet = true ∧ layout.point ≤ i ∧ i < layout.before.length + layout.lines.length

instance (i : Nat) : Decidable (layout.Reloaded i) :=
  inferInstanceAs (Decidable (_ = true ∧ layout.point ≤ i ∧ i < layout.before.length + layout.lines.length))

/-- The lines up to the end of the declarations do nothing; a jump goes to a label, which is behind them and has no `ret`
at its front; whether a `ret` returns is up to its predicate. -/
structure Lawful (m : Meaning ω) : Prop where
  idle  : ∀ i < layout.point, Idle m i
  jumps : ∀ i s target s', m i s = .jump target s' → layout.point ≤ target ∧ ¬ layout.Reloaded target
  guards : ∀ i, layout.Reloaded i → ∀ regs regs' world, m i (regs, world) = .ret → m i (regs', world) = .ret

/-- **The condition on the run.** The `ret` that returns is one that the guard sees, and a `ret` that the guard sees and
that does not return is come to with the registers as they were at the start. -/
def RetsFit (m : Meaning ω) (start : GuardedState ω) : Prop :=
  ∀ n i s, lineAt m (start.regs, start.world) n = some (i, s) →
    (m i s = .ret → generalRegisters ptx ≠ [] → layout.Reloaded i) ∧
      (m i s ≠ .ret → layout.Reloaded i → ∀ r ∈ generalRegisters ptx, s.1 r.name = start.regs r.name)

end Layout

/-- What holds when the function is entered: the area is there, and a register holds no more than its type does. -/
structure Entered (ptx : Text) (start : GuardedState ω) : Prop where
  area : (start.area.size : Int) = areaSize ptx
  fits : ∀ r ∈ generalRegisters ptx, (start.regs r.name).toNat < 2 ^ (8 * getRegisterSizeInBytes r.type)

/-! ## The lines that are put out

The lines of a text with one function, as the pass goes through them: up to the opening brace, up to the closing one,
and the rest. -/

section Loop
variable {result : List GuardLine} {current : List Text} {ls : List Text}

/-- Lines out of any function are passed on. -/
theorem foldl_outside (h : ∀ l ∈ ls, isFuncDef l = false) :
    ls.foldl guardLine ⟨result, [], false, false⟩ = ⟨result ++ ls.map .outside, [], false, false⟩ := by
  induction ls generalizing result with
  | nil => rw [List.foldl_nil, List.map_nil, List.append_nil]
  | cons l ls ih =>
    obtain ⟨hl, hls⟩ := List.forall_mem_cons.mp h
    have hstep : guardLine ⟨result, [], false, false⟩ l = ⟨result ++ [.outside l], [], false, false⟩ := by
      simp [guardLine, hl]
    rw [List.foldl_cons, hstep, ih hls, List.map_cons, List.append_assoc, List.singleton_append]

/-- From the definition to the opening brace. -/
theorem foldl_definition (h : ∀ l ∈ ls, isOpeningBrace l = false) :
    ls.foldl guardLine ⟨result, current, true, false⟩ = ⟨result, current ++ ls, true, false⟩ := by
  induction ls generalizing current with
  | nil => rw [List.foldl_nil, List.append_nil]
  | cons l ls ih =>
    obtain ⟨hl, hls⟩ := List.forall_mem_cons.mp h
    have hstep : guardLine ⟨result, current, true, false⟩ l = ⟨result, current ++ [l], true, false⟩ := by
      simp [guardLine, hl]
    rw [List.foldl_cons, hstep, ih hls, List.append_assoc, List.singleton_append]

/-- From there to the closing brace. -/
theorem foldl_body (h : ∀ l ∈ ls, isClosingBrace l = false) :
    ls.foldl guardLine ⟨result, current, false, true⟩ = ⟨result, current ++ ls, false, true⟩ := by
  induction ls generalizing current with
  | nil => rw [List.foldl_nil, List.append_nil]
  | cons l ls ih =>
    obtain ⟨hl, hls⟩ := List.forall_mem_cons.mp h
    have hstep : guardLine ⟨result, current, false, true⟩ l = ⟨result, current ++ [l], false, true⟩ := by
      simp [guardLine, hl]
    rw [List.foldl_cons, hstep, ih hls, List.append_assoc, List.singleton_append]

end Loop

namespace Layout

variable {ptx : Text} (layout : Layout ptx)

/-- The guarded text is the text with its one function guarded. -/
theorem guardedLines_eq : guardedLines ptx =
    layout.before.map .outside ++ guardFunction layout.lines ++ layout.after.map .outside := by
  have hopen : guardLine ⟨layout.before.map .outside, layout.header :: layout.middle, true, false⟩ layout.opening =
      ⟨layout.before.map .outside, layout.header :: layout.middle ++ [layout.opening], false, true⟩ := by
    simp [guardLine, layout.opening_is]
  have hheader : guardLine ⟨layout.before.map .outside, [], false, false⟩ layout.header =
      ⟨layout.before.map .outside, [layout.header], true, false⟩ := by
    simp [guardLine, layout.header_is]
  have hclose : guardLine ⟨layout.before.map .outside, layout.header :: layout.middle ++ [layout.opening] ++
      (layout.top ++ layout.body), false, true⟩ layout.closing =
      ⟨layout.before.map .outside ++ guardFunction layout.lines, [], false, false⟩ := by
    simp [guardLine, layout.closing_is, lines]
  have hall : (getlines ptx).foldl guardLine ⟨[], [], false, false⟩ =
      ⟨layout.before.map .outside ++ guardFunction layout.lines ++ layout.after.map .outside, [], false, false⟩ := by
    have hlines : getlines ptx = layout.before ++ (layout.header :: (layout.middle ++ (layout.opening ::
        ((layout.top ++ layout.body) ++ (layout.closing :: layout.after))))) := by
      rw [layout.lines_eq]
      simp only [List.append_assoc, List.cons_append, List.nil_append]
    rw [hlines, List.foldl_append, foldl_outside layout.before_not, List.nil_append, List.foldl_cons, hheader,
      List.foldl_append, foldl_definition fun l hl => (layout.middle_top l hl).1, List.foldl_cons]
    show List.foldl guardLine (guardLine ⟨_, layout.header :: layout.middle, true, false⟩ layout.opening) _ = _
    rw [hopen, List.foldl_append, foldl_body layout.body_not, List.foldl_cons, hclose, foldl_outside layout.after_not]
  rw [guardedLines, hall]
  rfl

/-- The opening brace is the first line after the definition that has one. -/
theorem openingBraceFrom_middle {middle rest : List Text} {opening : Text} (i : Nat)
    (hmiddle : ∀ l ∈ middle, isOpeningBrace l = false ∧ isTopLine l = true) (hopen : isOpeningBrace opening = true) :
    openingBraceFrom i (middle ++ opening :: rest) = some (i + middle.length) := by
  induction middle generalizing i with
  | nil => rw [List.nil_append, openingBraceFrom, if_pos hopen]; rfl
  | cons l middle ih =>
    obtain ⟨⟨hnot, htop⟩, hrest⟩ := List.forall_mem_cons.mp hmiddle
    rw [List.cons_append, openingBraceFrom, hnot, if_neg Bool.false_ne_true, if_pos htop, ih (i + 1) hrest,
      List.length_cons, Nat.add_assoc, Nat.add_comm 1]

/-- The declarations end where the body begins. -/
theorem takeWhile_top : (layout.top ++ (layout.body ++ [layout.closing])).takeWhile isTopLine = layout.top := by
  rw [List.takeWhile_append_of_pos layout.top_is]
  have hnone : (layout.body ++ [layout.closing]).takeWhile isTopLine = [] := by
    have hends := layout.top_ends
    cases hbody : layout.body ++ [layout.closing] with
    | nil => rfl
    | cons l ls =>
      rw [hbody] at hends
      rw [List.takeWhile_cons, hends l rfl]
      rfl
  rw [hnone, List.append_nil]

/-- The registers that the guard keeps. -/
def regs : List RegisterInfo := layout.top.foldl collectLine []

/-- The guard goes behind the declarations, and in front of each return. -/
theorem guardFunction_eq : guardFunction layout.lines =
    instrumentFrom (layout.middle.length + 2 + layout.top.length) (newDecls layout.regs ++ pushCodeBlock layout.regs)
      (popCodeBlock layout.regs) 0 layout.lines := by
  have htail : layout.lines.tail =
      layout.middle ++ layout.opening :: (layout.top ++ (layout.body ++ [layout.closing])) := by
    simp only [lines, List.cons_append, List.tail_cons, List.append_assoc]
  have hdrop : layout.lines.drop (1 + layout.middle.length + 1) = layout.top ++ (layout.body ++ [layout.closing]) := by
    have hsplit : layout.lines = (layout.header :: layout.middle ++ [layout.opening]) ++
        (layout.top ++ (layout.body ++ [layout.closing])) := by
      simp only [lines, List.cons_append, List.append_assoc, List.nil_append]
    rw [hsplit]
    apply List.drop_left'
    simp only [List.length_append, List.length_cons, List.length_nil]
    omega
  have hpoint : 1 + layout.middle.length + 1 + layout.top.length = layout.middle.length + 2 + layout.top.length := by omega
  rw [guardFunction, htail, openingBraceFrom_middle 1 layout.middle_top layout.opening_is]
  show instrumentFrom _ _ _ _ _ = _
  rw [hdrop, layout.takeWhile_top, hpoint]
  rfl

/-! ## The registers that are kept

A register is kept if the text declares it and its kind has stores and loads. -/

/-- The declarations that the guard reads and does not leave out. -/
def keptDecls (ls : List Text) : List RegDecl := (ls.filterMap matchRegDecl).filter fun d => !isExcluded d

/-- Two declarations that can be told apart do not conflict. -/
theorem nameConflict_false {ds : List RegDecl} {d : RegDecl}
    (h : ∀ d' ∈ ds, ¬ (d'.base = d.base ∧ d.count.isSome = decide (1 < (registerNames d').1))) :
    nameConflict (ds.map registerInfo) d = false := by
  rw [nameConflict, List.any_map, List.any_eq_false]
  intro d' hd' hboth
  have hparts := Bool.and_eq_true_iff.mp hboth
  exact h d' hd' ⟨beq_iff_eq.mp hparts.1, beq_iff_eq.mp hparts.2⟩

/-- Each declaration is collected, as none conflicts with the others. -/
theorem foldl_collectLine (ls : List Text) (ds : List RegDecl)
    (h : (ds ++ keptDecls ls).Pairwise fun d d' => ¬ (d.base = d'.base ∧ d'.count.isSome = decide (1 < (registerNames d).1))) :
    ls.foldl collectLine (ds.map registerInfo) = (ds ++ keptDecls ls).map registerInfo := by
  induction ls generalizing ds with
  | nil => rw [List.foldl_nil, keptDecls, List.filterMap_nil, List.filter_nil, List.append_nil]
  | cons l ls ih =>
    rw [List.foldl_cons]
    -- a line that declares nothing, or only what is excluded, is passed over
    cases hmatch : matchRegDecl l with
    | none =>
      have hkept : keptDecls (l :: ls) = keptDecls ls := by rw [keptDecls, List.filterMap_cons_none hmatch]; rfl
      have hline : collectLine (ds.map registerInfo) l = ds.map registerInfo := by rw [collectLine, hmatch]
      rw [hkept] at h ⊢
      rw [hline, ih ds h]
    | some d =>
      by_cases hexcluded : isExcluded d = true
      · have hkept : keptDecls (l :: ls) = keptDecls ls := by
          rw [keptDecls, List.filterMap_cons_some hmatch, List.filter_cons_of_neg (by simp [hexcluded])]
          rfl
        have hline : collectLine (ds.map registerInfo) l = ds.map registerInfo := by
          rw [collectLine, hmatch]
          simp [hexcluded]
        rw [hkept] at h ⊢
        rw [hline, ih ds h]
      · rw [Bool.not_eq_true] at hexcluded
        have hkept : keptDecls (l :: ls) = d :: keptDecls ls := by
          rw [keptDecls, List.filterMap_cons_some hmatch, List.filter_cons_of_pos (by simp [hexcluded])]
          rfl
        rw [hkept] at h ⊢
        have hline : collectLine (ds.map registerInfo) l = (ds ++ [d]).map registerInfo := by
          have hconflict : nameConflict (ds.map registerInfo) d = false :=
            nameConflict_false fun d' hd' => (List.pairwise_append.mp h).2.2 d' hd' d List.mem_cons_self
          rw [collectLine, hmatch]
          simp [hexcluded, hconflict]
        have happend : ds ++ d :: keptDecls ls = ds ++ [d] ++ keptDecls ls := by rw [List.append_assoc, List.singleton_append]
        rw [happend] at h ⊢
        rw [hline, ih (ds ++ [d]) h]

/-- The registers collected are those of the declarations that are kept. -/
theorem regs_eq : layout.regs = (keptDecls layout.top).map registerInfo :=
  foldl_collectLine layout.top [] layout.no_conflict

/-- The modifier of a type. -/
def modifierOf (type : Text) : Text := getPtxStorageTypeModifier type (getRegisterSizeInBytes type)

/-- Which have the same names and types as the text says. -/
theorem flatMap_readRegisters (ls : List Text) :
    ls.flatMap readRegisters = (keptDecls ls).flatMap fun d => (registerNames d).2.map (Register.mk d.type) := by
  induction ls with
  | nil => rfl
  | cons l ls ih =>
    rw [List.flatMap_cons, ih]
    cases hmatch : matchRegDecl l with
    | none => rw [readRegisters, hmatch, keptDecls, keptDecls, List.filterMap_cons_none hmatch]; rfl
    | some d =>
      rw [readRegisters, hmatch, keptDecls, keptDecls, List.filterMap_cons_some hmatch]
      by_cases hexcluded : isExcluded d = true
      · rw [List.filter_cons_of_neg (by simp [hexcluded])]
        simp [hexcluded]
      · rw [List.filter_cons_of_pos (by simp [hexcluded]), List.flatMap_cons]
        simp [hexcluded]

/-- All are declared at the top of the function. -/
theorem generalRegisters_eq : generalRegisters ptx = layout.top.flatMap readRegisters := by
  have hnone : ∀ ls : List Text, (∀ l ∈ ls, lineGeneralRegisters l = []) → ls.flatMap lineGeneralRegisters = [] := fun ls h =>
    List.flatMap_eq_nil_iff.mpr h
  have hlines : getlines ptx = layout.before ++ (layout.header :: layout.middle ++ [layout.opening]) ++
      (layout.top ++ (layout.body ++ layout.closing :: layout.after)) := by
    rw [layout.lines_eq]
    simp only [List.append_assoc, List.cons_append, List.nil_append]
  have habove := hnone _ layout.above_none
  have hbelow := hnone _ layout.below_none
  rw [generalRegisters, hlines, List.flatMap_append, habove, List.nil_append, List.flatMap_append, hbelow, List.append_nil]
  exact List.flatMap_congr layout.top_reads

/-- They fit in an area of less than `2 ^ 31` bytes. -/
theorem length_small (layout : Layout ptx) : 8 * (generalRegisters ptx).length < 2 ^ 31 :=
  layout.generalRegisters_eq ▸ layout.small

/-- No two have one name. -/
theorem nodup_names (layout : Layout ptx) : ((generalRegisters ptx).map Register.name).Nodup :=
  layout.generalRegisters_eq ▸ layout.names_nodup

/-- What the guard saves is what the text declares. -/
theorem savedRegisters_eq :
    savedRegisters layout.regs = (generalRegisters ptx).map fun r => (r.name, modifierOf r.type) := by
  rw [layout.generalRegisters_eq, flatMap_readRegisters, layout.regs_eq, savedRegisters, List.flatMap_map, List.map_flatMap]
  simp only [List.map_map]
  rfl

/-- The registers that are kept have a size. -/
theorem size_mem (layout : Layout ptx) {r : Register} (hr : r ∈ generalRegisters ptx) : getRegisterSizeInBytes r.type ∈ [1, 2, 4, 8] := by
  rw [layout.generalRegisters_eq, flatMap_readRegisters] at hr
  obtain ⟨d, hd, hr⟩ := List.mem_flatMap.mp hr
  obtain ⟨name, -, rfl⟩ := List.mem_map.mp hr
  have hkept : isExcluded d = false := by
    have h := (List.mem_filter.mp hd).2
    simpa using h
  have hsize : getRegisterSizeInBytes d.type ≠ 0 := by
    intro hzero
    simp [isExcluded, hzero] at hkept
  have hmem : ∀ type, getRegisterSizeInBytes type ∈ [0, 1, 2, 4, 8] := by
    intro type
    unfold getRegisterSizeInBytes
    repeat' split
    all_goals decide
  rcases List.mem_cons.mp (hmem d.type) with hzero | h
  · exact absurd hzero hsize
  · exact h

/-- The width of the access is that of the type. -/
theorem modifierBytes_modifierOf {type : Text} (h : getRegisterSizeInBytes type ∈ [1, 2, 4, 8]) :
    modifierBytes (modifierOf type) = getRegisterSizeInBytes type := by
  unfold modifierOf
  rcases List.mem_cons.mp h with h | h
  · rw [h]; rfl
  · rcases List.mem_cons.mp h with h | h
    · rw [h]; rfl
    · rcases List.mem_cons.mp h with h | h
      · rw [h]; rfl
      · rw [List.mem_singleton.mp h]; rfl

/-- A small number is itself as an `int`. -/
theorem toInt32_natCast {n : Nat} (h : n < 2 ^ 31) : toInt32 (n : Int) = n := by
  rw [toInt32, BitVec.toInt_ofInt, Int.bmod_eq_of_le] <;> omega

/-- The offsets stay small, so none of them wraps. -/
theorem foldl_total (ds : List RegDecl) (offset : Nat)
    (h : offset + 8 * (ds.flatMap fun d => (registerNames d).2).length < 2 ^ 31) :
    (ds.map registerInfo).foldl (fun offset r => toInt32 (offset + r.names.length * 8)) (offset : Int) =
      (offset + 8 * (ds.flatMap fun d => (registerNames d).2).length : Nat) := by
  induction ds generalizing offset with
  | nil => rfl
  | cons d ds ih =>
    rw [List.flatMap_cons, List.length_append] at h ⊢
    have hwrap : toInt32 ((offset : Int) + (registerInfo d).names.length * 8) =
        (offset + 8 * (registerNames d).2.length : Nat) := by
      have hcast : (offset : Int) + (registerInfo d).names.length * 8 = (offset + 8 * (registerNames d).2.length : Nat) := by
        rw [Int.natCast_add, Int.natCast_mul, Int.mul_comm]
        rfl
      rw [hcast, toInt32_natCast (by omega)]
    rw [List.map_cons, List.foldl_cons, hwrap, ih _ (by omega)]
    congr 1
    omega

/-- The area has a slot of eight bytes for each register. -/
theorem total_eq : totalBytesForSavedRegs layout.regs = (8 * (generalRegisters ptx).length : Nat) := by
  have hlength : (generalRegisters ptx).length = ((keptDecls layout.top).flatMap fun d => (registerNames d).2).length := by
    rw [layout.generalRegisters_eq, flatMap_readRegisters, List.length_flatMap, List.length_flatMap]
    simp only [List.length_map]
  have hsmall := layout.length_small
  rw [hlength] at hsmall ⊢
  rw [totalBytesForSavedRegs, layout.regs_eq]
  have htotal := foldl_total (keptDecls layout.top) 0 (by omega)
  rw [Nat.zero_add] at htotal
  exact htotal

/-! ## What stands before each line

Blocks of the guard's lines, counted by the lines of the text: the stores stand before the first line of the body, the
loads before returns. -/

/-- The guard's lines behind the declarations. -/
def pushPart : List GuardLine := newDecls layout.regs ++ pushCodeBlock layout.regs

/-- The lines that load the registers. -/
def popPart : List GuardLine := popCodeBlock layout.regs

/-- The guard's own lines belong to the next line of the text. -/
theorem blocks_own {gs : List GuardLine} (h : ∀ g ∈ gs, g.isOwn = true) (before rest : List GuardLine) :
    blocks before (gs ++ rest) = blocks (before ++ gs) rest := by
  induction gs generalizing before with
  | nil => rw [List.nil_append, List.append_nil]
  | cons g gs ih =>
    obtain ⟨hg, hgs⟩ := List.forall_mem_cons.mp h
    have hstep : blocks before (g :: (gs ++ rest)) = blocks (before ++ [g]) (gs ++ rest) := by
      cases g with
      | outside text => cases hg
      | line text => cases hg
      | _ => rfl
    rw [List.cons_append, hstep, ih hgs, List.append_assoc, List.singleton_append]

/-- Lines out of the function have none. -/
theorem blocks_outside (ls : List Text) (rest : List GuardLine) :
    blocks [] (ls.map .outside ++ rest) = ls.map (([], ·)) ++ blocks [] rest := by
  induction ls with
  | nil => rfl
  | cons l ls ih =>
    rw [List.map_cons, List.cons_append, blocks, ih]
    rfl

/-- Within the function the stores belong to the line behind the declarations, and the loads to the returns. -/
theorem blocks_instrumentFrom {point : Nat} {inserted pop : List GuardLine} (hinserted : ∀ g ∈ inserted, g.isOwn = true)
    (hpop : ∀ g ∈ pop, g.isOwn = true) (i : Nat) (ls : List Text) (hpoint : point ≠ i + ls.length) (rest : List GuardLine) :
    blocks [] (instrumentFrom point inserted pop i ls ++ rest) =
      (ls.zipIdx i).map (fun p => ((if p.2 = point then inserted else []) ++ (if isRet p.1 then pop else []), p.1)) ++
        blocks [] rest := by
  induction ls generalizing i with
  | nil =>
    rw [instrumentFrom, if_neg fun h => hpoint h.symm]
    rfl
  | cons l ls ih =>
    have hown : ∀ g ∈ (if i = point then inserted else []) ++ (if isRet l then pop else []), g.isOwn = true := by
      intro g hg
      rcases List.mem_append.mp hg with hg | hg
      · split at hg
        · exact hinserted g hg
        · cases hg
      · split at hg
        · exact hpop g hg
        · cases hg
    have hpoint' : point ≠ i + 1 + ls.length := by
      rw [List.length_cons] at hpoint
      omega
    rw [instrumentFrom, List.append_assoc, blocks_own hown, List.nil_append, List.cons_append, blocks, ih _ hpoint',
      List.zipIdx_cons, List.map_cons, List.cons_append]

/-- Storing is the guard's own. -/
theorem isOwn_pushFrom (offset : Int) (saved : List (Text × Text)) : ∀ g ∈ pushFrom offset saved, g.isOwn = true := by
  induction saved generalizing offset with
  | nil =>
    intro g hg
    cases hg
  | cons r saved ih => exact List.forall_mem_cons.mpr ⟨rfl, List.forall_mem_cons.mpr ⟨rfl, ih _⟩⟩

/-- And so is loading. -/
theorem isOwn_popFrom (offset : Int) (saved : List (Text × Text)) : ∀ g ∈ popFrom offset saved, g.isOwn = true := by
  induction saved generalizing offset with
  | nil =>
    intro g hg
    cases hg
  | cons r saved ih => exact List.forall_mem_cons.mpr ⟨rfl, List.forall_mem_cons.mpr ⟨rfl, ih _⟩⟩

/-- The lines of a block: a comment, the address of the area, the accesses and a comment. -/
theorem isOwn_block {gs : List GuardLine} (h : ∀ g ∈ gs, g.isOwn = true) (first last : Text) :
    ∀ g ∈ .comment first :: .movBase :: gs ++ [.comment last], g.isOwn = true := by
  intro g hg
  rcases List.mem_append.mp hg with hg | hg
  · rcases List.mem_cons.mp hg with rfl | hg
    · rfl
    · rcases List.mem_cons.mp hg with rfl | hg
      · rfl
      · exact h g hg
  · rw [List.mem_singleton.mp hg]
    rfl

/-- The whole of what is put in front. -/
theorem isOwn_pushPart : ∀ g ∈ layout.pushPart, g.isOwn = true := by
  intro g hg
  rcases List.mem_append.mp hg with hg | hg
  · unfold newDecls at hg
    split at hg
    · cases hg
    · simp only [List.mem_cons, List.not_mem_nil, or_false] at hg
      rcases hg with rfl | rfl | rfl <;> rfl
  · unfold pushCodeBlock at hg
    split at hg
    · exact isOwn_block (isOwn_pushFrom 0 (savedRegisters layout.regs)) _ _ g hg
    · cases hg

/-- And of what is put at the returns. -/
theorem isOwn_popPart : ∀ g ∈ layout.popPart, g.isOwn = true := by
  intro g hg
  unfold popPart popCodeBlock at hg
  split at hg
  · exact isOwn_block (isOwn_popFrom _ _) _ _ g hg
  · cases hg

/-- The guarded text, line by line. -/
theorem blocks_eq : blocks [] (guardedLines ptx) =
    layout.before.map (([], ·)) ++ (layout.lines.zipIdx.map fun p =>
      ((if p.2 = layout.middle.length + 2 + layout.top.length then layout.pushPart else []) ++
        (if isRet p.1 then layout.popPart else []), p.1)) ++ layout.after.map (([], ·)) := by
  have hpoint : layout.middle.length + 2 + layout.top.length ≠ 0 + layout.lines.length := by
    simp only [lines, List.length_append, List.length_cons, List.length_nil]
    omega
  have hafter : blocks [] (layout.after.map .outside) = layout.after.map (([], ·)) := by
    have h := blocks_outside layout.after []
    rw [List.append_nil, blocks, List.append_nil] at h
    exact h
  rw [layout.guardedLines_eq, layout.guardFunction_eq, List.append_assoc, blocks_outside]
  show _ ++ blocks [] (instrumentFrom _ layout.pushPart layout.popPart 0 _ ++ _) = _
  rw [blocks_instrumentFrom layout.isOwn_pushPart layout.isOwn_popPart 0 layout.lines hpoint, hafter, List.append_assoc]

/-- The lines of the function. -/
theorem length_lines : layout.lines.length =
    layout.middle.length + 2 + layout.top.length + (layout.body.length + 1) := by
  simp only [lines, List.length_append, List.length_cons, List.length_nil]
  omega

/-- A line above the end of the declarations is no `ret`. -/
theorem isRet_above {j : Nat} (hj : j < layout.middle.length + 2 + layout.top.length) {l : Text}
    (hl : layout.lines[j]? = some l) : isRet l = false := by
  have hsplit : layout.lines = (layout.header :: layout.middle ++ layout.opening :: layout.top) ++
      (layout.body ++ [layout.closing]) := by
    simp only [lines, List.cons_append, List.append_assoc]
  have hlength : j < (layout.header :: layout.middle ++ layout.opening :: layout.top).length := by
    simp only [List.length_append, List.length_cons]
    omega
  rw [hsplit, List.getElem?_append_left hlength] at hl
  exact layout.no_ret l (List.mem_of_getElem? hl)

/-- **What stands before a line**: behind the declarations the stores, and before a `ret` that the guard sees the loads. -/
theorem insertedBefore_eq (i : Nat) : insertedBefore ptx i =
    (if i = layout.point then layout.pushPart else []) ++ (if layout.Reloaded i then layout.popPart else []) := by
  have hlength := layout.length_lines
  -- nothing is inserted out of the function
  have houtside : i < layout.before.length ∨ layout.before.length + layout.lines.length ≤ i →
      (if i = layout.point then layout.pushPart else []) ++ (if layout.Reloaded i then layout.popPart else []) = [] := by
    intro hi
    have hpoint : i ≠ layout.point := by
      unfold point
      omega
    have hreloaded : ¬ layout.Reloaded i := by
      rintro ⟨-, hlow, hhigh⟩
      unfold point at hlow
      omega
    rw [if_neg hpoint, if_neg hreloaded]
    rfl
  rw [insertedBefore, layout.blocks_eq]
  rcases Nat.lt_or_ge i layout.before.length with hi | hi
  · rw [houtside (Or.inl hi), List.append_assoc, List.getElem?_append_left (by rwa [List.length_map]), List.getElem?_map,
      List.getElem?_eq_getElem hi]
    rfl
  · rw [List.append_assoc, List.getElem?_append_right (by rwa [List.length_map]), List.length_map]
    obtain ⟨j, rfl⟩ := Nat.exists_eq_add_of_le hi
    rw [Nat.add_sub_cancel_left]
    rcases Nat.lt_or_ge j layout.lines.length with hj | hj
    · have hline : (getlines ptx)[layout.before.length + j]? = some layout.lines[j] := by
        rw [layout.lines_eq]
        show (layout.before ++ layout.lines ++ layout.after)[layout.before.length + j]? = _
        rw [List.append_assoc, List.getElem?_append_right (Nat.le_add_right _ _), Nat.add_sub_cancel_left,
          List.getElem?_append_left hj, List.getElem?_eq_getElem hj]
      have hpoint : layout.before.length + j = layout.point ↔ j = layout.middle.length + 2 + layout.top.length := by
        unfold point
        omega
      have hreloaded : layout.Reloaded (layout.before.length + j) ↔ isRet layout.lines[j] = true := by
        unfold Reloaded
        rw [hline]
        constructor
        · exact fun h => h.1
        · intro hret
          refine ⟨hret, ?_, by omega⟩
          by_contra hlow
          have habove := layout.isRet_above (j := j) (by unfold point at hlow; omega) (List.getElem?_eq_getElem hj)
          rw [habove] at hret
          cases hret
      rw [List.getElem?_append_left (by rw [List.length_map, List.length_zipIdx]; exact hj), List.getElem?_map,
        List.getElem?_zipIdx, List.getElem?_eq_getElem hj, if_congr hpoint rfl rfl, if_congr hreloaded rfl rfl]
      simp
    · rw [houtside (Or.inr (by omega)), List.getElem?_append_right (by rw [List.length_map, List.length_zipIdx]; exact hj),
        List.getElem?_map]
      cases layout.after[j - (layout.lines.zipIdx.map _).length]? with
      | none => rfl
      | some l => rfl

end Layout

/-! ## The stores and the loads, run

A block run from a memory with room for its slots writes those and reads them back. -/

section Blocks
variable {s : GuardedState ω}

/-- The name and the modifier of a register's store. -/
def Register.saved (r : Register) : Text × Text := (r.name, Layout.modifierOf r.type)

/-- The bytes of a register. -/
def Register.size (r : Register) : Nat := getRegisterSizeInBytes r.type

/-- The registers as they were are in the slots from `i` on. -/
def SavedIn (area : Buffer (BitVec 8)) (i : Nat) (rs : List Register) (regs : Regs) : Prop :=
  ∀ k, (hk : k < rs.length) → load area.cells (8 * (i + k)) rs[k].size = leBytes rs[k].size (regs rs[k].name).toNat

/-- The registers with those of the list as they were. -/
def restore (rs : List Register) (old regs : Regs) : Regs := fun name =>
  if ∃ r ∈ rs, r.name = name then old name else regs name

/-- One part after the other. -/
theorem runGuard_append (gs gs' : List GuardLine) :
    runGuard s (gs ++ gs') = (runGuard s gs).bind (runGuard · gs') := List.foldlM_append

/-- One line and the rest. -/
theorem runGuard_cons {s' : GuardedState ω} {g : GuardLine} (gs : List GuardLine) (h : g.exec s = some s') :
    runGuard s (g :: gs) = runGuard s' gs := by
  rw [runGuard, List.foldlM_cons, h]
  rfl

/-- The address register moves. -/
theorem exec_addAddr (hbase : s.base = 0) (offset : Int) :
    GuardLine.exec s (.addAddr offset) = some { s with addr := offset } := by
  show some { s with addr := s.base + offset } = _
  rw [hbase, Int.zero_add]

/-- No register is larger than its slot. -/
theorem size_le_of_mem {n : Nat} (h : n ∈ [1, 2, 4, 8]) : n ≤ 8 := by
  revert n
  decide

/-- **The stores** put each register in its slot, and change nothing else. -/
theorem run_pushFrom (rs : List Register) (i : Nat) (hbase : s.base = 0) (hsize : ∀ r ∈ rs, r.size ∈ [1, 2, 4, 8])
    (hfit : 8 * (i + rs.length) ≤ s.area.size) (hsmall : 8 * (i + rs.length) < 2 ^ 31) :
    ∃ s', runGuard s (pushFrom (8 * i : Nat) (rs.map Register.saved)) = some s' ∧ s'.regs = s.regs ∧ s'.world = s.world ∧
      s'.base = 0 ∧ s'.area.size = s.area.size ∧ SavedIn s'.area i rs s.regs ∧
      ∀ a < 8 * i, s'.area.cells a = s.area.cells a := by
  induction rs generalizing i s with
  | nil => exact ⟨s, rfl, rfl, rfl, hbase, rfl, fun k hk => absurd hk (Nat.not_lt_zero k), fun a _ => rfl⟩
  | cons r rs ih =>
    obtain ⟨hr, hrs⟩ := List.forall_mem_cons.mp hsize
    rw [List.length_cons] at hfit hsmall
    have hle : r.size ≤ 8 := size_le_of_mem hr
    let bytes := leBytes r.size (s.regs r.name).toNat
    let s1 : GuardedState ω := { s with addr := (8 * i : Nat) }
    let s2 : GuardedState ω := { s1 with area := { s.area with cells := store s.area.cells (8 * i) bytes } }
    have hstore : (GuardLine.store (Layout.modifierOf r.type) r.name).exec s1 = some s2 := by
      have hwrite : s.area.write (8 * i) bytes = some { s.area with cells := store s.area.cells (8 * i) bytes } := by
        apply Buffer.write_eq
        rw [length_leBytes]
        omega
      rw [GuardLine.exec, if_pos (Int.natCast_nonneg _), Layout.modifierBytes_modifierOf hr]
      show (s.area.write (8 * i) bytes).map _ = _
      rw [hwrite]
      rfl
    -- the offset of the next slot, without wrapping
    have hoffset : toInt32 ((8 * i : Nat) + 8) = (8 * (i + 1) : Nat) := by
      have hcast : ((8 * i : Nat) : Int) + 8 = (8 * (i + 1) : Nat) := by omega
      rw [hcast, Layout.toInt32_natCast (by omega)]
    obtain ⟨s', hrun, hregs, hworld, hbase', hsize', hsaved, hsame⟩ :=
      ih (s := s2) (i + 1) hbase hrs (by show 8 * (i + 1 + rs.length) ≤ s.area.size; omega) (by omega)
    refine ⟨s', ?_, hregs, hworld, hbase', hsize', ?_, ?_⟩
    · rw [List.map_cons]
      show runGuard s (.addAddr _ :: .store _ _ :: pushFrom (toInt32 _) _) = _
      rw [runGuard_cons _ (exec_addAddr hbase _), runGuard_cons _ hstore, hoffset]
      exact hrun
    · intro k hk
      cases k with
      | zero =>
        have hfirst : load s'.area.cells (8 * i) r.size = load s2.area.cells (8 * i) r.size :=
          load_congr fun j hj => hsame (8 * i + j) (by omega)
        show load s'.area.cells (8 * i) r.size = bytes
        have hlength : r.size = bytes.length := (length_leBytes _ _).symm
        rw [hfirst, hlength]
        exact load_store
      | succ k =>
        have hplace : i + (k + 1) = i + 1 + k := by omega
        rw [hplace]
        exact hsaved k (Nat.lt_of_succ_lt_succ hk)
    · intro a ha
      rw [hsame a (by omega)]
      exact store_out (Or.inl ha)

/-- **The loads** get each register from its slot, and change nothing else. -/
theorem run_popFrom (rs : List Register) {old : Regs} (hbase : s.base = 0) (hsize : ∀ r ∈ rs, r.size ∈ [1, 2, 4, 8])
    (hfit : 8 * rs.length ≤ s.area.size) (hsmall : 8 * rs.length < 2 ^ 31) (hsaved : SavedIn s.area 0 rs old)
    (hold : ∀ r ∈ rs, (old r.name).toNat < 2 ^ (8 * r.size)) :
    ∃ s', runGuard s (popFrom ((8 * rs.length : Nat) - 8) (rs.map Register.saved).reverse) = some s' ∧
      s'.regs = restore rs old s.regs ∧ s'.world = s.world ∧ s'.area = s.area := by
  -- the loads go from the last slot down
  induction rs using List.reverseRecOn generalizing s with
  | nil => exact ⟨s, rfl, rfl, rfl, rfl⟩
  | append_singleton rs r ih =>
    have hr : r.size ∈ [1, 2, 4, 8] := hsize r (List.mem_append_right _ (List.mem_singleton_self r))
    have hle : r.size ≤ 8 := size_le_of_mem hr
    rw [List.length_append, List.length_singleton] at hfit hsmall
    let s1 : GuardedState ω := { s with addr := (8 * rs.length : Nat) }
    let s2 : GuardedState ω := { s1 with regs := Function.update s.regs r.name (old r.name) }
    have hlast : load s.area.cells (8 * rs.length) r.size = leBytes r.size (old r.name).toNat := by
      have h := hsaved rs.length (by rw [List.length_append, List.length_singleton]; omega)
      rw [Nat.zero_add, List.getElem_concat_length rfl] at h
      exact h
    have hload : (GuardLine.load (Layout.modifierOf r.type) r.name).exec s1 = some s2 := by
      have hread : s.area.read (8 * rs.length) r.size = some (leBytes r.size (old r.name).toNat) := by
        rw [Buffer.read_eq (by omega), hlast]
      have hfits := hold r (List.mem_append_right _ (List.mem_singleton_self r))
      rw [GuardLine.exec, if_pos (Int.natCast_nonneg _), Layout.modifierBytes_modifierOf hr]
      show (s.area.read (8 * rs.length) r.size).map _ = _
      rw [hread, Option.map_some, leNat_leBytes hfits, BitVec.ofNat_toNat, BitVec.setWidth_eq]
    have hsaved' : SavedIn s2.area 0 rs old := by
      intro k hk
      have h := hsaved k (by rw [List.length_append]; omega)
      rw [List.getElem_append_left hk] at h
      exact h
    obtain ⟨s', hrun, hregs, hworld, harea⟩ := ih (s := s2) hbase (fun q hq => hsize q (List.mem_append_left _ hq))
      (by show 8 * rs.length ≤ s.area.size; omega) (by omega) hsaved' fun q hq => hold q (List.mem_append_left _ hq)
    refine ⟨s', ?_, ?_, hworld, harea⟩
    · have hoffset : ((8 * (rs ++ [r]).length : Nat) : Int) - 8 = (8 * rs.length : Nat) := by
        rw [List.length_append, List.length_singleton]
        omega
      have hrest : popFrom (toInt32 ((8 * rs.length : Nat) - 8)) (rs.map Register.saved).reverse =
          popFrom ((8 * rs.length : Nat) - 8) (rs.map Register.saved).reverse := by
        cases hrs : rs with
        | nil => rfl
        | cons q qs =>
          have hcast : ((8 * (q :: qs).length : Nat) : Int) - 8 = (8 * qs.length : Nat) := by
            rw [List.length_cons]
            omega
          have hless : 8 * qs.length < 2 ^ 31 := by
            rw [hrs, List.length_cons] at hsmall
            omega
          rw [hcast, Layout.toInt32_natCast hless]
      rw [hoffset, List.map_append, List.map_singleton, List.reverse_append, List.reverse_singleton, List.singleton_append]
      show runGuard s (.addAddr _ :: .load _ _ :: popFrom (toInt32 _) _) = _
      rw [runGuard_cons _ (exec_addAddr hbase _), runGuard_cons _ hload, hrest]
      exact hrun
    · rw [hregs]
      funext name
      unfold restore
      by_cases hmem : ∃ q ∈ rs, q.name = name
      · obtain ⟨q, hq, hname⟩ := hmem
        rw [if_pos ⟨q, hq, hname⟩, if_pos ⟨q, List.mem_append_left _ hq, hname⟩]
      · rw [if_neg hmem]
        by_cases hname : r.name = name
        · subst hname
          rw [if_pos ⟨r, List.mem_append_right _ (List.mem_singleton_self r), rfl⟩]
          exact Function.update_self _ _ _
        · have hnot : ¬ ∃ q ∈ rs ++ [r], q.name = name := by
            rintro ⟨q, hq, heq⟩
            rcases List.mem_append.mp hq with hq | hq
            · exact hmem ⟨q, hq, heq⟩
            · rw [List.mem_singleton.mp hq] at heq
              exact hname heq
          rw [if_neg hnot]
          exact Function.update_of_ne (Ne.symm hname) _ _

end Blocks

/-! ## The slots

Each kept register has eight bytes of the area, and no two have a byte in common. -/

namespace Layout

variable {ptx : Text} (layout : Layout ptx)

/-- Slot by slot, in the order of the declarations. -/
def slotList (i : Nat) (rs : List Register) : List (Text × Int) := (rs.zipIdx i).map fun p => (p.1.name, (8 * p.2 : Nat))

/-- Lines that store nothing. -/
theorem stores_append (addr : Int) {gs gs' : List GuardLine} (h : ∀ addr, stores addr gs' = []) :
    stores addr (gs ++ gs') = stores addr gs := by
  induction gs generalizing addr with
  | nil => exact h addr
  | cons g gs ih =>
    cases g with
    | store modifier name => exact congrArg (List.cons (name, addr)) (ih addr)
    | addAddr offset => exact ih offset
    | _ => exact ih addr

/-- A comment loads nothing. -/
theorem loads_comment (addr : Int) (gs : List GuardLine) (text : Text) :
    loads addr (gs ++ [.comment text]) = loads addr gs := by
  induction gs generalizing addr with
  | nil => rfl
  | cons g gs ih =>
    cases g with
    | load modifier name => exact congrArg (List.cons (name, addr)) (ih addr)
    | addAddr offset => exact ih offset
    | _ => exact ih addr

/-- The slots that are written to. -/
theorem stores_pushFrom (rs : List Register) (i : Nat) (addr : Int) (h : 8 * (i + rs.length) < 2 ^ 31) :
    stores addr (pushFrom (8 * i : Nat) (rs.map Register.saved)) = slotList i rs := by
  induction rs generalizing i addr with
  | nil => rfl
  | cons r rs ih =>
    rw [List.length_cons] at h
    have hoffset : toInt32 ((8 * i : Nat) + 8) = (8 * (i + 1) : Nat) := by
      have hcast : ((8 * i : Nat) : Int) + 8 = (8 * (i + 1) : Nat) := by omega
      rw [hcast, toInt32_natCast (by omega)]
    show (r.name, ((8 * i : Nat) : Int)) :: stores _ (pushFrom (toInt32 _) (rs.map Register.saved)) = _
    rw [hoffset, ih (i + 1) _ (by omega)]
    rfl

/-- Loading writes to none. -/
theorem stores_popFrom (addr offset : Int) (saved : List (Text × Text)) : stores addr (popFrom offset saved) = [] := by
  induction saved generalizing addr offset with
  | nil => rfl
  | cons r saved ih => exact ih _ _

/-- Each slot is loaded from. -/
theorem mem_loads_popFrom (rs : List Register) (addr : Int) (h : 8 * rs.length < 2 ^ 31) :
    ∀ p ∈ slotList 0 rs, p ∈ loads addr (popFrom ((8 * rs.length : Nat) - 8) (rs.map Register.saved).reverse) := by
  induction rs using List.reverseRecOn generalizing addr with
  | nil =>
    intro p hp
    cases hp
  | append_singleton rs r ih =>
    rw [List.length_append, List.length_singleton] at h
    intro p hp
    -- the loads begin at the last slot
    have hoffset : ((8 * (rs ++ [r]).length : Nat) : Int) - 8 = (8 * rs.length : Nat) := by
      rw [List.length_append, List.length_singleton]
      omega
    rw [hoffset, List.map_append, List.map_singleton, List.reverse_append, List.reverse_singleton, List.singleton_append]
    show p ∈ (r.name, ((8 * rs.length : Nat) : Int)) :: loads _ (popFrom (toInt32 _) (rs.map Register.saved).reverse)
    rw [slotList, List.zipIdx_append, List.map_append, List.mem_append] at hp
    rcases hp with hp | hp
    · apply List.mem_cons_of_mem
      cases hrs : rs with
      | nil =>
        rw [hrs] at hp
        cases hp
      | cons q qs =>
        have hcast : ((8 * (q :: qs).length : Nat) : Int) - 8 = (8 * qs.length : Nat) := by
          rw [List.length_cons]
          omega
        have hless : 8 * qs.length < 2 ^ 31 := by
          rw [hrs, List.length_cons] at h
          omega
        rw [hcast, toInt32_natCast hless, ← hcast, ← hrs]
        exact ih _ (by omega) p hp
    · have hlast : p = (r.name, ((8 * rs.length : Nat) : Int)) := by
        rw [Nat.zero_add] at hp
        exact List.mem_singleton.mp hp
      rw [hlast]
      exact List.mem_cons_self

/-- There is something to save. -/
theorem total_pos (h : generalRegisters ptx ≠ []) : totalBytesForSavedRegs layout.regs > 0 := by
  have hlength := List.length_pos_iff.mpr h
  rw [layout.total_eq]
  omega

/-- The registers saved, with their widths. -/
theorem savedRegisters_saved : savedRegisters layout.regs = (generalRegisters ptx).map Register.saved :=
  layout.savedRegisters_eq

/-- With nothing declared nothing is stored or loaded. -/
theorem push_pop_nil (h : generalRegisters ptx = []) : pushCodeBlock layout.regs = [] ∧ layout.popPart = [] := by
  have htotal : ¬ totalBytesForSavedRegs layout.regs > 0 := by
    rw [layout.total_eq, h]
    decide
  exact ⟨if_neg htotal, if_neg htotal⟩

/-- Declarations store nothing. -/
theorem stores_newDecls (addr : Int) (gs : List GuardLine) : stores addr (newDecls layout.regs ++ gs) = stores addr gs := by
  unfold newDecls
  split <;> rfl

/-- Each register is stored in a slot of its own. -/
theorem stores_pushPart : stores 0 layout.pushPart = slotList 0 (generalRegisters ptx) := by
  rw [pushPart, stores_newDecls]
  by_cases h : generalRegisters ptx = []
  · rw [(layout.push_pop_nil h).1, h]
    rfl
  · rw [pushCodeBlock, if_pos (layout.total_pos h), stores_append 0 fun _ => rfl, layout.savedRegisters_saved]
    have hsmall := layout.length_small
    exact stores_pushFrom (generalRegisters ptx) 0 0 (by omega)

/-- The returns store nothing. -/
theorem stores_popPart (addr : Int) : stores addr layout.popPart = [] := by
  unfold popPart popCodeBlock
  split
  · rw [stores_append addr fun _ => rfl]
    exact stores_popFrom _ _ _
  · rfl

/-- All stores are in front of one line. -/
theorem stores_insertedBefore (i : Nat) :
    stores 0 (insertedBefore ptx i) = if i = layout.point then slotList 0 (generalRegisters ptx) else [] := by
  have hpop : ∀ addr, stores addr (if layout.Reloaded i then layout.popPart else []) = [] := by
    intro addr
    split
    · exact layout.stores_popPart addr
    · rfl
  rw [layout.insertedBefore_eq, stores_append 0 hpop]
  split
  · exact layout.stores_pushPart
  · rfl

/-- So the slots are written to when that line is reached. -/
theorem slotsUpTo_eq (n : Nat) :
    slotsUpTo ptx n = if layout.point < n then slotList 0 (generalRegisters ptx) else [] := by
  induction n with
  | zero => rfl
  | succ n ih =>
    have hstep : slotsUpTo ptx (n + 1) = slotsUpTo ptx n ++ stores 0 (insertedBefore ptx n) := by
      rw [slotsUpTo, List.range_succ, List.flatMap_append, List.flatMap_singleton]
      rfl
    rw [hstep, ih, layout.stores_insertedBefore]
    rcases Nat.lt_trichotomy layout.point n with h | h | h
    · rw [if_pos h, if_neg (by omega), if_pos (by omega), List.append_nil]
    · rw [if_neg (by omega), if_pos h.symm, if_pos (by omega), List.nil_append]
    · rw [if_neg (by omega), if_neg (by omega), if_neg (by omega), List.append_nil]

/-- Which is one of the text. -/
theorem point_lt : layout.point < (getlines ptx).length := by
  rw [layout.lines_eq]
  unfold point
  simp only [List.length_append, List.length_cons, List.length_nil]
  omega

/-- The slots of the whole text. -/
theorem slots_eq (layout : Layout ptx) : slots ptx = slotList 0 (generalRegisters ptx) := by
  rw [slots, layout.slotsUpTo_eq, if_pos layout.point_lt]

/-- The declaration of the save area stands behind the others. -/
theorem savedSize_instrumentFrom {point : Nat} {size : Int} {inserted pop : List GuardLine}
    (hpop : ∀ gs, savedSize (pop ++ gs) = savedSize gs) (i : Nat) (ls : List Text) (hi : i ≤ point)
    (hpoint : point < i + ls.length) (rest : List GuardLine) :
    savedSize (instrumentFrom point (.saveArea size :: inserted) pop i ls ++ rest) = size := by
  induction ls generalizing i with
  | nil =>
    rw [List.length_nil] at hpoint
    omega
  | cons l ls ih =>
    rw [List.length_cons] at hpoint
    rw [instrumentFrom]
    by_cases h : i = point
    · rw [if_pos h]
      rfl
    · have hret : ∀ gs, savedSize ((if isRet l then pop else []) ++ gs) = savedSize gs := by
        intro gs
        split
        · exact hpop gs
        · rfl
      rw [if_neg h, List.nil_append, List.append_assoc, hret]
      exact ih (i + 1) (by omega) (by omega)

/-- The area that is declared has room for them. -/
theorem saveAreaSize_eq (h : generalRegisters ptx ≠ []) :
    saveAreaSize layout.regs = (8 * (generalRegisters ptx).length : Nat) := by
  have hlength := List.length_pos_iff.mpr h
  have hmax : max (totalBytesForSavedRegs layout.regs) 8 = (8 * (generalRegisters ptx).length : Nat) := by
    rw [layout.total_eq]
    omega
  have hmod : ((8 * (generalRegisters ptx).length : Nat) : Int).tmod 8 = 0 := by
    rw [Int.natCast_mul]
    exact Int.mul_tmod_right _ _
  rw [saveAreaSize, hmax]
  exact if_neg fun hne => hne hmod

/-- And it is the only one. -/
theorem areaSize_eq (layout : Layout ptx) (h : generalRegisters ptx ≠ []) :
    areaSize ptx = (8 * (generalRegisters ptx).length : Nat) := by
  have hregs : layout.regs.isEmpty = false := by
    cases hregs : layout.regs with
    | nil =>
      have hpos := layout.total_pos h
      rw [hregs] at hpos
      exact absurd hpos (by decide)
    | cons r rs => rfl
  -- the loads declare nothing, and neither do the lines of the text
  have hpop : ∀ gs, savedSize (popCodeBlock layout.regs ++ gs) = savedSize gs := by
    have hblock : ∀ offset saved gs, savedSize (popFrom offset saved ++ gs) = savedSize gs := by
      intro offset saved gs
      induction saved generalizing offset with
      | nil => rfl
      | cons r saved ih => exact ih _
    intro gs
    rw [popCodeBlock, if_pos (layout.total_pos h), List.append_assoc]
    exact hblock _ _ _
  have houtside : ∀ (ls : List Text) gs, savedSize (ls.map .outside ++ gs) = savedSize gs := by
    intro ls gs
    induction ls with
    | nil => rfl
    | cons l ls ih => exact ih
  have hpush : newDecls layout.regs ++ pushCodeBlock layout.regs = .saveArea (saveAreaSize layout.regs) ::
      (.reg tempBaseReg :: .reg tempAddrReg :: pushCodeBlock layout.regs) := by
    rw [newDecls, hregs]
    rfl
  have hlines := layout.length_lines
  rw [areaSize, layout.guardedLines_eq, layout.guardFunction_eq, hpush, List.append_assoc, houtside,
    savedSize_instrumentFrom hpop 0 layout.lines (Nat.zero_le _) (by omega), layout.saveAreaSize_eq h]

/-! ## The blocks, run

So a block of stores, and a block of loads behind it, leave the registers as they were. -/

variable {s : GuardedState ω}

/-- A comment does nothing. -/
theorem runGuard_comment (gs : List GuardLine) (text : Text) : runGuard s (gs ++ [.comment text]) = runGuard s gs := by
  rw [runGuard_append]
  cases runGuard s gs with
  | none => rfl
  | some s' => rfl

/-- The stores leave the registers as they are, and in the slots. -/
theorem run_pushPart (hs : (s.area.size : Int) = areaSize ptx) :
    ∃ s', runGuard s layout.pushPart = some s' ∧ s'.regs = s.regs ∧ s'.world = s.world ∧ s'.area.size = s.area.size ∧
      SavedIn s'.area 0 (generalRegisters ptx) s.regs := by
  have hdecls : ∀ gs, runGuard s (newDecls layout.regs ++ gs) = runGuard s gs := by
    intro gs
    unfold newDecls
    split <;> rfl
  rw [pushPart, hdecls]
  by_cases h : generalRegisters ptx = []
  · rw [(layout.push_pop_nil h).1, h]
    exact ⟨s, rfl, rfl, rfl, rfl, fun k hk => absurd hk (Nat.not_lt_zero k)⟩
  · have harea := layout.areaSize_eq h
    have hsmall := layout.length_small
    rw [pushCodeBlock, if_pos (layout.total_pos h), runGuard_comment, layout.savedRegisters_saved]
    obtain ⟨s', hrun, hregs, hworld, -, hsize, hsaved, -⟩ := run_pushFrom (s := { s with base := 0 })
      (generalRegisters ptx) 0 rfl (fun r hr => layout.size_mem hr) (by show 8 * (0 + _) ≤ s.area.size; omega) (by omega)
    exact ⟨s', hrun, hregs, hworld, hsize, hsaved⟩

/-- The loads bring the registers back. -/
theorem run_popPart {old : Regs} (hs : (s.area.size : Int) = areaSize ptx)
    (hsaved : SavedIn s.area 0 (generalRegisters ptx) old)
    (hold : ∀ r ∈ generalRegisters ptx, (old r.name).toNat < 2 ^ (8 * r.size)) :
    ∃ s', runGuard s layout.popPart = some s' ∧ s'.regs = restore (generalRegisters ptx) old s.regs ∧
      s'.world = s.world ∧ s'.area = s.area := by
  by_cases h : generalRegisters ptx = []
  · rw [(layout.push_pop_nil h).2, h]
    exact ⟨s, rfl, rfl, rfl, rfl⟩
  · have harea := layout.areaSize_eq h
    have hsmall := layout.length_small
    have hlength := List.length_pos_iff.mpr h
    have hfirst : toInt32 (totalBytesForSavedRegs layout.regs - 8) = (8 * (generalRegisters ptx).length : Nat) - 8 := by
      have hcast : ((8 * (generalRegisters ptx).length : Nat) : Int) - 8 =
          (8 * ((generalRegisters ptx).length - 1) : Nat) := by omega
      rw [layout.total_eq, hcast, toInt32_natCast (by omega)]
    rw [popPart, popCodeBlock, if_pos (layout.total_pos h), runGuard_comment, layout.savedRegisters_saved, hfirst]
    exact run_popFrom (s := { s with base := 0 }) (generalRegisters ptx) rfl (fun r hr => layout.size_mem hr)
      (by show 8 * _ ≤ s.area.size; omega) (by omega) hsaved hold

/-! ## The two runs, side by side

The text with the blocks does what the text without them does, apart from the slots. -/

section Simulation
variable {m : Meaning ω} {start : GuardedState ω}

/-- Registers that are as before. -/
theorem restore_eq {rs : List Register} {old regs : Regs} (h : ∀ r ∈ rs, regs r.name = old r.name) :
    restore rs old regs = regs := by
  funext name
  unfold restore
  split
  · next hmem =>
    obtain ⟨r, hr, rfl⟩ := hmem
    exact (h r hr).symm
  · rfl

/-- A register that is restored. -/
theorem restore_mem {rs : List Register} {old regs : Regs} {r : Register} (hr : r ∈ rs) :
    restore rs old regs r.name = old r.name := if_pos ⟨r, hr, rfl⟩

/-- No load is above the stores. -/
theorem not_reloaded_above {i : Nat} (hi : i < layout.point) : ¬ layout.Reloaded i := fun h => absurd h.2.1 (by omega)

/-- Nothing is inserted there. -/
theorem insertedBefore_above {i : Nat} (hi : i < layout.point) : insertedBefore ptx i = [] := by
  rw [layout.insertedBefore_eq, if_neg (by omega), if_neg (layout.not_reloaded_above hi)]
  rfl

/-- Below, the loads at the returns. -/
theorem insertedBefore_below {i : Nat} (hi : layout.point < i) :
    insertedBefore ptx i = if layout.Reloaded i then layout.popPart else [] := by
  rw [layout.insertedBefore_eq, if_neg (by omega), List.nil_append]

variable (start) in
/-- Up to the end of the declarations both runs go line by line and nothing changes. -/
theorem above_point (hm : layout.Lawful m) {n : Nat} (hn : n < layout.point) :
    lineAt m (start.regs, start.world) n = some (n, (start.regs, start.world)) ∧
      guardedAt ptx m start n = some (n, start) := by
  induction n with
  | zero =>
    refine ⟨rfl, ?_⟩
    rw [guardedAt, layout.insertedBefore_above hn]
    rfl
  | succ n ih =>
    obtain ⟨hline, hguarded⟩ := ih (by omega)
    have hidle := hm.idle n (by omega) (start.regs, start.world)
    constructor
    · rw [lineAt, hline]
      simp only [Option.bind_some, hidle]
    · rw [guardedAt, hguarded]
      simp only [Option.bind_some, hidle]
      rw [layout.insertedBefore_above hn]
      rfl

/-- The state behind what stands before a line: the slots are kept, and the loads have been run where there are any. -/
structure Behind (start : GuardedState ω) (i : Nat) (regs : Regs) (world : ω) (g : GuardedState ω) : Prop where
  low   : layout.point ≤ i
  size  : g.area.size = start.area.size
  saved : SavedIn g.area 0 (generalRegisters ptx) start.regs
  world_eq : g.world = world
  regs_eq : g.regs = if layout.Reloaded i then restore (generalRegisters ptx) start.regs regs else regs

/-- Falling through to a line runs the loads before it. -/
theorem run_below (hs : Entered ptx start) {g : GuardedState ω} {i : Nat} {regs : Regs} {world : ω}
    (hi : layout.point ≤ i) (hsize : g.area.size = start.area.size)
    (hsaved : SavedIn g.area 0 (generalRegisters ptx) start.regs) (hworld : g.world = world) (hregs : g.regs = regs) :
    ∃ g', runGuard g (if layout.Reloaded i then layout.popPart else []) = some g' ∧
      layout.Behind start i regs world g' := by
  by_cases hret : layout.Reloaded i
  · obtain ⟨g', hrun, hregs', hworld', harea⟩ := layout.run_popPart (s := g) (by rw [hsize]; exact hs.area) hsaved hs.fits
    refine ⟨g', by rw [if_pos hret, hrun], hi, by rw [harea, hsize], by rw [harea]; exact hsaved, hworld'.trans hworld, ?_⟩
    rw [hregs', hregs, if_pos hret]
  · exact ⟨g, by rw [if_neg hret]; rfl, hi, hsize, hsaved, hworld, by rw [if_neg hret, hregs]⟩

variable (start) in
/-- At the end of the declarations the stores are run. -/
theorem at_point (hm : layout.Lawful m) (hs : Entered ptx start) :
    lineAt m (start.regs, start.world) layout.point = some (layout.point, (start.regs, start.world)) ∧
      ∃ g, guardedAt ptx m start layout.point = some (layout.point, g) ∧
        layout.Behind start layout.point start.regs start.world g := by
  have hpos : layout.point ≠ 0 := by
    unfold point
    omega
  obtain ⟨p, hp⟩ : ∃ p, layout.point = p + 1 := Nat.exists_eq_succ_of_ne_zero hpos
  obtain ⟨hline, hguarded⟩ := layout.above_point start hm (n := p) (by omega)
  have hidle := hm.idle p (by omega) (start.regs, start.world)
  obtain ⟨g1, hpush, hregs, hworld, hsize, hsaved⟩ := layout.run_pushPart (s := start) hs.area
  obtain ⟨g, hpop, hbehind⟩ := layout.run_below hs (Nat.le_refl layout.point) hsize hsaved hworld hregs
  constructor
  · rw [hp, lineAt, hline]
    simp only [Option.bind_some, hidle]
  · refine ⟨g, ?_, hbehind⟩
    have hinserted : insertedBefore ptx (p + 1) =
        layout.pushPart ++ (if layout.Reloaded layout.point then layout.popPart else []) := by
      rw [← hp, layout.insertedBefore_eq, if_pos rfl]
    rw [hp, guardedAt, hguarded]
    simp only [Option.bind_some, hidle]
    rw [hinserted, runGuard_append]
    show Option.map _ ((runGuard start layout.pushPart).bind _) = _
    rw [hpush, Option.bind_some, hpop, Option.map_some]

/-- One line of both runs, where it sees the same registers. -/
theorem step_below (hm : layout.Lawful m) (hs : Entered ptx start) {i : Nat} {g : GuardedState ω} {n : Nat}
    (hguarded : guardedAt ptx m start n = some (i, g)) (hlow : layout.point ≤ i) (hsize : g.area.size = start.area.size)
    (hsaved : SavedIn g.area 0 (generalRegisters ptx) start.regs) :
    match m i (g.regs, g.world) with
    | .next s' => ∃ g', guardedAt ptx m start (n + 1) = some (i + 1, g') ∧ layout.Behind start (i + 1) s'.1 s'.2 g'
    | .jump target s' => ∃ g', guardedAt ptx m start (n + 1) = some (target, g') ∧ layout.Behind start target s'.1 s'.2 g'
    | .ret => guardedAt ptx m start (n + 1) = none := by
  have hstep : guardedAt ptx m start (n + 1) = match m i (g.regs, g.world) with
      | .next s' => (runGuard { g with regs := s'.1, world := s'.2 } (insertedBefore ptx (i + 1))).map (i + 1, ·)
      | .jump target s' => some (target, { g with regs := s'.1, world := s'.2 })
      | .ret => none := by
    rw [guardedAt, hguarded]
    rfl
  cases hout : m i (g.regs, g.world) with
  | next s' =>
    rw [hout] at hstep
    obtain ⟨g', hrun, hbehind⟩ := layout.run_below (g := { g with regs := s'.1, world := s'.2 }) (i := i + 1) hs (by omega)
      hsize hsaved rfl rfl
    refine ⟨g', ?_, hbehind⟩
    rw [hstep]
    show (runGuard _ (insertedBefore ptx (i + 1))).map _ = _
    rw [layout.insertedBefore_below (by omega), hrun, Option.map_some]
  | jump target s' =>
    rw [hout] at hstep
    obtain ⟨hbelow, hnot⟩ := hm.jumps i _ target s' hout
    exact ⟨_, hstep, hbelow, hsize, hsaved, rfl, by rw [if_neg hnot]⟩
  | ret =>
    rw [hout] at hstep
    exact hstep

/-- Every state of the guarded run from the stores on is behind some registers. -/
theorem guardedAt_behind (hm : layout.Lawful m) (hs : Entered ptx start) (n : Nat) {i : Nat} {g : GuardedState ω}
    (h : guardedAt ptx m start (layout.point + n) = some (i, g)) : ∃ regs world, layout.Behind start i regs world g := by
  -- from the stores on, line by line: the area keeps what was stored
  induction n generalizing i g with
  | zero =>
    obtain ⟨-, g', hguarded, hbehind⟩ := layout.at_point start hm hs
    obtain ⟨rfl, rfl⟩ := Prod.mk.inj (Option.some.inj (hguarded.symm.trans h))
    exact ⟨_, _, hbehind⟩
  | succ n ih =>
    cases hprev : guardedAt ptx m start (layout.point + n) with
    | none =>
      rw [← Nat.add_assoc, guardedAt, hprev] at h
      cases h
    | some c =>
      obtain ⟨j, g0⟩ := c
      obtain ⟨regs, world, hbehind⟩ := ih hprev
      have hstep := layout.step_below hm hs hprev hbehind.low hbehind.size hbehind.saved
      rw [← Nat.add_assoc] at h
      cases hout : m j (g0.regs, g0.world) with
      | next s' =>
        rw [hout] at hstep
        obtain ⟨g', hguarded, hbehind'⟩ := hstep
        obtain ⟨rfl, rfl⟩ := Prod.mk.inj (Option.some.inj (hguarded.symm.trans h))
        exact ⟨_, _, hbehind'⟩
      | jump target s' =>
        rw [hout] at hstep
        obtain ⟨g', hguarded, hbehind'⟩ := hstep
        obtain ⟨rfl, rfl⟩ := Prod.mk.inj (Option.some.inj (hguarded.symm.trans h))
        exact ⟨_, _, hbehind'⟩
      | ret =>
        rw [hout] at hstep
        cases hstep.symm.trans h

/-- A line that does not return sees the registers as they are, if the loads before it changed nothing. -/
theorem seen_eq {n i : Nat} {s : Regs × ω} {g : GuardedState ω} (hfit : layout.RetsFit m start)
    (hline : lineAt m (start.regs, start.world) n = some (i, s)) (hret : m i s ≠ .ret)
    (hbehind : layout.Behind start i s.1 s.2 g) : g.regs = s.1 := by
  rw [hbehind.regs_eq]
  split
  · next hreloaded => exact restore_eq ((hfit n i s hline).2 hret hreloaded)
  · rfl

/-- The run of the text, line by line with the guarded one. -/
theorem lineAt_behind (hm : layout.Lawful m) (hs : Entered ptx start) (hfit : layout.RetsFit m start) (n : Nat) {i : Nat}
    {s : Regs × ω} (h : lineAt m (start.regs, start.world) (layout.point + n) = some (i, s)) :
    ∃ g, guardedAt ptx m start (layout.point + n) = some (i, g) ∧ layout.Behind start i s.1 s.2 g := by
  -- the same for the text without the guard, whose registers are those of the guarded one where they are read
  induction n generalizing i s with
  | zero =>
    obtain ⟨hline, g, hguarded, hbehind⟩ := layout.at_point start hm hs
    obtain ⟨rfl, rfl⟩ := Prod.mk.inj (Option.some.inj (hline.symm.trans h))
    exact ⟨g, hguarded, hbehind⟩
  | succ n ih =>
    rw [← Nat.add_assoc] at h ⊢
    cases hprev : lineAt m (start.regs, start.world) (layout.point + n) with
    | none =>
      rw [lineAt, hprev] at h
      cases h
    | some c =>
      obtain ⟨j, s0⟩ := c
      obtain ⟨g0, hguarded, hbehind⟩ := ih hprev
      have hnext : (match m j s0 with
          | .next s' => some (j + 1, s')
          | .jump target s' => some (target, s')
          | .ret => none) = some (i, s) := by
        rw [lineAt, hprev] at h
        exact h
      have hstep := layout.step_below hm hs hguarded hbehind.low hbehind.size hbehind.saved
      cases hout : m j s0 with
      | next s' =>
        have hgoes : m j s0 ≠ .ret := by
          rw [hout]
          intro h
          cases h
        have hseen := layout.seen_eq hfit hprev hgoes hbehind
        rw [hout] at hnext
        obtain ⟨rfl, rfl⟩ := Prod.mk.inj (Option.some.inj hnext)
        rw [hseen, hbehind.world_eq, hout] at hstep
        exact hstep
      | jump target s' =>
        have hgoes : m j s0 ≠ .ret := by
          rw [hout]
          intro h
          cases h
        have hseen := layout.seen_eq hfit hprev hgoes hbehind
        rw [hout] at hnext
        obtain ⟨rfl, rfl⟩ := Prod.mk.inj (Option.some.inj hnext)
        rw [hseen, hbehind.world_eq, hout] at hstep
        exact hstep
      | ret =>
        rw [hout] at hnext
        cases hnext

end Simulation

/-! ## The slots, one for each register -/

/-- The first slot and the others. -/
theorem slotList_cons (i : Nat) (r : Register) (rs : List Register) :
    slotList i (r :: rs) = (r.name, ((8 * i : Nat) : Int)) :: slotList (i + 1) rs := rfl

/-- A slot is inside of the area. -/
theorem mem_slotList {i : Nat} {rs : List Register} {p : Text × Int} (h : p ∈ slotList i rs) :
    p.1 ∈ rs.map Register.name ∧ (8 * i : Nat) ≤ p.2 ∧ p.2 + 8 ≤ (8 * (i + rs.length) : Nat) := by
  induction rs generalizing i with
  | nil => cases h
  | cons r rs ih =>
    rw [slotList_cons] at h
    rw [List.length_cons]
    rcases List.mem_cons.mp h with rfl | h
    · exact ⟨List.mem_cons_self, le_refl _, by push_cast; omega⟩
    · obtain ⟨hname, hlow, hhigh⟩ := ih h
      exact ⟨List.mem_cons_of_mem _ hname, by push_cast at hlow ⊢; omega, by push_cast at hhigh ⊢; omega⟩

/-- And apart from the others. -/
theorem slotList_apart (i : Nat) (rs : List Register) :
    (slotList i rs).Pairwise fun p q => p.2 + 8 ≤ q.2 ∨ q.2 + 8 ≤ p.2 := by
  induction rs generalizing i with
  | nil => exact List.Pairwise.nil
  | cons r rs ih =>
    rw [slotList_cons]
    refine List.Pairwise.cons (fun q hq => Or.inl ?_) (ih (i + 1))
    have hlow := (mem_slotList hq).2.1
    push_cast at hlow ⊢
    omega

/-- A name that is declared once has one slot. -/
theorem filter_slotList {i : Nat} {rs : List Register} (hnodup : (rs.map Register.name).Nodup) {r : Register} (hr : r ∈ rs) :
    ∃ offset, (slotList i rs).filter (fun p => p.1 = r.name) = [(r.name, offset)] := by
  induction rs generalizing i with
  | nil => cases hr
  | cons q rs ih =>
    obtain ⟨hnot, hrest⟩ := List.nodup_cons.mp hnodup
    rw [slotList_cons]
    rcases List.mem_cons.mp hr with rfl | hr
    · have hnone : (slotList (i + 1) rs).filter (fun p => p.1 = r.name) = [] := by
        rw [List.filter_eq_nil_iff]
        intro p hp hname
        exact hnot (of_decide_eq_true hname ▸ (mem_slotList hp).1)
      exact ⟨_, by rw [List.filter_cons_of_pos (by simp), hnone]⟩
    · obtain ⟨offset, hfilter⟩ := ih hrest hr (i := i + 1)
      have hne : q.name ≠ r.name := fun h => hnot (h ▸ List.mem_map_of_mem hr)
      exact ⟨offset, by rw [List.filter_cons_of_neg (by simpa using hne), hfilter]⟩

/-! ## The guarded text is guarded -/

section Guarded
variable {m : Meaning ω} {start : GuardedState ω}

/-- What a block loads it loads wherever it stands. -/
theorem mem_loads_append {p : Text × Int} {gs gs' : List GuardLine} (h : ∀ addr, p ∈ loads addr gs') (addr : Int) :
    p ∈ loads addr (gs ++ gs') := by
  induction gs generalizing addr with
  | nil => exact h addr
  | cons g gs ih =>
    cases g with
    | load modifier name => exact List.mem_cons_of_mem _ (ih addr)
    | addAddr offset => exact ih offset
    | _ => exact ih addr

/-- The front loads nothing. -/
theorem loads_pushPart : loads 0 layout.pushPart = [] := by
  have hpush : ∀ (saved : List (Text × Text)) (addr offset : Int), loads addr (pushFrom offset saved) = [] := by
    intro saved
    induction saved with
    | nil => exact fun _ _ => rfl
    | cons r saved ih => exact fun _ _ => ih _ _
  have hblock : loads 0 (pushCodeBlock layout.regs) = [] := by
    unfold pushCodeBlock
    split
    · rw [loads_comment]
      exact hpush _ _ _
    · rfl
  rw [pushPart]
  unfold newDecls
  split
  · exact hblock
  · exact hblock

/-- Before a `ret` that the guard sees every slot is loaded from. -/
theorem slot_loaded {i : Nat} (hi : layout.Reloaded i) {p : Text × Int} (hp : p ∈ slotList 0 (generalRegisters ptx)) :
    p ∈ loads 0 (insertedBefore ptx i) := by
  have hne : generalRegisters ptx ≠ [] := by
    intro h
    rw [h] at hp
    cases hp
  have hsmall := layout.length_small
  have hlength := List.length_pos_iff.mpr hne
  rw [layout.insertedBefore_eq, if_pos hi]
  apply mem_loads_append
  intro addr
  have hfirst : toInt32 (totalBytesForSavedRegs layout.regs - 8) = (8 * (generalRegisters ptx).length : Nat) - 8 := by
    have hcast : ((8 * (generalRegisters ptx).length : Nat) : Int) - 8 =
        (8 * ((generalRegisters ptx).length - 1) : Nat) := by omega
    rw [layout.total_eq, hcast, toInt32_natCast (by omega)]
  rw [popPart, popCodeBlock, if_pos (layout.total_pos hne), loads_comment, layout.savedRegisters_saved, hfirst]
  exact mem_loads_popFrom (generalRegisters ptx) addr hsmall p hp

/-- **The guard works** where the returns fit. -/
theorem guarded_of_retsFit (hm : layout.Lawful m) (hs : Entered ptx start) (hfit : layout.RetsFit m start) :
    Guarded (generalRegisters ptx) ptx m start where
  slot r hr := by
    rw [layout.slots_eq]
    exact filter_slotList layout.nodup_names hr
  inside p hp := by
    rw [layout.slots_eq] at hp
    have hne : generalRegisters ptx ≠ [] := by
      intro h
      rw [h] at hp
      cases hp
    obtain ⟨-, hlow, hhigh⟩ := mem_slotList hp
    rw [layout.areaSize_eq hne]
    rw [Nat.zero_add] at hhigh
    exact ⟨hlow, hhigh⟩
  apart := by
    rw [layout.slots_eq]
    exact slotList_apart 0 _
  first i _ hi := by
    have hbelow : layout.point ≤ i := by
      by_contra h
      exact hi (hm.idle i (by omega))
    rw [layout.slots_eq, layout.slotsUpTo_eq, if_pos (by omega)]
  values n i s hline hret := by
    rcases Nat.lt_or_ge n layout.point with hn | hn
    · obtain ⟨habove, hguarded⟩ := layout.above_point start hm hn
      obtain ⟨rfl, rfl⟩ := Prod.mk.inj (Option.some.inj (habove.symm.trans hline))
      exact ⟨start, hguarded, rfl, rfl⟩
    · obtain ⟨k, rfl⟩ := Nat.exists_eq_add_of_le hn
      obtain ⟨g, hguarded, hbehind⟩ := layout.lineAt_behind hm hs hfit k hline
      exact ⟨g, hguarded, layout.seen_eq hfit hline hret hbehind, hbehind.world_eq⟩
  restored n i s hline hret := by
    rcases Nat.lt_or_ge n layout.point with hn | hn
    · obtain ⟨habove, -⟩ := layout.above_point start hm hn
      obtain ⟨rfl, rfl⟩ := Prod.mk.inj (Option.some.inj (habove.symm.trans hline))
      rw [hm.idle n hn] at hret
      cases hret
    · obtain ⟨k, rfl⟩ := Nat.exists_eq_add_of_le hn
      obtain ⟨g, hguarded, hbehind⟩ := layout.lineAt_behind hm hs hfit k hline
      rw [layout.slots_eq]
      by_cases hne : generalRegisters ptx = []
      · rw [hne]
        have hsame : g.regs = s.1 := by
          rw [hbehind.regs_eq, hne]
          split
          · exact restore_eq fun r hr => absurd hr List.not_mem_nil
          · rfl
        refine ⟨fun p hp => absurd hp List.not_mem_nil, g, hguarded, ?_, fun r hr => absurd hr List.not_mem_nil⟩
        rw [hsame, hbehind.world_eq]
        exact hret
      · have hreloaded := (hfit _ i s hline).1 hret hne
        refine ⟨fun p hp => layout.slot_loaded hreloaded hp, g, hguarded, ?_, fun r hr => ?_⟩
        · rw [hbehind.world_eq]
          exact hm.guards i hreloaded s.1 g.regs s.2 hret
        · rw [hbehind.regs_eq, if_pos hreloaded]
          exact restore_mem hr

/-- And only there. -/
theorem retsFit_of_guarded (hm : layout.Lawful m) (hs : Entered ptx start) (h : Guarded (generalRegisters ptx) ptx m start) :
    layout.RetsFit m start := by
  intro n i s hline
  constructor
  · intro hret hne
    obtain ⟨r, hr⟩ := List.exists_mem_of_ne_nil _ hne
    obtain ⟨offset, hfilter⟩ := h.slot r hr
    have hslot : (r.name, offset) ∈ slots ptx :=
      (List.mem_filter.mp (hfilter.symm ▸ List.mem_singleton_self (r.name, offset))).1
    have hload := (h.restored n i s hline hret).1 _ hslot
    by_contra hnot
    rw [layout.insertedBefore_eq, if_neg hnot, List.append_nil] at hload
    split at hload
    · rw [layout.loads_pushPart] at hload
      cases hload
    · cases hload
  · intro hret hreloaded r hr
    obtain ⟨g, hguarded, hregs, -⟩ := h.values n i s hline hret
    rcases Nat.lt_or_ge n layout.point with hn | hn
    · obtain ⟨habove, -⟩ := layout.above_point start hm hn
      obtain ⟨rfl, -⟩ := Prod.mk.inj (Option.some.inj (habove.symm.trans hline))
      exact absurd hreloaded (layout.not_reloaded_above hn)
    · obtain ⟨k, rfl⟩ := Nat.exists_eq_add_of_le hn
      obtain ⟨regs, world, hbehind⟩ := layout.guardedAt_behind hm hs k hguarded
      rw [← hregs, hbehind.regs_eq, if_pos hreloaded]
      exact restore_mem hr

end Guarded

end Layout

/-- **The register guard**, on every text that it sees as a function and every run of it. -/
theorem guarded_iff {ptx : Text} (layout : Layout ptx) {m : Meaning ω} {start : GuardedState ω} (hm : layout.Lawful m)
    (hs : Entered ptx start) : Guarded (generalRegisters ptx) ptx m start ↔ layout.RetsFit m start :=
  ⟨layout.retsFit_of_guarded hm hs, layout.guarded_of_retsFit hm hs⟩

/-! ## A function with a predicated return -/

/-- The register `%r1` is written, and read behind a `ret` that may not be taken; `%SP` is declared too. -/
def predicatedLines : List Text :=
  [str ".visible .func f()", str "\x7b", str "\t.reg .b32 %r<2>;", str "\t.reg .pred %p<2>;", str "\t.reg .b64 %SP;",
    str "\tmov.u32 %r1, 5;", str "\t@%p1 ret;", str "\tst.global.u32 [out], %r1;", str "\tret;", str "\x7d"]

/-- A kernel with a return under a predicate. -/
def predicatedText : Text := unlines predicatedLines

/-- Its lines. -/
theorem getlines_predicatedText : getlines predicatedText = predicatedLines := getlines_unlines (by decide)

/-- Its parts. -/
def predicatedLayout : Layout predicatedText where
  before := []
  header := str ".visible .func f()"
  middle := []
  opening := str "\x7b"
  top := [str "\t.reg .b32 %r<2>;", str "\t.reg .pred %p<2>;", str "\t.reg .b64 %SP;"]
  body := [str "\tmov.u32 %r1, 5;", str "\t@%p1 ret;", str "\tst.global.u32 [out], %r1;", str "\tret;"]
  closing := str "\x7d"
  after := []
  lines_eq := getlines_predicatedText
  before_not := by decide
  header_is := by decide +kernel
  middle_top := by decide
  opening_is := by decide
  top_is := by decide +kernel
  top_ends := by decide +kernel
  body_not := by decide +kernel
  closing_is := by decide
  after_not := by decide
  no_ret := by decide +kernel
  top_reads := by decide +kernel
  above_none := by decide +kernel
  below_none := by decide +kernel
  no_conflict := by decide +kernel
  names_nodup := by decide +kernel
  small := by decide +kernel

/-- The predicate `%p1` and what is stored in `out`. -/
def predicatedMeaning : Meaning (Bool × BitVec 64) := fun i s =>
  if i = 5 then .next (Function.update s.1 (str "%r1") 5, s.2)
  else if i = 6 then if s.2.1 then .ret else .next s
  else if i = 7 then .next (s.1, (s.2.1, s.1 (str "%r1")))
  else if i = 8 then .ret
  else .next s

/-- It begins with zeros, and a predicate of the input. -/
def predicatedStart (p1 : Bool) : GuardedState (Bool × BitVec 64) := ⟨fun _ => 0, (p1, 0), 0, 0, ⟨16, fun _ => 0⟩⟩

/-- Its meaning reads and writes what its lines say. -/
theorem predicatedMeaning_lawful : predicatedLayout.Lawful predicatedMeaning where
  idle i hi s := by
    have hless : i < 5 := hi
    unfold predicatedMeaning
    rw [if_neg (by omega), if_neg (by omega), if_neg (by omega), if_neg (by omega)]
  jumps i s target s' h := by
    unfold predicatedMeaning at h
    split at h
    · cases h
    · split at h
      · split at h <;> cases h
      · split at h
        · cases h
        · split at h <;> cases h
  guards i _ regs regs' world h := by
    unfold predicatedMeaning at h ⊢
    split at h
    · cases h
    · next h4 =>
      rw [if_neg h4]
      split at h
      · next h5 =>
        rw [if_pos h5]
        split at h
        · next hp => exact if_pos hp
        · cases h
      · next h5 =>
        rw [if_neg h5]
        split at h
        · cases h
        · next h6 =>
          rw [if_neg h6]
          split at h
          · next h7 => exact if_pos h7
          · cases h

/-- The function is entered at its first line. -/
theorem predicatedStart_entered (p1 : Bool) : Entered predicatedText (predicatedStart p1) where
  area := by
    have hregs : generalRegisters predicatedText = [⟨str ".b32", str "%r0"⟩, ⟨str ".b32", str "%r1"⟩] := by
      rw [predicatedLayout.generalRegisters_eq]
      decide +kernel
    rw [predicatedLayout.areaSize_eq (by rw [hregs]; exact List.cons_ne_nil _ _), hregs]
    rfl
  fits r hr := Nat.pow_pos (by decide)

/-- Its first return is at line 6. -/
theorem predicatedLayout_reloaded : predicatedLayout.Reloaded 6 ∧ ∀ i < 6, ¬ predicatedLayout.Reloaded i := by
  unfold Layout.Reloaded
  rw [getlines_predicatedText]
  decide +kernel

/-- Where the predicate holds, the run goes on line by line up to its `ret`. -/
theorem predicatedRun {n i : Nat} {s : Regs × Bool × BitVec 64}
    (h : lineAt predicatedMeaning ((predicatedStart true).regs, (predicatedStart true).world) n = some (i, s)) :
    i = n ∧ n ≤ 6 ∧ s.2.1 = true := by
  induction n generalizing i s with
  | zero =>
    obtain ⟨rfl, rfl⟩ := Prod.mk.inj (Option.some.inj h)
    exact ⟨rfl, Nat.zero_le _, rfl⟩
  | succ n ih =>
    obtain ⟨⟨k, before⟩, hbefore, hnext⟩ := Option.bind_eq_some_iff.mp h
    obtain ⟨rfl, hle, hp⟩ := ih hbefore
    unfold predicatedMeaning at hnext
    rcases Nat.lt_or_eq_of_le hle with hlt | rfl
    · by_cases hfive : k = 5
      · simp only [if_pos hfive] at hnext
        obtain ⟨rfl, rfl⟩ := Prod.mk.inj (Option.some.inj hnext)
        exact ⟨rfl, by omega, hp⟩
      · simp only [if_neg hfive, if_neg (show ¬ k = 6 by omega), if_neg (show ¬ k = 7 by omega),
          if_neg (show ¬ k = 8 by omega)] at hnext
        obtain ⟨rfl, rfl⟩ := Prod.mk.inj (Option.some.inj hnext)
        exact ⟨rfl, by omega, hp⟩
    · simp [hp] at hnext

/-- With the predicate true the run leaves at that return. -/
theorem predicatedRun_fits : predicatedLayout.RetsFit predicatedMeaning (predicatedStart true) := by
  intro n i s h
  obtain ⟨rfl, hle, hp⟩ := predicatedRun h
  have hreturns : predicatedMeaning 6 s = .ret := by simp [predicatedMeaning, hp]
  rcases Nat.lt_or_eq_of_le hle with hlt | rfl
  · refine ⟨fun hret _ => ?_, fun _ hreloaded => absurd hreloaded (predicatedLayout_reloaded.2 i hlt)⟩
    by_cases hfive : i = 5
    · simp [predicatedMeaning, hfive] at hret
    · rw [predicatedMeaning, if_neg hfive, if_neg (by omega), if_neg (by omega), if_neg (by omega)] at hret
      cases hret
  · exact ⟨fun _ _ => predicatedLayout_reloaded.1, fun hret => absurd hreturns hret⟩

/-- Where the predicate holds, the guard is transparent. -/
theorem guarded_iff_predicated : predicatedLayout.Lawful predicatedMeaning ∧
    Entered predicatedText (predicatedStart true) ∧
      Guarded (generalRegisters predicatedText) predicatedText predicatedMeaning (predicatedStart true) :=
  ⟨predicatedMeaning_lawful, predicatedStart_entered true,
    (guarded_iff predicatedLayout predicatedMeaning_lawful (predicatedStart_entered true)).mpr predicatedRun_fits⟩

/-- `%SP` has no slot; and where the `ret` is not taken, the loads before it are run and the store behind it sees the
`%r1` of the start. -/
theorem not_guarded :
    ¬ Guarded (declaredRegisters predicatedText) predicatedText predicatedMeaning (predicatedStart true) ∧
      ¬ Guarded (generalRegisters predicatedText) predicatedText predicatedMeaning (predicatedStart false) := by
  constructor
  · intro h
    have hr : (⟨str ".b64", str "%SP"⟩ : Register) ∈ declaredRegisters predicatedText := by
      rw [declaredRegisters, getlines_predicatedText]
      decide +kernel
    obtain ⟨offset, hfilter⟩ := h.slot _ hr
    have hslots : slots predicatedText = [(str "%r0", 0), (str "%r1", 8)] := by
      rw [predicatedLayout.slots_eq, predicatedLayout.generalRegisters_eq]
      decide +kernel
    rw [hslots, List.filter_eq_nil_iff.mpr (by decide)] at hfilter
    cases hfilter
  · intro h
    have hfit := predicatedLayout.retsFit_of_guarded predicatedMeaning_lawful (predicatedStart_entered false) h
    have hline : lineAt predicatedMeaning ((predicatedStart false).regs, (predicatedStart false).world) 6 =
        some (6, (Function.update (fun _ => 0) (str "%r1") 5, (false, 0))) := rfl
    have hgoes : predicatedMeaning 6 (Function.update (fun _ => 0) (str "%r1") 5, (false, 0)) ≠ .ret := by
      intro h
      cases h
    have hr : (⟨str ".b32", str "%r1"⟩ : Register) ∈ generalRegisters predicatedText := by
      rw [predicatedLayout.generalRegisters_eq]
      decide +kernel
    have hvalue := (hfit 6 6 _ hline).2 hgoes predicatedLayout_reloaded.1 _ hr
    have hnew : (Function.update (fun _ => 0) (str "%r1") 5 : Regs) (str "%r1") = 5 := Function.update_self _ _ _
    have hfive : (5 : BitVec 64) = 0 := hnew.symm.trans hvalue
    exact absurd hfive (by decide)

end Ptx
