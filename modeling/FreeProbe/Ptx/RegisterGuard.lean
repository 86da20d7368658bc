import FreeProbe.Ptx.Text

/-!
# `Ptx.RegisterGuard` — saving the registers of a compiled probe

`add_register_guard_for_ebpf_ptx_func`: the text is read line by line. From a line that defines a function to the first
line that is a closing brace, the lines are collected; then the registers declared at the top of the body are read, and
the collected lines are put out again, with a save area and the stores behind the declarations and the loads before each
line that is a `ret`.

What is put out is kept as lines of the text and the guard's own lines; `render` gives the characters.
-/

namespace Ptx

open Lib

/-! ## Patterns -/

def someSpace : Regex (BitVec 8) := .some (.sat isSpace)

/-- `[a-zA-Z_]` -/
def isNameHead (c : BitVec 8) : Bool := isWord c && !isDigit c

/-- `[a-zA-Z0-9_@$.]` -/
def isNameTail (c : BitVec 8) : Bool := isWord c || c == chr '@' || c == chr '$' || c == chr '.'

/-- `funcDefRegex`, up to what follows the name. -/
def funcDefHead : Regex (BitVec 8) :=
  .seqs [spaces, .opt (.seq (word ".visible") someSpace), words [".func", ".entry"], someSpace, .sat isNameHead,
    .many (.sat isNameTail)]

def isFuncDef (line : Text) : Bool :=
  (Regex.seqs [funcDefHead, spaces, word "("]).prefixMatch line || (Regex.seq funcDefHead spaces).fullMatch line

/-- `localDeclRegex` -/
def isLocalDecl (line : Text) : Bool := (Regex.seqs [spaces, word ".local", someSpace]).prefixMatch line

/-- `commentOrEmptyRegex` -/
def isCommentOrEmpty (line : Text) : Bool := (Regex.seq spaces (word "//")).prefixMatch line || spaces.fullMatch line

/-- `openingBraceRegex` -/
def isOpeningBrace (line : Text) : Bool := (Regex.seqs [spaces, word "\x7b", spaces]).fullMatch line

/-- `closingBraceRegex` -/
def isClosingBrace (line : Text) : Bool := (Regex.seqs [spaces, word "\x7d", spaces]).fullMatch line

/-- `retRegex` -/
def isRet (line : Text) : Bool :=
  (Regex.seqs [spaces, .opt (.seqs [word "@%p", .some (.sat isDigit), someSpace]), word "ret", spaces,
    word ";"]).prefixMatch line

/-! ## Declarations -/

/-- The groups of `regDeclRegex`. -/
structure RegDecl where
  type  : Text
  base  : Text
  count : Option Text
deriving DecidableEq

/-- A class repeated at least once, and what follows. -/
def takeSome (p : BitVec 8 → Bool) (s : Text) : Option (Text × Text) :=
  if (s.takeWhile p).isEmpty then none else some (s.takeWhile p, s.dropWhile p)

/-- `[%a-zA-Z_][a-zA-Z0-9_@$.]*` -/
def takeName : Text → Option (Text × Text)
  | [] => none
  | c :: s => if isNameHead c || c == chr '%' then some (c :: s.takeWhile isNameTail, s.dropWhile isNameTail) else none

/-- `(?:<(\d+)>)?` -/
def takeCount (s : Text) : Option (Option Text × Text) :=
  match (str "<").isPrefixOf? s with
  | none => some (none, s)
  | some s => do
    let (digits, s) ← takeSome isDigit s
    let s ← (str ">").isPrefixOf? s
    return (some digits, s)

/-- `regDeclRegex`. Each repetition ends where a character outside of its class must follow. -/
def matchRegDecl (line : Text) : Option RegDecl := do
  let s ← (str ".reg").isPrefixOf? (line.dropWhile isSpace)
  let (_, s) ← takeSome isSpace s
  let s ← (str ".").isPrefixOf? s
  let (type, s) ← takeSome isWord s
  let (_, s) ← takeSome isSpace s
  let (base, s) ← takeName s
  let (count, s) ← takeCount s
  let _ ← (str ";").isPrefixOf? (s.dropWhile isSpace)
  return ⟨chr '.' :: type, base, count⟩

/-- What may stand in the block at the top of the body. -/
def isTopLine (line : Text) : Bool := isCommentOrEmpty line || (matchRegDecl line).isSome || isLocalDecl line

def getRegisterSizeInBytes (type : Text) : Nat :=
  if type ∈ [str ".b8", str ".s8", str ".u8"] then 1
  else if type ∈ [str ".b16", str ".s16", str ".u16", str ".f16"] then 2
  else if type ∈ [str ".b32", str ".s32", str ".u32", str ".f32"] then 4
  else if type ∈ [str ".b64", str ".s64", str ".u64", str ".f64", str ".f64x2"] then 8
  else if type = str ".pred" then 1
  else 0

structure RegisterInfo where
  type            : Text
  baseName        : Text
  count           : Nat
  names           : List Text
  sizeInBytes     : Nat
  ptxTypeModifier : Text

def getPtxStorageTypeModifier (type : Text) (sizeInBytes : Nat) : Text :=
  if sizeInBytes = 1 then str ".u8"
  else if sizeInBytes = 2 then str ".u16"
  else if sizeInBytes = 4 then str ".u32"
  else if sizeInBytes = 8 then str ".u64"
  else type

def tempBaseReg : Text := str "%rd_ptx_instr_base"
def tempAddrReg : Text := str "%rd_ptx_instr_addr"
def registerSaveAreaName : Text := str "__ptx_register_save_area"

def decimal (digits : Text) : Nat := digits.foldl (fun n c => 10 * n + (c.toNat - 48)) 0

/-- `%r0` to `%r<n-1>` -/
def familyNames (base : Text) (n : Nat) : List Text := (List.range n).map fun k => base ++ str (toString k)

/-- `count` and `names`; `std::stoi` throws above the largest `int`. -/
def registerNames (decl : RegDecl) : Nat × List Text :=
  match decl.count with
  | none => (1, [decl.base])
  | some digits =>
    if decimal digits < 2 ^ 31 then (decimal digits, familyNames decl.base (decimal digits)) else (1, [decl.base])

/-- Predicates, the stack pointers, unknown types and the guard's own registers. -/
def isExcluded (decl : RegDecl) : Bool :=
  decl.type == str ".pred" || decl.base == str "%SP" || decl.base == str "%SPL" ||
    getRegisterSizeInBytes decl.type == 0 || decl.base == tempBaseReg || decl.base == tempAddrReg

def nameConflict (regs : List RegisterInfo) (decl : RegDecl) : Bool :=
  regs.any fun r => r.baseName == decl.base && (decl.count.isSome == decide (1 < r.count))

def registerInfo (decl : RegDecl) : RegisterInfo where
  type            := decl.type
  baseName        := decl.base
  count           := (registerNames decl).1
  names           := (registerNames decl).2
  sizeInBytes     := getRegisterSizeInBytes decl.type
  ptxTypeModifier := getPtxStorageTypeModifier decl.type (getRegisterSizeInBytes decl.type)

/-- One line of the loop that fills `registersToSaveInFunc`. -/
def collectLine (regs : List RegisterInfo) (line : Text) : List RegisterInfo :=
  match matchRegDecl line with
  | none => regs
  | some decl => if isExcluded decl || nameConflict regs decl then regs else regs ++ [registerInfo decl]

/-! ## The guard's lines -/

/-- A line of the text, in a function or outside of all, or a line of the guard. -/
inductive GuardLine where
  | outside (text : Text)
  | line (text : Text)
  | saveArea (size : Int)
  | reg (name : Text)
  | comment (text : Text)
  | movBase
  | addAddr (offset : Int)
  | store (modifier name : Text)
  | load (modifier name : Text)
deriving DecidableEq

/-- The characters; an empty line of a function gets no newline. -/
def GuardLine.render : GuardLine → Text
  | .outside text => text ++ [newline]
  | .line text => if text.isEmpty then text else text ++ [newline]
  | .saveArea size =>
    str "\t.local .align 8 .b8 \t" ++ registerSaveAreaName ++ str "[" ++ str (toString size) ++ str "];\n"
  | .reg name => str "\t.reg .b64 " ++ name ++ str ";\n"
  | .comment text => text ++ [newline]
  | .movBase => str "\tmov.u64 " ++ tempBaseReg ++ str ", " ++ registerSaveAreaName ++ str ";\n"
  | .addAddr offset =>
    str "\tadd.u64 " ++ tempAddrReg ++ str ", " ++ tempBaseReg ++ str ", " ++ str (toString offset) ++ str ";\n"
  | .store modifier name => str "\tst.local" ++ modifier ++ str " [" ++ tempAddrReg ++ str "], " ++ name ++ str ";\n"
  | .load modifier name => str "\tld.local" ++ modifier ++ str " " ++ name ++ str ", [" ++ tempAddrReg ++ str "];\n"

/-- An `int`. -/
def toInt32 (x : Int) : Int := (BitVec.ofInt 32 x).toInt

/-- A register's name and the modifier of its store and its load. -/
def savedRegisters (regs : List RegisterInfo) : List (Text × Text) :=
  regs.flatMap fun r => r.names.map fun name => (name, r.ptxTypeModifier)

def totalBytesForSavedRegs (regs : List RegisterInfo) : Int :=
  regs.foldl (fun offset r => toInt32 (offset + r.names.length * 8)) 0

def saveAreaSize (regs : List RegisterInfo) : Int :=
  let size := max (totalBytesForSavedRegs regs) 8
  if size.tmod 8 ≠ 0 then (size + 7) / 8 * 8 else size

def newDecls (regs : List RegisterInfo) : List GuardLine :=
  if regs.isEmpty then [] else [.saveArea (saveAreaSize regs), .reg tempBaseReg, .reg tempAddrReg]

def pushFrom (offset : Int) : List (Text × Text) → List GuardLine
  | [] => []
  | (name, modifier) :: saved => .addAddr offset :: .store modifier name :: pushFrom (toInt32 (offset + 8)) saved

def popFrom (offset : Int) : List (Text × Text) → List GuardLine
  | [] => []
  | (name, modifier) :: saved => .addAddr offset :: .load modifier name :: popFrom (toInt32 (offset - 8)) saved

def pushCodeBlock (regs : List RegisterInfo) : List GuardLine :=
  if totalBytesForSavedRegs regs > 0 then
    .comment (str "\t// --- BEGIN REGISTER SAVING (PUSH to " ++ registerSaveAreaName ++ str ") ---") :: .movBase ::
      pushFrom 0 (savedRegisters regs) ++
      [.comment (str "\t// --- END REGISTER SAVING (PUSH to " ++ registerSaveAreaName ++ str ") ---")]
  else []

def popCodeBlock (regs : List RegisterInfo) : List GuardLine :=
  if totalBytesForSavedRegs regs > 0 then
    .comment (str "\n\t// --- BEGIN REGISTER RESTORING (POP from " ++ registerSaveAreaName ++ str ") ---") :: .movBase ::
      popFrom (toInt32 (totalBytesForSavedRegs regs - 8)) (savedRegisters regs).reverse ++
      [.comment (str "\t// --- END REGISTER RESTORING (POP from " ++ registerSaveAreaName ++ str ") ---")]
  else []

/-! ## The function -/

/-- `currentFuncActualOpeningBraceIdx`, from line `i` on. -/
def openingBraceFrom (i : Nat) : List Text → Option Nat
  | [] => none
  | l :: ls => if isOpeningBrace l then some i else if isTopLine l then openingBraceFrom (i + 1) ls else none

/-- `instrumentedLines`, from line `i` on. -/
def instrumentFrom (point : Nat) (inserted pop : List GuardLine) (i : Nat) : List Text → List GuardLine
  | [] => if i = point then inserted else []
  | l :: ls =>
    (if i = point then inserted else []) ++ (if isRet l then pop else []) ++
      .line l :: instrumentFrom point inserted pop (i + 1) ls

/-- What is put out for the lines of a function; its first line defines it. -/
def guardFunction (lines : List Text) : List GuardLine :=
  match openingBraceFrom 1 lines.tail with
  | none => lines.map .outside
  | some brace =>
    let top := (lines.drop (brace + 1)).takeWhile isTopLine
    let regs := top.foldl collectLine []
    instrumentFrom (brace + 1 + top.length) (newDecls regs ++ pushCodeBlock regs) (popCodeBlock regs) 0 lines

/-- What the loop over the lines keeps. -/
structure GuardState where
  result               : List GuardLine
  currentFunctionLines : List Text
  inFunctionDefinition : Bool
  inFunctionBody       : Bool

def guardLine (s : GuardState) (line : Text) : GuardState :=
  if !s.inFunctionBody && !s.inFunctionDefinition then
    if isFuncDef line then
      { s with inFunctionDefinition := true, currentFunctionLines := s.currentFunctionLines ++ [line] }
    else { s with result := s.result ++ [.outside line] }
  else if s.inFunctionDefinition then
    if isOpeningBrace line then
      { s with
        currentFunctionLines := s.currentFunctionLines ++ [line], inFunctionBody := true, inFunctionDefinition := false }
    else { s with currentFunctionLines := s.currentFunctionLines ++ [line] }
  else if isClosingBrace line then
    { s with
      result := s.result ++ guardFunction (s.currentFunctionLines ++ [line]), currentFunctionLines := [],
      inFunctionBody := false }
  else { s with currentFunctionLines := s.currentFunctionLines ++ [line] }

/-- What is put out. -/
def guardedLines (ptxCode : Text) : List GuardLine :=
  let s := (getlines ptxCode).foldl guardLine ⟨[], [], false, false⟩
  if s.inFunctionDefinition || s.inFunctionBody then s.result ++ s.currentFunctionLines.map .outside else s.result

def addRegisterGuardForEbpfPtxFunc (ptxCode : Text) : Text := (guardedLines ptxCode).flatMap GuardLine.render

end Ptx
