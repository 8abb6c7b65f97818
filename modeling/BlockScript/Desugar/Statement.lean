import BlockScript.Desugar.Expression

/-! Statements of a script. Calls without parentheses get them, local definitions get their mark;
headers of compound statements are copied as they stand. -/

namespace BlockScript.Desugar

variable (script : Script) (grammar : Grammar)

def augmentedAssignments : List String :=
  ["+=", "-=", "*=", "/=", "//=", "%=", "**=", "&=", "|=", "^=", "<<=", ">>=", "@="]

def blockKeywords : List String :=
  ["class", "def", "if", "elif", "else", "for", "while", "with", "try", "except", "finally"]

def listKeywords : List String := ["return", "assert", "yield", "raise"]

def copiedKeywords : List String := ["import", "from", "global", "nonlocal"]

def bareKeywords : List String := ["pass", "break", "continue"]

/-- The rest of a chain `= a = b`. -/
def readAssignments : Reading String := do
  unless (← current).isControl "=" do return ""
  bump
  let value ← grammar.items {}
  let after ← layout false
  return "=" ++ value ++ after ++ (← grammar.assignments)

def readAssigned : Reading String := do
  let token ← current
  if token.isControlIn augmentedAssignments then
    bump
    return token.text ++ (← grammar.items {})
  grammar.assignments

/-- An expression, an assignment, or a call without parentheses: `target arg, key=value`. -/
def readExprStatement : Reading String := do
  let first ← grammar.items {}
  let after ← layout false
  let assigned ← readAssigned grammar
  let code := first ++ after ++ assigned
  let token ← current
  if token.isEof || token.isIgnorable true || token.isControlIn (":" :: ";" :: closers) then
    return code
  let callee := Text.dropTrailing (fun c => c == ' ' || c == '\t') code.toList
  let arguments ← grammar.items { arguments := true }
  return String.ofList callee ++ "(" ++ arguments ++ ")"

/-- `def name =` or `let name =`: the name and the layout after it. -/
def readLocalName? : Reading (Option (String × String)) := do
  unless (← current).isNameIn ["def", "let"] do return none
  bump
  let _ ← layout false
  let name ← current
  unless name.kind == .name do return none
  bump
  let space ← layout false
  unless (← current).isControl "=" do return none
  bump
  return some (name.text, space)

/-- `def name = expr` or `let name = expr`, if one stands here; else nothing is read. -/
def readLocalDef? : Reading (Option String) := do
  match script.localPrefix with
  | none => return none
  | some mark =>
    let start ← get
    match ← readLocalName? with
    | none =>
      rollback start.checkpoint
      return none
    | some (name, space) =>
      let value ← grammar.items {}
      return some (mark ++ name ++ space ++ "=" ++ value)

def readYieldFrom (keyword : Token) : Reading String := do
  unless keyword.isName "yield" do return ""
  let here := (← get).scanner
  let between ← layout false
  unless (← current).isName "from" do
    moveTo here
    return ""
  bump
  return between ++ "from"

/-- `return`, `assert`, `yield`, `yield from` or `raise`, with what follows. -/
def readListStatement : Reading String := do
  let keyword ← current
  bump
  let source ← readYieldFrom keyword
  let space ← layout false
  if isStatementEnd (← current) then return keyword.text ++ source ++ space
  return keyword.text ++ source ++ space ++ (← grammar.items {})

def readSimpleStatement : Reading String := do
  let lead ← layout false
  match ← readLocalDef? script grammar with
  | some definition => return lead ++ definition
  | none =>
    let token ← current
    if token.isNameIn bareKeywords then
      bump
      return lead ++ token.text
    else if token.isNameIn listKeywords then
      return lead ++ (← readListStatement grammar)
    else if token.isNameIn copiedKeywords || token.isControl "@" then
      return lead ++ (← copyUntil fun t => isLineEnd t || t.isControl ";")
    else return lead ++ (← readExprStatement grammar)

def readSimpleStatements : Reading String := do
  let statement ← readSimpleStatement script grammar
  let after ← layout false
  unless (← current).isControl ";" do return statement ++ after
  bump
  let space ← layout false
  let code := statement ++ after ++ ";" ++ space
  if isStatementEnd (← current) then return code
  return code ++ (← grammar.simpleStatements)

def atLocalDef : Reading Bool := do
  let here := (← get).scanner
  if script.localPrefix.isNone || !here.current.isName "def" then return false
  bump
  let _ ← layout false
  let named := (← current).kind == .name
  bump
  let _ ← layout false
  let assigns := named && (← current).isControl "="
  moveTo here
  return assigns

/-- The length of a header in tokens is not known: copy it up to the colon outside brackets. -/
def Scanner.copyHeader (depth : Nat) (s : Scanner) : List String × Scanner :=
  if _h : s.current.isEof || (depth == 0 && (s.current.kind == .newline || s.current.isControl ":"))
  then ([], s)
  else
    let depth :=
      if s.current.isControlIn openers then depth + 1
      else if s.current.isControlIn closers then depth - 1
      else depth
    let (texts, t) := Scanner.copyHeader depth s.bump
    (s.current.text :: texts, t)
termination_by s.remaining
decreasing_by exact Scanner.remaining_bump_lt (by simp_all)

def readBlockHeader : Reading String := do
  let (texts, scanner) := Scanner.copyHeader 0 (← get).scanner
  moveTo scanner
  let token := scanner.current
  unless token.isControl ":" do
    fail script (.expected ":" token) token.pos
  bump
  return String.join texts ++ ":"

/-- What follows the header of a compound statement indented by `width`: a block, or statements on
the same line. -/
def readSuite (width : Nat) : Reading String := do
  if isLineEnd (← current) then grammar.block (some width) else grammar.simpleStatements

/-- One statement indented by exactly `width`; `none`, with nothing read, at the end of the
block. -/
def readStatement? (width : Nat) : Reading (Option String) := do
  let here := (← get).scanner
  let lead ← layoutToIndent
  let indent ← current
  if indent.kind ≠ .indent then
    moveTo here
    return none
  bump
  let next ← current
  if next.isEof || next.isControlIn closers || indent.text.length < width then
    moveTo here
    return none
  if width < indent.text.length then
    fail script .unexpectedIndentation next.pos
  let isDef ← atLocalDef script
  if next.isNameIn blockKeywords && !isDef then
    let header ← readBlockHeader script
    let space ← layout false
    let body ← readSuite grammar width
    return some (lead ++ indent.text ++ header ++ space ++ body)
  let code ← grammar.simpleStatements
  return some (lead ++ indent.text ++ code)

def readStatements (width : Nat) : Reading String := do
  match ← readStatement? script grammar width with
  | none => return ""
  | some statement =>
    let after ← layoutToIndent
    return statement ++ after ++ (← grammar.statements width)

/-- A block of statements. Its first line sets the indentation, which is deeper than that of the
parent. -/
def readBlock (parent : Option Nat) : Reading String := do
  let lead ← layoutToIndent
  let s ← get
  let indent := s.scanner.current
  if indent.kind ≠ .indent then return lead
  match parent with
  | none => pure ()
  | some width =>
    if indent.text.length ≤ width then
      fail script (.expectedDeeperIndent width) s.scanner.bump.current.pos
  return lead ++ (← grammar.statements indent.text.length)

/-- The blocks of a script. At the top level a block may be indented less than the one before. -/
def readProgram : Reading String := do
  let code ← grammar.block none
  let here := (← get).scanner
  let trailing ← layout true
  let token ← current
  if token.isEof then return code ++ trailing
  moveTo here
  if here.current.kind ≠ .indent || token.isControlIn closers then
    fail script (.unexpected token) token.pos
  return code ++ (← grammar.program)

end BlockScript.Desugar
