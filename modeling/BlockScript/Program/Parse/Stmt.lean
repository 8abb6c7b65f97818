import BlockScript.Program.Parse.Expr

/-! Parsing of statements. A statement is read at the width of its indentation; the clauses that
continue it stand at the same width, and its blocks at a greater one. -/

namespace BlockScript.Program.Parse

/-- The rules through which the grammar of statements is recursive. -/
structure Blocks where
  /-- What follows a colon, for a statement of the given width. -/
  suite : Nat → Parsing (List Stmt)
  /-- A condition with its `elif` and `else` clauses. -/
  conditional : Nat → Parsing Stmt

def Blocks.exhausted : Blocks where
  suite _ := throw .exhausted
  conditional _ := throw .exhausted

def width (t : Token) : Nat := t.text.utf8ByteSize

variable (src : Source) (rules : Rules) (blocks : Blocks) (w : Nat)

/-- Whether the next line continues a statement of the given width with a keyword. -/
def isAtClause (word : String) : Parsing Bool := do
  let t ← peek
  return t.kind == .indent && width t == w && (← peekNext).isName word

def eatClause (word : String) : Parsing Bool := do
  if ← isAtClause w word then
    advance
    advance
    return true
  else return false

def isAtLineEnd : Parsing Bool := do
  let t ← peek
  return t.kind == .newline || t.isEof

/-- The expressions after a keyword, if the statement goes on. -/
def parseOptionalList : Parsing (Option Expr) := do
  if (← isAtLineEnd) || (← isAt ";") then return none
  return some (← parseExprList rules)

def parseDottedName : Parsing String := do
  let first ← identifier src
  let rest ← many do
    if ← eat "." then return some (← identifier src) else return none
  return ".".intercalate (first :: rest)

def parseAlias (name : Parsing String) : Parsing Alias := do
  let name ← name
  let rename ← if ← eatWord "as" then pure (some (← identifier src)) else pure none
  return ⟨name, rename⟩

def commaSeparated {α : Type} (ends : Parsing Bool) (item : Parsing α) : Parsing (List α) := do
  let first ← item
  return first :: (← moreItems ends item)

def parseImportFrom (span : Span) : Parsing Stmt := do
  let module ← parseDottedName src
  expectWord src "import"
  let grouped ← eat "("
  let names ← commaSeparated (return grouped && (← isAt ")")) (parseAlias src (identifier src))
  if grouped then expect src ")"
  return .importsFrom span module names

def positionOf (span : Span) : Parsing Position := do
  match src.tokens.find? fun t => t.pos.line == span.line && t.pos.column == span.column with
  | some t => return t.pos
  | none => return (← peek).pos

def parseExprStmt : Parsing Stmt := do
  let span ← spanHere
  let first ← parseExprList rules
  let t ← peek
  match if t.kind == .control then BinaryOp.ofAugmented? t.text else none with
  | some op =>
    match first with
    | .name .. | .attribute .. | .subscript .. =>
      advance
      return .augAssign span first op (← parseExprList rules)
    | _ => fail src .illegalAugmentedTarget t.pos
  | none =>
    let rest ← many do
      if ← eat "=" then return some (← parseExprList rules) else return none
    match rest.getLast? with
    | none => return .expr span first
    | some value =>
      let targets := first :: rest.dropLast
      match targets.find? (!·.isAssignable) with
      | some bad => fail src .cannotAssign (← positionOf src bad.span)
      | none => return .assign span targets value

def parseSimple : Parsing Stmt := do
  let t ← peek
  let span := Span.ofPosition t.pos
  if t.kind != .name then return ← parseExprStmt src rules
  match t.text with
  | "pass" =>
    advance
    return .pass span
  | "break" =>
    advance
    return .breakLoop span
  | "continue" =>
    advance
    return .continueLoop span
  | "return" =>
    advance
    return .returns span (← parseOptionalList rules)
  | "assert" =>
    advance
    let test ← rules.expr
    let message ← if ← eat "," then pure (some (← rules.expr)) else pure none
    return .asserts span test message
  | "raise" =>
    advance
    let value ← parseOptionalList rules
    if value.isSome then
      if ← eatWord "from" then
        let _ ← rules.expr
    return .raises span value
  | "yield" =>
    advance
    if ← eatWord "from" then return .yieldsFrom span (← rules.expr)
    return .yields span (← parseOptionalList rules)
  | "import" =>
    advance
    return .imports span (← commaSeparated (return false) (parseAlias src (parseDottedName src)))
  | "from" =>
    advance
    parseImportFrom src span
  | "global" =>
    advance
    return .globals span (← commaSeparated (return false) (identifier src))
  | "nonlocal" =>
    advance
    return .nonlocals span (← commaSeparated (return false) (identifier src))
  | _ => parseExprStmt src rules

/-- Statements on one line, separated by semicolons, with the end of the line. -/
def parseSimpleLine : Parsing (List Stmt) := do
  let first ← parseSimple src rules
  let rest ← many do
    if ← eat ";" then
      if ← isAtLineEnd then return none
      return some (← parseSimple src rules)
    else return none
  let t ← peek
  if t.kind == .newline then advance
  else if !t.isEof then fail src (.unexpected t) t.pos
  return first :: rest

/-- One more parameter after those of `params`. Annotations are read and dropped. -/
def parseParam (params : Params) : Parsing Params := do
  if ← eat "**" then return { params with keywords := some (← identifier src) }
  if ← eat "*" then return { params with rest := some (← identifier src) }
  let t ← peek
  let name ← identifier src
  if ← eat ":" then
    let _ ← rules.expr
  let default ← if ← eat "=" then pure (some (← rules.expr)) else pure none
  if default.isNone && params.args.getLast?.any (·.default.isSome) then
    fail src .nonDefaultAfterDefault t.pos
  if params.names.contains name then fail src (.duplicateArgument name) t.pos
  return { params with args := params.args ++ [⟨name, default⟩] }

def parseParams : Parsing Params := do
  if ← isAt ")" then return {}
  let first ← parseParam src rules {}
  grow (fun params => do
    if ← eat "," then
      if ← isAt ")" then return none
      return some (← parseParam src rules params)
    else return none) first

def parseConditional : Parsing Stmt := do
  let span ← spanHere
  advance
  let test ← rules.expr
  expect src ":"
  let body ← blocks.suite w
  if ← isAtClause w "elif" then
    advance
    return .ifElse span test body [← blocks.conditional w]
  if ← eatClause w "else" then
    expect src ":"
    return .ifElse span test body (← blocks.suite w)
  return .ifElse span test body []

def parseWhile : Parsing Stmt := do
  let span ← spanHere
  advance
  let test ← rules.expr
  expect src ":"
  return .whileLoop span test (← blocks.suite w)

def parseFor : Parsing Stmt := do
  let span ← spanHere
  advance
  let target ← parseTargets src rules
  expectWord src "in"
  let source ← parseExprList rules
  expect src ":"
  return .forLoop span target source (← blocks.suite w)

def parseWith : Parsing Stmt := do
  let span ← spanHere
  advance
  let context ← rules.expr
  let target ← if ← eatWord "as" then pure (some (← parseTargets src rules)) else pure none
  expect src ":"
  return .withBlock span context target (← blocks.suite w)

def parseHandler :
    Parsing (Option Handler) := do
  if ← isAtClause w "except" then
    advance
    let span ← spanHere
    advance
    let kind ← if ← isAt ":" then pure none else pure (some (← rules.expr))
    let name ← if ← eatWord "as" then pure (some (← identifier src)) else pure none
    expect src ":"
    return some (.mk span kind name (← blocks.suite w))
  else return none

def parseTry : Parsing Stmt := do
  let span ← spanHere
  advance
  expect src ":"
  let body ← blocks.suite w
  let handlers ← many (parseHandler src rules blocks w)
  let finalBody ←
    if ← eatClause w "finally" then do
      expect src ":"
      blocks.suite w
    else pure []
  if handlers.isEmpty && finalBody.isEmpty then fail src .expectedExceptOrFinally (← peek).pos
  return .tryBlock span body handlers finalBody

def parseDef (decorators : List Expr) :
    Parsing Stmt := do
  let span ← spanHere
  advance
  let name ← identifier src
  expect src "("
  let params ← parseParams src rules
  expect src ")"
  if ← eat "->" then
    let _ ← rules.expr
  expect src ":"
  return .functionDef span name params (← blocks.suite w) decorators

def parseClass
    (decorators : List Expr) : Parsing Stmt := do
  let span ← spanHere
  advance
  let name ← identifier src
  let bases ←
    if ← eat "(" then do
      let bases ← items ")" rules.expr
      expect src ")"
      pure bases
    else pure []
  expect src ":"
  return .classDef span name bases (← blocks.suite w) decorators

def parseDecorator : Parsing (Option Expr) := do
  if ← eat "@" then
    let e ← rules.expr
    let t ← peek
    if t.kind != .newline then fail src (.expectedLineBreakAfterDecorator t) t.pos
    advance
    let indent ← peek
    if indent.kind != .indent || width indent != w then fail src .expectedDefinition indent.pos
    advance
    return some e
  else return none

def parseDecorated : Parsing Stmt := do
  let decorators ← many (parseDecorator src rules w)
  let t ← peek
  if t.isName "def" then parseDef src rules blocks w decorators
  else if t.isName "class" then parseClass src rules blocks w decorators
  else fail src (.expectedDefOrClass t) t.pos

/-- The statements that start here, at width `w`: one with blocks, or a line of simple ones. -/
def parseStatement :
    Parsing (List Stmt) := do
  let t ← peek
  if t.isControl "@" then return [← parseDecorated src rules blocks w]
  if t.kind != .name then return ← parseSimpleLine src rules
  match t.text with
  | "if" => return [← parseConditional src rules blocks w]
  | "while" => return [← parseWhile src rules blocks w]
  | "for" => return [← parseFor src rules blocks w]
  | "with" => return [← parseWith src rules blocks w]
  | "try" => return [← parseTry src rules blocks w]
  | "def" => return [← parseDef src rules blocks w []]
  | "class" => return [← parseClass src rules blocks w []]
  | _ => parseSimpleLine src rules

/-- The statements of one more line of a block of width `w`. -/
def parseBlockLine :
    Parsing (Option (List Stmt)) := do
  let t ← peek
  if t.kind != .indent || width t < w then return none
  if w < width t then fail src .unexpectedIndent (← peekNext).pos
  advance
  return some (← parseStatement src rules blocks w)

/-- What follows a colon: statements on the same line, or a block deeper than `parent`. -/
def parseSuite (parent : Nat) :
    Parsing (List Stmt) := do
  if (← peek).kind != .newline then return ← parseSimpleLine src rules
  advance
  let t ← peek
  if t.kind != .indent then fail src .expectedIndentedBlock t.pos
  if width t ≤ parent then fail src .expectedIndentedBlock (← peekNext).pos
  return (← many (parseBlockLine src rules blocks (width t))).flatten

/-- A statement of a module, which may start at any column. -/
def parseTopLevel :
    Parsing (Option (List Stmt)) := do
  skipKinds [.newline]
  let t ← peek
  if t.isEof then return none
  if t.kind == .indent then
    advance
    return some (← parseStatement src rules blocks (width t))
  return some (← parseStatement src rules blocks 0)

def Blocks.ofDepth (src : Source) (rules : Rules) : Nat → Blocks
  | 0 => .exhausted
  | n + 1 => {
    suite := fun w => parseSuite src rules (ofDepth src rules n) w
    conditional := fun w => parseConditional src rules (ofDepth src rules n) w }

def parseModule : Parsing Module :=
  return (← many (parseTopLevel src src.rules (.ofDepth src src.rules src.depth))).flatten

end Parse

def Module.parse (source : List Char) (filename : String) : Except SyntaxError Module :=
  let src := Parse.Source.ofText source filename
  src.finish (src.run (Parse.parseModule src))

end BlockScript.Program
