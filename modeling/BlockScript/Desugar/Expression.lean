import BlockScript.Desugar.Plugin

/-! Expressions of a script. Code is copied as it stands, except that closures are cut out and
replaced by their ids. -/

namespace BlockScript.Desugar

variable (script : Script) (grammar : Grammar)

def binaryOperators : List String :=
  ["-", "+", "*", "**", "/", "//", "%", "@", "&", "|", "^", "<<", ">>", "==", "!=", "<", ">",
    "<=", ">=", "."]

def unaryOperators : List String := ["-", "+", "~"]

def wordOperators : List String := ["and", "or", "in", "is", "not", "if", "else"]

/-- The statements of a closure after its brace and the layout `lead`. On the line of the brace they
follow one another; after a line break they form a block. -/
def readClosureStatements (lead : String) : Reading String := do
  if lead.toList.contains '\n' then
    let block ← grammar.block none
    return block ++ (← layout true)
  grammar.inlineStatements

def readClosureBody : Reading String := do
  let opening ← current
  bump
  let lead ← layoutToIndent
  let code ← readClosureStatements grammar lead
  let token ← current
  unless token.isControl "\x7d" do
    fail script .closureNotClosed (if token.isEof then opening.pos else token.pos)
  bump
  return lead ++ code

def readInlineStatements : Reading String := do
  let token ← current
  if token.isControl "\x7d" || token.isEof then return ""
  let code ← grammar.simpleStatements
  let after ← layout true
  let token ← current
  if token.kind == .control && !token.isControl "\x7d" then return code ++ after
  return code ++ after ++ (← grammar.inlineStatements)

/-- The id of the next closure: the ids around it, and its number. -/
def State.nextId (s : State) : String :=
  String.join s.stack.reverse ++ "_closure_" ++ toString (s.counter + 1)

/-- The body of a closure with the given parameters, if there is one: statements in braces that are
not all blank, or the expression that must follow an arrow. -/
def readClosureContent? (parameters : Option (List String)) : Reading (Option ClosureBody) := do
  if (← current).isControl "\x7b" then
    let code ← readClosureBody script grammar
    return if (Text.trim code.toList).isEmpty then none else some (.block code)
  if parameters.isSome then
    let code ← grammar.expr {}
    return some (.expr code)
  return none

/-- Run `p` inside the closure `id`, whose text goes on at `scanner`. -/
def inClosure {α : Type} (id : String) (scanner : Scanner) (p : Reading α) : Reading α := do
  modify fun s => { s with scanner, stack := id :: s.stack }
  let a ← p
  modify fun s => { s with stack := s.stack.drop 1 }
  return a

/-- A closure, if one stands here; else nothing is read. -/
def readClosure? : Reading (Option Closure) := do
  let start ← get
  let place := start.scanner.current.pos
  let (parameters, scanner) := start.scanner.passHeader
  let id := start.nextId
  match ← inClosure id scanner (readClosureContent? script grammar parameters) with
  | none =>
    rollback start.checkpoint
    return none
  | some body =>
    modify fun s => { s with counter := s.counter + 1 }
    return some ⟨id, place.line, place.column, parameters, body⟩

/-- Whether the brace at the current place opens a dict: an expression and a colon follow. -/
def opensDict : Reading Bool :=
  succeeds do
    bump
    let _ ← layout true
    let _ ← grammar.expr { grouped := true }
    let _ ← layout true
    return (← current).isControl ":"

def atDict : Reading Bool := do
  if (← current).isControl "\x7b" then opensDict grammar else return false

def readDictEntries : Reading String := do
  if (← current).isControl "\x7d" then return ""
  let lead ← layout true
  let key ← grammar.expr { grouped := true }
  let afterKey ← layout true
  let token ← current
  unless token.isControl ":" do
    fail script (.expected ":" token) token.pos
  bump
  let afterColon ← layout true
  let value ← grammar.expr { grouped := true }
  let afterValue ← layout true
  let entry := lead ++ key ++ afterKey ++ ":" ++ afterColon ++ value ++ afterValue
  if (← current).isControl "," then
    bump
    let afterComma ← layout true
    return entry ++ "," ++ afterComma ++ (← grammar.dictEntries)
  return entry

def readDict : Reading String := do
  let opening ← current
  bump
  let entries ← grammar.dictEntries
  let token ← current
  unless token.isControl "\x7d" do
    fail script (.expected "\x7d" token) (if token.isEof then opening.pos else token.pos)
  bump
  return "\x7b" ++ entries ++ "\x7d"

def readWordOperator : Reading String := do
  let word ← current
  bump
  if word.text == "is" then
    let here := (← get).scanner
    let between ← layout false
    if (← current).isName "not" then
      bump
      return "is" ++ between ++ "not"
    moveTo here
    return "is"
  else if word.text == "not" then
    let between ← layout false
    let token ← current
    unless token.isName "in" do
      fail script (.expectedInAfterNot token) token.pos
    bump
    return "not" ++ between ++ "in"
  else return word.text

def closerOf (glyph : String) : String :=
  if glyph == "(" then ")" else if glyph == "[" then "]" else "\x7d"

/-- The items between brackets. An error at the end of input is told as a missing bracket. -/
def readBracketItems (opening : Token) (close : String) (mode : Mode) : Reading String := fun s =>
  match grammar.items mode s with
  | .ok code t => .ok code t
  | .error (.error e) t =>
    let stop := t.scanner.current
    if stop.isEof && e.line == stop.pos.line && e.column == stop.pos.column then
      .error (.error (script.errorAt (.expected close stop) opening.pos)) t
    else .error (.error e) t
  | .error .exhausted t => .error .exhausted t

def readBracketContent (opening : Token) (close : String) (mode : Mode) : Reading String := do
  if (← current).isControl close then return ""
  readBracketItems script grammar opening close mode

def readBracket (mode : Mode) : Reading String := do
  let opening ← current
  let close := closerOf opening.text
  bump
  let lead ← layout true
  let inside : Mode :=
    { grouped := true, arguments := mode.call, subscript := !mode.call && mode.subscript }
  let inner ← readBracketContent script grammar opening close inside
  let token ← current
  unless token.isControl close do
    fail script (.expected close token) (if token.isEof then opening.pos else token.pos)
  bump
  return opening.text ++ lead ++ inner ++ close

/-- An operand that is no dict and no closure: a plugin call, a bracket, a name, a literal, or an
operator in front of an operand. -/
def readOperand (mode : Mode) : Reading String := do
  let token ← current
  if token.isControl "!" then readPlugin script grammar
  else if token.isControlIn openers then readBracket script grammar mode
  else if mode.arguments && token.isControlIn ["*", "**"] then
    bump
    return token.text ++ (← grammar.expr {})
  else if (token.kind == .name || token.kind == .literal) && !token.isName "not" then
    bump
    return token.text
  else if token.isName "not" || token.isControlIn unaryOperators then
    bump
    return token.text ++ (← grammar.expr mode)
  else fail script (.unexpected token) token.pos

/-- An operand: a dict, a closure, which is registered and gives way to its id, or another. -/
def readAtom (mode : Mode) : Reading String := do
  if ← atDict grammar then readDict script grammar
  else
    match ← readClosure? script grammar with
    | some closure =>
      modify fun s => { s with closures := s.closures.register closure }
      return closure.id
    | none => readOperand script grammar mode

def readExpr (mode : Mode) : Reading String := do
  let lead ← layoutIn mode
  let atom ← readAtom script grammar mode
  return lead ++ atom ++ (← grammar.exprTail mode)

/-- What may follow an operand. A comprehension's `for` continues an expression in brackets. -/
def readExprTail (mode : Mode) : Reading String := do
  let space ← layoutIn mode
  let token ← current
  if token.isControlIn binaryOperators then
    bump
    let operand ← grammar.expr mode
    return space ++ token.text ++ operand ++ (← grammar.exprTail mode)
  else if token.isNameIn wordOperators || (mode.grouped && token.isName "for") then
    let word ← readWordOperator script
    let operand ← grammar.expr mode
    return space ++ word ++ operand ++ (← grammar.exprTail mode)
  else if token.isControl "(" then
    let call ← readAtom script grammar { call := true, grouped := true }
    return space ++ call ++ (← grammar.exprTail mode)
  else if token.isControl "[" then
    let index ← readAtom script grammar { subscript := true }
    return space ++ index ++ (← grammar.exprTail mode)
  else return space

/-- An expression and the layout after it. In a subscript nothing need stand before a colon or the
bracket. -/
def readItem (mode : Mode) : Reading String := do
  let token ← current
  if mode.subscript && (token.isControl ":" || token.isControl "]") then return ""
  let code ← grammar.expr mode
  return code ++ (← layoutIn mode)

def readKeywordValue (mode : Mode) : Reading String := do
  unless mode.arguments && (← current).isControl "=" do return ""
  bump
  let code ← grammar.expr mode
  return "=" ++ code ++ (← layoutIn mode)

/-- Expressions separated by commas, and in a subscript by colons. Arguments may have keywords. -/
def readItems (mode : Mode) : Reading String := do
  let lead ← layoutIn mode
  let item ← readItem grammar mode
  let value ← readKeywordValue grammar mode
  let code := lead ++ item ++ value
  let separator ← current
  if separator.isControl "," || (mode.subscript && separator.isControl ":") then
    bump
    let after ← layoutIn mode
    let token ← current
    let code := code ++ separator.text ++ after
    if (token.isControlIn closers && !separator.isControl ":") ||
        (!mode.grouped && isStatementEnd token) then
      return code
    return code ++ (← grammar.items mode)
  return code

end BlockScript.Desugar
