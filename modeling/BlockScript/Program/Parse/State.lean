import BlockScript.Token.Scanner
import BlockScript.Halt
import BlockScript.Program.Stmt
import BlockScript.SyntaxError

/-! The state of parsing a program, and parsing by tokens and by repetition. -/

namespace BlockScript.Program

/-! ## Logical lines

The tokens of a program without the layout that has no meaning. A line starts
with its indentation and ends with a line break; blank lines, and layout inside brackets, are left
out. -/

/-- Whether nothing but blanks and a comment stands before the end of the line. -/
def isBlankLine (ts : List Token) : Bool :=
  match ts.find? fun t => t.kind != .whitespace && t.kind != .comment with
  | some t => t.kind == .newline || t.kind == .eof
  | none => true

def bracketDepth (depth : Nat) (t : Token) : Nat :=
  if t.isControlIn ["(", "[", "\x7b"] then depth + 1
  else if t.isControlIn [")", "]", "\x7d"] then depth - 1
  else depth

/-- The tokens that matter, at bracket depth `depth` after a token of kind `last`. -/
def linesFrom (depth : Nat) (last : Option Token.Kind) : List Token → List Token
  | [] => []
  | t :: ts =>
    match t.kind with
    | .whitespace | .comment => linesFrom depth last ts
    | .indent =>
      if depth = 0 && !isBlankLine ts then t :: linesFrom depth (some .indent) ts
      else linesFrom depth last ts
    | .newline =>
      if depth = 0 && last.any (· != .newline) then t :: linesFrom depth (some .newline) ts
      else linesFrom depth last ts
    | kind => t :: linesFrom (bracketDepth depth t) (some kind) ts

def logicalTokens (source : List Char) : List Token :=
  linesFrom 0 none (Token.tokenize source)

/-! ## The state -/

namespace Parse

structure Source where
  text : List Char
  filename : String
  tokens : List Token

def Source.ofText (text : List Char) (filename : String) : Source :=
  ⟨text, filename, logicalTokens text⟩

/-- Parsing consumes tokens. The last one, the end of the input, is never consumed. -/
abbrev Parsing := EStateM (Halt SyntaxError) (List Token)

/-- The end of an empty text. -/
def noToken : Token := ⟨.eof, "", .start⟩

def fail {α : Type} (src : Source) (fault : SyntaxFault) (pos : Position) : Parsing α :=
  throw (.error (.ofFault fault src.filename src.text pos))

def peek : Parsing Token := return (← get).headD noToken

def peekNext : Parsing Token := do
  match ← get with
  | _ :: t :: _ => return t
  | [t] => return t
  | [] => return noToken

def spanHere : Parsing Span := return .ofPosition (← peek).pos

def advance : Parsing Unit :=
  modify fun
    | t :: ts => if t.isEof then t :: ts else ts
    | [] => []

def isAt (glyph : String) : Parsing Bool := return (← peek).isControl glyph

def isAtWord (word : String) : Parsing Bool := return (← peek).isName word

def eat (glyph : String) : Parsing Bool := do
  if ← isAt glyph then
    advance
    return true
  else return false

/-- Consume a keyword if it stands here. -/
def eatWord (word : String) : Parsing Bool := do
  if ← isAtWord word then
    advance
    return true
  else return false

def expect (src : Source) (glyph : String) : Parsing Unit := do
  let t ← peek
  if t.isControl glyph then advance else fail src (.expected glyph t) t.pos

def expectWord (src : Source) (word : String) : Parsing Unit := do
  let t ← peek
  if t.isName word then advance else fail src (.expected word t) t.pos

def identifier (src : Source) : Parsing String := do
  let t ← peek
  if t.kind == .name && !isKeyword t.text then
    advance
    return t.text
  else fail src (.expectedName t) t.pos

def startsExpr : Parsing Bool := do
  let t ← peek
  return match t.kind with
    | .literal => true
    | .name => !isKeyword t.text || ["None", "True", "False", "not"].contains t.text
    | .control => ["(", "[", "\x7b", "-", "+", "~"].contains t.text
    | _ => false

/-- Advance while the kind of the current token is among `kinds`. -/
def skipKinds (kinds : List Token.Kind) : Parsing Unit :=
  modify fun ts => ts.dropWhile fun t => kinds.contains t.kind

/-- A bound on the number of repetitions that consume a token each. -/
def bound : Parsing Nat := return (← get).length + 1

def manyTo {α : Type} (p : Parsing (Option α)) : Nat → Parsing (List α)
  | 0 => throw .exhausted
  | n + 1 => do
    match ← p with
    | some a => return a :: (← manyTo p n)
    | none => return []

/-- Repeat `p` until it finds nothing. -/
def many {α : Type} (p : Parsing (Option α)) : Parsing (List α) := do manyTo p (← bound)

def growTo {α : Type} (p : α → Parsing (Option α)) : Nat → α → Parsing α
  | 0, _ => throw .exhausted
  | n + 1, a => do
    match ← p a with
    | some b => growTo p n b
    | none => return a

/-- Extend what has been parsed by `p` until that finds nothing. -/
def grow {α : Type} (p : α → Parsing (Option α)) (a : α) : Parsing α := do growTo p (← bound) a

/-- The items after a first one: each follows a comma, unless the list ends after the comma. -/
def moreItems {α : Type} (ends : Parsing Bool) (item : Parsing α) : Parsing (List α) :=
  many do
    if ← eat "," then
      if ← ends then return none
      return some (← item)
    else return none

/-- Items separated by commas up to the closing glyph, which is not consumed. -/
def items {α : Type} (close : String) (item : Parsing α) : Parsing (List α) := do
  if ← isAt close then return []
  let first ← item
  return first :: (← moreItems (isAt close) item)

end Parse

end BlockScript.Program
