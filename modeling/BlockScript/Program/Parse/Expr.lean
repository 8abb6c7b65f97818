import BlockScript.Program.Literal
import BlockScript.Program.Parse.State

/-! Parsing of expressions. The rules refer to each other through `Rules`. -/

namespace BlockScript.Program.Parse

/-- The rules through which the grammar of expressions is recursive. -/
structure Rules where
  expr : Parsing Expr
  negation : Parsing Expr
  /-- Signed operands, and what binds tighter. -/
  unary : Parsing Expr
  field : List Char → Except (Halt SyntaxError) Expr

def Rules.exhausted : Rules where
  expr := throw .exhausted
  negation := throw .exhausted
  unary := throw .exhausted
  field _ := .error .exhausted

section

variable (src : Source) (rules : Rules)

/-- The value of a field of an f-string. A fault in it is reported at the literal. -/
def parseField (pos : Position) (raw : List Char) :
    Parsing FStringPart := do
  let field := Literal.Field.ofText raw
  if (Text.trim field.value).isEmpty then fail src .emptyFStringField pos
  match rules.field field.value with
  | .ok value => return .field value field.conversion field.spec
  | .error (.error e) => fail src (.inFStringField e.fault) pos
  | .error .exhausted => throw .exhausted

def parseText (isRaw : Bool) (pos : Position) (raw : List Char) :
    Parsing FStringPart :=
  if isRaw then return .text (String.ofList raw)
  else
    match Literal.unescape raw with
    | .ok cs => return .text (String.ofList cs)
    | .error fault => fail src fault pos

def parseQuoted (pos : Position) (letters body : List Char) :
    Parsing (List FStringPart) := do
  let isRaw := letters.contains 'r' || letters.contains 'R'
  if letters.contains 'f' || letters.contains 'F' then
    let (segments, fault) := Literal.segments [] body
    let parts ← segments.mapM fun
      | .text raw => parseText src isRaw pos raw
      | .field raw => parseField src rules pos raw
    match fault with
    | some fault => fail src fault pos
    | none => return parts
  else return [← parseText src isRaw pos body]

/-- Another string literal right after one. -/
def parseAdjacent : Parsing (Option (List FStringPart)) := do
  let t ← peek
  if t.kind == .literal then
    match Literal.splitQuoted? t.text.toList with
    | some (letters, body) =>
      advance
      return some (← parseQuoted src rules t.pos letters body)
    | none => return none
  else return none

def plainText? : List FStringPart → Option String
  | [] => some ""
  | .text s :: parts => (plainText? parts).map (s ++ ·)
  | .field .. :: _ => none

def parseLiteral : Parsing Expr := do
  let t ← peek
  let span := Span.ofPosition t.pos
  advance
  match Literal.splitQuoted? t.text.toList with
  | none =>
    match Literal.number t.text with
    | .ok value => return .constant span value
    | .error fault => fail src fault t.pos
  | some (letters, body) =>
    let first ← parseQuoted src rules t.pos letters body
    let parts := first ++ (← many (parseAdjacent src rules)).flatten
    match plainText? parts with
    | some s => return .str span s
    | none => return .fstring span parts

def parseComparisonOp : Parsing (Option CompareOp) := do
  let t ← peek
  let next ← peekNext
  let take (op : CompareOp) : Parsing (Option CompareOp) := do
    advance
    return some op
  let takeBoth (op : CompareOp) : Parsing (Option CompareOp) := do
    advance
    advance
    return some op
  if t.kind == .control then
    match [CompareOp.eq, .notEq, .lt, .ltEq, .gt, .gtEq].find? (·.symbol == t.text) with
    | some op => take op
    | none => return none
  else if t.isName "in" then take .isIn
  else if t.isName "not" && next.isName "in" then takeBoth .notIn
  else if t.isName "is" then
    if next.isName "not" then takeBoth .isNot else take .is
  else return none

def binaryOp? (precedence : Nat) (t : Token) : Option BinaryOp :=
  BinaryOp.all.find? fun op => op.precedence == precedence && t.isControl op.symbol

/-- Operators that group to the left, loosest first; the operands of the tightest are unary. -/
def parseBinary (rules : Rules) : List Nat → Parsing Expr
  | [] => rules.unary
  | p :: ps => do
    let first ← parseBinary rules ps
    grow (fun left => do
      match binaryOp? p (← peek) with
      | some op =>
        advance
        let right ← parseBinary rules ps
        return some (.binary left.span op left right)
      | none => return none) first

/-- What may be compared: arithmetic without comparisons and logic. -/
def parseOperand : Parsing Expr := parseBinary rules [6, 7, 8, 9, 10, 11]

def parseComparison : Parsing Expr := do
  let first ← parseOperand rules
  let rest ← many do
    match ← parseComparisonOp with
    | some op => return some (.mk op (← parseOperand rules))
    | none => return none
  return if rest.isEmpty then first else .compare first.span first rest

def parseNegation : Parsing Expr := do
  let span ← spanHere
  if ← eatWord "not" then return .unary span .not (← rules.negation)
  parseComparison rules

def parseLogical (word : String) (op : LogicalOp) (operand : Parsing Expr) : Parsing Expr := do
  let first ← operand
  grow (fun left => do
    if ← eatWord word then return some (.logical left.span op left (← operand))
    else return none) first

def parseDisjunction : Parsing Expr :=
  parseLogical "or" .or (parseLogical "and" .and rules.negation)

/-- An expression without a comma outside brackets. -/
def parseExpr : Parsing Expr := do
  let body ← parseDisjunction rules
  if ← eatWord "if" then
    let test ← parseDisjunction rules
    expectWord src "else"
    return .ternary body.span test body (← rules.expr)
  else return body

/-- Expressions separated by commas; a comma makes a tuple. -/
def parseExprList : Parsing Expr := do
  let span ← spanHere
  let first ← rules.expr
  if ← isAt "," then
    return .tuple span (first :: (← moreItems (return !(← startsExpr)) rules.expr))
  else return first

/-- The target of a loop: operands separated by commas. -/
def parseTargets : Parsing Expr := do
  let t ← peek
  let first ← parseOperand rules
  let target ←
    if ← isAt "," then
      pure (.tuple (.ofPosition t.pos)
        (first :: (← moreItems (return !(← startsExpr)) (parseOperand rules))))
    else pure first
  if target.isAssignable then return target
  else fail src .cannotAssign t.pos

def parseClause : Parsing (Option Clause) := do
  if ← eatWord "for" then
    let target ← parseTargets src rules
    expectWord src "in"
    let source ← parseDisjunction rules
    let conditions ← many do
      if ← eatWord "if" then return some (← parseDisjunction rules) else return none
    return some (.mk target source conditions)
  else return none

def parseComprehension (element : Expr) : Parsing Expr := do
  return .comprehension element.span element (← many (parseClause src rules))

/-- An argument of a call; only the first may be a comprehension without brackets. -/
def parseArg (isFirst : Bool) : Parsing Arg := do
  if ← eat "**" then return .doubleStarred (← rules.expr)
  if ← eat "*" then return .starred (← rules.expr)
  if (← peek).kind == .name && (← peekNext).isControl "=" then
    let name ← identifier src
    advance
    return .keyword name (← rules.expr)
  let value ← rules.expr
  if isFirst && (← isAtWord "for") then
    return .positional (← parseComprehension src rules value)
  return .positional value

def parseArgs : Parsing (List Arg) := do
  let args ←
    if ← isAt ")" then pure []
    else do
      let first ← parseArg src rules true
      pure (first :: (← moreItems (isAt ")") (parseArg src rules false)))
  expect src ")"
  return args

def endsBound : Parsing Bool := return (← peek).isControlIn [":", "]", ","]

def parseBound : Parsing (Option Expr) := do
  if ← endsBound then return none else return some (← rules.expr)

def parseIndex : Parsing Expr := do
  let span ← spanHere
  let lower ← if ← isAt ":" then pure none else pure (some (← rules.expr))
  match lower, ← isAt ":" with
  | some index, false => return index
  | _, _ =>
    expect src ":"
    let upper ← parseBound rules
    let step ← if ← eat ":" then parseBound rules else pure none
    return .slice span lower upper step

def parseSubscript : Parsing Expr := do
  let span ← spanHere
  let first ← parseIndex src rules
  if ← isAt "," then
    return .tuple span (first :: (← moreItems (isAt "]") (parseIndex src rules)))
  else return first

/-- After an opening parenthesis: a tuple, a comprehension or an expression. -/
def parseParenthesized (span : Span) : Parsing Expr := do
  if ← eat ")" then return .tuple span []
  let first ← rules.expr
  let inner ←
    if ← isAtWord "for" then parseComprehension src rules first
    else if ← isAt "," then
      pure (.tuple span (first :: (← moreItems (isAt ")") rules.expr)))
    else pure first
  expect src ")"
  return inner

/-- After an opening bracket: a list or a comprehension. -/
def parseBracketed (span : Span) : Parsing Expr := do
  if ← eat "]" then return .list span []
  let first ← rules.expr
  let inner ←
    if ← isAtWord "for" then parseComprehension src rules first
    else pure (.list span (first :: (← moreItems (isAt "]") rules.expr)))
  expect src "]"
  return inner

/-- After an opening brace: a dict. -/
def parseDict (span : Span) : Parsing Expr := do
  let entries ← items "\x7d" do
    let key ← rules.expr
    expect src ":"
    return .mk key (← rules.expr)
  expect src "\x7d"
  return .dict span entries

def parseWord (t : Token) (span : Span) : Parsing Expr := do
  advance
  match t.text with
  | "None" => return .constant span .none
  | "True" => return .constant span (.bool true)
  | "False" => return .constant span (.bool false)
  | word =>
    if isKeyword word then fail src (.unexpectedKeyword word) t.pos else return .name span word

def parsePrimary : Parsing Expr := do
  let t ← peek
  let span := Span.ofPosition t.pos
  match t.kind with
  | .name => parseWord src t span
  | .literal => parseLiteral src rules
  | .unknown => fail src (.unexpectedCharacter t.text) t.pos
  | _ =>
    if ← eat "(" then parseParenthesized src rules span
    else if ← eat "[" then parseBracketed src rules span
    else if ← eat "\x7b" then parseDict src rules span
    else fail src (.unexpected t) t.pos

/-- One attribute, call or subscript after an expression. -/
def parseTrailer (e : Expr) : Parsing (Option Expr) := do
  if ← eat "." then return some (e.attr (← identifier src))
  if ← eat "(" then return some (.call e.span e (← parseArgs src rules))
  if ← eat "[" then
    let index ← parseSubscript src rules
    expect src "]"
    return some (e.item index)
  return none

def parsePower : Parsing Expr := do
  let first ← parsePrimary src rules
  let base ← grow (parseTrailer src rules) first
  if ← eat "**" then return .binary base.span .pow base (← rules.unary)
  return base

def parseUnary : Parsing Expr := do
  let span ← spanHere
  if ← eat "-" then return .unary span .neg (← rules.unary)
  if ← eat "+" then return .unary span .pos (← rules.unary)
  if ← eat "~" then return .unary span .invert (← rules.unary)
  parsePower src rules

def parseWhole : Parsing Expr := do
  skipKinds [.newline, .indent]
  let e ← parseExprList rules
  skipKinds [.newline, .indent]
  let t ← peek
  if t.isEof then return e else fail src (.unexpected t) t.pos

end

def Source.run {α : Type} (src : Source) (p : Parsing α) : Except (Halt SyntaxError) α :=
  match p src.tokens with
  | .ok a _ => .ok a
  | .error e _ => .error e

def Rules.ofDepth : Nat → Source → Rules
  | 0, _ => .exhausted
  | n + 1, src => {
    expr := fun s => parseExpr src (ofDepth n src) s
    negation := fun s => parseNegation (ofDepth n src) s
    unary := fun s => parseUnary src (ofDepth n src) s
    field := fun source =>
      let inner := Source.ofText source src.filename
      inner.run (parseWhole inner (ofDepth n inner)) }

def Source.depth (src : Source) : Nat := 4 * (src.text.length + 4)

def Source.rules (src : Source) : Rules := .ofDepth src.depth src

def Source.finish {α : Type} (src : Source) : Except (Halt SyntaxError) α → Except SyntaxError α
  | .ok a => .ok a
  | .error (.error e) => .error e
  | .error .exhausted => .error (.ofFault .tooDeep src.filename src.text .start)

end Parse

/-- The expression, or tuple without parentheses, that a text holds. -/
def Expr.parse (source : List Char) (filename : String) : Except SyntaxError Expr :=
  let src := Parse.Source.ofText source filename
  src.finish (src.run (Parse.parseWhole src src.rules))

end BlockScript.Program
