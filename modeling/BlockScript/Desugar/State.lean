import BlockScript.Halt
import BlockScript.Closure
import BlockScript.SyntaxError
import BlockScript.Token.Scanner
import BlockScript.Yaml.Value

/-! The state in which a script is read, the operations of its grammar, and the moves of the scanner
that need no grammar: over layout, over text copied as it is, and over the header of a closure. -/

namespace BlockScript

namespace Scanner

theorem isEof_eq_false_of_isIgnorable {t : Token} {newlines : Bool}
    (h : t.isIgnorable newlines = true) : t.isEof = false := by
  cases t with
  | mk kind text pos => cases kind <;> simp_all [Token.isIgnorable, Token.isEof, Token.layout]

/-- The layout at the current place, and with `newlines` the line breaks too; the scanner after it;
and, if an indentation comes last, the layout and the scanner before that. -/
def layout (newlines : Bool) (s : Scanner) :
    List String × Scanner × Option (List String × Scanner) :=
  if _h : s.current.isIgnorable newlines then
    let (texts, stop, indent) := layout newlines s.bump
    let here := if s.current.kind == .indent && texts.isEmpty then some ([], s) else none
    (s.current.text :: texts, stop,
      match indent with
      | some (before, at_) => some (s.current.text :: before, at_)
      | none => here)
  else ([], s, none)
termination_by s.remaining
decreasing_by exact remaining_bump_lt (isEof_eq_false_of_isIgnorable _h)

/-- The texts of the tokens up to the first that satisfies `stop`, and the scanner there. -/
def copyUntil (stop : Token → Bool) (s : Scanner) : List String × Scanner :=
  if _h : s.current.isEof || stop s.current then ([], s)
  else
    let (texts, t) := copyUntil stop s.bump
    (s.current.text :: texts, t)
termination_by s.remaining
decreasing_by exact remaining_bump_lt (by simp_all)

/-- Names separated by commas, up to a closing parenthesis. `delimited` says that a name may come
next. -/
def parameterNames? (delimited : Bool) (s : Scanner) : Option (List String × Scanner) :=
  if s.current.isControl ")" then some ([], s)
  else if _h : delimited && s.current.kind == .name then
    let t := s.bump
    let comma := t.current.isControl ","
    (parameterNames? comma (if comma then t.bump else t)).map fun (names, u) =>
      (s.current.text :: names, u)
  else none
termination_by s.remaining
decreasing_by
  have h₁ : s.bump.remaining < s.remaining := remaining_bump_lt (by
    simp only [Bool.and_eq_true, beq_iff_eq] at _h
    simp [Token.isEof, _h.2])
  split
  · next hc =>
    have h₂ : s.bump.bump.remaining < s.bump.remaining := remaining_bump_lt (by
      simp only [Token.isControl, Bool.and_eq_true, beq_iff_eq] at hc
      simp [Token.isEof, hc.1])
    omega
  · exact h₁

def parameterList? (s : Scanner) : Option (List String × Scanner) := do
  let (names, t) ← parameterNames? true (s.setSkipped Token.trivia).bump
  return (names, (t.setSkipped [.whitespace]).bump)

/-- The parameters with which a closure header starts: a list in parentheses, or one name. -/
def headerNames? (s : Scanner) : Option (List String × Scanner) :=
  if s.current.isControl "(" then parameterList? s
  else if s.current.kind == .name then some ([s.current.text], s.bump)
  else none

/-- A closure header, `(a, b) ->` or `name ->`: its parameters and the scanner after it. -/
def closureHeader? (s : Scanner) : Option (List String × Scanner) := do
  let (names, t) ← headerNames? (s.setSkipped [.whitespace])
  if t.current.isControl "->" then some (names, t.bump.setSkipped s.skipped) else none

/-- The parameters of a closure header, if one stands here, and the scanner after it. -/
def passHeader (s : Scanner) : Option (List String) × Scanner :=
  match s.closureHeader? with
  | some (names, t) => (some names, t)
  | none => (none, s)

end Scanner

namespace Desugar

/-- What a plugin name stands for: the plugins a script may call with `!name`. -/
inductive Plugin where
  /-- An indented YAML document in braces becomes a literal of the value that is read from it. -/
  | yaml (read? : List Char → Option Yaml.Value)
  | answer
  | upper
  /-- An expression if one stands here, else nothing. -/
  | maybe
  deriving Inhabited

namespace Plugin

def name : Plugin → String
  | yaml _ => "yaml"
  | answer => "answer"
  | upper => "upper"
  | maybe => "maybe"

/-- The plugins of `available` with the given names, or the first name that is none of them. -/
def select (available : List Plugin) (names : List String) : Except String (List Plugin) :=
  names.mapM fun name =>
    match available.find? (·.name == name) with
    | some p => .ok p
    | none => .error name

end Plugin

structure Script where
  source : List Char
  filename : String
  /-- What local definitions are marked with; `none` turns them off. -/
  localPrefix : Option String
  plugins : List Plugin
  deriving Inhabited

structure State where
  scanner : Scanner
  /-- Ids of the closures around the current place, innermost first. -/
  stack : List String
  counter : Nat
  closures : ClosureRegistry
  deriving Inhabited

def Script.start (script : Script) : State :=
  ⟨.ofSource script.source, [], 0, .empty⟩

/-- Where an attempt starts: a place, and how many closures are complete, registered and open. -/
structure Checkpoint where
  scanner : Scanner
  counter : Nat
  registered : Nat
  depth : Nat

def State.checkpoint (s : State) : Checkpoint :=
  ⟨s.scanner, s.counter, s.closures.size, s.stack.length⟩

/-- Back to where an attempt started. Of the closures that were registered and opened, as many are
kept as there were then. -/
def State.rollback (s : State) (c : Checkpoint) : State where
  scanner := c.scanner
  stack := s.stack.drop (s.stack.length - c.depth)
  counter := c.counter
  closures := s.closures.truncate c.registered

/-- Reading changes the state and may fail; the state at the failure is kept. -/
abbrev Reading := EStateM (Halt SyntaxError) State

def Script.errorAt (script : Script) (fault : SyntaxFault) (pos : Position) : SyntaxError :=
  .ofFault fault script.filename script.source pos

def fail {α : Type} (script : Script) (fault : SyntaxFault) (pos : Position) : Reading α :=
  throw (.error (script.errorAt fault pos))

def current : Reading Token := return (← get).scanner.current

def bump : Reading Unit := modify fun s => { s with scanner := s.scanner.bump }

def moveTo (scanner : Scanner) : Reading Unit := modify fun s => { s with scanner }

def rollback (c : Checkpoint) : Reading Unit := modify fun s => s.rollback c

def layout (newlines : Bool) : Reading String := do
  let (texts, stop, _) := (← get).scanner.layout newlines
  moveTo stop
  return String.join texts

/-- Layout and line breaks, copied up to the indentation of the next statement. -/
def layoutToIndent : Reading String := do
  match (← get).scanner.layout true with
  | (_, _, some (texts, stop)) =>
    moveTo stop
    return String.join texts
  | (texts, stop, none) =>
    moveTo stop
    return String.join texts

/-- The text up to the first token that satisfies `stop`, copied. -/
def copyUntil (stop : Token → Bool) : Reading String := do
  let (texts, scanner) := (← get).scanner.copyUntil stop
  moveTo scanner
  return String.join texts

/-- Run `p`; if it fails, go back to where it started. -/
def tryReading {α : Type} (p : Reading α) : Reading α := fun s =>
  match p s with
  | .ok a t => .ok a t
  | .error e t => .error e (t.rollback s.checkpoint)

/-- Whether `p` succeeds here. In either case go back to where it started. -/
def succeeds (p : Reading Bool) : Reading Bool := fun s =>
  match p s with
  | .ok b t => .ok b (t.rollback s.checkpoint)
  | .error (.error _) t => .ok false (t.rollback s.checkpoint)
  | .error .exhausted t => .error .exhausted t

def closers : List String := [")", "]", "\x7d"]

def openers : List String := ["(", "[", "\x7b"]

def isLineEnd (t : Token) : Bool := t.isEof || t.kind == .newline

def isStatementEnd (t : Token) : Bool := isLineEnd t || t.isControl ";" || t.isControlIn closers

/-! ## The operations through which the grammar of scripts is recursive

Each rule of the grammar is
defined over a `Grammar` that stands for the rules it calls; tying the knot with a bound on the
depth of recursion gives the reader of scripts. -/

structure Mode where
  /-- Inside brackets, where a line break does not end the expression. -/
  grouped : Bool := false
  call : Bool := false
  arguments : Bool := false
  subscript : Bool := false
  deriving DecidableEq, Repr, Inhabited

/-- Each operation reads from the current place and returns the plain code for what it read. -/
structure Grammar where
  expr : Mode → Reading String
  /-- The operators, calls and subscripts that follow an operand. -/
  exprTail : Mode → Reading String
  items : Mode → Reading String
  dictEntries : Reading String
  simpleStatements : Reading String
  inlineStatements : Reading String
  assignments : Reading String
  /-- A block of statements, indented deeper than the parent's width if there is one. -/
  block : Option Nat → Reading String
  statements : Nat → Reading String
  program : Reading String

def Grammar.exhausted : Grammar where
  expr _ := throw .exhausted
  exprTail _ := throw .exhausted
  items _ := throw .exhausted
  dictEntries := throw .exhausted
  simpleStatements := throw .exhausted
  inlineStatements := throw .exhausted
  assignments := throw .exhausted
  block _ := throw .exhausted
  statements _ := throw .exhausted
  program := throw .exhausted

/-- Layout inside an expression: line breaks belong to it only inside brackets. -/
def layoutIn (mode : Mode) : Reading String := layout mode.grouped

end Desugar

end BlockScript
