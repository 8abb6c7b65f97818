import BlockScript.Text.Position

/-! Expressions of the plain language. -/

namespace BlockScript.Program

/-- The place where a node starts. -/
structure Span where
  line : Nat
  column : Nat
  deriving DecidableEq, Repr, Inhabited

def Span.ofPosition (pos : Position) : Span := ⟨pos.line, pos.column⟩

inductive Constant where
  | none
  | bool (b : Bool)
  | int (i : Int64)
  | float (f : Float)
  | str (s : String)
  deriving Repr, Inhabited

inductive UnaryOp where
  | neg
  | pos
  | invert
  | not
  deriving DecidableEq, Repr, Inhabited

inductive BinaryOp where
  | add
  | sub
  | mul
  | div
  | floorDiv
  | mod
  | pow
  | matMul
  | shiftLeft
  | shiftRight
  | bitOr
  | bitXor
  | bitAnd
  deriving DecidableEq, Repr, Inhabited

namespace BinaryOp

def all : List BinaryOp :=
  [add, sub, mul, div, floorDiv, mod, pow, matMul, shiftLeft, shiftRight, bitOr, bitXor, bitAnd]

def symbol : BinaryOp → String
  | add => "+"
  | sub => "-"
  | mul => "*"
  | div => "/"
  | floorDiv => "//"
  | mod => "%"
  | pow => "**"
  | matMul => "@"
  | shiftLeft => "<<"
  | shiftRight => ">>"
  | bitOr => "|"
  | bitXor => "^"
  | bitAnd => "&"

def precedence : BinaryOp → Nat
  | bitOr => 6
  | bitXor => 7
  | bitAnd => 8
  | shiftLeft | shiftRight => 9
  | add | sub => 10
  | mul | div | floorDiv | mod | matMul => 11
  | pow => 13

/-- The operator of an augmented assignment such as `+=`. -/
def ofAugmented? (glyph : String) : Option BinaryOp :=
  all.find? fun op => op.symbol ++ "=" == glyph

end BinaryOp

inductive CompareOp where
  | eq
  | notEq
  | lt
  | ltEq
  | gt
  | gtEq
  | isIn
  | notIn
  | is
  | isNot
  deriving DecidableEq, Repr, Inhabited

def CompareOp.symbol : CompareOp → String
  | eq => "=="
  | notEq => "!="
  | lt => "<"
  | ltEq => "<="
  | gt => ">"
  | gtEq => ">="
  | isIn => "in"
  | notIn => "not in"
  | is => "is"
  | isNot => "is not"

inductive LogicalOp where
  | and
  | or
  deriving DecidableEq, Repr, Inhabited

mutual

inductive Expr where
  | constant (span : Span) (value : Constant)
  | fstring (span : Span) (parts : List FStringPart)
  | name (span : Span) (id : String)
  | list (span : Span) (items : List Expr)
  | tuple (span : Span) (items : List Expr)
  | dict (span : Span) (entries : List Entry)
  /-- Lists and generators written with `for`; both give a list. -/
  | comprehension (span : Span) (element : Expr) (clauses : List Clause)
  | attribute (span : Span) (object : Expr) (name : String)
  | subscript (span : Span) (object : Expr) (index : Expr)
  /-- Has a meaning only as the index of a subscript. -/
  | slice (span : Span) (lower upper step : Option Expr)
  | call (span : Span) (callee : Expr) (args : List Arg)
  | unary (span : Span) (op : UnaryOp) (operand : Expr)
  | binary (span : Span) (op : BinaryOp) (left right : Expr)
  | compare (span : Span) (first : Expr) (rest : List Comparison)
  | logical (span : Span) (op : LogicalOp) (left right : Expr)
  | ternary (span : Span) (test body orelse : Expr)

inductive FStringPart where
  | text (s : String)
  | field (value : Expr) (conversion : Option Char) (spec : Option String)

inductive Entry where
  | mk (key value : Expr)

/-- `for target in source if conditions`. -/
inductive Clause where
  | mk (target source : Expr) (conditions : List Expr)

inductive Arg where
  | positional (value : Expr)
  | starred (value : Expr)
  | keyword (name : String) (value : Expr)
  | doubleStarred (value : Expr)

inductive Comparison where
  | mk (op : CompareOp) (right : Expr)

end

instance : Inhabited Expr := ⟨.name default ""⟩

namespace Expr

def span : Expr → Span
  | constant s _ | fstring s _ | name s _ | list s _ | tuple s _ | dict s _ | comprehension s _ _
  | .attribute s _ _ | subscript s _ _ | slice s _ _ _ | call s _ _ | unary s _ _ | binary s _ _ _
  | compare s _ _ | logical s _ _ _ | ternary s _ _ _ => s

def str (span : Span) (s : String) : Expr := constant span (.str s)

def attr (object : Expr) (name : String) : Expr := .attribute object.span object name

def item (object index : Expr) : Expr := subscript object.span object index

def apply (callee : Expr) (args : List Expr) : Expr :=
  call callee.span callee (args.map .positional)

mutual

/-- Whether the expression may stand on the left of `=`. -/
def isAssignable : Expr → Bool
  | name _ _ | .attribute _ _ _ | subscript _ _ _ => true
  | tuple _ items | list _ items => areAssignable items
  | _ => false

def areAssignable : List Expr → Bool
  | [] => true
  | e :: es => isAssignable e && areAssignable es

end

mutual

/-- The names that an assignment to the expression binds. -/
def boundNames : Expr → List String
  | name _ id => [id]
  | tuple _ items | list _ items => boundNamesAll items
  | _ => []

def boundNamesAll : List Expr → List String
  | [] => []
  | e :: es => boundNames e ++ boundNamesAll es

end

end Expr

namespace Clause

def target : Clause → Expr
  | mk target _ _ => target

end Clause

mutual

def Expr.names : Expr → List String
  | .constant .. => []
  | .fstring _ parts => namesInParts parts
  | .name _ id => [id]
  | .list _ items | .tuple _ items => namesInAll items
  | .dict _ entries => namesInEntries entries
  | .comprehension _ element clauses => element.names ++ namesInClauses clauses
  | .attribute _ object _ => object.names
  | .subscript _ object index => object.names ++ index.names
  | .slice _ lower upper step => namesInOption lower ++ namesInOption upper ++ namesInOption step
  | .call _ callee args => callee.names ++ namesInArgs args
  | .unary _ _ operand => operand.names
  | .binary _ _ left right | .logical _ _ left right => left.names ++ right.names
  | .compare _ first rest => first.names ++ namesInComparisons rest
  | .ternary _ test body orelse => body.names ++ test.names ++ orelse.names

def namesInAll : List Expr → List String
  | [] => []
  | e :: es => e.names ++ namesInAll es

def namesInOption : Option Expr → List String
  | none => []
  | some e => e.names

def FStringPart.names : FStringPart → List String
  | .text _ => []
  | .field value _ _ => value.names

def namesInParts : List FStringPart → List String
  | [] => []
  | p :: ps => p.names ++ namesInParts ps

def Entry.names : Entry → List String
  | .mk key value => key.names ++ value.names

def namesInEntries : List Entry → List String
  | [] => []
  | e :: es => e.names ++ namesInEntries es

def Clause.names : Clause → List String
  | .mk target source conditions => target.names ++ source.names ++ namesInAll conditions

def namesInClauses : List Clause → List String
  | [] => []
  | c :: cs => c.names ++ namesInClauses cs

def Arg.names : Arg → List String
  | .positional e | .starred e | .keyword _ e | .doubleStarred e => e.names

def namesInArgs : List Arg → List String
  | [] => []
  | a :: as => a.names ++ namesInArgs as

def Comparison.names : Comparison → List String
  | .mk _ right => right.names

def namesInComparisons : List Comparison → List String
  | [] => []
  | c :: cs => c.names ++ namesInComparisons cs

end

/-- Words that are never names. -/
def keywords : List String :=
  ["False", "None", "True", "and", "as", "assert", "break", "class", "continue", "def",
    "elif", "else", "except", "finally", "for", "from", "global", "if", "import", "in", "is",
    "lambda", "nonlocal", "not", "or", "pass", "raise", "return", "try", "while", "with",
    "yield"]

def isKeyword (word : String) : Bool := keywords.contains word

end BlockScript.Program
