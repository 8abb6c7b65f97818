import BlockScript.Number.Binary
import BlockScript.Program.Stmt
import BlockScript.Text.Escaped

/-! Programs as text. An expression is put in parentheses where it binds looser than its place
demands. -/

namespace BlockScript.Program

namespace Precedence

def ternary : Nat := 1
def or : Nat := 2
def and : Nat := 3
def not : Nat := 4
def compare : Nat := 5
def unary : Nat := 12
def power : Nat := 13
def atom : Nat := 14

end Precedence

namespace Print

def constant : Constant → String
  | .none => "None"
  | .bool true => "True"
  | .bool false => "False"
  | .int i => toString i.toInt
  | .float f => Number.literal f
  | .str s => Text.quoteLiteral s

def doubleBrace (c : Char) : List Char := if c = '{' || c = '}' then [c, c] else [c]

def fstringText (s : String) : String :=
  String.ofList ((Text.escape '"' s.toList).flatMap doubleBrace)

def fieldTail (conversion : Option Char) (spec : Option String) : String :=
  (match conversion with
    | some c => "!" ++ c.toString
    | none => "") ++
  match spec with
  | some s => ":" ++ s
  | none => ""

def unarySymbol : UnaryOp → String
  | .neg => "-"
  | .pos => "+"
  | .invert => "~"
  | .not => "not "

def parenthesizeIf (looser : Bool) (text : String) : String :=
  if looser then "(" ++ text ++ ")" else text

/-- How tightly the outermost form of an expression binds. -/
def precedence : Expr → Nat
  | .unary _ .not _ => Precedence.not
  | .unary _ _ _ => Precedence.unary
  | .binary _ op _ _ => op.precedence
  | .compare _ _ _ => Precedence.compare
  | .logical _ .and _ _ => Precedence.and
  | .logical _ .or _ _ => Precedence.or
  | .ternary _ _ _ _ => Precedence.ternary
  | _ => Precedence.atom

/-- The least precedence of the left and of the right operand. -/
def operandContexts : BinaryOp → Nat × Nat
  | .pow => (Precedence.power + 1, Precedence.unary)
  | op => (op.precedence, op.precedence + 1)

mutual

/-- An expression where at least the precedence `context` is needed. -/
def expr (context : Nat) (e : Expr) : String :=
  parenthesizeIf (precedence e < context) (bare e)

def bare : Expr → String
  | .constant _ value => constant value
  | .fstring _ parts => "f\"" ++ fstringParts parts ++ "\""
  | .name _ id => id
  | .list _ items => "[" ++ ", ".intercalate (exprs items) ++ "]"
  | .tuple _ items => tuple items
  | .dict _ entries => "\x7b" ++ ", ".intercalate (dictEntries entries) ++ "\x7d"
  | .comprehension _ element clauses =>
    "[" ++ expr Precedence.ternary element ++ comprehensionClauses clauses ++ "]"
  | .attribute _ object name => expr Precedence.atom object ++ "." ++ name
  | .subscript _ object index => expr Precedence.atom object ++ "[" ++ subscriptIndex index ++ "]"
  | .slice _ lower upper step =>
    optional Precedence.ternary lower ++ ":" ++ optional Precedence.ternary upper ++
      (if step.isSome then ":" ++ optional Precedence.ternary step else "")
  | .call _ callee args =>
    expr Precedence.atom callee ++ "(" ++ ", ".intercalate (arguments args) ++ ")"
  | .unary _ op operand =>
    unarySymbol op ++ expr (if op = .not then Precedence.not else Precedence.unary) operand
  | .binary _ op left right =>
    expr (operandContexts op).1 left ++ " " ++ op.symbol ++ " " ++ expr (operandContexts op).2 right
  | .compare _ first rest => expr (Precedence.compare + 1) first ++ comparisons rest
  | .logical _ .and left right =>
    expr Precedence.and left ++ " and " ++ expr (Precedence.and + 1) right
  | .logical _ .or left right =>
    expr Precedence.or left ++ " or " ++ expr (Precedence.or + 1) right
  | .ternary _ test body orelse =>
    expr Precedence.or body ++ " if " ++ expr Precedence.or test ++ " else " ++
      expr Precedence.ternary orelse

def exprs : List Expr → List String
  | [] => []
  | e :: es => expr Precedence.ternary e :: exprs es

def tuple : List Expr → String
  | [only] => "(" ++ expr Precedence.ternary only ++ ",)"
  | items => "(" ++ ", ".intercalate (exprs items) ++ ")"

/-- A tuple of several items needs no parentheses between brackets. -/
def subscriptIndex : Expr → String
  | .tuple _ (first :: second :: rest) =>
    ", ".intercalate
      (expr Precedence.ternary first :: expr Precedence.ternary second :: exprs rest)
  | index => expr 0 index

def optional (context : Nat) : Option Expr → String
  | none => ""
  | some e => expr context e

def fstringParts : List FStringPart → String
  | [] => ""
  | .text s :: parts => fstringText s ++ fstringParts parts
  | .field value conversion spec :: parts =>
    "\x7b" ++ (expr Precedence.ternary value ++ fieldTail conversion spec) ++ "\x7d" ++
    fstringParts parts

def dictEntries : List Entry → List String
  | [] => []
  | .mk key value :: entries =>
    (expr Precedence.ternary key ++ ": " ++ expr Precedence.ternary value) :: dictEntries entries

def comprehensionClauses : List Clause → String
  | [] => ""
  | .mk target source conditions :: clauses =>
    " for " ++ expr 0 target ++ " in " ++ expr Precedence.or source ++
      conditionList conditions ++ comprehensionClauses clauses

def conditionList : List Expr → String
  | [] => ""
  | e :: es => " if " ++ expr Precedence.or e ++ conditionList es

def arguments : List Arg → List String
  | [] => []
  | .positional e :: args => expr Precedence.ternary e :: arguments args
  | .starred e :: args => ("*" ++ expr Precedence.ternary e) :: arguments args
  | .keyword name e :: args => (name ++ "=" ++ expr Precedence.ternary e) :: arguments args
  | .doubleStarred e :: args => ("**" ++ expr Precedence.ternary e) :: arguments args

def comparisons : List Comparison → String
  | [] => ""
  | .mk op right :: rest =>
    " " ++ op.symbol ++ " " ++ expr (Precedence.compare + 1) right ++ comparisons rest

end

def indentation : Nat → String
  | 0 => ""
  | n + 1 => "    " ++ indentation n

def line (depth : Nat) (text : String) : String := indentation depth ++ text ++ "\n"

def importedName (a : Alias) : String :=
  match a.rename with
  | some name => a.name ++ " as " ++ name
  | none => a.name

def aliases (names : List Alias) : String := ", ".intercalate (names.map importedName)

def param (p : Param) : String :=
  match p.default with
  | some value => p.name ++ "=" ++ expr Precedence.ternary value
  | none => p.name

def params (p : Params) : String :=
  ", ".intercalate <|
    p.args.map param ++ p.rest.toList.map ("*" ++ ·) ++ p.keywords.toList.map ("**" ++ ·)

def keywordWith (keyword : String) : Option Expr → String
  | some e => keyword ++ " " ++ expr 0 e
  | none => keyword

def handlerHead (kind : Option Expr) (name : Option String) : String :=
  match kind, name with
  | some kind, some name => "except " ++ expr Precedence.ternary kind ++ " as " ++ name ++ ":"
  | some kind, none => "except " ++ expr Precedence.ternary kind ++ ":"
  | none, _ => "except:"

def decorators (depth : Nat) (es : List Expr) : String :=
  String.join (es.map fun e => line depth ("@" ++ expr 0 e))

mutual

def stmt (depth : Nat) : Stmt → String
  | .expr _ e => line depth (expr 0 e)
  | .assign _ targets value =>
    line depth (" = ".intercalate (targets.map (expr 0) ++ [expr 0 value]))
  | .augAssign _ target op value =>
    line depth (expr 0 target ++ " " ++ op.symbol ++ "= " ++ expr 0 value)
  | .pass _ => line depth "pass"
  | .breakLoop _ => line depth "break"
  | .continueLoop _ => line depth "continue"
  | .returns _ value => line depth (keywordWith "return" value)
  | .raises _ value => line depth (keywordWith "raise" value)
  | .yields _ value => line depth (keywordWith "yield" value)
  | .yieldsFrom _ source => line depth ("yield from " ++ expr 0 source)
  | .asserts _ test none => line depth ("assert " ++ expr Precedence.ternary test)
  | .asserts _ test (some message) =>
    line depth
      ("assert " ++ expr Precedence.ternary test ++ ", " ++ expr Precedence.ternary message)
  | .imports _ names => line depth ("import " ++ aliases names)
  | .importsFrom _ module names => line depth ("from " ++ module ++ " import " ++ aliases names)
  | .globals _ names => line depth ("global " ++ ", ".intercalate names)
  | .nonlocals _ names => line depth ("nonlocal " ++ ", ".intercalate names)
  | .ifElse _ test body orelse =>
    line depth ("if " ++ expr Precedence.ternary test ++ ":") ++ block (depth + 1) body ++
      elseBranch depth orelse
  | .whileLoop _ test body =>
    line depth ("while " ++ expr Precedence.ternary test ++ ":") ++ block (depth + 1) body
  | .forLoop _ target source body =>
    line depth ("for " ++ expr 0 target ++ " in " ++ expr 0 source ++ ":") ++ block (depth + 1) body
  | .withBlock _ context target body =>
    line depth
      ("with " ++ expr Precedence.ternary context ++
        (match target with
          | some t => " as " ++ expr 0 t
          | none => "") ++ ":") ++
      block (depth + 1) body
  | .tryBlock _ body handlers finalBody =>
    line depth "try:" ++ block (depth + 1) body ++ handlerList depth handlers ++
      (if finalBody.isEmpty then "" else line depth "finally:" ++ block (depth + 1) finalBody)
  | .functionDef _ name ps body decos =>
    decorators depth decos ++ line depth ("def " ++ name ++ "(" ++ params ps ++ "):") ++
      block (depth + 1) body
  | .classDef _ name bases body decos =>
    decorators depth decos ++
      line depth
        (if bases.isEmpty then "class " ++ name ++ ":"
        else
          "class " ++ name ++ "(" ++ ", ".intercalate (bases.map (expr Precedence.ternary)) ++
            "):") ++
      block (depth + 1) body

/-- A block without statements is written as one that does nothing. -/
def block (depth : Nat) : List Stmt → String
  | [] => line depth "pass"
  | s :: ss => stmt depth s ++ stmts depth ss

def stmts (depth : Nat) : List Stmt → String
  | [] => ""
  | s :: ss => stmt depth s ++ stmts depth ss

/-- An `else` that holds nothing but a condition is written as `elif`. -/
def elseBranch (depth : Nat) : List Stmt → String
  | [] => ""
  | [.ifElse _ test body orelse] =>
    line depth ("elif " ++ expr Precedence.ternary test ++ ":") ++ block (depth + 1) body ++
      elseBranch depth orelse
  | s :: ss => line depth "else:" ++ stmt (depth + 1) s ++ stmts (depth + 1) ss

def handlerList (depth : Nat) : List Handler → String
  | [] => ""
  | .mk _ kind name body :: handlers =>
    line depth (handlerHead kind name) ++ block (depth + 1) body ++ handlerList depth handlers

end

end Print

def Expr.print (e : Expr) : String := Print.expr 0 e

/-- The text of a module; one without statements does nothing. -/
def Module.print (m : Module) : String := Print.block 0 m

end BlockScript.Program
