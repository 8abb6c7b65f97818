import BlockScript.Program.Stmt

/-! Changing every expression of a program. -/

namespace BlockScript.Program

/-- A change of expressions from the inside out, in an environment that is passed inwards. -/
structure Change (σ : Type) where
  /-- The environment for the parts of an expression. -/
  enter : σ → Expr → σ
  /-- The new expression, given one with its parts changed. -/
  leave : σ → Expr → Expr

variable {σ : Type}

mutual

def Expr.change (c : Change σ) (env : σ) : Expr → Expr
  | .constant s value => c.leave env (.constant s value)
  | .fstring s parts =>
    c.leave env (.fstring s (changeParts c (c.enter env (.fstring s parts)) parts))
  | .name s id => c.leave env (.name s id)
  | .list s items => c.leave env (.list s (changeAll c (c.enter env (.list s items)) items))
  | .tuple s items => c.leave env (.tuple s (changeAll c (c.enter env (.tuple s items)) items))
  | .dict s entries =>
    c.leave env (.dict s (changeEntries c (c.enter env (.dict s entries)) entries))
  | .comprehension s element clauses =>
    let inner := c.enter env (.comprehension s element clauses)
    c.leave env (.comprehension s (element.change c inner) (changeClauses c inner clauses))
  | .attribute s object name =>
    c.leave env (.attribute s (object.change c (c.enter env (.attribute s object name))) name)
  | .subscript s object index =>
    let inner := c.enter env (.subscript s object index)
    c.leave env (.subscript s (object.change c inner) (index.change c inner))
  | .slice s lower upper step =>
    let inner := c.enter env (.slice s lower upper step)
    c.leave env
      (.slice s (changeOption c inner lower) (changeOption c inner upper)
        (changeOption c inner step))
  | .call s callee args =>
    let inner := c.enter env (.call s callee args)
    c.leave env (.call s (callee.change c inner) (changeArgs c inner args))
  | .unary s op operand =>
    c.leave env (.unary s op (operand.change c (c.enter env (.unary s op operand))))
  | .binary s op left right =>
    let inner := c.enter env (.binary s op left right)
    c.leave env (.binary s op (left.change c inner) (right.change c inner))
  | .compare s first rest =>
    let inner := c.enter env (.compare s first rest)
    c.leave env (.compare s (first.change c inner) (changeComparisons c inner rest))
  | .logical s op left right =>
    let inner := c.enter env (.logical s op left right)
    c.leave env (.logical s op (left.change c inner) (right.change c inner))
  | .ternary s test body orelse =>
    let inner := c.enter env (.ternary s test body orelse)
    c.leave env (.ternary s (test.change c inner) (body.change c inner) (orelse.change c inner))

def changeAll (c : Change σ) (env : σ) : List Expr → List Expr
  | [] => []
  | e :: es => e.change c env :: changeAll c env es

def changeOption (c : Change σ) (env : σ) : Option Expr → Option Expr
  | none => none
  | some e => some (e.change c env)

def changeParts (c : Change σ) (env : σ) : List FStringPart → List FStringPart
  | [] => []
  | .text s :: parts => .text s :: changeParts c env parts
  | .field value conversion spec :: parts =>
    .field (value.change c env) conversion spec :: changeParts c env parts

def changeEntries (c : Change σ) (env : σ) : List Entry → List Entry
  | [] => []
  | .mk key value :: entries =>
    .mk (key.change c env) (value.change c env) :: changeEntries c env entries

def changeClauses (c : Change σ) (env : σ) : List Clause → List Clause
  | [] => []
  | .mk target source conditions :: clauses =>
    .mk (target.change c env) (source.change c env) (changeAll c env conditions) ::
      changeClauses c env clauses

def changeArgs (c : Change σ) (env : σ) : List Arg → List Arg
  | [] => []
  | .positional e :: args => .positional (e.change c env) :: changeArgs c env args
  | .starred e :: args => .starred (e.change c env) :: changeArgs c env args
  | .keyword name e :: args => .keyword name (e.change c env) :: changeArgs c env args
  | .doubleStarred e :: args => .doubleStarred (e.change c env) :: changeArgs c env args

def changeComparisons (c : Change σ) (env : σ) : List Comparison → List Comparison
  | [] => []
  | .mk op right :: rest => .mk op (right.change c env) :: changeComparisons c env rest

end

def Params.mapDefaults (f : Expr → Expr) (p : Params) : Params :=
  { p with args := p.args.map fun a => { a with default := a.default.map f } }

def Handler.mapKind (f : Expr → Expr) : Handler → Handler
  | .mk s kind name body => .mk s (kind.map f) name body

/-- Change the expressions of the statement itself, not those of its blocks. -/
def Stmt.mapExprs (f : Expr → Expr) : Stmt → Stmt
  | .expr s e => .expr s (f e)
  | .assign s targets value => .assign s (targets.map f) (f value)
  | .augAssign s target op value => .augAssign s (f target) op (f value)
  | .returns s e => .returns s (e.map f)
  | .asserts s test message => .asserts s (f test) (message.map f)
  | .raises s e => .raises s (e.map f)
  | .yields s e => .yields s (e.map f)
  | .yieldsFrom s source => .yieldsFrom s (f source)
  | .ifElse s test body orelse => .ifElse s (f test) body orelse
  | .whileLoop s test body => .whileLoop s (f test) body
  | .forLoop s target source body => .forLoop s (f target) (f source) body
  | .withBlock s context target body => .withBlock s (f context) (target.map f) body
  | .tryBlock s body handlers finalBody =>
    .tryBlock s body (handlers.map (Handler.mapKind f)) finalBody
  | .functionDef s name params body decorators =>
    .functionDef s name (params.mapDefaults f) body (decorators.map f)
  | .classDef s name bases body decorators =>
    .classDef s name (bases.map f) body (decorators.map f)
  | stmt@(.pass _) | stmt@(.breakLoop _) | stmt@(.continueLoop _) | stmt@(.imports ..)
  | stmt@(.importsFrom ..) | stmt@(.globals ..) | stmt@(.nonlocals ..) => stmt

mutual

/-- Change a statement from the inside out: first those in its blocks, then itself. -/
def Stmt.changeWith (f : Stmt → Stmt) : Stmt → Stmt
  | .ifElse s test body orelse => f (.ifElse s test (changeBlock f body) (changeBlock f orelse))
  | .whileLoop s test body => f (.whileLoop s test (changeBlock f body))
  | .forLoop s target source body => f (.forLoop s target source (changeBlock f body))
  | .withBlock s context target body => f (.withBlock s context target (changeBlock f body))
  | .tryBlock s body handlers finalBody =>
    f (.tryBlock s (changeBlock f body) (changeHandlers f handlers) (changeBlock f finalBody))
  | .functionDef s name params body decorators =>
    f (.functionDef s name params (changeBlock f body) decorators)
  | .classDef s name bases body decorators =>
    f (.classDef s name bases (changeBlock f body) decorators)
  | stmt => f stmt

def changeBlock (f : Stmt → Stmt) : List Stmt → List Stmt
  | [] => []
  | s :: ss => s.changeWith f :: changeBlock f ss

def changeHandlers (f : Stmt → Stmt) : List Handler → List Handler
  | [] => []
  | .mk s kind name body :: hs => .mk s kind name (changeBlock f body) :: changeHandlers f hs

end

end BlockScript.Program
