import BlockScript.Program.Expr

/-! Statements of the plain language. -/

namespace BlockScript.Program

/-- `name as binding`. -/
structure Alias where
  name : String
  rename : Option String
  deriving DecidableEq, Repr, Inhabited

/-- The name bound by an import: the first part of a dotted name unless it is renamed. -/
def Alias.binding (a : Alias) : String :=
  a.rename.getD (String.ofList (a.name.toList.takeWhile (· ≠ '.')))

structure Param where
  name : String
  default : Option Expr

structure Params where
  args : List Param := []
  rest : Option String := none
  keywords : Option String := none

namespace Params

def names (p : Params) : List String :=
  p.args.map Param.name ++ p.rest.toList ++ p.keywords.toList

def defaults (p : Params) : List Expr := p.args.filterMap Param.default

end Params

mutual

inductive Stmt where
  | expr (span : Span) (e : Expr)
  | assign (span : Span) (targets : List Expr) (value : Expr)
  | augAssign (span : Span) (target : Expr) (op : BinaryOp) (value : Expr)
  | pass (span : Span)
  | breakLoop (span : Span)
  | continueLoop (span : Span)
  | returns (span : Span) (value : Option Expr)
  | asserts (span : Span) (test : Expr) (message : Option Expr)
  | raises (span : Span) (value : Option Expr)
  | yields (span : Span) (value : Option Expr)
  | yieldsFrom (span : Span) (source : Expr)
  | imports (span : Span) (names : List Alias)
  | importsFrom (span : Span) (module : String) (names : List Alias)
  | globals (span : Span) (names : List String)
  | nonlocals (span : Span) (names : List String)
  | ifElse (span : Span) (test : Expr) (body orelse : List Stmt)
  | whileLoop (span : Span) (test : Expr) (body : List Stmt)
  | forLoop (span : Span) (target source : Expr) (body : List Stmt)
  | withBlock (span : Span) (context : Expr) (target : Option Expr) (body : List Stmt)
  | tryBlock (span : Span) (body : List Stmt) (handlers : List Handler) (finalBody : List Stmt)
  | functionDef (span : Span) (name : String) (params : Params) (body : List Stmt)
      (decorators : List Expr)
  | classDef (span : Span) (name : String) (bases : List Expr) (body : List Stmt)
      (decorators : List Expr)

inductive Handler where
  /-- Without a `kind` every error is handled. -/
  | mk (span : Span) (kind : Option Expr) (name : Option String) (body : List Stmt)

end

instance : Inhabited Stmt := ⟨.pass default⟩

abbrev Module := List Stmt

namespace Handler

def kind : Handler → Option Expr
  | mk _ kind _ _ => kind

def name : Handler → Option String
  | mk _ _ name _ => name

def body : Handler → List Stmt
  | mk _ _ _ body => body

end Handler

namespace Stmt

def span : Stmt → Span
  | expr s _ | assign s _ _ | augAssign s _ _ _ | pass s | breakLoop s | continueLoop s
  | returns s _ | asserts s _ _ | raises s _ | yields s _ | yieldsFrom s _ | imports s _
  | importsFrom s _ _ | globals s _ | nonlocals s _ | ifElse s _ _ _ | whileLoop s _ _
  | forLoop s _ _ _ | withBlock s _ _ _ | tryBlock s _ _ _ | functionDef s _ _ _ _
  | classDef s _ _ _ _ => s

/-- The expressions of the statement itself, not of its blocks, in source order. -/
def exprs : Stmt → List Expr
  | expr _ e | yieldsFrom _ e => [e]
  | assign _ targets value => targets ++ [value]
  | augAssign _ target _ value => [target, value]
  | returns _ e | raises _ e | yields _ e => e.toList
  | asserts _ test message => test :: message.toList
  | ifElse _ test _ _ | whileLoop _ test _ => [test]
  | forLoop _ target source _ => [target, source]
  | withBlock _ context target _ => context :: target.toList
  | tryBlock _ _ handlers _ => handlers.filterMap Handler.kind
  | functionDef _ _ params _ decorators => decorators ++ params.defaults
  | classDef _ _ bases _ decorators => decorators ++ bases
  | pass _ | breakLoop _ | continueLoop _ | imports _ _ | importsFrom _ _ _ | globals _ _
  | nonlocals _ _ => []

mutual

def spans : Stmt → List Span
  | ifElse s _ body orelse => s :: (spansAll body ++ spansAll orelse)
  | whileLoop s _ body | forLoop s _ _ body | withBlock s _ _ body | functionDef s _ _ body _
  | classDef s _ _ body _ => s :: spansAll body
  | tryBlock s body handlers finalBody =>
    s :: (spansAll body ++ spansHandlers handlers ++ spansAll finalBody)
  | stmt => [stmt.span]

def spansAll : List Stmt → List Span
  | [] => []
  | s :: ss => spans s ++ spansAll ss

def spansHandlers : List Handler → List Span
  | [] => []
  | .mk _ _ _ body :: hs => spansAll body ++ spansHandlers hs

end

mutual

/-- Whether a statement yields, in nested blocks but not in nested definitions. -/
def isYielding : Stmt → Bool
  | yields .. | yieldsFrom .. => true
  | ifElse _ _ body orelse => areYielding body || areYielding orelse
  | whileLoop _ _ body | forLoop _ _ _ body | withBlock _ _ _ body => areYielding body
  | tryBlock _ body handlers finalBody =>
    areYielding body || areYieldingHandlers handlers || areYielding finalBody
  | _ => false

def areYielding : List Stmt → Bool
  | [] => false
  | s :: ss => isYielding s || areYielding ss

def areYieldingHandlers : List Handler → Bool
  | [] => false
  | .mk _ _ _ body :: hs => areYielding body || areYieldingHandlers hs

end

end Stmt

end BlockScript.Program
