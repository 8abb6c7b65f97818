import BlockScript.Eval.Expr

/-! Execution of statements, and the interpreter: the operations of evaluation tied together, with a
bound on the depth of their recursion. A bound that is not reached does not matter. -/

namespace BlockScript

open Program

def Machine.errorClass? (m : Machine) : RuntimeError → Option Class
  | .raised _ _ (.inst _ c) => some c
  | e =>
    match (m.builtins.get? e.className).orElse fun _ => m.builtins.get? "Exception" with
    | some (.cls c) => some c
    | _ => none

def exceptionOf (e : RuntimeError) : Run Value := do
  match e, (← get).errorClass? e with
  | .raised _ _ (.inst r c), _ => return .inst r c
  | _, none => return .str e.message
  | _, some c =>
    let args ← Run.newTuple [.str e.message]
    let attrs : Attrs := .ofList [("args", args), ("message", .str e.message)]
    return .inst (← Run.alloc (·.newInst attrs)) c

namespace Run

variable {α : Type}

/-- An error that comes out of the statement on a line is marked with it, if no inner statement has
marked it. -/
def atLine (line : Nat) (p : Run α) : Run α := fun m =>
  match p m with
  | .error (.error e) m =>
    .error (.error e) { m with errorLine := m.errorLine.orElse fun _ => some line }
  | result => result

def setErrorLine (line : Option Nat) : Run Unit := modify fun m => { m with errorLine := line }

def handling (e : RuntimeError) (p : Run α) : Run α := do
  modify fun m => { m with handling := e :: m.handling }
  ensuring p fun m => { m with handling := m.handling.tail }

/-- Add to what the innermost generator has yielded. -/
def yields (vs : List Value) : Run Unit := do
  match (← get).yields with
  | [] => fail (.runtime .yieldOutsideFunction)
  | collected :: outer => modify fun m => { m with yields := (vs.reverse ++ collected) :: outer }

end Run

def importModule (name : String) : Run Value := do
  match (← get).modules.get? name with
  | some v => return v
  | none => Run.fail (.noModule name)

namespace Evaluator

variable (ev : Evaluator)

def evalOr (default : Value) : Option Expr → Run Value
  | some e => ev.eval e
  | none => return default

def augAssign (target : Expr) (op : BinaryOp) (value : Expr) : Run Unit := do
  match target with
  | .name _ id =>
    let current ← loadName id
    storeName id (← ev.binaryInPlace op current (← ev.eval value))
  | .attribute _ object name =>
    let object ← ev.eval object
    let current ← ev.getAttr object name
    ev.setProperty object name (← ev.binaryInPlace op current (← ev.eval value))
  | .subscript _ object index =>
    let object ← ev.eval object
    let index ← ev.eval index
    let current ← ev.getItem object index
    ev.setItem object index (← ev.binaryInPlace op current (← ev.eval value))
  | _ => Run.typeError .notAugAssignable

def assertThat (condition : Expr) (message : Option Expr) : Run Unit := do
  if !(← ev.test condition) then
    let text ← match message with
      | some e => ev.toStr (← ev.eval e)
      | none => pure ""
    Run.fail (.assertion text)

def raised (v : Value) : Run RuntimeError := do
  let v ← match v with
    | .cls c => ev.instantiate c {}
    | v => pure v
  match v with
  | .inst r c =>
    let h ← Run.heap
    if (h.classAttr? c "__exception__").isNone then Run.typeError (.raisedNotException c.name)
    let message ← match (h.inst r).get? "message" with
      | some message => ev.display message
      | none => pure ""
    return .raised c.name message v
  | other => Run.typeError (.raisedNotException other.typeName)

def raise (value : Option Expr) : Run Flow := do
  match value with
  | some e => Run.fail (← ev.raised (← ev.eval e))
  | none =>
    match (← get).handling with
    | e :: _ => Run.fail e
    | [] => Run.fail (.runtime .nothingToReraise)

def importNames (names : List Alias) : Run Unit :=
  names.forM fun a => do
    let module ← importModule (if a.rename.isSome then a.name else a.binding)
    storeName a.binding module

def importFrom (module : String) (names : List Alias) : Run Unit := do
  let v ← importModule module
  names.forM fun a => do
    match ← ev.getAttr? v a.name with
    | some member => storeName a.binding member
    | none => Run.fail (.cannotImport a.name module)

/-- Apply decorators, the innermost first, and bind the result. -/
def define (name : String) (decorators : List Value) (v : Value) : Run Unit := do
  let v ← decorators.reverse.foldlM (fun v d => ev.call d { positional := [v] }) v
  storeName name v

def defineFunction (name : String) (params : Params) (body : List Stmt) (decorators : List Expr) :
    Run Unit := do
  let decorators ← decorators.mapM ev.eval
  let defaults ← params.defaults.mapM ev.eval
  let f := Function.mk (← Run.fresh) name params body (← get).env defaults
  ev.define name decorators (.function f)

def evalBase (e : Expr) : Run Class := do
  match ← ev.eval e with
  | .cls c => return c
  | other => Run.typeError (.baseNotClass other.typeName)

def defineClass (name : String) (bases : List Expr) (body : List Stmt) (decorators : List Expr) :
    Run Unit := do
  let decorators ← decorators.mapM ev.eval
  let bases ← bases.mapM ev.evalBase
  let frame ← Run.alloc (·.newFrame .classBody {})
  let _ ← Run.withFrame { env := frame :: (← get).env } (ev.block body)
  let c ← Run.alloc fun h => h.newClass name bases (h.frame frame).vars
  ev.define name decorators (.cls c)

def exitArgs {α : Type} : Except RuntimeError α → Run Args
  | .ok _ => return { positional := [.none, .none, .none] }
  | .error e => do
    let exception ← exceptionOf e
    let errorClass := ((← get).errorClass? e).elim Value.none Value.cls
    return { positional := [errorClass, exception, .none] }

def store (target : Option Expr) (entered : Value) : Run Unit :=
  match target with
  | some target => ev.assign target entered
  | none => return

/-- Enter a context, and store in the target what that gives. -/
def enterContext (context : Expr) (target : Option Expr) : Run Value := do
  let manager ← ev.eval context
  let entered ← match ← ev.getAttr? manager "__enter__" with
    | some enter => ev.call enter {}
    | none => pure manager
  ev.store target entered
  return manager

/-- Run a body in a context, which may suppress an error of the body. -/
def managed (manager : Value) (body : List Stmt) : Run Flow := do
  let result ← Run.attempt (ev.block body)
  match ← ev.getAttr? manager "__exit__" with
  | none => Run.ofExcept result
  | some exit =>
    let suppress ← ev.truthy (← ev.call exit (← exitArgs result))
    match result with
    | .error _ =>
      if suppress then
        Run.setErrorLine none
        return .normal
      else Run.ofExcept result
    | .ok flow => return flow

/-- `with context as target`. -/
def execWith (context : Expr) (target : Option Expr) (body : List Stmt) : Run Flow := do
  ev.managed (← ev.enterContext context target) body

def matchesAny (c : Class) : List Value → Run Bool
  | [] => return false
  | .cls kind :: rest => do
    if (← Run.heap).isSubclass c kind then return true else matchesAny c rest
  | other :: _ => Run.typeError (.caughtNotClass other.typeName)

def handles (e : RuntimeError) (handler : Handler) : Run Bool := do
  match handler.kind, (← get).errorClass? e with
  | none, _ => return true
  | some _, none => return false
  | some kind, some c =>
    match ← ev.eval kind with
    | .tuple _ kinds => matchesAny c kinds
    | kind => matchesAny c [kind]

def findHandler (e : RuntimeError) : List Handler → Run (Option Handler)
  | [] => return none
  | handler :: rest => do
    if ← ev.handles e handler then return some handler else findHandler e rest

/-- Handle an error of the body of a `try`. -/
def recover (e : RuntimeError) (handlers : List Handler) : Run (Except RuntimeError Flow) := do
  match ← ev.findHandler e handlers with
  | none => return .error e
  | some handler =>
    Run.setErrorLine none
    if let some name := handler.name then storeName name (← exceptionOf e)
    Run.attempt (Run.handling e (ev.block handler.body))

/-- The end of a `try`. A `finally` block that ends in a jump replaces the result. -/
def finish (result : Except RuntimeError Flow) (finalBody : List Stmt) : Run Flow := do
  if finalBody.isEmpty then Run.ofExcept result
  else
    let line := (← get).errorLine
    Run.setErrorLine none
    match ← ev.block finalBody with
    | .normal =>
      Run.setErrorLine line
      Run.ofExcept result
    | flow => return flow

def execTry (body : List Stmt) (handlers : List Handler) (finalBody : List Stmt) : Run Flow := do
  match ← Run.attempt (ev.block body) with
  | .ok flow => ev.finish (.ok flow) finalBody
  | .error e => ev.finish (← ev.recover e handlers) finalBody

def execFor (target : Expr) (body : List Stmt) : List Value → Run Flow
  | [] => return .normal
  | item :: rest => do
    ev.assign target item
    match ← ev.block body with
    | .breakLoop => return .normal
    | .normal | .continueLoop => execFor target body rest
    | .returns v => return .returns v

def execWhile (condition : Expr) (body : List Stmt) : Run Flow := do
  if ← ev.test condition then
    match ← ev.block body with
    | .breakLoop => return .normal
    | .normal | .continueLoop => ev.loop condition body
    | .returns v => return .returns v
  else return .normal

def execStmt : Stmt → Run Flow
  | .expr _ e => do
    let _ ← ev.eval e
    return .normal
  | .assign _ targets value => do
    let v ← ev.eval value
    targets.forM (ev.assign · v)
    return .normal
  | .augAssign _ target op value => do
    ev.augAssign target op value
    return .normal
  | .pass _ => return .normal
  | .breakLoop _ => return .breakLoop
  | .continueLoop _ => return .continueLoop
  | .returns _ value => do return .returns (← ev.evalOr .none value)
  | .asserts _ condition message => do
    ev.assertThat condition message
    return .normal
  | .raises _ value => ev.raise value
  | .yields _ value => do
    Run.yields [← ev.evalOr .none value]
    return .normal
  | .yieldsFrom _ source => do
    Run.yields (← ev.iterate (← ev.eval source))
    return .normal
  | .imports _ names => do
    importNames names
    return .normal
  | .importsFrom _ module names => do
    ev.importFrom module names
    return .normal
  | .globals _ names => do
    declareGlobals names
    return .normal
  | .nonlocals _ names => do
    declareNonlocals names
    return .normal
  | .ifElse _ condition body orelse => do
    if ← ev.test condition then ev.block body else ev.block orelse
  | .whileLoop _ condition body => ev.loop condition body
  | .forLoop _ target source body => do
    ev.execFor target body (← ev.iterate (← ev.eval source))
  | .withBlock _ context target body => ev.execWith context target body
  | .tryBlock _ body handlers finalBody => ev.execTry body handlers finalBody
  | .functionDef _ name params body decorators => do
    ev.defineFunction name params body decorators
    return .normal
  | .classDef _ name bases body decorators => do
    ev.defineClass name bases body decorators
    return .normal

def execBlock : List Stmt → Run Flow
  | [] => return .normal
  | stmt :: rest => do
    match ← Run.atLine stmt.span.line (ev.execStmt stmt) with
    | .normal => execBlock rest
    | flow => return flow

end Evaluator

/-! ## The interpreter -/

/-- The interpreter whose recursion is at most `depth` deep. -/
def Evaluator.ofDepth (host : Host) : Nat → Evaluator
  | 0 => .exhausted host
  | depth + 1 =>
    { host
      call := fun callee args => (ofDepth host depth).callValue callee args
      iterate := fun v => (ofDepth host depth).items v
      eval := fun e => (ofDepth host depth).evalExpr e
      block := fun stmts => (ofDepth host depth).execBlock stmts
      loop := fun condition body => (ofDepth host depth).execWhile condition body }

/-- The interpreter with a bound that no run can reach. -/
def Evaluator.deep (host : Host) : Evaluator := ofDepth host 1000000000000000000

def Evaluator.execModule (ev : Evaluator) (module : Program.Module) : Run Unit := do
  Run.setErrorLine none
  let _ ← ev.block module

end BlockScript
