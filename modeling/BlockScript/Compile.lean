import BlockScript.Options
import BlockScript.Program.Traverse
import BlockScript.Program.Parse.Stmt
import BlockScript.Desugar

/-! Compilation of a script to a plain program. -/

namespace BlockScript

open Program

namespace Compile

/-! ## Routing of names

A name that nothing around it binds is read and written through the runtime
object: `x` becomes `__runtime__['x']`. Parameters, definitions, imports, the targets of loops and
local definitions bind names. -/

variable (options : Options)

/-- Whether a name stays as it is where the names `bound` are bound. -/
def isNative (bound : List String) (name : String) : Bool :=
  name == options.runtimeName || options.pureNames.contains name || bound.contains name

def routeName (bound : List String) : Expr → Expr
  | e@(.name span id) =>
    if isNative options bound id then e
    else (Expr.name span options.runtimeName).item (.str span id)
  | e => e

/-- The names bound inside an expression: a comprehension binds its targets. -/
def boundInside (bound : List String) : Expr → List String
  | .comprehension _ _ clauses => clauses.flatMap (·.target.boundNames) ++ bound
  | _ => bound

def routing : Change (List String) where
  enter := boundInside
  leave := routeName options

def routeExpr (bound : List String) (e : Expr) : Expr :=
  e.change (routing options) bound

def assignedNames (body : List Stmt) : List String :=
  body.flatMap fun
    | .assign _ targets _ => targets.flatMap Expr.boundNames
    | _ => []

def localName? (name : String) : Option String :=
  options.localMark.bind fun mark =>
    if mark.toList.isPrefixOf name.toList then some (String.ofList (name.toList.drop mark.length))
    else none

mutual

/-- The routed statement, and the names bound after it. -/
def routeStmt (options : Options) (bound : List String) : Stmt → Stmt × List String
  | stmt@(.assign s [.name span name] value) =>
    match localName? options name with
    | some name =>
      let bound := name :: bound
      ((Stmt.assign s [.name span name] value).mapExprs (routeExpr options bound), bound)
    | none => (stmt.mapExprs (routeExpr options bound), bound)
  | .forLoop s target source body =>
    let inner := target.boundNames ++ bound
    (.forLoop s (routeExpr options inner target) (routeExpr options inner source)
      (routeBlock options inner body).1, bound)
  | .functionDef s name params body decorators =>
    let bound := name :: bound
    (.functionDef s name (params.mapDefaults (routeExpr options bound))
      (routeBlock options (params.names ++ bound) body).1
      (decorators.map (routeExpr options bound)), bound)
  | .classDef s name bases body decorators =>
    let bound := name :: bound
    (.classDef s name (bases.map (routeExpr options bound))
      (routeBlock options (assignedNames body ++ bound) body).1
      (decorators.map (routeExpr options bound)), bound)
  | stmt@(.imports _ names) | stmt@(.importsFrom _ _ names) =>
    (stmt, names.map Alias.binding ++ bound)
  | stmt@(.globals _ names) | stmt@(.nonlocals _ names) => (stmt, names ++ bound)
  | .tryBlock s body handlers finalBody =>
    let bound := handlers.filterMap Handler.name ++ bound
    let (newBody, afterBody) := routeBlock options bound body
    let (newHandlers, afterHandlers) := routeHandlers options bound afterBody handlers
    let (newFinal, afterFinal) := routeBlock options afterHandlers finalBody
    (.tryBlock s newBody newHandlers newFinal, afterFinal)
  | .ifElse s test body orelse =>
    let (newBody, afterBody) := routeBlock options bound body
    let (newElse, afterElse) := routeBlock options afterBody orelse
    (.ifElse s (routeExpr options bound test) newBody newElse, afterElse)
  | .whileLoop s test body =>
    let (newBody, after) := routeBlock options bound body
    (.whileLoop s (routeExpr options bound test) newBody, after)
  | .withBlock s context target body =>
    let (newBody, after) := routeBlock options bound body
    (.withBlock s (routeExpr options bound context) (target.map (routeExpr options bound)) newBody,
      after)
  | stmt => (stmt.mapExprs (routeExpr options bound), bound)

def routeBlock (options : Options) (bound : List String) : List Stmt → List Stmt × List String
  | [] => ([], bound)
  | s :: ss =>
    let (first, after) := routeStmt options bound s
    let (rest, afterAll) := routeBlock options after ss
    (first :: rest, afterAll)

/-- Handlers whose kinds are routed where `outer` is bound, and whose bodies one after the other
where `bound` is. -/
def routeHandlers (options : Options) (outer bound : List String) :
    List Handler → List Handler × List String
  | [] => ([], bound)
  | .mk s kind name body :: hs =>
    let (newBody, after) := routeBlock options bound body
    let (rest, afterAll) := routeHandlers options outer after hs
    (.mk s (kind.map (routeExpr options outer)) name newBody :: rest, afterAll)

end

def route (options : Options) (m : Module) : Module := (routeBlock options [] m).1

/-! ## Closures as functions

Every closure becomes a definition that stands right before the innermost
statement that mentions its id. -/

/-- The ids of closures that the expressions of a statement mention, each once. -/
def mentioned (closures : ClosureRegistry) (stmt : Stmt) : List String :=
  ((stmt.exprs.flatMap Expr.names).filter closures.contains).eraseDups

mutual

/-- The statement, its blocks completed, after the definitions of the closures it mentions. -/
def withClosures (closures : ClosureRegistry) (define : String → Except SyntaxError Stmt) :
    Stmt → Except SyntaxError (List Stmt)
  | stmt@(.ifElse s test body orelse) => do
    let body ← blockWithClosures closures define body
    let orelse ← blockWithClosures closures define orelse
    return (← (mentioned closures stmt).mapM define) ++ [.ifElse s test body orelse]
  | stmt@(.whileLoop s test body) => do
    let body ← blockWithClosures closures define body
    return (← (mentioned closures stmt).mapM define) ++ [.whileLoop s test body]
  | stmt@(.forLoop s target source body) => do
    let body ← blockWithClosures closures define body
    return (← (mentioned closures stmt).mapM define) ++ [.forLoop s target source body]
  | stmt@(.withBlock s context target body) => do
    let body ← blockWithClosures closures define body
    return (← (mentioned closures stmt).mapM define) ++ [.withBlock s context target body]
  | stmt@(.tryBlock s body handlers finalBody) => do
    let body ← blockWithClosures closures define body
    let handlers ← handlersWithClosures closures define handlers
    let finalBody ← blockWithClosures closures define finalBody
    return (← (mentioned closures stmt).mapM define) ++ [.tryBlock s body handlers finalBody]
  | stmt@(.functionDef s name params body decorators) => do
    let body ← blockWithClosures closures define body
    return (← (mentioned closures stmt).mapM define) ++ [.functionDef s name params body decorators]
  | stmt@(.classDef s name bases body decorators) => do
    let body ← blockWithClosures closures define body
    return (← (mentioned closures stmt).mapM define) ++ [.classDef s name bases body decorators]
  | stmt => return (← (mentioned closures stmt).mapM define) ++ [stmt]

def blockWithClosures (closures : ClosureRegistry) (define : String → Except SyntaxError Stmt) :
    List Stmt → Except SyntaxError (List Stmt)
  | [] => return []
  | s :: ss => do
    let first ← withClosures closures define s
    return first ++ (← blockWithClosures closures define ss)

def handlersWithClosures (closures : ClosureRegistry) (define : String → Except SyntaxError Stmt) :
    List Handler → Except SyntaxError (List Handler)
  | [] => return []
  | .mk s kind name body :: hs => do
    let body ← blockWithClosures closures define body
    return .mk s kind name body :: (← handlersWithClosures closures define hs)

end

/-- The parameters of the function for a closure: the target it works on comes first. -/
def parameters (c : Closure) : List String :=
  let declared := c.parameters.getD []
  if declared.head? = some "self" then declared else "self" :: declared

/-- The text of a definition of the closure. Line breaks before it put the body on the lines it has
in the script. -/
def definitionText (c : Closure) : List Char :=
  let header := List.replicate (c.line - 1) '\n' ++
    ("def " ++ c.id ++ "(" ++ ", ".intercalate (parameters c) ++ "):").toList
  match c.body with
  | .expr code => header ++ " return ".toList ++ code.toList ++ ['\n']
  | .block code =>
    if (Text.trim code.toList).isEmpty then header ++ " pass\n".toList
    else header ++ code.toList ++ ['\n']

variable (runtimeName : String)

def closureMark (span : Span) : Expr :=
  ((Expr.name span runtimeName).attr "closure").apply []

/-- The definition of a closure, where closures may be nested to the depth `n`. -/
def define (options : Options) (filename : String) (closures : ClosureRegistry) :
    Nat → String → Except SyntaxError Stmt
  | 0, _ => .error ⟨.tooDeep, filename, 0, 0, ""⟩
  | n + 1, id =>
    match closures.get? id with
    | none => .error ⟨.unknownClosure id, filename, 0, 0, ""⟩
    | some c => do
      match ← Module.parse (definitionText c) filename with
      | [.functionDef s name params body decorators] =>
        let body ← blockWithClosures closures (define options filename closures n) body
        return .functionDef s name params body (closureMark options.runtimeName s :: decorators)
      | _ => .error ⟨.notOneDefinition, filename, c.line, c.column, ""⟩

/-- A program with the definitions of all closures it mentions. -/
def insertClosures (options : Options) (filename : String) (closures : ClosureRegistry)
    (m : Module) : Except SyntaxError Module :=
  blockWithClosures closures (define options filename closures (closures.size + 1)) m

/-! ## Calls with a block, and assignments to attributes, as operations of the runtime object -/

/-- `target(closure)` with a closure that takes no arguments configures what a call gave, and calls
anything else with the block. -/
def lowerCall (closures : ClosureRegistry) : Expr → Expr
  | e@(.call span target [.positional (.name _ id)]) =>
    if (closures.get? id).any Closure.isBlockForm then
      let operation := match target with
        | .call .. => "configure_object"
        | _ => "call_block"
      ((Expr.name span runtimeName).attr operation).apply [target, .name span id]
    else e
  | e => e

def lowering (closures : ClosureRegistry) : Change Unit where
  enter env _ := env
  leave _ e := lowerCall runtimeName closures e

/-- An assignment to one attribute sets a property of the object. -/
def lowerAssign : Stmt → Stmt
  | .assign s [.attribute span object name] value =>
    .expr s (((Expr.name span runtimeName).attr "set_object_property").apply
      [object, .str span name, value])
  | stmt => stmt

def lower (closures : ClosureRegistry) (m : Module) : Module :=
  changeBlock (fun stmt =>
    lowerAssign runtimeName (stmt.mapExprs (Expr.change (lowering runtimeName closures) ()))) m

end Compile

/-- The program of a script in plain form. -/
def Desugared.compile (d : Desugared) (filename : String) (options : Options) :
    Except SyntaxError Module := do
  let parsed ← Module.parse d.code.toList filename
  let body ← Compile.insertClosures options filename d.closures parsed
  let preamble ←
    if (Text.trim options.preamble.toList).isEmpty then pure []
    else Module.parse options.preamble.toList "<preamble>"
  return Compile.route options (Compile.lower options.runtimeName d.closures (preamble ++ body))

/-- The program of a script. -/
def compile (source : List Char) (filename : String) (options : Options)
    (plugins : List Desugar.Plugin) : Except SyntaxError Module := do
  (← desugar ⟨source, filename, options.localMark, plugins⟩).compile filename options

end BlockScript
