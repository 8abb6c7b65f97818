import BlockScript.Compile
import BlockScript.Eval.Stmt

/-! Running scripts. -/

namespace BlockScript

/-- What a script runs against if no application embeds it. -/
inductive Context where
  | void
  | space
  deriving DecidableEq, Repr, Inhabited

namespace Context

def all : List Context := [void, space]

def name : Context → String
  | void => "void"
  | space => "namespace"

def ofName? (name : String) : Option Context := all.find? (·.name == name)

def value : Context → Run Value
  | void => return .none
  | space => Run.newSpace .empty

end Context

structure Script where
  source : List Char
  filename : String
  options : Options := {}
  plugins : List Desugar.Plugin

/-- Why a script does not run to its end. -/
inductive Script.Failure where
  | malformed (e : SyntaxError)
  /-- With the line of the innermost statement that the error came from. -/
  | stopped (e : RuntimeError) (line : Option Nat)

def RuntimeError.located (e : RuntimeError) (filename : String) (line : Option Nat) : String :=
  e.report ++ "\n  in " ++ filename ++
    match line with
    | some line => s!" at line {line}"
    | none => ""

namespace Script

def compile (s : Script) : Except SyntaxError Program.Module :=
  BlockScript.compile s.source s.filename s.options s.plugins

def Failure.render (f : Failure) (filename : String) : String :=
  match f with
  | malformed e => e.render
  | stopped e line => e.located filename line

end Script

def installRuntime (name : String) : Run Unit := do
  let runtime ← Run.alloc (·.newObject .runtime .empty)
  modify (·.setGlobal name (.object runtime))

/-- Execute a compiled script with a context as the outermost layer of the scope stack. -/
def Evaluator.execScript (ev : Evaluator) (runtimeName : String) (context : Value)
    (module : Program.Module) : Run Unit := do
  installRuntime runtimeName
  modify (·.setGlobal "self" context)
  Run.withScope (.object context) (ev.execModule module)

def Script.run (s : Script) (ev : Evaluator) (context : Value) :
    EStateM (Halt Script.Failure) Machine Unit := fun m =>
  match s.compile with
  | .error e => .error (.error (.malformed e)) m
  | .ok module =>
    match ev.execScript s.options.runtimeName context module m with
    | .ok _ m => .ok () m
    | .error (.error e) m => .error (.error (.stopped e m.errorLine)) m
    | .error .exhausted m => .error .exhausted m

end BlockScript
