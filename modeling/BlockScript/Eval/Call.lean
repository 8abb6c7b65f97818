import BlockScript.Eval.Builtin

/-! Calls. -/

namespace BlockScript

def maxDepth : Nat := 100

/-- What a call gives whose body ends so. -/
def Flow.result : Flow → Value
  | .returns v => v
  | _ => .none

namespace Run

variable {α : Type}

/-- Run an action as part of one more active call. -/
def deeper (p : Run α) : Run α := do
  modify fun m => { m with depth := m.depth + 1 }
  ensuring p fun m => { m with depth := m.depth - 1 }

def collecting (p : Run α) : Run (List Value) := fun m =>
  match p { m with yields := [] :: m.yields } with
  | .ok _ m => .ok (m.yields.headD []).reverse { m with yields := m.yields.tail }
  | .error e m => .error e { m with yields := m.yields.tail }

end Run

namespace Function

/-- Each parameter with the value it takes if no argument is given. -/
def paramDefaults (f : Function) : List (String × Option Value) :=
  let required := f.params.args.length - f.defaults.length
  (f.params.args.map (·.name)).zip (List.replicate required none ++ f.defaults.map some)

/-- Bind a keyword argument: to the parameter of its name, or with those that have none. -/
def bindKeyword (f : Function) (bound : Attrs × Dict) (arg : String × Value) :
    Except RuntimeError (Attrs × Dict) :=
  let (vars, surplus) := bound
  let (name, v) := arg
  if f.params.args.any (·.name == name) then
    if vars.contains name then .error (.type (.multipleValues f.name name))
    else .ok (vars.insert name v, surplus)
  else if f.params.keywords.isSome then .ok (vars, surplus.insert (.str name) v)
  else .error (.type (.unexpectedKeyword f.name name))

/-- Give a parameter its default unless it is bound. -/
def bindDefault (f : Function) (vars : Attrs) (param : String × Option Value) :
    Except RuntimeError Attrs :=
  if vars.contains param.1 then .ok vars
  else
    match param.2 with
    | some v => .ok (vars.insert param.1 v)
    | none => .error (.type (.missingArgument f.name param.1))

def bindParams (f : Function) (args : Args) : Run Attrs := do
  let declared := f.params.args.length
  let vars : Attrs := .ofList ((f.params.args.map (·.name)).zip args.positional)
  let vars ← match f.params.rest with
    | some name => pure (vars.insert name (← Run.newTuple (args.positional.drop declared)))
    | none =>
      if declared < args.positional.length then
        Run.typeError (.tooManyPositional f.name declared args.positional.length)
      else pure vars
  let (vars, surplus) ← Run.ofExcept (args.keywords.foldlM f.bindKeyword (vars, .empty))
  let vars ← match f.params.keywords with
    | some name => pure (vars.insert name (← Run.newDict surplus))
    | none => pure vars
  Run.ofExcept (f.paramDefaults.foldlM f.bindDefault vars)

end Function

namespace Evaluator

variable (ev : Evaluator)

def callFunction (f : Function) (args : Args) (kind : FrameKind) (delegate : Option Value) :
    Run Value := do
  if maxDepth ≤ (← get).depth then Run.fail (.runtime .recursionLimit)
  let vars ← f.bindParams args
  let frame ← Run.alloc (·.newFrame kind { vars })
  let body := Run.deeper (Run.withFrame { env := frame :: f.env, delegate } (ev.block f.body))
  if f.isGenerator then Run.newList (← Run.collecting body) else return (← body).result

/-- Call a closure. Its first parameter is the target. If the caller gives one, it is a layer of the
scope stack for the call; else it is the innermost object there. -/
def callClosure (f : Function) (args : Args) : Run Value := do
  if f.params.args.length - 1 < args.positional.length then
    let target := args.get 0
    Run.withScope (.object target) (ev.callFunction f args .closure (some target))
  else
    let target := (← get).scopes.top?.getD .none
    ev.callFunction f (args.cons target) .closure (some target)

def instantiate (c : Class) (args : Args) : Run Value := do
  let v := Value.inst (← Run.alloc (·.newInst .empty)) c
  match (← Run.heap).classAttr? c "__init__" with
  | some init =>
    let _ ← ev.call (← bind v init) args
    return v
  | none => if args.isEmpty then return v else Run.typeError (.noArguments c.name)

def callValue (callee : Value) (args : Args) : Run Value := do
  match callee with
  | .function f => ev.callFunction f args .function none
  | .closure f => ev.callClosure f args
  | .native _ fn => ev.callNative fn args
  | .method _ receiver (.function f) => ev.callFunction f (args.cons receiver) .function none
  | .method _ receiver (.native _ fn) => ev.callNative fn (args.cons receiver)
  | .method _ receiver (.named name) => ev.callMethod receiver name args
  | .cls c => ev.instantiate c args
  | .inst _ c =>
    match (← Run.heap).classAttr? c "__call__" with
    | some method => ev.call (← bind callee method) args
    | none => Run.typeError (.notCallable c.name)
  | .object o => ev.host.objectCall ev.toCalls o args
  | other => Run.typeError (.notCallable other.typeName)

end Evaluator

end BlockScript
