import BlockScript.Eval.Host

/-! Attributes of values, and the names of plain code. -/

namespace BlockScript

def strMethods : List String :=
  ["upper", "lower", "strip", "lstrip", "rstrip", "split", "splitlines", "join", "startswith",
    "endswith", "replace", "find", "count", "format"]

def listMethods : List String :=
  ["append", "extend", "pop", "insert", "index", "count", "remove", "sort", "reverse", "copy",
    "clear"]

def dictMethods : List String :=
  ["keys", "values", "items", "get", "update", "pop", "setdefault", "copy", "clear"]

def Value.hasBuiltinMethod (v : Value) (name : String) : Bool :=
  match v with
  | .str _ => strMethods.contains name
  | .list _ => listMethods.contains name
  | .dict _ => dictMethods.contains name
  | _ => false

/-- An attribute of a class as an attribute of an instance: functions get their receiver. -/
def bind (receiver attr : Value) : Run Value :=
  match attr with
  | .function f => return .method (← Run.fresh) receiver (.function f)
  | .native id fn => return .method (← Run.fresh) receiver (.native id fn)
  | other => return other

def namedMethod (receiver : Value) (name : String) : Run Value :=
  return .method (← Run.fresh) receiver (.named name)

def missing {α : Type} (typeName name : String) : Run α :=
  Run.fail (.attribute (.missing typeName name))

namespace Evaluator

variable (ev : Evaluator)

def getObjectAttr (o : ObjectRef) (name : String) : Run Value := do
  match ev.host.objectAttr (← Run.heap) o name with
  | .value v => return v
  | .items vs => Run.newList vs
  | .unset => Run.fail (.attribute (.unset o.typeName name))
  | .absent =>
    if ev.host.objectIsMethod o name then namedMethod (.object o) name else missing o.typeName name

def getAttr (v : Value) (name : String) : Run Value := do
  let h ← Run.heap
  match v with
  | .inst r c =>
    match (h.inst r).get? name with
    | some attr => return attr
    | none =>
      match h.classAttr? c name with
      | some attr => bind v attr
      | none => missing c.name name
  | .cls c =>
    if name = "__name__" then return .str c.name
    else
      match h.classAttr? c name with
      | some attr => return attr
      | none => Run.fail (.attribute (.missingOnClass c.name name))
  | .space r =>
    match (h.space r).get? name with
    | some attr => return attr
    | none => missing "namespace" name
  | .object o => ev.getObjectAttr o name
  | .function f | .closure f =>
    if name = "__name__" then return .str f.name else missing v.typeName name
  | .native _ fn => if name = "__name__" then return .str fn.name else missing v.typeName name
  | _ => if v.hasBuiltinMethod name then namedMethod v name else missing v.typeName name

/-- Read an attribute, where every error means that there is none. -/
def getAttr? (v : Value) (name : String) : Run (Option Value) :=
  return (← Run.attempt (ev.getAttr v name)).toOption

def setAttr (target : Value) (name : String) (v : Value) : Run Unit :=
  match target with
  | .inst r _ => Run.modifyHeap fun h => h.setInst r ((h.inst r).insert name v)
  | .cls c => Run.modifyHeap fun h => h.setClassAttrs c.id ((h.classAttrs c.id).insert name v)
  | .space r => Run.modifyHeap fun h => h.setSpace r ((h.space r).insert name v)
  | .object o => ev.host.objectSetAttr o name v
  | other => Run.fail (.attribute (.readOnly other.typeName name))

def hasMethod (h : Heap) (v : Value) (name : String) : Bool :=
  match v with
  | .inst _ c => (h.classAttr? c name).isSome
  | .object o => ev.host.objectIsMethod o name
  | _ => v.hasBuiltinMethod name

def isCallable (h : Heap) : Value → Bool
  | .function _ | .closure _ | .native _ _ | .method _ _ _ | .cls _ => true
  | .inst _ c => (h.classAttr? c "__call__").isSome
  | .object o => ev.host.objectIsCallable o
  | _ => false

end Evaluator

/-! ## Where a variable is read and where it is written -/

namespace Machine

/-- The value of a name: from the running frame, the frames around it, the module and what is built
in. A frame sees a class body only if it is its own. -/
def name? (m : Machine) (name : String) : Option Value :=
  if (m.heap.frame m.frame).globals.contains name then
    (m.global? name).orElse fun _ => m.builtins.get? name
  else
    ((m.heap.var? m.frame name).orElse fun _ => m.heap.outerVar? name m.env.tail).orElse fun _ =>
      m.builtins.get? name

end Machine

def loadName (name : String) : Run Value := do
  match (← get).name? name with
  | some v => return v
  | none => Run.fail (.nameNotFound name [])

/-- Bind a name in the running frame, or where it is declared to live. -/
def storeName (name : String) (v : Value) : Run Unit := do
  let m ← get
  let frame := m.heap.frame m.frame
  if frame.globals.contains name then Run.modifyHeap (·.setVar m.globals name v)
  else if frame.nonlocals.contains name then
    match m.heap.enclosing? name m.env.tail with
    | some r => Run.modifyHeap (·.setVar r name v)
    | none => Run.fail (.runtime (.noNonlocal name))
  else Run.modifyHeap (·.setVar m.frame name v)

def declareGlobals (names : List String) : Run Unit := do
  let r := (← get).frame
  Run.modifyHeap fun h => h.setFrame r { h.frame r with globals := (h.frame r).globals ++ names }

/-- Every name must be bound in a function around the running one. -/
def declareNonlocals (names : List String) : Run Unit := do
  let m ← get
  match names.find? fun name => (m.heap.enclosing? name m.env.tail).isNone with
  | some name => Run.fail (.runtime (.noNonlocal name))
  | none =>
    Run.modifyHeap fun h =>
      h.setFrame m.frame { h.frame m.frame with nonlocals := (h.frame m.frame).nonlocals ++ names }

end BlockScript
