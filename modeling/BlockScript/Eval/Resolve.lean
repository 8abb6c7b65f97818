import BlockScript.Eval.Attribute

/-! Free names of scripts. They are read and written through the same layers: the running frame, the
scope stack from the inside out, then the module and what is built in. -/

namespace BlockScript

/-- Attributes that are never copied from a proxy into its dict. -/
def reservedNames : List String := ["__doc__", "__dict__", "__module__", "__repr__", "__weakref__"]

/-- What the frame of the running code binds; a class body also sees the frame around it. -/
def Machine.local? (m : Machine) (name : String) : Option Value :=
  (m.heap.var? m.frame name).orElse fun _ =>
    if m.frame.kind = .classBody then
      match m.env.tail with
      | outer :: _ => m.heap.var? outer name
      | [] => none
    else none

namespace Evaluator

variable (ev : Evaluator)

/-- A member of an object on the scope stack, if it has one of that name. A property without a value
is an error. -/
def lookupMember (target : Value) (name : String) : Run (Option Value) := do
  let h ← Run.heap
  match target with
  | .none => return none
  | .dict r => return (h.dict r).get? (.str name)
  | .space r => return (h.space r).get? name
  | .object o =>
    match ev.host.objectAttr h o name with
    | .absent =>
      if ev.host.objectIsMethod o name then return some (← ev.getAttr target name)
      else return ev.host.objectName? h o name
    | _ => return some (← ev.getAttr target name)
  | _ => ev.getAttr? target name

/-- Whether an object declares a name, with a value or without. -/
def hasMember (h : Heap) (target : Value) (name : String) : Bool :=
  match target with
  | .dict r => (h.dict r).contains (.str name)
  | .space r => (h.space r).contains name
  | .inst r c => (h.inst r).contains name || (h.classAttr? c name).isSome
  | .cls c => (h.classAttr? c name).isSome
  | .object o => !(ev.host.objectAttr h o name).isAbsent || ev.host.objectIsMethod o name
  | _ => false

/-- Whether a name is behaviour of an object, and not data. -/
def isMethodMember (h : Heap) (target : Value) (name : String) : Bool :=
  match target with
  | .inst r c =>
    !(h.inst r).contains name &&
      match h.classAttr? c name with
      | some (.function _) | some (.native _ _) => true
      | _ => false
  | .object o => ev.host.objectIsMethod o name
  | .dict _ | .space _ | .cls _ => false
  | other => other.hasBuiltinMethod name

def lookupIn (name : String) : List ScopeEntry → Run (Option Value)
  | [] => return none
  | .object target :: rest => do
    match ← ev.lookupMember target name with
    | some v => return some v
    | none => lookupIn name rest
  | .locals frame :: rest => do
    match (← Run.heap).var? frame name with
    | some v => return some v
    | none => lookupIn name rest

def lookup (name : String) : Run Value := do
  let m ← get
  match m.local? name with
  | some v => return v
  | none =>
    match ← ev.lookupIn name m.scopes.entries with
    | some v => return v
    | none =>
      let m ← get
      match (m.global? name).orElse fun _ => m.builtins.get? name with
      | some v => return v
      | none => Run.fail (.nameNotFound name m.scopes.summary)

/-- Assign a property of an object that may have a say in it. If it declines, or knows no such
attribute, the attribute is written. -/
def setProperty (target : Value) (name : String) (v : Value) : Run Unit := do
  let done ←
    match target with
    | .object o =>
      match ev.host.objectSetProperty? o with
      | some set => do
        match ← Run.attempt (set name v) with
        | .ok done => pure done
        | .error e => if e.isAttribute then pure false else Run.fail e
      | none => pure false
    | _ => pure false
  if done then return
  match target with
  | .dict r => Run.modifyHeap fun h => h.setDict r ((h.dict r).insert (.str name) v)
  | _ => ev.setAttr target name v

/-- The layer of the scope stack that takes a write, or an error if the write is barred there. -/
def findTarget (h : Heap) (name : String) : List ScopeEntry → Except RuntimeError (Option Value)
  | [] => .ok none
  | .object target :: rest =>
    if ev.isMethodMember h target name then
      .error (.cannotAssign name (.isMethodOf target.typeName))
    else if ev.hasMember h target name then .ok (some target)
    else findTarget h name rest
  | .locals frame :: rest =>
    if h.hasVar frame name then .error (.cannotAssign name (.isOuter "nonlocal"))
    else findTarget h name rest

/-- A write that no layer takes: to the delegate of a closure, or as a new variable. -/
def setNew (m : Machine) (name : String) (v : Value) : Run Unit := do
  if m.frame.kind != .module then
    if (m.heap.enclosing? name m.env.tail).isSome then
      Run.fail (.cannotAssign name (.isOuter "nonlocal"))
    if m.heap.hasVar m.globals name then Run.fail (.cannotAssign name (.isOuter "global"))
  match m.frame.kind, m.delegate? with
  | .closure, some delegate =>
    if delegate.isNone then Run.modifyHeap (·.setVar m.frame name v)
    else ev.setProperty delegate name v
  | _, _ => Run.modifyHeap (·.setVar m.frame name v)

def set (name : String) (v : Value) : Run Unit := do
  let m ← get
  if m.heap.hasVar m.frame name then Run.modifyHeap (·.setVar m.frame name v)
  else
    match ← Run.ofExcept (ev.findTarget m.heap name m.scopes.entries) with
    | some target => ev.setProperty target name v
    | none => ev.setNew m name v

/-- Run an action with the variables of the running code as a layer, unless it is the module. -/
def withLocals {α : Type} (p : Run α) : Run α := do
  let m ← get
  if m.frame.kind = .module then p else Run.withScope (.locals m.frame) p

/-- Run a closure on a proxy for a dict, and copy what it set into the dict. -/
def configureDict (r : DictRef) (closure : Value) : Run Value := do
  let attrs := (← Run.heap).dict r |>.entries.filterMap fun
    | (.str name, v) => some (name, v)
    | _ => none
  let proxy ← Run.alloc (·.newSpace (.ofList attrs))
  let _ ← ev.call closure { positional := [.space proxy] }
  Run.modifyHeap fun h =>
    let kept := (h.dict r).filter fun
      | .str _, _ => false
      | _, _ => true
    let written := (h.space proxy).entries.filterMap fun (name, v) =>
      if reservedNames.contains name then none else some (Key.str name, v)
    h.setDict r (kept.insertAll written)
  return .dict r

/-- Run a closure against a target: by its own operation if it has one, on a proxy for a dict, and
otherwise on the target itself. -/
def configure (target closure : Value) : Run Value := do
  let plain : Run Value := do
    let _ ← ev.call closure { positional := [target] }
    return target
  match target with
  | .object o =>
    match ev.host.objectConfigure? ev.toCalls o with
    | some configure => configure closure
    | none => plain
  | .inst _ c =>
    match (← Run.heap).classAttr? c "configure" with
    | some method => ev.call (← bind target method) { positional := [closure] }
    | none => plain
  | .dict r => ev.configureDict r closure
  | _ => plain

/-- Run a closure against a target, for code whose variables the closure can read. -/
def configureObject (target closure : Value) : Run Value := withLocals (ev.configure target closure)

/-- A target with a block: what can be called gets the closure, all else is configured by it. -/
def callBlock (target closure : Value) : Run Value :=
  withLocals do
    if ev.isCallable (← Run.heap) target then ev.call target { positional := [closure] }
    else ev.configure target closure

end Evaluator

end BlockScript
