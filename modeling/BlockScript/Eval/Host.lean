import BlockScript.Machine.Basic
import BlockScript.Machine.Show

/-! The operations through which evaluation is recursive, and those of the objects that an embedding
application provides. -/

namespace BlockScript

/-- How the execution of a statement ends. -/
inductive Flow where
  | normal
  | breakLoop
  | continueLoop
  | returns (v : Value)
  deriving Inhabited

/-- What reading an attribute of an object gives. -/
inductive Member where
  | value (v : Value)
  /-- A list that is new with every reading. -/
  | items (vs : List Value)
  /-- Declared, but without a value so far. -/
  | unset
  | absent
  deriving Inhabited

def Member.isAbsent : Member → Bool
  | absent => true
  | _ => false

/-- What an object may use of the interpreter. -/
structure Calls where
  call : Value → Args → Run Value
  iterate : Value → Run (List Value)

/-- The behaviour of the objects of an embedding application. -/
structure Host where
  attr : Heap → ObjectRef → String → Member
  setAttr : ObjectRef → String → Value → Run Unit
  isMethod : ObjectRef → String → Bool
  callMethod : Calls → ObjectRef → String → Args → Run Value
  isCallable : ObjectRef → Bool
  call : Calls → ObjectRef → Args → Run Value
  pieces : Heap → ObjectRef → List Piece
  /-- How an object runs a closure that configures it, if it does so itself. -/
  configure? : Calls → ObjectRef → Option (Value → Run Value)
  /-- How an object takes the value of a property, if it has a say in it; `false` declines. -/
  setProperty? : ObjectRef → Option (String → Value → Run Bool)
  /-- Names that an object knows beyond its attributes. -/
  nameValue? : Heap → ObjectRef → String → Option Value

/-- An application without objects of its own. -/
def Host.none : Host where
  attr _ _ _ := .absent
  setAttr o name _ := Run.fail (.attribute (.missing o.typeName name))
  isMethod _ _ := false
  callMethod _ o name _ := Run.fail (.attribute (.missing o.typeName name))
  isCallable _ := false
  call _ o _ := Run.typeError (.notCallable o.typeName)
  pieces _ o := [.text ("<" ++ o.typeName ++ " object>")]
  configure? _ _ := Option.none
  setProperty? _ := Option.none
  nameValue? _ _ _ := Option.none

/-- Each operation of the interpreter is defined over an `Evaluator` that stands for those it calls;
tying the knot with a bound on the depth of recursion gives the interpreter. -/
structure Evaluator extends Calls where
  host : Host
  eval : Program.Expr → Run Value
  block : List Program.Stmt → Run Flow
  /-- Execute a block as long as a condition holds. -/
  loop : Program.Expr → List Program.Stmt → Run Flow

def Evaluator.exhausted (host : Host) : Evaluator where
  host
  call _ _ := throw .exhausted
  iterate _ := throw .exhausted
  eval _ := throw .exhausted
  block _ := throw .exhausted
  loop _ _ := throw .exhausted

def runtimeMethods : List String :=
  ["__getitem__", "__setitem__", "lookup", "set", "closure", "configure_object", "call_block",
    "set_object_property"]

namespace Host

variable (host : Host)

def objectPieces (h : Heap) (o : ObjectRef) : List Piece :=
  match o.kind with
  | .runtime => [.text "<runtime>"]
  | .host _ => host.pieces h o

def objectAttr (h : Heap) (o : ObjectRef) (name : String) : Member :=
  match o.kind with
  | .runtime => .absent
  | .host _ => host.attr h o name

def objectIsMethod (o : ObjectRef) (name : String) : Bool :=
  match o.kind with
  | .runtime => runtimeMethods.contains name
  | .host _ => host.isMethod o name

def objectSetAttr (o : ObjectRef) (name : String) (v : Value) : Run Unit :=
  match o.kind with
  | .runtime => Run.fail (.attribute (.missing o.typeName name))
  | .host _ => host.setAttr o name v

def objectIsCallable (o : ObjectRef) : Bool :=
  match o.kind with
  | .runtime => false
  | .host _ => host.isCallable o

def objectCall (calls : Calls) (o : ObjectRef) (args : Args) : Run Value :=
  match o.kind with
  | .runtime => Run.typeError (.notCallable o.typeName)
  | .host _ => host.call calls o args

def objectConfigure? (calls : Calls) (o : ObjectRef) : Option (Value → Run Value) :=
  match o.kind with
  | .runtime => Option.none
  | .host _ => host.configure? calls o

def objectSetProperty? (o : ObjectRef) : Option (String → Value → Run Bool) :=
  match o.kind with
  | .runtime => Option.none
  | .host _ => host.setProperty? o

def objectName? (h : Heap) (o : ObjectRef) (name : String) : Option Value :=
  match o.kind with
  | .runtime => Option.none
  | .host _ => host.nameValue? h o name

def view (h : Heap) : View := ⟨h, host.objectPieces h⟩

end Host

namespace Evaluator

/-- What can be told of values now. -/
def view (ev : Evaluator) : Run View := return ev.host.view (← Run.heap)

def truthy (ev : Evaluator) (v : Value) : Run Bool := return (← ev.view).truthy v

def display (ev : Evaluator) (v : Value) : Run String := return (← ev.view).display v

def repr (ev : Evaluator) (v : Value) : Run String := return (← ev.view).repr v

end Evaluator

/-- Refuse keyword arguments, and other numbers of arguments than from `least` to `greatest`. -/
def Args.check (a : Args) (function : String) (least : Nat) (greatest : Nat) : Run Unit := do
  if let (keyword, _) :: _ := a.keywords then Run.typeError (.unexpectedKeyword function keyword)
  let given := a.positional.length
  if given < least || greatest < given then
    Run.typeError (.wrongCount function least greatest given)

end BlockScript
