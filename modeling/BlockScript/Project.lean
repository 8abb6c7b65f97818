import BlockScript.Eval.Item

/-! An application that embeds scripts: projects with tasks, and bags of values. -/

namespace BlockScript.Project

inductive Kind where
  | project
  | task
  | bag
  deriving DecidableEq, Repr, Inhabited

namespace Kind

def typeName : Kind → String
  | project => "Project"
  | task => "Task"
  | bag => "Bag"

def ofTypeName? (name : String) : Option Kind := [project, task, bag].find? (·.typeName == name)

def methods : Kind → List String
  | project => ["task", "bag", "invoke", "broken"]
  | task => []
  | bag => ["__getitem__", "__setitem__", "__contains__", "__iter__"]

end Kind

variable (o : ObjectRef)

def kindOf? : Option Kind := Kind.ofTypeName? o.typeName

def newObject (kind : Kind) (fields : List (String × Value)) : Run ObjectRef :=
  Run.alloc (·.newObject (.host kind.typeName) (.ofList fields))

def new : Run ObjectRef := newObject .project []

def name? (h : Heap) (o : ObjectRef) : Option Value := (h.fields o).get? "name"

def tasks (h : Heap) (o : ObjectRef) : List ObjectRef :=
  match (h.fields o).get? "tasks" with
  | some (.tuple _ items) => items.filterMap fun
    | .object task => some task
    | _ => none
  | _ => []

def taskSpace (h : Heap) (o : ObjectRef) : Value := ((h.fields o).get? "attrs").getD .none

def bagList (h : Heap) (o : ObjectRef) : ListRef :=
  match (h.fields o).get? "items" with
  | some (.list r) => r
  | _ => default

def bagItems (h : Heap) (o : ObjectRef) : List Value := h.list (bagList h o)

def taskAttr (h : Heap) (o : ObjectRef) (name : String) : Member :=
  match taskSpace h o with
  | .space r => ((h.space r).get? name).elim .absent .value
  | _ => .absent

def attr (h : Heap) (o : ObjectRef) (name : String) : Member :=
  match kindOf? o, name with
  | some .project, "name" => (name? h o).elim .unset .value
  | some .project, "tasks" => .items ((tasks h o).filterMap (name? h))
  | some .task, "name" => (name? h o).elim .absent .value
  | some .task, _ => taskAttr h o name
  | some .bag, "size" => .value (Value.ofNat (bagItems h o).length)
  | _, _ => .absent

def setAttr (name : String) (_ : Value) : Run Unit :=
  match kindOf? o with
  | some .bag => Run.typeError (.host s!"bag attribute '{name}' is read-only")
  | _ => missing o.typeName name

def addTask (name : String) : Run Value := do
  let space ← Run.newSpace .empty
  let task ← newObject .task [("name", .str name), ("attrs", space)]
  let tasks := tasks (← Run.heap) o ++ [task]
  let all ← Run.newTuple (tasks.map .object)
  Run.modifyHeap (·.setField o "tasks" all)
  return .object task

def newBag (items : List Value) : Run Value := do
  let items ← Run.newList items
  return .object (← newObject .bag [("items", items)])

def badCall {α : Type} (name : String) : Run α := Run.typeError (.host s!"bad call to {name}()")

def projectMethod (calls : Calls) (o : ObjectRef) (name : String) (args : Args) : Run Value :=
  match name, args.positional with
  | "task", .str task :: _ => addTask o task
  | "bag", items => newBag items
  | "invoke", callee :: rest => calls.call callee { args with positional := rest }
  | _, _ => badCall name

def bagMethod (name : String) (args : Args) : Run Value := do
  let h ← Run.heap
  match name with
  | "__getitem__" => itemAt (bagItems h o) (args.get 0) "list"
  | "__setitem__" =>
    setListItem (bagList h o) (args.get 0) (args.get 1)
    return .none
  | "__contains__" => return .bool ((bagItems h o).any (h.equals · (args.get 0)))
  | "__iter__" => return .list (bagList h o)
  | _ => badCall name

def callMethod (calls : Calls) (o : ObjectRef) (name : String) (args : Args) : Run Value :=
  match kindOf? o with
  | some .project => projectMethod calls o name args
  | some .bag => bagMethod o name args
  | _ => missing o.typeName name

def call (args : Args) : Run Value := do
  match kindOf? o with
  | some .bag =>
    let h ← Run.heap
    let items := bagItems h o ++ args.positional
    Run.modifyHeap (·.setList (bagList h o) items)
    return .ofNat items.length
  | _ => Run.typeError (.notCallable o.typeName)

def pieces (h : Heap) (o : ObjectRef) : List Piece :=
  match kindOf? o with
  | some .bag => [.text "Bag(", .value (.list (bagList h o)), .text ")"]
  | _ => [.text ("<" ++ o.typeName ++ " object>")]

def configure? (calls : Calls) (o : ObjectRef) : Option (Value → Run Value) :=
  match kindOf? o with
  | some .task => some fun closure => do
    calls.call closure { positional := [taskSpace (← Run.heap) o] }
  | _ => none

def setProjectProperty (name : String) (v : Value) : Run Bool := do
  match name, v with
  | "name", .str _ =>
    Run.modifyHeap (·.setField o "name" v)
    return true
  | "name", other => Run.fail (.property ("'name' must be a str, not '" ++ other.typeName ++ "'"))
  | "tasks", _ => Run.fail (.attribute (.host "tasks are declared with task()"))
  | _, _ => return false

def setProperty? : Option (String → Value → Run Bool) :=
  match kindOf? o with
  | some .project => some (setProjectProperty o)
  | _ => none

def nameValue? (name : String) : Option Value :=
  if kindOf? o = some .project ∧ name = "VERSION" then some (.str "1.0") else none

def host : Host where
  attr
  setAttr
  isMethod o name := (kindOf? o).any fun kind => kind.methods.contains name
  callMethod
  isCallable o := kindOf? o = some .bag
  call _ := call
  pieces
  configure?
  setProperty?
  nameValue? _ := nameValue?

end BlockScript.Project
