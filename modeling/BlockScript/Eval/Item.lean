import BlockScript.Eval.Method

/-! Items of containers. -/

namespace BlockScript

def itemAt (items : List Value) (index : Value) (container : String) : Run Value := do
  let i ← Run.ofExcept (Sequence.place items.length index container)
  return items[i]?.getD .none

def setListItem (r : ListRef) (index v : Value) : Run Unit := do
  let items := (← Run.heap).list r
  let i ← Run.ofExcept (Sequence.place items.length index "list")
  Run.modifyHeap (·.setList r (items.set i v))

def charValues (s : String) : List Value := s.toList.map fun c => .str (String.singleton c)

namespace Evaluator

variable (ev : Evaluator)

def getItem (v index : Value) : Run Value := do
  match v with
  | .list r => itemAt ((← Run.heap).list r) index "list"
  | .tuple _ items => itemAt items index "tuple"
  | .str s => itemAt (charValues s) index "string"
  | .dict r =>
    let k ← Run.key index
    match ((← Run.heap).dict r).get? k with
    | some item => return item
    | none => Run.fail (.key (← ev.repr index))
  | .inst .. | .object _ =>
    if ev.hasMethod (← Run.heap) v "__getitem__" then
      ev.callMethod v "__getitem__" { positional := [index] }
    else Run.typeError (.notSubscriptable v.typeName)
  | _ => Run.typeError (.notSubscriptable v.typeName)

def setItem (target index v : Value) : Run Unit := do
  match target with
  | .list r => setListItem r index v
  | .dict r =>
    let k ← Run.key index
    modifyDict r (·.insert k v)
  | .inst .. | .object _ =>
    if ev.hasMethod (← Run.heap) target "__setitem__" then
      let _ ← ev.callMethod target "__setitem__" { positional := [index, v] }
    else Run.typeError (.notItemAssignable target.typeName)
  | _ => Run.typeError (.notItemAssignable target.typeName)

def items (v : Value) : Run (List Value) := do
  match v with
  | .list r => return (← Run.heap).list r
  | .tuple _ items => return items
  | .str s => return charValues s
  | .dict r => Run.keyValues ((← Run.heap).dict r).keys
  | .inst .. | .object _ =>
    if ev.hasMethod (← Run.heap) v "__iter__" then ev.iterate (← ev.callMethod v "__iter__" {})
    else Run.typeError (.notIterable v.typeName)
  | _ => Run.typeError (.notIterable v.typeName)

def hasEqual (container item : Value) : Run Bool := do
  let items ← ev.iterate container
  let h ← Run.heap
  return items.any (h.equals · item)

def contains (container item : Value) : Run Bool := do
  match container with
  | .str s =>
    match item with
    | .str needle => return (Text.find? needle.toList s.toList).isSome
    | other => Run.typeError (.notStrInStr other.typeName)
  | .dict r =>
    let k ← Run.key item
    return ((← Run.heap).dict r).contains k
  | .space r =>
    let attrs := (← Run.heap).space r
    return item.asStr?.any attrs.contains
  | .object o =>
    if ev.host.objectIsMethod o "__contains__" then
      ev.truthy (← ev.objectMethod o "__contains__" { positional := [item] })
    else ev.hasEqual container item
  | _ => ev.hasEqual container item

/-- The text of a value; an instance may define its own. -/
def toStr (v : Value) : Run String := do
  match v with
  | .inst _ c =>
    match (← Run.heap).classAttr? c "__str__" with
    | some method => ev.display (← ev.call (← bind v method) {})
    | none => ev.display v
  | _ => ev.display v

def selected {α : Type} (result : Except RuntimeError (Option α)) : Run α := do
  Run.orExhausted (← Run.ofExcept result)

def slice (v : Value) (lower upper step : Option Int64) : Run Value := do
  match v with
  | .list r => Run.newList (← selected (Sequence.slice ((← Run.heap).list r) lower upper step))
  | .tuple _ items => Run.newTuple (← selected (Sequence.slice items lower upper step))
  | .str s => return .ofChars (← selected (Sequence.slice s.toList lower upper step))
  | other => Run.typeError (.notSubscriptable other.typeName)

end Evaluator

end BlockScript
