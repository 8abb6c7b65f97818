import BlockScript.Eval.Item
import BlockScript.Format.Percent

/-! Operators. -/

namespace BlockScript

open Program

def operatorMethod : BinaryOp → String
  | .add => "__add__"
  | .sub => "__sub__"
  | .mul => "__mul__"
  | .div => "__truediv__"
  | .floorDiv => "__floordiv__"
  | .mod => "__mod__"
  | .pow => "__pow__"
  | .matMul => "__matmul__"
  | .shiftLeft => "__lshift__"
  | .shiftRight => "__rshift__"
  | .bitOr => "__or__"
  | .bitXor => "__xor__"
  | .bitAnd => "__and__"

namespace Evaluator

variable (ev : Evaluator)

def repeatValue? (v : Value) (count : Int) : Option (Run Value) :=
  match v with
  | .str s => some (return .ofChars (Sequence.repeated s.toList count))
  | .list r => some do Run.newList (Sequence.repeated ((← Run.heap).list r) count)
  | .tuple _ items => some (Run.newTuple (Sequence.repeated items count))
  | _ => none

variable (op : BinaryOp)

/-- Two values of one kind put together by `+`, or dicts by `|`. -/
def joinValues? (left right : Value) : Option (Run Value) :=
  match op, left, right with
  | .add, .str a, .str b => some (return .str (a ++ b))
  | .add, .list a, .list b => some do
    let h ← Run.heap
    Run.newList (h.list a ++ h.list b)
  | .add, .tuple _ a, .tuple _ b => some (Run.newTuple (a ++ b))
  | .bitOr, .dict a, .dict b => some do
    let h ← Run.heap
    Run.newDict ((h.dict a).insertAll (h.dict b).entries)
  | _, _, _ => none

/-- A container times an integer, on either side. -/
def repetition? (left right : Value) : Option (Run Value) :=
  match op, left, right with
  | .mul, .int n, v | .mul, v, .int n => repeatValue? v n.toInt
  | _, _, _ => none

def plainBinary (left right : Value) : Run Value := do
  let unsupported : RuntimeError :=
    .type (.unsupportedOperands op.symbol left.typeName right.typeName)
  match left.asInt?, right.asInt?, left.asFloat?, right.asFloat? with
  | some a, some b, _, _ => Run.ofExcept (Number.intOp op a b)
  | _, _, some a, some b => Run.ofExcept ((Number.floatOp? op a b).getD (.error unsupported))
  | _, _, _, _ =>
    match op, left with
    | .mod, .str s => return .ofChars (← Run.ofExcept (Format.percent (← ev.view) s.toList right))
    | _, _ =>
      match (joinValues? op left right).orElse fun _ => repetition? op left right with
      | some run => run
      | none => Run.fail unsupported

def binary (left right : Value) : Run Value := do
  match left with
  | .inst _ c =>
    match (← Run.heap).classAttr? c (operatorMethod op) with
    | some method => ev.call (← bind left method) { positional := [right] }
    | none => ev.plainBinary op left right
  | _ => ev.plainBinary op left right

/-- The operator of an augmented assignment: a list is extended in its place. -/
def binaryInPlace (left right : Value) : Run Value := do
  match op, left with
  | .add, .list r =>
    let extra ← ev.iterate right
    modifyList r (· ++ extra)
    return left
  | _, _ => ev.binary op left right

def unary (op : UnaryOp) (v : Value) : Run Value := do
  match op with
  | .not => return .bool (!(← ev.truthy v))
  | op => Run.ofExcept (Number.unaryOp op v)

/-- Whether two values are ordered as a comparison says; undefined numbers never are. -/
def ordered (p : Ordering → Bool) (left right : Value) : Run Bool := do
  return (← Run.ofExcept ((← Run.heap).order left right)).any p

def compareOne (op : CompareOp) (left right : Value) : Run Bool := do
  match op with
  | .eq => return (← Run.heap).equals left right
  | .notEq => return !(← Run.heap).equals left right
  | .is => return left.isSame right
  | .isNot => return !left.isSame right
  | .isIn => ev.contains right left
  | .notIn => return !(← ev.contains right left)
  | .lt => ordered (· == .lt) left right
  | .ltEq => ordered (· != .gt) left right
  | .gt => ordered (· == .gt) left right
  | .gtEq => ordered (· != .lt) left right

end Evaluator

end BlockScript
