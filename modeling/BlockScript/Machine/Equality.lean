import BlockScript.Machine.Heap

/-! Equality and order of values. Values refer to each other through the heap, so both are bounded
by the number of cells a chain of references can visit without coming back. -/

namespace BlockScript

namespace Value

mutual

/-- Equality with tuples compared item by item, and all else by `same`. -/
def equalsBy (same : Value → Value → Bool) : Value → Value → Bool
  | tuple _ as, tuple _ bs => equalsAllBy same as bs
  | a, b => same a b

def equalsAllBy (same : Value → Value → Bool) : List Value → List Value → Bool
  | [], [] => true
  | a :: as, b :: bs => equalsBy same a b && equalsAllBy same as bs
  | _, _ => false

end

/-- Equality of values that hold no others: numbers by value, all else by identity. Integers and
truth values are compared exactly. -/
def equalsPlain (a b : Value) : Bool :=
  match a.asInt?, b.asInt? with
  | some i, some j => i == j
  | _, _ =>
    match a.isNumber, b.isNumber, a.asFloat?, b.asFloat? with
    | true, true, some x, some y => x == y
    | _, _, _, _ => a.isSame b

end Value

/-- Whether every entry of one map has an equal one in the other, which has no more. -/
def OrderedMap.matches {κ : Type} [BEq κ] (equals : Value → Value → Bool)
    (a b : OrderedMap κ Value) : Bool :=
  a.size == b.size && a.entries.all fun (k, v) => (b.get? k).any (equals v)

def listsMatch (equals : Value → Value → Bool) : List Value → List Value → Bool
  | [], [] => true
  | a :: as, b :: bs => equals a b && listsMatch equals as bs
  | _, _ => false

namespace Heap

/-- Equality through chains of at most `n` cells. -/
def equalsTo (h : Heap) : Nat → Value → Value → Bool
  | 0, _, _ => false
  | n + 1, a, b => a.equalsBy (fun
    | .list r, .list s => r == s || listsMatch (h.equalsTo n) (h.list r) (h.list s)
    | .dict r, .dict s => OrderedMap.matches (h.equalsTo n) (h.dict r) (h.dict s)
    | .space r, .space s => OrderedMap.matches (h.equalsTo n) (h.space r) (h.space s)
    | a, b => a.equalsPlain b) b

def equals (h : Heap) (a b : Value) : Bool := h.equalsTo (h.size + 1) a b

end Heap

/-- The result of comparing two values; `none` if a number is undefined. -/
abbrev OrderResult := Except RuntimeError (Option Ordering)

def orderText : List Char → List Char → Ordering
  | [], [] => .eq
  | [], _ :: _ => .lt
  | _ :: _, [] => .gt
  | a :: as, b :: bs => if a < b then .lt else if b < a then .gt else orderText as bs

/-- The order of floats; an undefined number has none. -/
def orderFloat (a b : Float) : Option Ordering :=
  if a < b then some .lt else if a == b then some .eq else if b < a then some .gt else none

/-- Lexicographic order: the first items that are not equal decide. -/
def orderLists (equals : Value → Value → Bool) (order : Value → Value → OrderResult) :
    List Value → List Value → OrderResult
  | [], [] => .ok (some .eq)
  | [], _ :: _ => .ok (some .lt)
  | _ :: _, [] => .ok (some .gt)
  | a :: as, b :: bs => if equals a b then orderLists equals order as bs else order a b

namespace Value

def orderPlain : Value → Value → OrderResult
  | str a, str b => .ok (some (orderText a.toList b.toList))
  | a, b =>
    match a.asInt?, b.asInt? with
    | some i, some j => .ok (some (compare i.toInt j.toInt))
    | _, _ =>
      match a.isNumber, b.isNumber, a.asFloat?, b.asFloat? with
      | true, true, some x, some y => .ok (orderFloat x y)
      | _, _, _, _ => .error (.type (.unordered a.typeName b.typeName))

mutual

/-- Order with tuples compared item by item, and all else by `order`. -/
def orderBy (equals : Value → Value → Bool) (order : Value → Value → OrderResult) :
    Value → Value → OrderResult
  | tuple _ as, tuple _ bs => orderAllBy equals order as bs
  | a, b => order a b

def orderAllBy (equals : Value → Value → Bool) (order : Value → Value → OrderResult) :
    List Value → List Value → OrderResult
  | [], [] => .ok (some .eq)
  | [], _ :: _ => .ok (some .lt)
  | _ :: _, [] => .ok (some .gt)
  | a :: as, b :: bs =>
    if equals a b then orderAllBy equals order as bs else orderBy equals order a b

end

end Value

namespace Heap

/-- Order through chains of at most `n` cells. Items are equal if they are through the chains that
are left. -/
def orderTo (h : Heap) : Nat → Value → Value → OrderResult
  | 0, a, b => .error (.type (.unordered a.typeName b.typeName))
  | n + 1, a, b => a.orderBy (h.equalsTo (n + 1)) (fun
    | .list r, .list s => orderLists (h.equalsTo n) (h.orderTo n) (h.list r) (h.list s)
    | a, b => a.orderPlain b) b

def order (h : Heap) (a b : Value) : OrderResult := h.orderTo (h.size + 1) a b

end Heap

/-- Insert into a list in falling order, after the items that are not less. -/
def insertBy {α : Type} (less : α → α → Except RuntimeError Bool) (a : α) :
    List α → Except RuntimeError (List α)
  | [] => .ok [a]
  | b :: bs => do if ← less a b then return b :: (← insertBy less a bs) else return a :: b :: bs

/-- Sort into rising order. Items of which none is less keep their order. -/
def sortBy {α : Type} (less : α → α → Except RuntimeError Bool) (items : List α) :
    Except RuntimeError (List α) :=
  return (← items.foldlM (fun sorted a => insertBy less a sorted) []).reverse

def isOrdering (c : OrderResult) (o : Ordering) : Except RuntimeError Bool := return (← c) == some o

def Heap.sortKeyed (h : Heap) (reverse : Bool) (keyed : List (Value × Value)) :
    Except RuntimeError (List Value) := do
  let before := if reverse then .gt else .lt
  return (← sortBy (fun a b => isOrdering (h.order a.1 b.1) before) keyed).map (·.2)

end BlockScript
