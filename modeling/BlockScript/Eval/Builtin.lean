import BlockScript.Eval.Operator

/-! What is built in: functions, and the classes of exceptions. -/

namespace BlockScript

/-! ## Functions that convert values -/

namespace Number

def dropBaseMark (radix : Nat) (cs : List Char) : List Char :=
  match radix, cs with
  | 16, '0' :: 'x' :: digits | 8, '0' :: 'o' :: digits | 2, '0' :: 'b' :: digits => digits
  | _, _ => cs

/-- Whether a text has a minus sign in front, and the text after its sign. -/
def splitSign : List Char → Bool × List Char
  | '-' :: rest => (true, rest)
  | '+' :: rest => (false, rest)
  | cs => (false, cs)

/-- The integer that a text stands for. Blanks around it and underscores have no meaning, and the
mark of the base is optional. The least integer has no opposite: a minus sign leaves it as it is. -/
def ofText? (radix : Nat) (text : List Char) : Option Int64 := do
  let (negative, digits) := splitSign ((Text.trim text).filter (· ≠ '_'))
  let magnitude ← (integer? radix (dropBaseMark radix (lowerAscii digits))).bind word?
  return if negative then -magnitude else magnitude

def floatOfText? (text : List Char) : Option Float :=
  let cs := (lowerAscii (Text.trim text)).filter (· ≠ '_')
  let unsigned := String.ofList (cs.dropWhile fun c => c == '+' || c == '-')
  if unsigned == "nan" then some (0.0 / 0.0)
  else if unsigned == "inf" || unsigned == "infinity" then
    some (if cs.head? = some '-' then -1.0 / 0.0 else 1.0 / 0.0)
  else float? cs

end Number

namespace Evaluator

def radixArg : Option Value → Run Nat
  | none => return 10
  | some v =>
    match v.asInt? with
    | some i => if 2 ≤ i && i ≤ 36 then return i.toInt.toNat else Run.valueError .badBase
    | none => Run.valueError .badBase

variable (args : Args)

def builtinInt : Run Value := do
  args.check "int" 0 2
  let radix ← radixArg (args.get? 1)
  match args.get? 0 with
  | none => return .int 0
  | some (.str s) =>
    match Number.ofText? radix s.toList with
    | some i => return .int i
    | none => Run.valueError (.badInt radix (Text.quoteValue s))
  | some (.float f) => return .int (← Run.ofExcept (Number.truncate f (Number.valueText f)))
  | some v =>
    match v.asInt? with
    | some i => return .int i
    | none => Run.typeError (.notNumeric "int" v.typeName)

def builtinFloat : Run Value := do
  args.check "float" 0 1
  match args.get? 0 with
  | none => return .float 0.0
  | some (.str s) =>
    match Number.floatOfText? s.toList with
    | some f => return .float f
    | none => Run.valueError (.badFloat (Text.quoteValue s))
  | some v =>
    match v.asFloat? with
    | some f => return .float f
    | none => Run.typeError (.notNumeric "float" v.typeName)

variable (ev : Evaluator)

/-- A keyword argument of `print`: `None` stands for the default. -/
def printMark (name default : String) : Run String :=
  match args.keyword? name with
  | none | some .none => return default
  | some v => ev.display v

def builtinPrint : Run Value := do
  let sep ← ev.printMark args "sep" " "
  let stop ← ev.printMark args "end" "\n"
  let rest := (args.dropKeyword "sep").dropKeyword "end"
  if let (keyword, _) :: _ := rest.keywords then Run.typeError (.unexpectedKeyword "print" keyword)
  let texts ← args.positional.mapM ev.toStr
  Run.print (sep.intercalate texts ++ stop)
  return .none

def builtinStr : Run Value := do
  args.check "str" 0 1
  match args.get? 0 with
  | some v => return .str (← ev.toStr v)
  | none => return .str ""

def builtinRepr : Run Value := do
  args.check "repr" 1 1
  return .str (← ev.repr (args.get 0))

def builtinBool : Run Value := do
  args.check "bool" 0 1
  match args.get? 0 with
  | some v => return .bool (← ev.truthy v)
  | none => return .bool false

def builtinList : Run Value := do
  args.check "list" 0 1
  match args.get? 0 with
  | some v => Run.newList (← ev.iterate v)
  | none => Run.newList []

def builtinTuple : Run Value := do
  args.check "tuple" 0 1
  match args.get? 0 with
  | some v => Run.newTuple (← ev.iterate v)
  | none => Run.newTuple []

def builtinDict : Run Value := do
  Run.newDict (.ofList (← ev.pairsOfArgs "dict" args))

def builtinSpace : Run Value := do
  if !args.positional.isEmpty then Run.typeError .keywordsOnly
  Run.newSpace (.ofList args.keywords)

/-! ## Functions on sequences and numbers -/

def builtinLen : Run Value := do
  args.check "len" 1 1
  let h ← Run.heap
  match args.get 0 with
  | .str s => return .ofNat s.length
  | .list r => return .ofNat (h.list r).length
  | .tuple _ items => return .ofNat items.length
  | .dict r => return .ofNat (h.dict r).size
  | .space r => return .ofNat (h.space r).size
  | other => Run.typeError (.noLength other.typeName)

def intArg (function : String) (v : Value) : Run Int64 :=
  match v.asInt? with
  | some i => return i
  | none => Run.typeError (.notIntegerIn function v.typeName)

def builtinRange : Run Value := do
  args.check "range" 1 3
  let bounds ← args.positional.mapM (intArg "range")
  let (start, stop, step) := match bounds with
    | [stop] => (0, stop, 1)
    | [start, stop] => (start, stop, 1)
    | start :: stop :: step :: _ => (start, stop, step)
    | [] => (0, 0, 1)
  if hstep : step = 0 then Run.valueError .zeroRangeStep
  else
    let numbers ← Run.orExhausted (BlockScript.Sequence.stepsFrom some step stop hstep [] start)
    Run.newList (numbers.map .int)

def builtinAbs : Run Value := do
  args.check "abs" 1 1
  match args.get 0 with
  | .float f => return .float f.abs
  | v =>
    match v.asInt? with
    | some i => return .int (← Run.ofExcept (Number.checked i.toInt.natAbs))
    | none => Run.typeError (.badOperand "abs()" v.typeName)

def rows (columns : List (List Value)) : List (List Value) :=
  let count := ((columns.map List.length).min?).getD 0
  (List.range count).map fun i => columns.filterMap (·[i]?)

def builtinEnumerate : Run Value := do
  let start ← match (args.keyword? "start").orElse fun _ => args.get? 1 with
    | some v => intArg "enumerate" v
    | none => pure 0
  let first : Args := { positional := args.positional.take 1 }
  first.check "enumerate" 1 1
  let items ← ev.iterate (first.get 0)
  Run.newList (← items.zipIdx.mapM fun (item, i) =>
    Run.newTuple [.int (start + Int64.ofNat i), item])

def builtinZip : Run Value := do
  let columns ← args.positional.mapM ev.iterate
  Run.newList (← (rows columns).mapM Run.newTuple)

def builtinSorted : Run Value := do
  let key := (args.keyword? "key").getD .none
  let reverse ← match args.keyword? "reverse" with
    | some v => ev.truthy v
    | none => pure false
  ((args.dropKeyword "key").dropKeyword "reverse").check "sorted" 1 1
  let items ← ev.iterate (args.get 0)
  Run.newList (← ev.sorted items key reverse)

def builtinReversed : Run Value := do
  args.check "reversed" 1 1
  Run.newList (← ev.iterate (args.get 0)).reverse

/-- `min` and `max`: of the items of one argument, or of several arguments. -/
def builtinExtremum (function : String) (keep : Ordering) (args : Args) : Run Value := do
  let key := (args.keyword? "key").getD .none
  let items ← match args.positional with
    | [single] => ev.iterate single
    | several => pure several
  match ← ev.extremumFrom key keep none items, args.keyword? "default" with
  | some best, _ => return best
  | none, some default => return default
  | none, none => Run.valueError (.emptySequence function)

def builtinSum : Run Value := do
  args.check "sum" 1 2
  let items ← ev.iterate (args.get 0)
  items.foldlM (fun total item => ev.plainBinary .add total item) ((args.get? 1).getD (.int 0))

def builtinAny : Run Value := do
  args.check "any" 1 1
  let items ← ev.iterate (args.get 0)
  return .bool (items.any (← ev.view).truthy)

def builtinAll : Run Value := do
  args.check "all" 1 1
  let items ← ev.iterate (args.get 0)
  return .bool (items.all (← ev.view).truthy)

/-! ## Functions on types and attributes, and what makes exceptions and closures -/

def builtinType : Run Value := do
  args.check "type" 1 1
  match args.get 0 with
  | .inst _ c => return .cls c
  | other => return .cls (← Run.alloc (·.newClass other.typeName [] .empty))

/-- Whether a value is of the type that a conversion function stands for. -/
def isOfNative (v : Value) (fn : Native) : Bool :=
  match fn, v with
  | .int, .int _ | .int, .bool _ | .dict, .dict _ | .space, .space _ => true
  | .int, _ | .dict, _ | .space, _ => false
  | fn, v => v.typeName == fn.name

mutual

def isInstanceOf (h : Heap) (v : Value) : Value → Except RuntimeError Bool
  | .cls c =>
    .ok (match v with
      | .inst _ own => h.isSubclass own c
      | _ => false)
  | .native _ fn => .ok (isOfNative v fn)
  | .tuple _ classes => isInstanceOfAny h v classes
  | other => .error (.type (.notClassInfo other.typeName))

def isInstanceOfAny (h : Heap) (v : Value) : List Value → Except RuntimeError Bool
  | [] => .ok false
  | c :: cs => do if ← isInstanceOf h v c then return true else isInstanceOfAny h v cs

end

variable (args : Args)

def builtinIsInstance : Run Value := do
  args.check "isinstance" 2 2
  return .bool (← Run.ofExcept (isInstanceOf (← Run.heap) (args.get 0) (args.get 1)))

def attributeName (v : Value) (function : String) : Run String :=
  match v with
  | .str s => return s
  | _ => Run.typeError (.attributeNameNotStr function)

def makeClosure : Run Value := do
  args.check "closure" 1 1
  match args.get 0 with
  | .function f | .closure f => return .closure f
  | other => Run.typeError (.notFunction other.typeName)

def builtinGetAttr : Run Value := do
  args.check "getattr" 2 3
  let name ← attributeName (args.get 1) "getattr"
  match ← Run.attempt (ev.getAttr (args.get 0) name), args.get? 2 with
  | .ok v, _ => return v
  | .error e, some default => if e.isAttribute then return default else Run.fail e
  | .error e, none => Run.fail e

def builtinSetAttr : Run Value := do
  args.check "setattr" 3 3
  let name ← attributeName (args.get 1) "setattr"
  ev.setAttr (args.get 0) name (args.get 2)
  return .none

def builtinHasAttr : Run Value := do
  args.check "hasattr" 2 2
  let name ← attributeName (args.get 1) "hasattr"
  return .bool (← ev.getAttr? (args.get 0) name).isSome

/-- Initialize an exception: its message is the text of its arguments. -/
def exceptionInit : Run Value := do
  match args.positional with
  | .inst r _ :: rest =>
    let all ← Run.newTuple rest
    let message ← match rest with
      | [] => pure ""
      | [only] => ev.display only
      | _ => ev.display all
    Run.modifyHeap fun h =>
      h.setInst r (((h.inst r).insert "args" all).insert "message" (.str message))
    return .none
  | _ => Run.typeError .initNeedsInstance

end Evaluator

/-! ## All that is built in -/

def Evaluator.callNative (ev : Evaluator) (fn : Native) (args : Args) : Run Value :=
  match fn with
  | .print => ev.builtinPrint args
  | .str => ev.builtinStr args
  | .repr => ev.builtinRepr args
  | .int => Evaluator.builtinInt args
  | .float => Evaluator.builtinFloat args
  | .bool => ev.builtinBool args
  | .list => ev.builtinList args
  | .tuple => ev.builtinTuple args
  | .dict => ev.builtinDict args
  | .space => Evaluator.builtinSpace args
  | .len => Evaluator.builtinLen args
  | .range => Evaluator.builtinRange args
  | .enumerate => ev.builtinEnumerate args
  | .zip => ev.builtinZip args
  | .sorted => ev.builtinSorted args
  | .reversed => ev.builtinReversed args
  | .min => ev.builtinExtremum "min" .lt args
  | .max => ev.builtinExtremum "max" .gt args
  | .sum => ev.builtinSum args
  | .any => ev.builtinAny args
  | .all => ev.builtinAll args
  | .abs => Evaluator.builtinAbs args
  | .type => Evaluator.builtinType args
  | .isInstance => Evaluator.builtinIsInstance args
  | .getAttr => ev.builtinGetAttr args
  | .setAttr => ev.builtinSetAttr args
  | .hasAttr => ev.builtinHasAttr args
  | .exceptionInit => ev.exceptionInit args
  | .closureMark => Evaluator.makeClosure args

def exceptionClasses : List (String × String) :=
  [("Exception", ""), ("ArithmeticError", "Exception"), ("ZeroDivisionError", "ArithmeticError"),
    ("LookupError", "Exception"), ("KeyError", "LookupError"), ("IndexError", "LookupError"),
    ("ValueError", "Exception"), ("TypeError", "Exception"), ("NameError", "Exception"),
    ("AttributeError", "Exception"), ("AssertionError", "Exception"), ("ImportError", "Exception"),
    ("RuntimeError", "Exception"), ("AssignmentError", "RuntimeError"),
    ("PropertyError", "AttributeError")]

def defineException (h : Heap) (names : Attrs) (name base : String) : Heap × Attrs :=
  let bases := match names.get? base with
    | some (.cls c) => [c]
    | _ => []
  let attrs : Attrs :=
    if bases.isEmpty then
      .ofList [("__exception__", .bool true), ("__init__", .native h.fresh .exceptionInit)]
    else .empty
  let (c, h) := { h with fresh := h.fresh + 1 }.newClass name bases attrs
  (h, names.insert name (.cls c))

def builtinNames (h : Heap) : Heap × Attrs :=
  let functions : Attrs := .ofList (Native.builtins.zipIdx.map fun (fn, i) =>
    (fn.name, .native (h.fresh + i) fn))
  exceptionClasses.foldl (fun (h, names) (name, base) => defineException h names name base)
    ({ h with fresh := h.fresh + Native.builtins.length }, functions)

def Machine.new : Machine :=
  let (globals, h) := ({} : Heap).newFrame .module {}
  let (h, builtins) := builtinNames h
  { heap := h, builtins, globals, frames := [{ env := [globals] }] }

end BlockScript
