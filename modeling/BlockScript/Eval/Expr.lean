import BlockScript.Eval.Call

/-! Evaluation of expressions. -/

namespace BlockScript

open Program

def Value.ofConstant : Constant → Value
  | .none => .none
  | .bool b => .bool b
  | .int i => .int i
  | .float f => .float f
  | .str s => .str s

def sliceBound (v : Value) : Run (Option Int64) :=
  match v, v.asInt? with
  | .none, _ => return none
  | _, some i => return some i
  | _, none => Run.typeError .sliceBoundNotInt

namespace Evaluator

variable (ev : Evaluator)

def test (e : Expr) : Run Bool := do ev.truthy (← ev.eval e)

mutual

def assign : Expr → Value → Run Unit
  | .name _ id, v => storeName id v
  | .attribute _ object name, v => do ev.setProperty (← ev.eval object) name v
  | .subscript _ object index, v => do
    let object ← ev.eval object
    ev.setItem object (← ev.eval index) v
  | .tuple _ targets, v | .list _ targets, v => do
    let values ← ev.iterate v
    if values.length ≠ targets.length then
      Run.valueError (.wrongUnpackCount targets.length values.length)
    assignAll targets values
  | _, _ => Run.typeError .notAssignable

def assignAll : List Expr → List Value → Run Unit
  | target :: targets, v :: vs => do
    assign target v
    assignAll targets vs
  | _, _ => return

end

def fieldText (v : Value) (conversion : Option Char) (spec : Option String) : Run String := do
  let v ← match conversion with
    | some 'r' | some 'a' => pure (Value.str (← ev.repr v))
    | some _ => pure (Value.str (← ev.toStr v))
    | none => pure v
  match spec with
  | none | some "" => ev.toStr v
  | some spec => return String.ofList (← Run.ofExcept (Format.value (← ev.view) v spec.toList))

def partText : FStringPart → Run String
  | .text s => return s
  | .field value conversion spec => do ev.fieldText (← ev.eval value) conversion spec

/-- The entry of a dict. Its key is looked at before its value is evaluated. -/
def dictEntry : Entry → Run (Key × Value)
  | .mk key value => do return (← Run.key (← ev.eval key), ← ev.eval value)

/-- The elements of a comprehension. Its variables are bound in the running frame. -/
def elements (element : Expr) : List Clause → Run (List Value)
  | [] => return [← ev.eval element]
  | .mk target source conditions :: rest => do
    let items ← ev.iterate (← ev.eval source)
    let found ← items.mapM fun item => do
      ev.assign target item
      if ← conditions.allM ev.test then elements element rest else return []
    return found.flatten

def keywordsOf (v : Value) : Run (List (String × Value)) := do
  match v with
  | .dict r =>
    ((← Run.heap).dict r).entries.mapM fun
      | (.str name, v) => return (name, v)
      | _ => Run.typeError .keywordNotStr
  | .space r => return ((← Run.heap).space r).entries
  | other => Run.typeError (.notMapping other.typeName)

def addArg (args : Args) : Arg → Run Args
  | .positional e => do return { args with positional := args.positional ++ [← ev.eval e] }
  | .starred e => do
    let items ← ev.iterate (← ev.eval e)
    return { args with positional := args.positional ++ items }
  | .keyword name e => do return { args with keywords := args.keywords ++ [(name, ← ev.eval e)] }
  | .doubleStarred e => do
    let keywords ← keywordsOf (← ev.eval e)
    return { args with keywords := args.keywords ++ keywords }

def evalBound : Option Expr → Run (Option Int64)
  | none => return none
  | some e => do sliceBound (← ev.eval e)

/-- Whether every comparison of a chain holds; the rest is not evaluated after one that does not. -/
def compareChain (left : Value) : List Comparison → Run Bool
  | [] => return true
  | .mk op right :: rest => do
    let right ← ev.eval right
    if ← ev.compareOne op left right then compareChain right rest else return false

def evalExpr : Expr → Run Value
  | .constant _ c => return .ofConstant c
  | .fstring _ parts => do return .str (String.join (← parts.mapM ev.partText))
  | .name _ id => loadName id
  | .list _ items => do Run.newList (← items.mapM ev.eval)
  | .tuple _ items => do Run.newTuple (← items.mapM ev.eval)
  | .dict _ entries => do Run.newDict (.ofList (← entries.mapM ev.dictEntry))
  | .comprehension _ element clauses => do Run.newList (← ev.elements element clauses)
  | .attribute _ object name => do ev.getAttr (← ev.eval object) name
  | .subscript _ object (.slice _ lower upper step) => do
    let v ← ev.eval object
    let lower ← ev.evalBound lower
    let upper ← ev.evalBound upper
    slice v lower upper (← ev.evalBound step)
  | .subscript _ object index => do
    let v ← ev.eval object
    ev.getItem v (← ev.eval index)
  | .slice .. => Run.typeError .straySlice
  | .call _ callee args => do
    let callee ← ev.eval callee
    ev.call callee (← args.foldlM ev.addArg {})
  | .unary _ op operand => do ev.unary op (← ev.eval operand)
  | .binary _ op left right => do
    let left ← ev.eval left
    ev.binary op left (← ev.eval right)
  | .compare _ first rest => do return .bool (← ev.compareChain (← ev.eval first) rest)
  | .logical _ op left right => do
    let left ← ev.eval left
    if (← ev.truthy left) = (op == .or) then return left else ev.eval right
  | .ternary _ test body orelse => do
    if ← ev.test test then ev.eval body else ev.eval orelse

end Evaluator

end BlockScript
