import BlockScript.Format.Spec
import BlockScript.Number.Arithmetic

/-! Formatting by a template with percent signs. -/

namespace BlockScript.Format

structure Directive where
  key : Option (List Char)
  flags : List Char
  width : List Char
  kind : Char

namespace Directive

def isFlag (c : Char) : Bool := ['-', '+', ' ', '0', '#'].contains c

def isWidth (c : Char) : Bool := Token.isDigit c || c == '.'

def readKey : List Char → Option (List Char) × List Char
  | '(' :: cs => (some (cs.takeWhile (· != ')')), (cs.dropWhile (· != ')')).drop 1)
  | cs => (none, cs)

def read? (cs : List Char) : Option (Directive × List Char) :=
  let afterKey := (readKey cs).2
  let afterFlags := afterKey.dropWhile isFlag
  match afterFlags.dropWhile isWidth with
  | kind :: rest =>
    some (⟨(readKey cs).1, afterKey.takeWhile isFlag, afterFlags.takeWhile isWidth, kind⟩, rest)
  | [] => none

theorem length_le_readKey (cs : List Char) : (readKey cs).2.length ≤ cs.length := by
  unfold readKey
  split
  · next rest =>
    have := (List.dropWhile_suffix (l := rest) (· != ')')).length_le
    simp only [List.length_drop, List.length_cons]
    omega
  · simp

theorem length_lt_of_read? {cs rest : List Char} {d : Directive}
    (h : read? cs = some (d, rest)) : rest.length < cs.length := by
  have h₀ := length_le_readKey cs
  have h₁ := (List.dropWhile_suffix (l := (readKey cs).2) isFlag).length_le
  have h₂ := (List.dropWhile_suffix (l := (readKey cs).2.dropWhile isFlag) isWidth).length_le
  simp only [read?] at h
  split at h
  · next kind rest' heq =>
    simp only [Option.some.injEq, Prod.mk.injEq] at h
    rw [heq, List.length_cons, h.2] at h₂
    omega
  · simp at h

def spec (d : Directive) (isNumber : Bool) : List Char :=
  let left := d.flags.contains '-'
  let sign := if d.flags.contains '+' then ['+'] else if d.flags.contains ' ' then [' '] else []
  let zero := if d.flags.contains '0' && !left then ['0'] else []
  (if left then ['<'] else []) ++ (if isNumber then sign ++ zero else []) ++ d.width

def format (d : Directive) (view : View) (v : Value) : Except RuntimeError (List Char) :=
  match d.kind with
  | 's' => value view (.str (view.display v)) (d.spec false)
  | 'r' => value view (.str (view.repr v)) (d.spec false)
  | 'd' | 'i' | 'u' => do
    let v ← match v with
      | .float f => Value.int <$> Number.truncate f (Number.valueText f)
      | v => .ok v
    value view v (d.spec true ++ ['d'])
  | kind =>
    if ['f', 'F', 'e', 'E', 'g', 'G', 'x', 'X', 'o'].contains kind then
      value view v (d.spec true ++ [kind])
    else .error (.value (.unsupportedFormat kind))

/-- The value a directive asks for, and the values left for those after it. -/
def pick (d : Directive) (view : View) (values : Value) (rest : List Value) :
    Except RuntimeError (Value × List Value) :=
  match d.key with
  | some name =>
    match values with
    | .dict r =>
      match (view.heap.dict r).get? (.str (String.ofList name)) with
      | some v => .ok (v, rest)
      | none => .error (.key (Text.quoteValue (String.ofList name)))
    | _ => .error (.type .formatNeedsMapping)
  | none =>
    match rest with
    | v :: rest => .ok (v, rest)
    | [] => .error (.type .tooFewFormatArguments)

end Directive

/-- The text of a template, with `rest` the values not used so far. -/
def percentFrom (view : View) (values : Value) (rest : List Value) (template : List Char) :
    Except RuntimeError (List Char) :=
  match template with
  | [] => if rest.isEmpty then .ok [] else .error (.type .tooManyFormatArguments)
  | '%' :: '%' :: cs => return '%' :: (← percentFrom view values rest cs)
  | '%' :: cs =>
    match _h : Directive.read? cs with
    | none => .error (.value .incompleteFormat)
    | some (d, after) => do
      let (v, rest) ← d.pick view values rest
      let text ← d.format view v
      return text ++ (← percentFrom view values rest after)
  | c :: cs => return c :: (← percentFrom view values rest cs)
termination_by template.length
decreasing_by
  all_goals simp only [List.length_cons]
  all_goals first
    | omega
    | exact Nat.lt_succ_of_lt (Directive.length_lt_of_read? _h)

/-- A template with its directives replaced by the values, a tuple of them or a dict. -/
def percent (view : View) (template : List Char) (values : Value) :
    Except RuntimeError (List Char) :=
  let positional := match values with
    | .tuple _ items => items
    | .dict _ => []
    | v => [v]
  percentFrom view values positional template

end BlockScript.Format
