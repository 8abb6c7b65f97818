import BlockScript.Machine.Show
import BlockScript.Number.Read
import BlockScript.Text.Case

/-! Formatting of values by a specification such as `>8.2f`, and by a template with fields. -/

namespace BlockScript.Format

structure Spec where
  fill : Option Char := none
  align : Option Char := none
  sign : Option Char := none
  /-- Pad numbers with zeros after the sign. -/
  zero : Bool := false
  width : Nat := 0
  /-- Separate the digits of large numbers in threes. -/
  grouping : Bool := false
  precision : Option Nat := none
  kind : Option Char := none
  deriving DecidableEq, Repr, Inhabited

def isAlign (c : Char) : Bool := c == '<' || c == '>' || c == '^' || c == '='

def isSign (c : Char) : Bool := c == '+' || c == '-' || c == ' '

/-- Widths and precisions have 64 bits. -/
def count? (digits : List Char) : Option Nat :=
  (Number.natural? 10 digits).filter (· < Number.countLimit)

namespace Spec

def readAlign : List Char → Spec × List Char
  | c :: d :: rest =>
    if isAlign d then ({ fill := some c, align := some d }, rest)
    else if isAlign c then ({ align := some c }, d :: rest)
    else ({}, c :: d :: rest)
  | [c] => if isAlign c then ({ align := some c }, []) else ({}, [c])
  | [] => ({}, [])

def readSign (s : Spec) : List Char → Spec × List Char
  | c :: rest => if isSign c then ({ s with sign := some c }, rest) else (s, c :: rest)
  | [] => (s, [])

def readZero (s : Spec) : List Char → Spec × List Char
  | '0' :: rest => ({ s with zero := true }, rest)
  | rest => (s, rest)

def readWidth? (s : Spec) (cs : List Char) : Option (Spec × List Char) :=
  let (digits, rest) := Number.spanDigits cs
  if digits.isEmpty then some (s, rest)
  else (count? digits).map fun width => ({ s with width }, rest)

def readGrouping (s : Spec) : List Char → Spec × List Char
  | ',' :: rest | '_' :: rest => ({ s with grouping := true }, rest)
  | rest => (s, rest)

def readPrecision? (s : Spec) : List Char → Option (Spec × List Char)
  | '.' :: cs =>
    let (digits, rest) := Number.spanDigits cs
    (count? digits).map fun precision => ({ s with precision := some precision }, rest)
  | rest => some (s, rest)

def readKind? (s : Spec) : List Char → Option Spec
  | [] => some s
  | [c] => some { s with kind := some c }
  | _ => none

def ofText? (cs : List Char) : Option Spec := do
  let (s, rest) := readAlign cs
  let (s, rest) := s.readSign rest
  let (s, rest) := s.readZero rest
  let (s, rest) ← s.readWidth? rest
  let (s, rest) := s.readGrouping rest
  let (s, rest) ← s.readPrecision? rest
  s.readKind? rest

def padding (s : Spec) (numeric : Bool) : Char × Char :=
  match s.align with
  | some align => (s.fill.getD ' ', align)
  | none => if numeric then (if s.zero then ('0', '=') else (' ', '>')) else (' ', '<')

def pad (s : Spec) (numeric : Bool) (body : List Char) : List Char :=
  let missing := s.width - body.length
  let (fill, align) := s.padding numeric
  match align with
  | '<' => body ++ List.replicate missing fill
  | '^' => List.replicate (missing / 2) fill ++ body ++ List.replicate (missing - missing / 2) fill
  | '=' => body.takeWhile isSign ++ List.replicate missing fill ++ body.dropWhile isSign
  | _ => List.replicate missing fill ++ body

/-- What stands before the digits. -/
def signText (s : Spec) (negative : Bool) : List Char :=
  if negative then ['-']
  else
    match s.sign with
    | some '+' => ['+']
    | some ' ' => [' ']
    | _ => []

end Spec

def group : List Char → List Char
  | [] => []
  | d :: ds => if ds.length % 3 = 0 && !ds.isEmpty then d :: ',' :: group ds else d :: group ds

/-- The digits before the point in threes. -/
def groupNumber (text : List Char) : List Char :=
  let (digits, rest) := Number.spanDigits text
  group digits ++ rest

def trimZeros (text : List Char) : List Char :=
  if text.contains '.' then Text.dropTrailing (· == '.') (Text.dropTrailing (· == '0') text)
  else text

def trimPointZero (text : List Char) : List Char :=
  match text.reverse with
  | '0' :: '.' :: rest => rest.reverse
  | _ => text

/-- At most `precision` digits, in exponent notation if the number is large or small. -/
def general (f : Float) (precision : Nat) : List Char :=
  if f == 0.0 || !f.isFinite then trimPointZero (Number.valueText f).toList
  else
    let precision := max precision 1
    let exponent := (Number.truncate? f.abs.log10.floor).getD 0
    if exponent < -4 ∨ (precision : Int) ≤ exponent then
      match Number.exponential? f (precision - 1) with
      | some (digits, e) => trimZeros digits ++ Number.exponentMark e
      | none => Number.fixed f precision
    else trimZeros (Number.fixed f (precision - 1 - exponent).toNat)

def floatText (s : Spec) (f : Float) : List Char :=
  let precision := s.precision.getD 6
  match s.kind with
  | some 'f' | some 'F' => Number.fixed f precision
  | some 'e' => Number.exponential f precision
  | some 'E' => Text.upper (Number.exponential f precision)
  | some '%' => Number.fixed (f * 100.0) precision ++ ['%']
  | none => if s.precision.isNone then (Number.valueText f).toList else general f precision
  | _ => general f precision

def baseDigits? (kind : Char) (n : Nat) : Option (List Char) :=
  match kind with
  | 'x' => some (Nat.toDigits 16 n)
  | 'X' => some ((Nat.toDigits 16 n).map Char.toUpper)
  | 'o' => some (Nat.toDigits 8 n)
  | 'b' => some (Nat.toDigits 2 n)
  | _ => none

def isFloatKind (kind : Option Char) : Bool :=
  kind.all ['f', 'F', 'e', 'E', 'g', 'G', '%'].contains

def isIntKind (s : Spec) : Bool :=
  match s.kind with
  | none => s.precision.isNone
  | some kind => kind == 'd' || kind == 'n'

def intText (s : Spec) (i : Int) : List Char :=
  let digits := Number.decimalDigits i.natAbs
  s.signText (i < 0) ++ (if s.grouping then group digits else digits)

def body (view : View) (s : Spec) (v : Value) : Except RuntimeError (List Char) :=
  let plain : Except RuntimeError (List Char) :=
    match v.asFloat? with
    | some f =>
      if isFloatKind s.kind then
        let text := floatText s f.abs
        .ok (s.signText (Number.isNegative f && !f.isNaN) ++
          (if s.grouping then groupNumber text else text))
      else .error (.value (.unknownCode (s.kind.getD ' ') v.typeName))
    | none =>
      match s.kind with
      | some kind => .error (.value (.unknownCode kind v.typeName))
      | none => .ok (view.display v).toList
  match v with
  | .str text =>
    if s.kind.all (· == 's') then
      .ok (match s.precision with
        | some p => text.toList.take p
        | none => text.toList)
    else plain
  | _ =>
    match v.asInt? with
    | some i =>
      if isIntKind s then .ok (intText s i.toInt)
      else
        match s.kind.bind (baseDigits? · i.toInt.natAbs) with
        | some digits => .ok (s.signText (i < 0) ++ digits)
        | none => plain
    | none => plain

def value (view : View) (v : Value) (spec : List Char) : Except RuntimeError (List Char) :=
  if spec.isEmpty then .ok (view.display v).toList
  else
    match Spec.ofText? spec with
    | none => .error (.value (.badSpec (String.ofList spec)))
    | some s => (body view s v).map (s.pad v.isNumber)

/-! ## Templates with fields in braces -/

/-- A field: what it refers to, how it is converted, and the specification. -/
structure Field where
  name : List Char
  conversion : Option (List Char)
  spec : List Char

def splitOnce (sep : Char) (cs : List Char) : List Char × Option (List Char) :=
  match cs.dropWhile (· != sep) with
  | [] => (cs, none)
  | _ :: rest => (cs.takeWhile (· != sep), some rest)

def Field.ofText (cs : List Char) : Field :=
  let (head, spec) := splitOnce ':' cs
  let (name, conversion) := splitOnce '!' head
  ⟨name, conversion, spec.getD []⟩

/-- The value of a field, where `auto` fields without a name came before it. -/
def Field.value? (f : Field) (args : Args) (auto : Nat) : Option Value :=
  if f.name.isEmpty then args.get? auto
  else
    match (Number.unsigned? 10 f.name).filter (· < Number.countLimit) with
    | some index => args.get? index
    | none => args.keyword? (String.ofList f.name)

def Field.format (f : Field) (view : View) (args : Args) (auto : Nat) :
    Except RuntimeError (List Char) :=
  match f.value? args auto with
  | none =>
    .error (.key (if f.name.isEmpty then "format index out of range" else String.ofList f.name))
  | some v =>
    value view (if f.conversion = some ['r'] then .str (view.repr v) else v) f.spec

/-- The text of a template after `auto` fields without a name. -/
def templateFrom (view : View) (args : Args) (auto : Nat) (cs : List Char) :
    Except RuntimeError (List Char) :=
  match cs with
  | [] => .ok []
  | '{' :: '{' :: cs => return '{' :: (← templateFrom view args auto cs)
  | '}' :: '}' :: cs => return '}' :: (← templateFrom view args auto cs)
  | '{' :: cs =>
    match _h : cs.dropWhile (· != '}') with
    | [] => .error (.value .unclosedField)
    | _ :: rest => do
      let field := Field.ofText (cs.takeWhile (· != '}'))
      let text ← field.format view args auto
      return text ++
        (← templateFrom view args (if field.name.isEmpty then auto + 1 else auto) rest)
  | '}' :: _ => .error (.value .loneBrace)
  | c :: cs => return c :: (← templateFrom view args auto cs)
termination_by cs.length
decreasing_by
  all_goals simp only [List.length_cons]
  all_goals first
    | omega
    | skip
  have hle := (List.dropWhile_suffix (l := cs) (· != '}')).length_le
  rw [_h] at hle
  simp only [List.length_cons] at hle
  omega

def template (view : View) (cs : List Char) (args : Args) : Except RuntimeError (List Char) :=
  templateFrom view args 0 cs

end BlockScript.Format
