import BlockScript.Number.Binary
import BlockScript.Value.Error

/-! Arithmetic. Integers are exact or refuse; floats follow the rules of their format, with the sign
of a remainder taken from the divisor. -/

namespace BlockScript.Number

open Program

def orOverflow : Option Int64 → Except RuntimeError Int64
  | some w => .ok w
  | none => .error (.value .overflow)

def checked (i : Int) : Except RuntimeError Int64 := orOverflow (word? i)

/-- A power that is not computed if it cannot fit. -/
def power (a : Int) (e : Nat) : Except RuntimeError Int64 :=
  if a.natAbs ≤ 1 then checked (if e = 0 then 1 else if e % 2 = 0 then a * a else a)
  else if 64 ≤ e then .error (.value .overflow)
  else checked (Int.pow a e)

/-- Counts of shifts, and exponents, have 32 bits. -/
def isCount (b : Int) : Bool := 0 ≤ b && b < 0x100000000

/-- A shift of the bits of a word gives nothing if the count is not below its width. -/
def inWidth? (count shifted : Int64) : Option Int64 := if count < 64 then some shifted else none

/-- Bits that are lost on the left do not come back when the word is shifted back. -/
def shiftLeft (a b : Int64) : Except RuntimeError Int64 :=
  if !isCount b.toInt then .error (.value .negativeShift)
  else orOverflow ((inWidth? b (a <<< b)).filter (· >>> b == a))

def shiftRight (a b : Int64) : Except RuntimeError Int64 :=
  if !isCount b.toInt then .error (.value .negativeShift)
  else .ok ((inWidth? b (a >>> b)).getD (if a < 0 then -1 else 0))

/-- The quotient rounded towards zero, if it is a word. -/
def quotient? (a b : Int64) : Option Int64 :=
  if b = 0 ∨ a = Int64.minValue ∧ b = -1 then none else some (a / b)

/-- Whether the quotient rounded towards zero was rounded up. -/
def isRaised (a b : Int64) : Bool := a % b != 0 && decide (a < 0) != decide (b < 0)

def floorDiv? (a b : Int64) : Option Int64 :=
  (quotient? a b).map fun q => if isRaised a b then q - 1 else q

def isOpposite (r b : Int64) : Bool := r != 0 && decide (r < 0) != decide (b < 0)

/-- The remainder with the sign of the divisor, from the one with the sign of the dividend. -/
def floorMod (a b : Int64) : Int64 := if isOpposite (a % b) b then a % b + b else a % b

def intOp (op : BinaryOp) (a b : Int64) : Except RuntimeError Value :=
  match op with
  | .add => Value.int <$> checked (a.toInt + b.toInt)
  | .sub => Value.int <$> checked (a.toInt - b.toInt)
  | .mul => Value.int <$> checked (a.toInt * b.toInt)
  | .div =>
    if b = 0 then .error (.zeroDivision "division") else .ok (.float (a.toFloat / b.toFloat))
  | .floorDiv =>
    if b = 0 then .error (.zeroDivision "integer division")
    else Value.int <$> orOverflow (floorDiv? a b)
  | .mod =>
    if b = 0 then .error (.zeroDivision "integer modulo")
    else .ok (.int (floorMod a b))
  | .pow =>
    if b < 0 then .ok (.float (a.toFloat.pow b.toFloat))
    else if !isCount b.toInt then .error (.value .overflow)
    else Value.int <$> power a.toInt b.toInt.toNat
  | .shiftLeft => Value.int <$> shiftLeft a b
  | .shiftRight => Value.int <$> shiftRight a b
  | .bitOr => .ok (.int (a ||| b))
  | .bitXor => .ok (.int (a ^^^ b))
  | .bitAnd => .ok (.int (a &&& b))
  | .matMul => .error (.type (.unsupportedOperands op.symbol "int" "int"))

def floatMod (a b : Float) : Float :=
  let r := remainder a b
  if r != 0.0 && decide (r < 0.0) != decide (b < 0.0) then r + b else r

/-- An operator on floats, `none` if there is none. -/
def floatOp? (op : BinaryOp) (a b : Float) : Option (Except RuntimeError Value) :=
  match op with
  | .add => some (.ok (.float (a + b)))
  | .sub => some (.ok (.float (a - b)))
  | .mul => some (.ok (.float (a * b)))
  | .div =>
    some (if b == 0.0 then .error (.zeroDivision "float division") else .ok (.float (a / b)))
  | .floorDiv =>
    some (if b == 0.0 then .error (.zeroDivision "float floor division")
      else .ok (.float (a / b).floor))
  | .mod =>
    some (if b == 0.0 then .error (.zeroDivision "float modulo") else .ok (.float (floatMod a b)))
  | .pow => some (.ok (.float (a.pow b)))
  | _ => none

def truncate (f : Float) (text : String) : Except RuntimeError Int64 :=
  match truncate? f with
  | some i => checked i
  | none => .error (.value (.notFinite text))

def unarySymbol : UnaryOp → String
  | .neg => "unary -"
  | .pos => "unary +"
  | .invert => "unary ~"
  | .not => "not"

def unaryOp (op : UnaryOp) (v : Value) : Except RuntimeError Value :=
  match op, v, v.asInt? with
  | .neg, _, some i => Value.int <$> checked (-i.toInt)
  | .neg, .float f, _ => .ok (.float (-f))
  | .pos, _, some i => .ok (.int i)
  | .pos, .float f, _ => .ok (.float f)
  | .invert, _, some i => .ok (.int (~~~i))
  | _, _, _ => .error (.type (.badOperand (unarySymbol op) v.typeName))

end BlockScript.Number
