import BlockScript.Token.Lexeme

/-! Numbers read from text. -/

namespace BlockScript.Number

/-- The value of a digit in bases up to thirty-six, letters of either case. -/
def digitValue? (c : Char) : Option Nat :=
  if '0' ≤ c ∧ c ≤ '9' then some (c.toNat - '0'.toNat)
  else if 'a' ≤ c ∧ c ≤ 'z' then some (c.toNat - 'a'.toNat + 10)
  else if 'A' ≤ c ∧ c ≤ 'Z' then some (c.toNat - 'A'.toNat + 10)
  else none

/-- The natural number with these digits, most significant first, after the digits of `acc`. -/
def digitsFrom? (radix : Nat) : Nat → List Char → Option Nat
  | acc, [] => some acc
  | acc, c :: cs => do
    let d ← digitValue? c
    if d < radix then digitsFrom? radix (acc * radix + d) cs else none

/-- One digit at least, and nothing else. -/
def natural? (radix : Nat) (cs : List Char) : Option Nat :=
  if cs.isEmpty then none else digitsFrom? radix 0 cs

def unsigned? (radix : Nat) : List Char → Option Nat
  | '+' :: cs => natural? radix cs
  | cs => natural? radix cs

def integer? (radix : Nat) : List Char → Option Int
  | '-' :: cs => (natural? radix cs).map fun n => -(n : Int)
  | '+' :: cs => (natural? radix cs).map Int.ofNat
  | cs => (natural? radix cs).map Int.ofNat

def lowerAscii (cs : List Char) : List Char := cs.map Char.toLower

def spanDigits (cs : List Char) : List Char × List Char :=
  (cs.takeWhile Token.isDigit, cs.dropWhile Token.isDigit)

/-- `digits * 10 ^ exponent` as the nearest floating-point number. Exponents far outside the range
are not computed with. -/
def nearest (digits : Nat) (exponent : Int) : Float :=
  let leading := exponent + (Nat.toDigits 10 digits).length
  if digits = 0 ∨ leading < -400 then 0.0
  else if 400 < leading then 1.0 / 0.0
  else if 0 ≤ exponent then Float.ofScientific digits false exponent.toNat
  else Float.ofScientific digits true (-exponent).toNat

/-- The exponent of a number after its `e`, or zero if there is no more text. -/
def exponent? : List Char → Option Int
  | [] => some 0
  | e :: cs => if e == 'e' || e == 'E' then integer? 10 cs else none

def magnitude? (cs : List Char) : Option Float := do
  let (whole, rest) := spanDigits cs
  let (fraction, rest) := match rest with
    | '.' :: rest => spanDigits rest
    | rest => ([], rest)
  let digits ← natural? 10 (whole ++ fraction)
  let e ← exponent? rest
  return nearest digits (e - fraction.length)

/-- A magnitude, or the name of an infinite or undefined number in any case. -/
def unsignedFloat? (cs : List Char) : Option Float :=
  if ["inf", "infinity"].contains (String.ofList (lowerAscii cs)) then some (1.0 / 0.0)
  else if String.ofList (lowerAscii cs) == "nan" then some (0.0 / 0.0)
  else magnitude? cs

def float? : List Char → Option Float
  | '-' :: cs => (unsignedFloat? cs).map fun f => -f
  | '+' :: cs => unsignedFloat? cs
  | cs => unsignedFloat? cs

end BlockScript.Number
