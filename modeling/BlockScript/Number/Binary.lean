/-! The numbers of the language: integers of 64 bits and floating-point numbers. -/

namespace BlockScript.Number

def leastInt : Int := -0x8000000000000000

def greatestInt : Int := 0x7fffffffffffffff

/-- Counts are unsigned and have 64 bits too: this is the first number that is none. -/
def countLimit : Nat := 0x10000000000000000

def word? (i : Int) : Option Int64 :=
  if leastInt ≤ i ∧ i ≤ greatestInt then some (Int64.ofInt i) else none

theorem toInt_of_word? {i : Int} {w : Int64} (h : word? i = some w) : w.toInt = i := by
  rw [word?] at h
  split at h
  · next hfits =>
    cases h
    exact Int64.toInt_ofInt_of_le hfits.1 (Int.lt_add_one_of_le hfits.2)
  · cases h

/-! ## Floating-point numbers taken apart

Every finite one is a natural number times a power of two. -/

/-- A floating-point number by its parts. -/
inductive Binary where
  | nan
  | infinite (negative : Bool)
  /-- `mantissa * 2 ^ exponent`. -/
  | finite (negative : Bool) (mantissa : Nat) (exponent : Int)
  deriving DecidableEq, Repr, Inhabited

namespace Binary

/-- The mantissa of a number that is not subnormal is at least this. -/
def hiddenBit : Nat := 0x10000000000000

def leastExponent : Int := -1074

def ofBits (bits : Nat) : Binary :=
  let negative := bits / 0x8000000000000000 % 2 == 1
  let biased : Nat := bits / hiddenBit % 2048
  let fraction := bits % hiddenBit
  if biased = 2047 then if fraction = 0 then infinite negative else nan
  else if biased = 0 then finite negative fraction leastExponent
  else finite negative (hiddenBit + fraction) ((biased : Int) - 1075)

def ofFloat (f : Float) : Binary := ofBits f.toBits.toNat

def quotient (mantissa : Nat) (exponent : Int) : Nat × Nat :=
  if 0 ≤ exponent then (mantissa * Nat.pow 2 exponent.toNat, 1)
  else (mantissa, Nat.pow 2 (-exponent).toNat)

end Binary

def isNegative (f : Float) : Bool := f.toBits.toNat / 0x8000000000000000 % 2 == 1

def isIntegral (f : Float) : Bool :=
  match Binary.ofFloat f with
  | .finite _ m e => let (num, den) := Binary.quotient m e; num % den == 0
  | _ => false

def truncate? (f : Float) : Option Int :=
  match Binary.ofFloat f with
  | .finite negative m e =>
    let (num, den) := Binary.quotient m e
    some (if negative then -(num / den : Nat) else (num / den : Nat))
  | _ => none

def ofParts (negative : Bool) (mantissa : Nat) (exponent : Int) : Float :=
  let magnitude := (Float.ofNat mantissa).scaleB exponent
  if negative then -magnitude else magnitude

/-- The remainder of the quotient truncated toward zero. It is exact and has the sign of `a`. -/
def remainder (a b : Float) : Float :=
  match Binary.ofFloat a, Binary.ofFloat b with
  | .finite sign m e, .finite _ n k =>
    if n = 0 then 0.0 / 0.0
    else
      let low := min e k
      let x := m * Nat.pow 2 (e - low).toNat
      let y := n * Nat.pow 2 (k - low).toNat
      ofParts sign (x % y) low
  | .finite .., .infinite _ => a
  | _, _ => 0.0 / 0.0

/-! ## Decimal numbers

The fewest decimal digits that stand for a floating-point number, and rounding to a given number of
digits. All arithmetic is exact. -/

/-- `digits * 10 ^ exponent`. -/
structure Decimal where
  digits : Nat
  exponent : Int
  deriving DecidableEq, Repr, Inhabited

def decimalDigits (n : Nat) : List Char := Nat.toDigits 10 n

def digitCount (n : Nat) : Nat := (decimalDigits n).length

/-- The exponent of the first decimal digit of `num / den`, which is not zero. -/
def leadingExponent (num den : Nat) : Int :=
  if den ≤ num then (digitCount (num / den) : Int) - 1
  else -(digitCount ((den + num - 1) / num - 1) : Int)

/-- `num / den` on the grid of multiples of `10 ^ exponent`, as a quotient of natural numbers. -/
def scaled (num den : Nat) (exponent : Int) : Nat × Nat :=
  if 0 ≤ exponent then (num, den * Nat.pow 10 exponent.toNat)
  else (num * Nat.pow 10 (-exponent).toNat, den)

/-- The integer nearest to `num / den`; a half goes to the even neighbour. -/
def roundHalfEven (num den : Nat) : Nat :=
  let q := num / den
  let r := num % den
  if 2 * r < den then q
  else if den < 2 * r then q + 1
  else if q % 2 = 0 then q else q + 1

namespace Decimal

/-- Drop trailing zeros, at most `n` of them. -/
def stripZeros : Nat → Decimal → Decimal
  | 0, d => d
  | n + 1, d =>
    if d.digits ≠ 0 ∧ d.digits % 10 = 0 then stripZeros n ⟨d.digits / 10, d.exponent + 1⟩ else d

/-- The numbers that round to `mantissa * 2 ^ exponent`, in units of `2 ^ (exponent - 2)`: the
halfway points to the neighbours, of which the lower is nearer at the start of a binade. -/
def roundingInterval (mantissa : Nat) (exponent : Int) : Nat × Nat :=
  let near := mantissa = Binary.hiddenBit ∧ Binary.leastExponent < exponent
  (4 * mantissa - (if near then 1 else 2), 4 * mantissa + 2)

/-- Whether the decimal `n * 10 ^ k` reads back as the number with this mantissa and exponent. -/
def readsBack (mantissa : Nat) (exponent : Int) (n : Nat) (k : Int) : Bool :=
  let (lo, hi) := roundingInterval mantissa exponent
  let (num, den) := scaled n 1 (-k)
  let (unit, parts) := Binary.quotient 1 (exponent - 2)
  let value := num * parts
  let low := lo * unit * den
  let high := hi * unit * den
  if mantissa % 2 = 0 then low ≤ value && value ≤ high else low < value && value < high

/-- The decimal of `count` digits nearest to the number, if it reads back; of two equally near ones
the greater. -/
def ofDigits? (mantissa : Nat) (exponent : Int) (count : Nat) : Option Decimal :=
  let (num, den) := Binary.quotient mantissa exponent
  let k := leadingExponent num den - (count : Int) + 1
  let (n, d) := scaled num den k
  let below := n / d
  let r := n % d
  let up := readsBack mantissa exponent (below + 1) k
  let down := readsBack mantissa exponent below k
  if up && (!down || d ≤ 2 * r) then some ⟨below + 1, k⟩
  else if down then some ⟨below, k⟩
  else none

/-- The fewest digits that read back as a number that is not zero; seventeen are always enough. -/
def shortest (mantissa : Nat) (exponent : Int) : Decimal :=
  let found := (List.range 17).findSome? fun i => ofDigits? mantissa exponent (i + 1)
  (found.getD default).stripZeros 17

def positional (d : Decimal) : List Char :=
  let digits := decimalDigits d.digits
  if 0 ≤ d.exponent then digits ++ List.replicate d.exponent.toNat '0'
  else
    let places := (-d.exponent).toNat
    let padded := List.replicate (places + 1 - digits.length) '0' ++ digits
    padded.take (padded.length - places) ++ '.' :: padded.drop (padded.length - places)

/-- One digit, the others after a point, and the exponent. -/
def scientific (d : Decimal) : List Char :=
  match decimalDigits d.digits with
  | [] => []
  | first :: others =>
    let exponent := d.exponent + others.length
    first :: (if others.isEmpty then [] else '.' :: others) ++ 'e' :: (toString exponent).toList

end Decimal

/-- The magnitude `num / den` with `places` digits after the point. -/
def fixedPlaces (num den places : Nat) : List Char :=
  let digits := decimalDigits (roundHalfEven (num * Nat.pow 10 places) den)
  let padded := List.replicate (places + 1 - digits.length) '0' ++ digits
  let whole := padded.take (padded.length - places)
  if places = 0 then whole else whole ++ '.' :: padded.drop (padded.length - places)

/-- The magnitude `num / den` rounded to `count` significant digits, and the exponent of the
first. -/
def significant (num den count : Nat) : Nat × Int :=
  if num = 0 then (0, 0)
  else
    let e := leadingExponent num den
    let (n, d) := scaled num den (e - (count : Int) + 1)
    let rounded := roundHalfEven n d
    if rounded = Nat.pow 10 count then (Nat.pow 10 (count - 1), e + 1) else (rounded, e)

/-- The magnitude `num / den` as one digit, `places` more after a point, and the exponent. -/
def scientificPlaces (num den places : Nat) : List Char × Int :=
  let (rounded, e) := significant num den (places + 1)
  let digits := decimalDigits rounded
  let padded := digits ++ List.replicate (places + 1 - digits.length) '0'
  (if places = 0 then padded else padded.take 1 ++ '.' :: padded.drop 1, e)

/-! ## Floating-point numbers as literals, as values, and with a chosen number of digits -/

def signed (negative : Bool) (cs : List Char) : List Char := if negative then '-' :: cs else cs

/-- Plain notation is used from `10 ^ -4` up to `10 ^ 16`. -/
def isPlain (d : Decimal) : Bool :=
  let leading := d.exponent + digitCount d.digits - 1
  decide (-4 ≤ leading ∧ leading < 16)

/-- A finite number as a literal: the fewest digits that read back, always with a point or an
exponent. -/
def literalDigits (negative : Bool) (mantissa : Nat) (exponent : Int) : List Char :=
  if mantissa = 0 then signed negative ['0', '.', '0']
  else
    let d := Decimal.shortest mantissa exponent
    signed negative <|
      if !isPlain d then d.scientific
      else if 0 ≤ d.exponent then d.positional ++ ['.', '0']
      else d.positional

def literal (f : Float) : String :=
  match Binary.ofFloat f with
  | .nan => "float('nan')"
  | .infinite false => "float('inf')"
  | .infinite true => "-float('inf')"
  | .finite negative m e => String.ofList (literalDigits negative m e)

/-- A number as a value: the fewest digits that read back, in plain notation. Integers below
`10 ^ 16` have one decimal place. -/
def valueText (f : Float) : String :=
  match Binary.ofFloat f with
  | .nan => "nan"
  | .infinite false => "inf"
  | .infinite true => "-inf"
  | .finite negative m e =>
    String.ofList <| signed negative <|
      if m = 0 then ['0', '.', '0']
      else
        let (num, den) := Binary.quotient m e
        if num % den = 0 ∧ num < Nat.pow 10 16 * den then fixedPlaces num den 1
        else (Decimal.shortest m e).positional

/-- The magnitude of a number with `places` digits after the point. -/
def fixed (f : Float) (places : Nat) : List Char :=
  match Binary.ofFloat f with
  | .nan => ['N', 'a', 'N']
  | .infinite _ => ['i', 'n', 'f']
  | .finite _ m e => let (num, den) := Binary.quotient m e; fixedPlaces num den places

/-- An exponent with its sign and at least two digits. -/
def exponentMark (e : Int) : List Char :=
  let digits := decimalDigits e.natAbs
  'e' :: (if e < 0 then '-' else '+') :: List.replicate (2 - digits.length) '0' ++ digits

/-- The magnitude of a number as digits with a point, and its exponent; `none` for the texts that
stand for no finite number. -/
def exponential? (f : Float) (places : Nat) : Option (List Char × Int) :=
  match Binary.ofFloat f with
  | .finite _ m e => let (num, den) := Binary.quotient m e; some (scientificPlaces num den places)
  | _ => none

def exponential (f : Float) (places : Nat) : List Char :=
  match exponential? f places with
  | some (digits, e) => digits ++ exponentMark e
  | none => fixed f places

end BlockScript.Number
