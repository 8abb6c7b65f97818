/-! Character classes given as sorted lists of inclusive ranges of code points. -/

namespace BlockScript.Text

/-- Inclusive ranges of code points. -/
abbrev Ranges := List (Nat × Nat)

/-- The ranges, from the lengths of the runs of characters outside and inside them, in turn. The
first run is outside and begins at `start`. -/
def Ranges.ofRuns (start : Nat) : List Nat → Ranges
  | outside :: inside :: runs =>
    let lo := start + outside
    (lo, lo + inside - 1) :: ofRuns (lo + inside) runs
  | _ => []

def Ranges.contains (ranges : Ranges) (c : Char) : Bool :=
  ranges.any fun (lo, hi) => lo ≤ c.toNat && c.toNat ≤ hi

/-! ## Blank characters and control characters, as the Unicode standard classifies them -/

/-- The characters with the `White_Space` property. -/
def blankRanges : Ranges :=
  [(0x9, 0xd), (0x20, 0x20), (0x85, 0x85), (0xa0, 0xa0), (0x1680, 0x1680), (0x2000, 0x200a),
    (0x2028, 0x2029), (0x202f, 0x202f), (0x205f, 0x205f), (0x3000, 0x3000)]

def isBlank (c : Char) : Bool :=
  blankRanges.contains c

/-- The characters of general category `Cc`. -/
def isControl (c : Char) : Bool :=
  c.toNat < 0x20 || (0x7f ≤ c.toNat && c.toNat < 0xa0)

def trimStart (cs : List Char) : List Char :=
  cs.dropWhile isBlank

def trimEnd (cs : List Char) : List Char :=
  (cs.reverse.dropWhile isBlank).reverse

def trim (cs : List Char) : List Char :=
  trimEnd (trimStart cs)

/-- The words of a text; `current` is the reversed beginning of the first one. -/
def wordsFrom : List Char → List Char → List (List Char)
  | [], [] => []
  | [], current => [current.reverse]
  | c :: cs, current =>
    if isBlank c then
      if current.isEmpty then wordsFrom cs [] else current.reverse :: wordsFrom cs []
    else wordsFrom cs (c :: current)

/-- The words of a text: its maximal runs of characters that are not blank. -/
def words (cs : List Char) : List (List Char) :=
  wordsFrom cs []

end BlockScript.Text
