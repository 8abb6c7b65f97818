/-! Places in a source text. A text is a list of characters; offsets count the bytes of its UTF-8
form, lines count from one and columns count characters from zero. -/

namespace BlockScript

structure Position where
  offset : Nat
  line : Nat
  column : Nat
  deriving DecidableEq, Repr, Inhabited

namespace Position

/-- The place before the first character. -/
def start : Position := ⟨0, 1, 0⟩

/-- The place after the character `c` that stands at `p`. -/
def next (p : Position) (c : Char) : Position :=
  if c = '\n' then ⟨p.offset + c.utf8Size, p.line + 1, 0⟩
  else ⟨p.offset + c.utf8Size, p.line, p.column + 1⟩

def advance (p : Position) (text : List Char) : Position :=
  text.foldl next p

end Position

namespace Text

def byteSize (text : List Char) : Nat :=
  text.foldr (fun c size => c.utf8Size + size) 0

/-- Cut a text at a byte offset; `none` past the end or inside a character. -/
def splitAtOffset? : Nat → List Char → Option (List Char × List Char)
  | 0, text => some ([], text)
  | _ + 1, [] => none
  | n + 1, c :: cs =>
    if c.utf8Size ≤ n + 1 then
      (splitAtOffset? (n + 1 - c.utf8Size) cs).map fun (before, after) => (c :: before, after)
    else none

/-- The text between two byte offsets; `none` if one of them is no place in the text. -/
def slice? (first last : Nat) (text : List Char) : Option (List Char) := do
  let (_, rest) ← splitAtOffset? first text
  let (between, _) ← splitAtOffset? (last - first) rest
  return between

def dropTrailing (p : Char → Bool) (cs : List Char) : List Char :=
  (cs.reverse.dropWhile p).reverse

/-- The line holding the byte `offset`, without its line break and the carriage returns before it.
An offset past the end counts as the end; at an offset inside a character no line can be told
apart and the whole text is the answer. -/
def lineAt (text : List Char) (offset : Nat) : List Char :=
  dropTrailing (· == '\r') <|
    match splitAtOffset? (min offset (byteSize text)) text with
    | some (before, after) =>
      (before.reverse.takeWhile (· ≠ '\n')).reverse ++ after.takeWhile (· ≠ '\n')
    | none => text

/-- The lines of a text; `current` is the reversed beginning of the first one. -/
def linesFrom : List Char → List Char → List (List Char)
  | [], [] => []
  | [], current => [current.reverse]
  | '\n' :: cs, '\r' :: current => current.reverse :: linesFrom cs []
  | '\n' :: cs, current => current.reverse :: linesFrom cs []
  | c :: cs, current => linesFrom cs (c :: current)

/-- The lines of a text, each without its line feed and one carriage return before it. A line feed
at the end of the text does not start another line. -/
def lines (text : List Char) : List (List Char) :=
  linesFrom text []

end Text

end BlockScript
