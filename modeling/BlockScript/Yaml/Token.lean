/-! Tokens of documents. Blocks, which indentation sets off in the text, have explicit ends. -/

namespace BlockScript.Yaml

inductive Token where
  | streamEnd
  | version (major minor : Nat)
  | tagHandle (handle : String) (start : List Char)
  | documentStart
  | documentEnd
  | blockSequence
  | blockMapping
  | blockEnd
  | flowSequence
  | flowSequenceEnd
  | flowMapping
  | flowMappingEnd
  | item
  | comma
  | key
  | value
  | reference (name : String)
  | anchor (name : String)
  /-- A tag in octets after a handle; without one, the handle is empty. -/
  | tag (handle : String) (suffix : List Char)
  | scalar (isPlain : Bool) (text : List Char)
  deriving DecidableEq, Repr, Inhabited

def isAllowed (c : Char) : Bool :=
  let n := c.toNat
  c == '\t' || c == '\n' || c == '\r' || (0x20 ≤ n && n ≤ 0x7E) || n == 0x85 ||
    (0xA0 ≤ n && n ≤ 0xD7FF) || (0xE000 ≤ n && n ≤ 0xFFFD) || 0x10000 ≤ n

def isBlank (c : Char) : Bool := c == ' ' || c == '\t'

/-- The character that a line break stands for, if `c` starts one. -/
def breakChar? (c : Char) : Option Char :=
  if c == '\n' || c == '\r' || c == '\x85' then some '\n'
  else if c == '\u2028' || c == '\u2029' then some c
  else none

def isBreak (c : Char) : Bool := (breakChar? c).isSome

def atGap : List Char → Bool
  | [] => true
  | c :: _ => isBlank c || isBreak c

def atLineEnd : List Char → Bool
  | [] => true
  | c :: _ => isBreak c

/-- Characters of anchors and of handles of tags. -/
def isWord (c : Char) : Bool := c.isAlphanum || c == '_' || c == '-'

def isFlowMark (c : Char) : Bool := [',', '[', ']', '{', '}'].contains c

structure Cursor where
  rest : List Char
  /-- The number of characters before the place. -/
  index : Nat := 0
  line : Nat := 0
  column : Nat := 0
  deriving DecidableEq, Repr, Inhabited

namespace Cursor

def advance (c : Cursor) (n : Nat) : Cursor :=
  { c with rest := c.rest.drop n, index := c.index + n, column := c.column + n }

/-- The place from which `rest` is left of the line. -/
def moveTo (c : Cursor) (rest : List Char) : Cursor := c.advance (c.rest.length - rest.length)

def nextLine (c : Cursor) : Cursor :=
  match c.rest with
  | '\r' :: '\n' :: rest => ⟨rest, c.index + 2, c.line + 1, 0⟩
  | _ :: rest => ⟨rest, c.index + 1, c.line + 1, 0⟩
  | [] => c

/-- Pass over characters as long as they satisfy `p`. -/
def skipWhile (c : Cursor) (p : Char → Bool) : Cursor := c.advance (c.rest.takeWhile p).length

def skipComment (c : Cursor) : Cursor :=
  if c.rest.head? = some '#' then c.skipWhile (!isBreak ·) else c

def atDocumentMark (c : Cursor) : Bool :=
  c.column == 0 &&
    match c.rest with
    | '-' :: '-' :: '-' :: rest | '.' :: '.' :: '.' :: rest => atGap rest
    | _ => false

theorem length_advance_lt {c : Cursor} {n : Nat} (hn : 0 < n) (h : c.rest ≠ []) :
    (c.advance n).rest.length < c.rest.length := by
  have := List.length_pos_iff.2 h
  simp only [advance, List.length_drop]
  omega

theorem length_nextLine_lt {c : Cursor} (h : c.rest ≠ []) :
    c.nextLine.rest.length < c.rest.length := by
  unfold nextLine
  split
  · next heq => simp only [heq, List.length_cons]; omega
  · next heq => simp only [heq, List.length_cons]; omega
  · next heq => exact absurd heq h

end Cursor

/-- The rest of a line after what matters: blanks and a comment. -/
def restOfLine (c : Cursor) : Option Cursor :=
  let c := (c.skipWhile isBlank).skipComment
  if atLineEnd c.rest then some c.nextLine else none

end BlockScript.Yaml
