import BlockScript.Yaml.Token.Scalar
import BlockScript.Yaml.Token.Tag

/-! The tokens of a document. A key is known to be one only when its colon comes up; its mark is
then put before it. -/

namespace BlockScript.Yaml

structure PossibleKey where
  /-- Nothing but a key can be there. -/
  required : Bool
  position : Nat
  start : Cursor

structure Scan where
  cursor : Cursor
  /-- Last token first. -/
  tokens : List Token := []
  /-- The columns of the open blocks, innermost first. -/
  indents : List Nat := []
  keyAllowed : Bool := true
  /-- The possible key of each open flow collection, innermost first, and that of the block around
  them. -/
  keys : List (Option PossibleKey) := [none]

namespace Scan

variable (s : Scan)

def inFlow : Bool := 1 < s.keys.length

def emit (t : Token) : Scan := { s with tokens := t :: s.tokens }

/-- Put a token before all but the first `position` tokens. -/
def insertAt (position : Nat) (t : Token) : Scan :=
  let after := s.tokens.length - position
  { s with tokens := s.tokens.take after ++ t :: s.tokens.drop after }

/-- Pass over characters that belong to the last token. -/
def skip (n : Nat) : Scan := { s with cursor := s.cursor.advance n }

def isDeeper (column : Nat) : Bool := s.indents.head?.all (· < column)

def openBlock (column position : Nat) (t : Token) : Scan :=
  if !s.inFlow && s.isDeeper column then
    { s.insertAt position t with indents := column :: s.indents }
  else s

def closeBlocks (p : Nat → Bool) : Scan :=
  if s.inFlow then s
  else
    let closed := s.indents.takeWhile p
    { s with
      tokens := List.replicate closed.length .blockEnd ++ s.tokens
      indents := s.indents.drop closed.length }

/-- Give up the innermost possible key. -/
def dropKey : Option Scan :=
  match s.keys with
  | some key :: keys => if key.required then none else some { s with keys := none :: keys }
  | _ => some s

def saveKey : Option Scan :=
  if s.keyAllowed then do
    let required := !s.inFlow && s.indents.head? = some s.cursor.column
    let s' ← s.dropKey
    return { s' with keys := some ⟨required, s.tokens.length, s.cursor⟩ :: s'.keys.tail }
  else some s

/-- Give up the keys that are on an earlier line, or too long. -/
def expireKeys : Option Scan := do
  let keys ← s.keys.mapM fun
    | some key =>
      if key.start.line < s.cursor.line || key.start.index + 1024 < s.cursor.index then
        if key.required then none else some none
      else some (some key)
    | none => some none
  return { s with keys }

/-- The end of the blanks and the comment here. Tabs indent nothing that a key can start. -/
def afterBlanks : Cursor :=
  let isMarked := s.cursor.index = 0 && s.cursor.rest.head? = some '\ufeff'
  let start := if isMarked then s.cursor.advance 1 else s.cursor
  let tabs := s.inFlow || !s.keyAllowed
  (start.skipWhile fun ch => ch == ' ' || (tabs && ch == '\t')).skipComment

/-- Pass over blanks, comments and line breaks. -/
def toToken (s : Scan) : Scan :=
  if s.afterBlanks.rest.head?.any isBreak then
    if _h : s.afterBlanks.nextLine.rest.length < s.cursor.rest.length then
      toToken { s with cursor := s.afterBlanks.nextLine, keyAllowed := s.keyAllowed || !s.inFlow }
    else s
  else { s with cursor := s.afterBlanks }
termination_by s.cursor.rest.length

/-- A token that only stands outside of all blocks. -/
def atTop : Option Scan := do
  return { ← (s.closeBlocks fun _ => true).dropKey with keyAllowed := false }

def scanDirective : Option Scan := do
  let s ← s.atTop
  let (t, cursor) ← readDirective (s.cursor.advance 1)
  return { s.emit t with cursor }

def scanDocumentMark : Option Scan := do
  let s ← s.atTop
  let t := if s.cursor.rest.head? = some '-' then Token.documentStart else .documentEnd
  return (s.emit t).skip 3

def openFlow (t : Token) : Option Scan := do
  let s ← s.saveKey
  return { (s.emit t).skip 1 with keys := none :: s.keys, keyAllowed := true }

def closeFlow (t : Token) : Option Scan := do
  let s ← s.dropKey
  let keys := if s.inFlow then s.keys.tail else s.keys
  return { (s.emit t).skip 1 with keys, keyAllowed := false }

def scanComma : Option Scan := do
  return { ((← s.dropKey).emit .comma).skip 1 with keyAllowed := true }

/-- A mark that stands in a block only where a key may stand, and opens a block there. -/
def openHere (t : Token) : Option Scan :=
  if s.inFlow then some s
  else if s.keyAllowed then some (s.openBlock s.cursor.column s.tokens.length t)
  else none

def scanItem : Option Scan := do
  let s ← (← s.openHere .blockSequence).dropKey
  return { (s.emit .item).skip 1 with keyAllowed := true }

def scanKey : Option Scan := do
  let s ← (← s.openHere .blockMapping).dropKey
  return { (s.emit .key).skip 1 with keyAllowed := !s.inFlow }

def scanValue : Option Scan :=
  match s.keys with
  | some key :: keys =>
    let s := (s.insertAt key.position .key).openBlock key.start.column key.position .blockMapping
    some { (s.emit .value).skip 1 with keys := none :: keys, keyAllowed := false }
  | _ => do
    let s ← s.openHere .blockMapping
    return { (s.emit .value).skip 1 with keyAllowed := !s.inFlow }

def scanStart (read : Cursor → Option (Token × Cursor)) : Option Scan := do
  let s ← s.saveKey
  let (t, cursor) ← read s.cursor
  return { s.emit t with cursor, keyAllowed := false }

def scanQuoted (quote : Char) : Option Scan :=
  s.scanStart fun c => do
    let (text, c) ← readQuoted quote (c.advance 1)
    return (.scalar false text, c)

def scanAnchor (token : String → Token) : Option Scan :=
  s.scanStart fun c => do
    let (name, c) ← readAnchorName (c.advance 1)
    return (token name, c)

def scanBlockScalar (folded : Bool) : Option Scan := do
  let s ← s.dropKey
  let (text, cursor) ← readBlock folded s.indents.head? (s.cursor.advance 1)
  return { s.emit (.scalar false text) with cursor, keyAllowed := true }

def scanPlain : Option Scan := do
  let s ← s.saveKey
  let limit := s.indents.head?.elim 0 (· + 1)
  let (text, broken, cursor) ← readPlain s.inFlow limit (.blanks []) s.cursor
  return { s.emit (.scalar true text) with cursor, keyAllowed := broken }

def startsPlain (inFlow : Bool) (c : Char) (rest : List Char) : Bool :=
  match c with
  | '-' => !(rest.head?.any isBlank)
  | '?' | ':' => !inFlow && !atGap rest
  | ',' | '[' | ']' | '{' | '}' | '#' | '&' | '*' | '!' | '|' | '>' | '\'' | '"' | '%' | '@'
  | '\x60' => false
  | c => !isBlank c && !isBreak c

def scanToken (c : Char) (rest : List Char) : Option Scan :=
  if s.cursor.column = 0 && c == '%' then s.scanDirective
  else if s.cursor.atDocumentMark then s.scanDocumentMark
  else
    match c with
    | '[' => s.openFlow .flowSequence
    | '{' => s.openFlow .flowMapping
    | ']' => s.closeFlow .flowSequenceEnd
    | '}' => s.closeFlow .flowMappingEnd
    | ',' => s.scanComma
    | '*' => s.scanAnchor .reference
    | '&' => s.scanAnchor .anchor
    | '!' => s.scanStart (readTag s.inFlow)
    | '\'' => s.scanQuoted '\''
    | '"' => s.scanQuoted '"'
    | c =>
      if c == '-' && atGap rest then s.scanItem
      else if c == '?' && (s.inFlow || atGap rest) then s.scanKey
      else if c == ':' && (s.inFlow || atGap rest) then s.scanValue
      else if c == '|' && !s.inFlow then s.scanBlockScalar false
      else if c == '>' && !s.inFlow then s.scanBlockScalar true
      else if startsPlain s.inFlow c rest then s.scanPlain
      else none

def scanAll (s : Scan) : Option (List Token) :=
  match s.toToken.expireKeys with
  | none => none
  | some t =>
    let t := t.closeBlocks (t.cursor.column < ·)
    match t.cursor.rest with
    | [] => t.atTop.map fun t => (t.emit .streamEnd).tokens.reverse
    | c :: rest =>
      match t.scanToken c rest with
      | none => none
      | some next =>
        if _h : next.cursor.rest.length < s.cursor.rest.length then scanAll next else none
termination_by s.cursor.rest.length

end Scan

def tokens? (document : List Char) : Option (List Token) :=
  if document.all isAllowed then Scan.scanAll { cursor := { rest := document } } else none

end BlockScript.Yaml
