import BlockScript.Number.Read
import BlockScript.Yaml.Token

/-! Tags and directives. The text of a tag is a list of octets, each held in a character. -/

namespace BlockScript.Yaml

/-- Characters of tags, apart from escapes. More are allowed between angle brackets. -/
def isTagChar (verbatim : Bool) (c : Char) : Bool :=
  isWord c ||
    [';', '/', '?', ':', '@', '&', '=', '+', '$', '.', '!', '~', '*', '\'', '(', ')'].contains c ||
    (verbatim && [',', '[', ']'].contains c)

/-- The number of octets of a character whose first octet this is. -/
def octetCount? (octet : Nat) : Option Nat :=
  if octet < 0x80 then some 1
  else if octet / 0x20 = 0x6 then some 2
  else if octet / 0x10 = 0xE then some 3
  else if octet / 0x8 = 0x1E then some 4
  else none

/-- An octet written by a percent sign and two hexadecimal digits. -/
def octet? : List Char → Option (Nat × List Char)
  | '%' :: a :: b :: cs => (Number.natural? 16 [a, b]).map (·, cs)
  | _ => none

def moreOctets? : Nat → List Char → Option (List Char × List Char)
  | 0, cs => some ([], cs)
  | n + 1, cs => do
    let (octet, cs) ← octet? cs
    if octet / 0x40 ≠ 2 then none
    let (more, cs) ← moreOctets? n cs
    return (Char.ofNat octet :: more, cs)

def escapedOctets? (cs : List Char) : Option (List Char × List Char) := do
  let (octet, cs) ← octet? cs
  let count ← octetCount? octet
  let (more, cs) ← moreOctets? (count - 1) cs
  return (Char.ofNat octet :: more, cs)

def readTagText (verbatim : Bool) (cs : List Char) : Option (List Char × List Char) :=
  match cs with
  | [] => some ([], [])
  | c :: rest =>
    if c == '%' then
      match escapedOctets? (c :: rest) with
      | none => none
      | some (octets, after) =>
        if _h : after.length < (c :: rest).length then
          (readTagText verbatim after).map fun (more, rest) => (octets ++ more, rest)
        else none
    else if isTagChar verbatim c then
      (readTagText verbatim rest).map fun (more, rest) => (c :: more, rest)
    else some ([], c :: rest)
termination_by cs.length
decreasing_by
  · exact _h
  · exact Nat.lt_succ_self _

/-- A handle of tags: an exclamation mark, perhaps with a name and one more mark after it. -/
def readHandle? : List Char → Option (List Char × List Char)
  | '!' :: cs =>
    let name := cs.takeWhile isWord
    match cs.drop name.length with
    | '!' :: rest => some ('!' :: name ++ ['!'], rest)
    | rest => some ('!' :: name, rest)
  | _ => none

def isNamedHandle (handle : List Char) : Bool := 1 < handle.length && handle.getLast? = some '!'

/-- Read a tag between angle brackets, after `!<`. -/
def readVerbatimTag? (cs : List Char) : Option (Token × List Char) := do
  let (text, rest) ← readTagText true cs
  match rest with
  | '>' :: rest => if text.isEmpty then none else some (.tag "" text, rest)
  | _ => none

/-- Read a tag that starts with a handle. A mark alone is a tag of its own. -/
def readShortTag? (cs : List Char) : Option (Token × List Char) := do
  let (handle, rest) ← readHandle? cs
  let (text, rest) ← readTagText false rest
  if isNamedHandle handle then
    if text.isEmpty then none else some (.tag (String.ofList handle) text, rest)
  else
    match handle.drop 1 ++ text with
    | [] => some (.tag "" ['!'], rest)
    | suffix => some (.tag "!" suffix, rest)

/-- Read a tag. In flow collections a comma may follow it. -/
def readTag (inFlow : Bool) (c : Cursor) : Option (Token × Cursor) := do
  let (token, rest) ← match c.rest with
    | '!' :: '<' :: cs => readVerbatimTag? cs
    | cs => readShortTag? cs
  if atGap rest || (inFlow && rest.head? = some ',') then some (token, c.moveTo rest) else none

def readAnchorName (c : Cursor) : Option (String × Cursor) :=
  let name := c.rest.takeWhile isWord
  let d := c.advance name.length
  let ends := atGap d.rest || d.rest.head?.any fun ch =>
    ['?', ':', ',', ']', '}', '%', '@', '\x60'].contains ch
  if !name.isEmpty && ends then some (String.ofList name, d) else none

def versionPart? (digits : List Char) : Option Nat :=
  if digits.length ≤ 9 then Number.natural? 10 digits else none

def readVersion? (cs : List Char) : Option (Token × List Char) := do
  let major := cs.takeWhile (·.isDigit)
  match cs.drop major.length with
  | '.' :: cs =>
    let minor := cs.takeWhile (·.isDigit)
    return (.version (← versionPart? major) (← versionPart? minor), cs.drop minor.length)
  | _ => none

def readTagHandle? (cs : List Char) : Option (Token × List Char) := do
  let (handle, rest) ← readHandle? cs
  if handle ≠ ['!'] && !isNamedHandle handle then none
  if !(rest.head?.any isBlank) then none
  let (start, rest) ← readTagText true (rest.dropWhile isBlank)
  if !start.isEmpty && atGap rest then some (.tagHandle (String.ofList handle) start, rest)
  else none

/-- Read a directive after its percent sign, with its line. -/
def readDirective (c : Cursor) : Option (Token × Cursor) := do
  let name := c.rest.takeWhile isWord
  let rest := c.rest.drop name.length
  if !atGap rest then none
  let value := rest.dropWhile isBlank
  let (token, rest) ← match String.ofList name with
    | "YAML" => readVersion? value
    | "TAG" => readTagHandle? value
    | _ => none
  return (token, ← restOfLine (c.moveTo rest))

end BlockScript.Yaml
