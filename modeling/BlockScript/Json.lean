import BlockScript.Number.Read

/-! Reading JSON. -/

namespace BlockScript

mutual

inductive Json where
  | null
  | bool (b : Bool)
  | number (text : List Char)
  /-- A string that holds half a surrogate pair has no text. -/
  | str (text : Option String)
  | array (items : List Json)
  | object (members : List JsonMember)

inductive JsonMember where
  | mk (name : Option String) (value : Json)

end

instance : Inhabited Json := ⟨.null⟩

namespace Json

def isSpace (c : Char) : Bool := c == ' ' || c == '\n' || c == '\t' || c == '\r'

def skipSpace (cs : List Char) : List Char := cs.dropWhile isSpace

/-- The characters with these codes, where two halves of a surrogate pair are one character. -/
def joinCodes? : List Nat → Option (List Char)
  | [] => some []
  | high :: low :: rest =>
    if 0xD800 ≤ high ∧ high < 0xDC00 then
      if 0xDC00 ≤ low ∧ low < 0xE000 then
        (joinCodes? rest).map (Char.ofNat (0x10000 + (high - 0xD800) * 0x400 + (low - 0xDC00)) :: ·)
      else none
    else if 0xDC00 ≤ high ∧ high < 0xE000 then none
    else (joinCodes? (low :: rest)).map (Char.ofNat high :: ·)
  | [code] => if 0xD800 ≤ code ∧ code < 0xE000 then none else some [Char.ofNat code]

def escapedChar? : Char → Option Char
  | '"' => some '"'
  | '\\' => some '\\'
  | '/' => some '/'
  | 'b' => some '\x08'
  | 'f' => some '\x0c'
  | 'n' => some '\n'
  | 'r' => some '\r'
  | 't' => some '\t'
  | _ => none

/-- Read the codes of a string after its opening quote, and the rest. -/
def readCodes : List Char → Option (List Nat × List Char)
  | [] => none
  | '"' :: rest => some ([], rest)
  | '\\' :: 'u' :: a :: b :: c :: d :: rest => do
    let code ← Number.natural? 16 [a, b, c, d]
    let (codes, rest) ← readCodes rest
    return (code :: codes, rest)
  | '\\' :: c :: rest => do
    let e ← escapedChar? c
    let (codes, rest) ← readCodes rest
    return (e.toNat :: codes, rest)
  | c :: rest =>
    if c.toNat < 0x20 then none
    else (readCodes rest).map fun (codes, rest) => (c.toNat :: codes, rest)

/-- Read a string after its opening quote. -/
def readString (cs : List Char) : Option (Option String × List Char) :=
  (readCodes cs).map fun (codes, rest) => ((joinCodes? codes).map String.ofList, rest)

def digits? (cs : List Char) : Option (List Char × List Char) :=
  let digits := cs.takeWhile (·.isDigit)
  if digits.isEmpty then none else some (digits, cs.drop digits.length)

def whole? : List Char → Option (List Char × List Char)
  | '0' :: rest => if rest.head?.any (·.isDigit) then none else some (['0'], rest)
  | cs => digits? cs

def fraction? : List Char → Option (List Char × List Char)
  | '.' :: rest => (digits? rest).map fun (digits, rest) => ('.' :: digits, rest)
  | cs => some ([], cs)

def exponent? : List Char → Option (List Char × List Char)
  | e :: cs =>
    if e == 'e' || e == 'E' then do
      let (sign, cs) := match cs with
        | '+' :: cs => (['+'], cs)
        | '-' :: cs => (['-'], cs)
        | cs => ([], cs)
      let (digits, rest) ← digits? cs
      return (e :: sign ++ digits, rest)
    else some ([], e :: cs)
  | [] => some ([], [])

def readNumber (cs : List Char) : Option (Json × List Char) := do
  let (sign, cs) := match cs with
    | '-' :: cs => (['-'], cs)
    | cs => ([], cs)
  let (whole, cs) ← whole? cs
  let (fraction, cs) ← fraction? cs
  let (exponent, rest) ← exponent? cs
  return (.number (sign ++ whole ++ fraction ++ exponent), rest)

mutual

/-- Read a value after blanks. The first argument bounds the recursion. -/
def readValue : Nat → List Char → Option (Json × List Char)
  | 0, _ => none
  | n + 1, cs =>
    match skipSpace cs with
    | 'n' :: 'u' :: 'l' :: 'l' :: rest => some (.null, rest)
    | 't' :: 'r' :: 'u' :: 'e' :: rest => some (.bool true, rest)
    | 'f' :: 'a' :: 'l' :: 's' :: 'e' :: rest => some (.bool false, rest)
    | '"' :: rest => (readString rest).map fun (text, rest) => (.str text, rest)
    | '[' :: rest => (readItems n true rest).map fun (items, rest) => (.array items, rest)
    | '{' :: rest => (readMembers n true rest).map fun (members, rest) => (.object members, rest)
    | cs => readNumber cs

def readItems : Nat → Bool → List Char → Option (List Json × List Char)
  | 0, _, _ => none
  | n + 1, first, cs => do
    match skipSpace cs, first with
    | ']' :: rest, _ => return ([], rest)
    | ',' :: cs, false =>
      let (item, rest) ← readValue n cs
      let (items, rest) ← readItems n false rest
      return (item :: items, rest)
    | cs, true =>
      let (item, rest) ← readValue n cs
      let (items, rest) ← readItems n false rest
      return (item :: items, rest)
    | _, false => none

def readMembers : Nat → Bool → List Char → Option (List JsonMember × List Char)
  | 0, _, _ => none
  | n + 1, first, cs => do
    match skipSpace cs, first with
    | '}' :: rest, _ => return ([], rest)
    | ',' :: cs, false =>
      let (member, rest) ← readMember n cs
      let (members, rest) ← readMembers n false rest
      return (member :: members, rest)
    | cs, true =>
      let (member, rest) ← readMember n cs
      let (members, rest) ← readMembers n false rest
      return (member :: members, rest)
    | _, false => none

def readMember : Nat → List Char → Option (JsonMember × List Char)
  | 0, _ => none
  | n + 1, cs => do
    match skipSpace cs with
    | '"' :: rest =>
      let (name, rest) ← readString rest
      match skipSpace rest with
      | ':' :: rest =>
        let (value, rest) ← readValue n rest
        return (.mk name value, rest)
      | _ => none
    | _ => none

end

def read? (cs : List Char) : Option Json :=
  match readValue (2 * cs.length + 1) cs with
  | some (value, rest) => if (skipSpace rest).isEmpty then some value else none
  | none => none

end Json

end BlockScript
