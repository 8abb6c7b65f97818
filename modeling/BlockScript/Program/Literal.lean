import BlockScript.Number.Read
import BlockScript.Number.Binary
import BlockScript.Program.Expr
import BlockScript.SyntaxError

/-! Literals: what the text of a literal token stands for. -/

namespace BlockScript.Program.Literal

def isQuote (c : Char) : Bool := c == '"' || c == '\''

/-- A string literal without its delimiters: the letters before the opening quote, and the body. -/
def splitQuoted? (text : List Char) : Option (List Char × List Char) :=
  let letters := text.takeWhile (!isQuote ·)
  match text.dropWhile (!isQuote ·) with
  | [] => none
  | q :: rest =>
    let quoted := q :: rest
    let width := if 6 ≤ quoted.length && [q, q].isPrefixOf rest then 3 else 1
    some (letters, (quoted.drop width).take (quoted.length - 2 * width))

/-- The base a number is written in, by its first two characters. -/
def basePrefix? : List Char → Option (Nat × List Char)
  | '0' :: 'x' :: digits => some (16, digits)
  | '0' :: 'o' :: digits => some (8, digits)
  | '0' :: 'b' :: digits => some (2, digits)
  | _ => none

/-- The value of a number literal. Underscores and the case of letters have no meaning. -/
def number (text : String) : Except SyntaxFault Constant :=
  let clean := Number.lowerAscii (text.toList.filter (· ≠ '_'))
  match basePrefix? clean with
  | some (base, digits) =>
    match (Number.integer? base digits).bind Number.word? with
    | some i => .ok (.int i)
    | none => .error (.invalidNumber text)
  | none =>
    if clean.contains '.' || clean.contains 'e' then
      match Number.float? clean with
      | some f => .ok (.float f)
      | none => .error (.invalidNumber text)
    else
      match Number.integer? 10 clean with
      | none => .error (.invalidNumber text)
      | some n =>
        match Number.word? n with
        | some i => .ok (.int i)
        | none => .error (.integerTooLarge text)

def simpleEscape? : Char → Option Char
  | 'n' => some '\n'
  | 't' => some '\t'
  | 'r' => some '\r'
  | 'a' => some '\x07'
  | 'b' => some '\x08'
  | 'f' => some '\x0c'
  | 'v' => some '\x0b'
  | '\\' => some '\\'
  | '\'' => some '\''
  | '"' => some '"'
  | _ => none

def isOctal (c : Char) : Bool := '0' ≤ c && c ≤ '7'

/-- Number of digits after a letter that introduces a code point in hexadecimal. -/
def codeWidth? : Char → Option Nat
  | 'x' => some 2
  | 'u' => some 4
  | 'U' => some 8
  | _ => none

/-- The character that `width` hexadecimal digits name, after the given letter. -/
def codePoint (letter : Char) (width : Nat) (digits : List Char) : Except SyntaxFault Char :=
  if digits.length = width then
    match Number.unsigned? 16 digits with
    | some n => if n.isValidChar then .ok (Char.ofNat n) else .error (.invalidEscape letter)
    | none => .error (.truncatedEscape letter)
  else .error (.truncatedEscape letter)

/-- The text with its escapes resolved. An escape without a meaning stays as it is, and an escaped
line break is nothing. -/
def unescape (text : List Char) : Except SyntaxFault (List Char) :=
  match text with
  | [] => .ok []
  | '\\' :: [] => .ok ['\\']
  | '\\' :: e :: rest =>
    if e = '\n' then unescape rest
    else if let some c := simpleEscape? e then return c :: (← unescape rest)
    else if isOctal e then
      let digits := e :: (rest.take 2).takeWhile isOctal
      return Char.ofNat ((Number.natural? 8 digits).getD 0) ::
        (← unescape (rest.drop (digits.length - 1)))
    else if let some width := codeWidth? e then do
      let c ← codePoint e width (rest.take width)
      return c :: (← unescape (rest.drop width))
    else return '\\' :: e :: (← unescape rest)
  | c :: rest => return c :: (← unescape rest)
termination_by text.length
decreasing_by all_goals (simp only [List.length_cons, List.length_drop]; omega)

/-- Brackets and quotes seen while reading a field of an f-string. -/
structure Nesting where
  depth : Nat := 0
  quote : Option Char := none

namespace Nesting

def isTop (n : Nesting) : Bool := n.depth == 0 && n.quote.isNone

def next (n : Nesting) (c : Char) : Nesting :=
  match n.quote with
  | some q => if c = q then { n with quote := none } else n
  | none =>
    if isQuote c then { n with quote := some c }
    else if c = '(' || c = '[' || c = '{' then { n with depth := n.depth + 1 }
    else if c = ')' || c = ']' || c = '}' then { n with depth := n.depth - 1 }
    else n

end Nesting

/-- Split at the first `needle` outside brackets and quotes. -/
def splitTop? (needle : Char) (n : Nesting) : List Char → Option (List Char × List Char)
  | [] => none
  | c :: cs =>
    if c = needle && n.isTop then some ([], cs)
    else (splitTop? needle (n.next c) cs).map fun (before, after) => (c :: before, after)

theorem length_lt_of_splitTop? {needle : Char} {n : Nesting} {cs before after : List Char}
    (h : splitTop? needle n cs = some (before, after)) : after.length < cs.length := by
  induction cs generalizing n before with
  | nil => simp [splitTop?] at h
  | cons c cs ih =>
    simp only [splitTop?] at h
    split at h
    · simp only [Option.some.injEq, Prod.mk.injEq] at h
      simp [h.2]
    · simp only [Option.map_eq_some_iff, Prod.exists, Prod.mk.injEq] at h
      obtain ⟨b, a, h₁, -, rfl⟩ := h
      have := ih h₁
      simp only [List.length_cons]
      omega

inductive Segment where
  | text (raw : List Char)
  | field (raw : List Char)

def textSegment (raw : List Char) : List Segment :=
  if raw.isEmpty then [] else [.text raw]

/-- The segments of the body of an f-string after the text `pending`, up to a fault in its braces
if there is one. Doubled braces stand for themselves. -/
def segments (pending : List Char) (body : List Char) : List Segment × Option SyntaxFault :=
  match body with
  | [] => (textSegment pending, none)
  | '{' :: '{' :: rest => segments (pending ++ ['{']) rest
  | '}' :: '}' :: rest => segments (pending ++ ['}']) rest
  | '}' :: _ => ([], some .loneBraceInFString)
  | '{' :: rest =>
    match _h : splitTop? '}' {} rest with
    | none => ([], some .unclosedFStringField)
    | some (field, rest) =>
      let (after, fault) := segments [] rest
      (textSegment pending ++ .field field :: after, fault)
  | c :: rest => segments (pending ++ [c]) rest
termination_by body.length
decreasing_by
  all_goals simp only [List.length_cons]
  all_goals first
    | omega
    | exact Nat.lt_succ_of_lt (length_lt_of_splitTop? _h)

structure Field where
  value : List Char
  /-- `r`, `s` or `a` after an exclamation mark. -/
  conversion : Option Char
  /-- The text after the colon. -/
  spec : Option String

def conversion? : List Char → Option (Char × List Char)
  | c :: '!' :: before =>
    if c = 'r' || c = 's' || c = 'a' then some (c, before.reverse) else none
  | _ => none

def Field.ofText (raw : List Char) : Field :=
  let (head, spec) := match splitTop? ':' {} raw with
    | some (head, spec) => (head, some (String.ofList spec))
    | none => (raw, none)
  match conversion? (Text.trimEnd head).reverse with
  | some (c, value) => ⟨value, some c, spec⟩
  | none => ⟨head, none, spec⟩

end BlockScript.Program.Literal
