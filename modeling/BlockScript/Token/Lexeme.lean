import BlockScript.Token

/-! The first token of a text: its kind and its length in characters. Every text that is not empty
starts with a token of at least one character. -/

namespace BlockScript.Token

def isDigit (c : Char) : Bool := '0' ≤ c && c ≤ '9'

def isLetter (c : Char) : Bool := ('a' ≤ c && c ≤ 'z') || ('A' ≤ c && c ≤ 'Z')

def isWordStart (c : Char) : Bool := isLetter c || c == '_'

def isWord (c : Char) : Bool := isWordStart c || isDigit c

/-- Glyphs of control tokens, longer ones before the glyphs they start with. -/
def controls : List String :=
  ["**=", "//=", ">>=", "<<=", "...",
    "->", "**", "//", "<<", ">>", "<=", ">=", "==", "!=", "+=", "-=", "*=", "/=", "%=", "&=",
    "|=", "^=", "@=", ":=",
    "(", ")", "[", "]", "\x7b", "\x7d", ",", ".", ";", ":", "+", "-", "*", "/", "%", "&", "|", "^",
    "~", "<", ">", "=", "!", "@"]

def run (p : Char → Bool) (cs : List Char) : Nat := (cs.takeWhile p).length

/-- Number of characters up to and including the delimiter that closes a string literal, after its
opening delimiter. A backslash protects the character after it, and only a triple delimiter lets
the literal cross a line break. -/
def closing? (quote : Char) (triple : Bool) : List Char → Option Nat
  | [] => none
  | '\\' :: [] => none
  | '\\' :: _ :: cs => (closing? quote triple cs).map (· + 2)
  | c :: cs =>
    if c = quote then
      if !triple then some 1
      else if [quote, quote].isPrefixOf cs then some 3
      else (closing? quote triple cs).map (· + 1)
    else if c = '\n' && !triple then none
    else (closing? quote triple cs).map (· + 1)

/-- A string literal whose prefix letters number `lead`, at its opening quote. A literal without an
end gives an unknown token of one character. -/
def stringLexeme (lead : Nat) (quote : Char) (cs : List Char) : Kind × Nat :=
  let triple := [quote, quote].isPrefixOf cs
  let opening := if triple then 3 else 1
  match closing? quote triple (cs.drop (opening - 1)) with
  | some n => (.literal, lead + opening + n)
  | none => (.unknown, 1)

def isDigitOrLow (c : Char) : Bool := isDigit c || c == '_'

def isAlphanumeric (c : Char) : Bool := isLetter c || isDigit c

/-- Length of an exponent, zero if none stands here. -/
def exponentLength (cs : List Char) : Nat :=
  let sign := if cs.tail.head?.any (['+', '-'].contains ·) then 1 else 0
  let digits := cs.tail.drop sign
  if cs.head?.any (['e', 'E'].contains ·) && digits.head?.any isDigit then
    1 + sign + run isDigitOrLow digits
  else 0

/-- Length of a fraction with its point, zero if none stands here: two points are no fraction. -/
def fractionLength (cs : List Char) : Nat :=
  if cs.head?.any (· == '.') && !cs.tail.head?.any (· == '.') then 1 + run isDigitOrLow cs.tail
  else 0

def decimalLength (cs : List Char) : Nat :=
  let whole := run isDigitOrLow cs
  let fraction := fractionLength (cs.drop whole)
  whole + fraction + exponentLength (cs.drop (whole + fraction))

/-- Length of a number literal. A base prefix counts only before a letter or digit. -/
def numberLength (cs : List Char) : Nat :=
  let digits := cs.tail.tail
  if cs.head?.any (· == '0') && cs.tail.head?.any (['x', 'X', 'o', 'O', 'b', 'B'].contains ·) &&
      digits.head?.any isAlphanumeric then
    2 + run (fun c => isAlphanumeric c || c == '_') digits
  else decimalLength cs

def isLead (cs : List Char) : Bool :=
  cs.length ≤ 2 && cs.all (['b', 'B', 'r', 'R', 'f', 'F', 'u', 'U'].contains ·)

/-- A name, or a string literal that starts with prefix letters. -/
def wordLexeme (cs : List Char) : Kind × Nat :=
  let word := cs.takeWhile isWord
  match cs.drop word.length with
  | q :: rest =>
    if (q == '"' || q == '\'') && isLead word then stringLexeme word.length q rest
    else (.name, word.length)
  | [] => (.name, word.length)

def controlLexeme (cs : List Char) : Kind × Nat :=
  match controls.find? fun glyph => glyph.toList.isPrefixOf cs with
  | some glyph => (.control, glyph.length)
  | none => (.unknown, 1)

/-- Kind and length of the first token of a text that does not start a line. -/
def lexeme : List Char → Kind × Nat
  | [] => (.eof, 0)
  | c :: cs =>
    if c = '\n' then (.newline, 1)
    else if c = '\r' && ['\n'].isPrefixOf cs then (.newline, 2)
    else if c = ' ' || c = '\t' || c = '\x0c' then
      (.whitespace, run (fun c => c == ' ' || c == '\t' || c == '\x0c') (c :: cs))
    else if c = '\r' then (.whitespace, 1)
    else if c = '#' then (.comment, run (· != '\n') (c :: cs))
    else if c = '"' || c = '\'' then stringLexeme 0 c cs
    else if isDigit c then (.literal, numberLength (c :: cs))
    else if c = '.' && (cs.head?.any isDigit) then (.literal, numberLength (c :: cs))
    else if isWordStart c then wordLexeme (c :: cs)
    else controlLexeme (c :: cs)

/-- Which rule gives the kind and the length of the token at `c :: cs`. -/
inductive Form (c : Char) (cs : List Char) : Kind × Nat → Prop where
  | newline (hc : c = '\n') : Form c cs (.newline, 1)
  | returnNewline (hc : c = '\r') (hcs : ['\n'].isPrefixOf cs = true) : Form c cs (.newline, 2)
  | blanks (hc : c = ' ' ∨ c = '\t' ∨ c = '\x0c') :
    Form c cs (.whitespace, run (fun c => c == ' ' || c == '\t' || c == '\x0c') (c :: cs))
  | loneReturn (hc : c = '\r') (hcs : ['\n'].isPrefixOf cs = false) : Form c cs (.whitespace, 1)
  | comment (hc : c = '#') : Form c cs (.comment, run (· != '\n') (c :: cs))
  | string (hc : c = '"' ∨ c = '\'') : Form c cs (stringLexeme 0 c cs)
  | number (hc : isDigit c = true ∨ c = '.' ∧ cs.head?.any isDigit = true) :
    Form c cs (.literal, numberLength (c :: cs))
  | word (hc : isWordStart c = true) : Form c cs (wordLexeme (c :: cs))
  | control (hc : c ≠ '\n') (hword : isWordStart c = false) : Form c cs (controlLexeme (c :: cs))

theorem lexeme_form (c : Char) (cs : List Char) : Form c cs (lexeme (c :: cs)) := by
  rw [lexeme]
  by_cases hline : c = '\n'
  · rw [if_pos hline]
    exact .newline hline
  rw [if_neg hline]
  by_cases hreturn : (c = '\r' && ['\n'].isPrefixOf cs) = true
  · rw [if_pos hreturn]
    obtain ⟨hc, hcs⟩ := Bool.and_eq_true_iff.1 hreturn
    exact .returnNewline (of_decide_eq_true hc) hcs
  rw [if_neg hreturn]
  by_cases hblank : (c = ' ' || c = '\t' || c = '\x0c') = true
  · rw [if_pos hblank]
    exact .blanks (by simpa [or_assoc] using hblank)
  rw [if_neg hblank]
  by_cases hlone : c = '\r'
  · rw [if_pos hlone]
    refine .loneReturn hlone (Bool.eq_false_iff.2 fun hcs => hreturn ?_)
    rw [hcs, decide_eq_true hlone]
    rfl
  rw [if_neg hlone]
  by_cases hhash : c = '#'
  · rw [if_pos hhash]
    exact .comment hhash
  rw [if_neg hhash]
  by_cases hquote : (c = '"' || c = '\'') = true
  · rw [if_pos hquote]
    exact .string (by simpa using hquote)
  rw [if_neg hquote]
  by_cases hdigit : isDigit c = true
  · rw [if_pos hdigit]
    exact .number (.inl hdigit)
  rw [if_neg hdigit]
  by_cases hpoint : (c = '.' && cs.head?.any isDigit) = true
  · rw [if_pos hpoint]
    exact .number (.inr (by simpa using hpoint))
  rw [if_neg hpoint]
  by_cases hword : isWordStart c = true
  · rw [if_pos hword]
    exact .word hword
  rw [if_neg hword]
  exact .control hline (Bool.eq_false_iff.2 hword)

end BlockScript.Token
