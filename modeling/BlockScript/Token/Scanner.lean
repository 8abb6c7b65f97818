import BlockScript.Token.Lexeme

/-! A cursor over the source and the scanner built on it. The scanner holds a current token and can
be told to step over some kinds of token; its whole state is one value, so keeping that value is
all it takes to come back to a place. -/

namespace BlockScript.Token

theorem run_cons_pos {p : Char → Bool} {c : Char} {cs : List Char} (h : p c = true) :
    0 < run p (c :: cs) := by
  simp [run, h]

theorem stringLexeme_pos (lead : Nat) (quote : Char) (cs : List Char) :
    0 < (stringLexeme lead quote cs).2 := by
  unfold stringLexeme
  dsimp only
  split <;> simp
  split <;> omega

theorem fractionLength_pos {cs : List Char} (h : cs.head?.any isDigit = true) :
    0 < fractionLength ('.' :: cs) := by
  have hpoint : cs.head?.any (· == '.') = false := by
    cases cs with
    | nil => rfl
    | cons d cs =>
      refine beq_false_of_ne ?_
      rintro rfl
      cases h
  simp only [fractionLength, List.tail_cons, hpoint]
  exact Nat.add_pos_left Nat.one_pos _

theorem decimalLength_pos {c : Char} {cs : List Char}
    (h : isDigit c = true ∨ c = '.' ∧ cs.head?.any isDigit = true) :
    0 < decimalLength (c :: cs) := by
  unfold decimalLength
  rcases h with h | ⟨rfl, h⟩
  · have : 0 < run isDigitOrLow (c :: cs) := run_cons_pos (by simp [isDigitOrLow, h])
    dsimp only
    omega
  · have hw : run isDigitOrLow ('.' :: cs) = 0 := by
      simp [run, isDigitOrLow, isDigit]
    have hf := fractionLength_pos h
    simp only [hw, List.drop_zero, Nat.zero_add]
    omega

theorem numberLength_pos {c : Char} {cs : List Char}
    (h : isDigit c = true ∨ c = '.' ∧ cs.head?.any isDigit = true) :
    0 < numberLength (c :: cs) := by
  unfold numberLength
  dsimp only
  split
  · omega
  · exact decimalLength_pos h

theorem wordLexeme_pos {c : Char} {cs : List Char} (h : isWordStart c = true) :
    0 < (wordLexeme (c :: cs)).2 := by
  have hw : 0 < ((c :: cs).takeWhile isWord).length := by simp [isWord, h]
  unfold wordLexeme
  dsimp only
  split
  · split
    · exact stringLexeme_pos ..
    · exact hw
  · exact hw

theorem controls_pos : ∀ glyph ∈ controls, 0 < glyph.length := by
  decide

theorem controlLexeme_pos (cs : List Char) : 0 < (controlLexeme cs).2 := by
  unfold controlLexeme
  split
  · next h => exact controls_pos _ (List.mem_of_find?_eq_some h)
  · simp

/-- A text that is not empty starts with a token of at least one character. -/
theorem lexeme_pos {cs : List Char} (h : cs ≠ []) : 0 < (lexeme cs).2 := by
  cases cs with
  | nil => exact absurd rfl h
  | cons c cs =>
    have hform := lexeme_form c cs
    generalize lexeme (c :: cs) = x at hform
    cases hform with
    | newline | returnNewline | loneReturn => simp
    | blanks hc => exact run_cons_pos (by simpa [or_assoc] using hc)
    | comment hc => exact run_cons_pos (by simp [hc])
    | string => exact stringLexeme_pos ..
    | number hc => exact numberLength_pos hc
    | word hc => exact wordLexeme_pos hc
    | control => exact controlLexeme_pos _

theorem stringLexeme_ne_eof (lead : Nat) (quote : Char) (cs : List Char) :
    (stringLexeme lead quote cs).1 ≠ .eof := by
  unfold stringLexeme
  dsimp only
  split <;> simp

theorem wordLexeme_ne_eof (cs : List Char) : (wordLexeme cs).1 ≠ .eof := by
  unfold wordLexeme
  dsimp only
  split
  · split
    · exact stringLexeme_ne_eof _ _ _
    · simp
  · simp

theorem lexeme_ne_eof {cs : List Char} (h : cs ≠ []) : (lexeme cs).1 ≠ .eof := by
  cases cs with
  | nil => exact absurd rfl h
  | cons c cs =>
    have hform := lexeme_form c cs
    generalize lexeme (c :: cs) = x at hform
    cases hform with
    | newline | returnNewline | blanks | loneReturn | comment | number => exact nofun
    | string => exact stringLexeme_ne_eof _ _ _
    | word => exact wordLexeme_ne_eof _
    | control => unfold controlLexeme; split <;> exact nofun

/-- A place in the source with the text that follows it. -/
structure Cursor where
  rest : List Char
  pos : Position
  lineStart : Bool
  deriving DecidableEq, Repr, Inhabited

namespace Cursor

def atStart (source : List Char) : Cursor := ⟨source, .start, true⟩

/-- What still has to be read, counting a line's indentation as one step of its own. -/
def remaining (c : Cursor) : Nat :=
  2 * c.rest.length + if c.lineStart then 1 else 0

def upcoming (c : Cursor) : Kind × Nat :=
  if c.rest.isEmpty then (.eof, 0)
  else if c.lineStart then (.indent, run (fun ch => ch == ' ' || ch == '\t') c.rest)
  else lexeme c.rest

/-- The next token and the place after it. -/
def scan (c : Cursor) : Token × Cursor :=
  let (kind, length) := c.upcoming
  let text := c.rest.take length
  (⟨kind, String.ofList text, c.pos⟩,
    ⟨c.rest.drop length, c.pos.advance text,
      kind == .newline || (kind == .eof && c.lineStart)⟩)

theorem remaining_scan_lt {c : Cursor} (h : c.scan.1.isEof = false) :
    c.scan.2.remaining < c.remaining := by
  unfold scan upcoming at *
  by_cases hr : c.rest.isEmpty = true
  · simp [hr, isEof] at h
  · have hne : c.rest ≠ [] := by simpa using hr
    have hl : 0 < c.rest.length := List.length_pos_iff.2 hne
    rw [if_neg hr]
    by_cases hs : c.lineStart = true
    · have hk : (Kind.indent == .newline || (Kind.indent == .eof && c.lineStart)) = false := rfl
      rw [if_pos hs]
      dsimp only [remaining]
      rw [if_pos hs, hk, if_neg Bool.false_ne_true, List.length_drop]
      omega
    · have := lexeme_pos hne
      rw [if_neg hs]
      dsimp only [remaining]
      rw [if_neg hs, List.length_drop]
      split <;> omega

/-- The next token whose kind is not among `skipped`, and the place after it. -/
def advance (skipped : List Kind) (c : Cursor) : Token × Cursor :=
  if _h : c.scan.1.isEof then c.scan
  else if skipped.contains c.scan.1.kind then advance skipped c.scan.2
  else c.scan
termination_by c.remaining
decreasing_by exact remaining_scan_lt (by simpa using _h)

theorem scan_isEof (c : Cursor) : c.scan.1.isEof = c.rest.isEmpty := by
  unfold scan upcoming
  by_cases hr : c.rest.isEmpty = true
  · simp [hr, isEof]
  · by_cases hs : c.lineStart = true
    · simp [hr, hs, isEof]
    · have := @lexeme_ne_eof c.rest (by simpa using hr)
      simp [hr, hs, isEof, this]

theorem remaining_advance_le (skipped : List Kind) (c : Cursor) :
    (c.advance skipped).2.remaining + (if (c.advance skipped).1.isEof then 0 else 1) ≤
      c.remaining := by
  fun_induction advance skipped c with
  | case1 c h =>
    have hr : c.rest = [] := by simpa [scan_isEof] using h
    simp [scan, upcoming, hr, remaining, isEof]
  | case2 c h hk ih =>
    have := remaining_scan_lt (c := c) (by simpa using h)
    omega
  | case3 c h hk =>
    have := remaining_scan_lt (c := c) (by simpa using h)
    simp only [h, Bool.false_eq_true, if_false]
    omega

def tokens (c : Cursor) : List Token :=
  if _h : c.scan.1.isEof then [c.scan.1] else c.scan.1 :: tokens c.scan.2
termination_by c.remaining
decreasing_by exact remaining_scan_lt (by simpa using _h)

end Cursor

/-- All tokens of a source, ending with the end of input. -/
def tokenize (source : List Char) : List Token :=
  (Cursor.atStart source).tokens

end Token

/-- The scanner: a current token, the place after it, and the kinds it steps over. -/
structure Scanner where
  source : List Char
  cursor : Token.Cursor
  current : Token
  skipped : List Token.Kind
  deriving DecidableEq, Repr, Inhabited

namespace Scanner

def readFrom (s : Scanner) (cursor : Token.Cursor) : Scanner :=
  let (token, cursor) := cursor.advance s.skipped
  { s with current := token, cursor }

def ofSource (source : List Char) : Scanner :=
  readFrom ⟨source, .atStart source, ⟨.eof, "", .start⟩, []⟩ (.atStart source)

/-- Go to the next token; at the end of input stay there. -/
def bump (s : Scanner) : Scanner :=
  if s.current.isEof then s else s.readFrom s.cursor

/-- What still has to be read, the current token included. -/
def remaining (s : Scanner) : Nat :=
  s.cursor.remaining + if s.current.isEof then 0 else 1

theorem remaining_readFrom_le (s : Scanner) (cursor : Token.Cursor) :
    (s.readFrom cursor).remaining ≤ cursor.remaining :=
  Token.Cursor.remaining_advance_le s.skipped cursor

/-- Every move away from a token leaves less to be read. -/
theorem remaining_bump_lt {s : Scanner} (h : s.current.isEof = false) :
    s.bump.remaining < s.remaining := by
  have := s.remaining_readFrom_le s.cursor
  simp only [bump, h, remaining, Bool.false_eq_true, if_false] at *
  omega

/-- Replace the set of skipped kinds, stepping over the current token if it is now skipped. -/
def setSkipped (s : Scanner) (kinds : List Token.Kind) : Scanner :=
  let s := { s with skipped := kinds }
  if kinds.contains s.current.kind && !s.current.isEof then s.readFrom s.cursor else s

/-- Run `f` with `kinds` skipped, then put the former set back. -/
def withSkipped {α : Type} (s : Scanner) (kinds : List Token.Kind) (f : Scanner → α × Scanner) :
    α × Scanner :=
  let (a, t) := f (s.setSkipped kinds)
  (a, t.setSkipped s.skipped)

/-- Whether a byte offset starts a line: it is zero or follows a line feed. -/
def startsLine (source : List Char) (offset : Nat) : Bool :=
  offset == 0 ||
    match Text.splitAtOffset? (offset - 1) source with
    | some (_, '\n' :: _) => true
    | _ => false

/-- Go to a byte offset and read the token there. Positions are counted on from the current token,
or from the start if the offset lies before it. Towards an offset that is no place in the source
nothing is passed over. -/
def jumpTo (s : Scanner) (offset : Nat) : Scanner :=
  let origin := if s.current.pos.offset ≤ offset then s.current.pos else .start
  let passed := (Text.slice? origin.offset offset s.source).getD []
  let pos := origin.advance passed
  let rest := ((Text.splitAtOffset? pos.offset s.source).map Prod.snd).getD []
  s.readFrom ⟨rest, pos, startsLine s.source offset⟩

def lineAt (s : Scanner) (offset : Nat) : List Char :=
  Text.lineAt s.source offset

end Scanner

end BlockScript
