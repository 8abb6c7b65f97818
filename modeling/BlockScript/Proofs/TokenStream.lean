import BlockScript.Proofs.Parsed.Tokens
import Mathlib.Data.List.Induction
import Mathlib.Data.List.TakeWhile

/-! The tokens of a source and the ways a scanner comes to them. The tokens are the source cut into
pieces, each at its exact place; a scanner that steps over some kinds visits the others; and from
any state a jump to the place of a token goes on with the tokens from there. -/

namespace BlockScript

open List

namespace Position

/-- The column counts the characters of the last line. -/
theorem column_start_advance (text : List Char) :
    (Position.start.advance text).column = (text.reverse.takeWhile (· ≠ '\n')).length := by
  induction text using List.reverseRecOn with
  | nil => rfl
  | append_singleton text c ih =>
    rw [advance_append, reverse_append]
    change ((Position.start.advance text).next c).column = _
    by_cases hc : c = '\n'
    · simp [next, hc]
    · simp [next, hc, ih]

end Position

namespace Text

def lastLine (text : List Char) : List Char := (text.reverse.takeWhile (· ≠ '\n')).reverse

/-- The line on which `before` ends and `after` goes on. -/
def lineAround (before after : List Char) : List Char :=
  lastLine before ++ after.takeWhile (· ≠ '\n')

theorem lastLine_of_notMem {text : List Char} (h : '\n' ∉ text) : lastLine text = text := by
  rw [lastLine, takeWhile_eq_self_iff.2, reverse_reverse]
  intro c hc
  simpa using fun heq : c = '\n' => h (heq ▸ mem_reverse.1 hc)

theorem lastLine_cons_of_mem {c : Char} {cs : List Char} (h : '\n' ∈ cs) :
    lastLine (c :: cs) = lastLine cs := by
  rw [lastLine, reverse_cons, takeWhile_append, if_neg, lastLine]
  intro hlength
  have hall := takeWhile_eq_self_iff.1
    (( takeWhile_prefix (· ≠ '\n')).eq_of_length hlength) '\n' (mem_reverse.2 h)
  simp at hall

theorem lastLine_newline_cons (cs : List Char) : lastLine ('\n' :: cs) = lastLine cs := by
  by_cases h : '\n' ∈ cs
  · exact lastLine_cons_of_mem h
  · rw [lastLine, reverse_cons, takeWhile_append]
    split
    · rw [lastLine_of_notMem h]
      simp
    · rfl

theorem getElem?_splitOn_zero (text : List Char) :
    (text.splitOn '\n')[0]? = some (text.takeWhile (· ≠ '\n')) := by
  induction text with
  | nil => rfl
  | cons c cs ih =>
    rw [splitOn_cons_eq_if_modifyHead]
    by_cases hc : c = '\n'
    · simp [hc]
    · simp [hc, getElem?_modifyHead, ih]

/-- Of the lines of a text, a place is on the one with as many line feeds before it. -/
theorem getElem?_splitOn (before after : List Char) :
    ((before ++ after).splitOn '\n')[before.count '\n']? = some (lineAround before after) := by
  induction before with
  | nil => exact getElem?_splitOn_zero after
  | cons c cs ih =>
    rw [cons_append, splitOn_cons_eq_if_modifyHead, lineAround]
    by_cases hc : c = '\n'
    · subst hc
      rw [lastLine_newline_cons]
      simpa [lineAround] using ih
    · by_cases hmem : '\n' ∈ cs
      · obtain ⟨n, hn⟩ : ∃ n, cs.count '\n' = n + 1 :=
          ⟨cs.count '\n' - 1, by have := count_pos_iff.2 hmem; omega⟩
        rw [lastLine_cons_of_mem hmem]
        rw [hn] at ih
        simpa [hc, hn, lineAround] using ih
      · have hn : cs.count '\n' = 0 := count_eq_zero.2 hmem
        have hcons : '\n' ∉ c :: cs := by simp [hmem, Ne.symm hc]
        rw [hn, lineAround, lastLine_of_notMem hmem] at ih
        rw [lastLine_of_notMem hcons]
        simp [hc, hn, getElem?_modifyHead, ih]

theorem lineAt_byteSize (before after : List Char) : lineAt (before ++ after) (byteSize before) =
      dropTrailing (· == '\r') (lineAround before after) := by
  have hmin : min (byteSize before) (byteSize (before ++ after)) = byteSize before := by
    rw [byteSize_append]
    omega
  rw [lineAt, hmin, splitAtOffset?_byteSize]
  rfl

end Text

namespace Token

namespace Cursor

end Cursor

/-- The place of a token in its source: what stands before it is the text of the tokens before
it. -/
theorem place_of_tokenize {source : List Char} {before after : List Token} {t : Token}
    (h : tokenize source = before ++ t :: after) :
    source = texts before ++ (t.text.toList ++ texts after) ∧
      t.pos = Position.start.advance (texts before) := by
  obtain ⟨c, hc, hpos⟩ := Cursor.exists_tokens_eq h
  refine ⟨?_, by rw [← Cursor.scan_of_tokens_eq hc, c.scan_pos.1, hpos]; rfl⟩
  rw [← texts_cons, ← texts_append, ← h, texts_tokenize]

end Token

namespace Scanner

open Token

/-! ## Tokens that are visited -/

/-- The tokens that a scanner comes to as it is moved on to the end of input, its current one
first. -/
def visited (s : Scanner) : List Token :=
  if _h : s.current.isEof then [s.current] else s.current :: visited s.bump
termination_by s.remaining
decreasing_by exact remaining_bump_lt (by simpa using _h)

def keeps (kinds : List Kind) (t : Token) : Bool := t.isEof || !kinds.contains t.kind

theorem visited_readFrom (s : Scanner) (c : Cursor) :
    (s.readFrom c).visited = c.tokens.filter (keeps s.skipped) := by
  -- the next token is the last one, is skipped, or is the one that the scanner comes to
  fun_induction Cursor.tokens c generalizing s with
  | case1 c h =>
    have hadvance : c.advance s.skipped = c.scan := by rw [Cursor.advance, dif_pos h]
    have hcurrent : (s.readFrom c).current = c.scan.1 := congrArg Prod.fst hadvance
    rw [visited, hcurrent, dif_pos h]
    simp [keeps, h]
  | case2 c h ih =>
    have heof : c.scan.1.isEof = false := by simpa using h
    by_cases hk : s.skipped.contains c.scan.1.kind = true
    · have hadvance : s.readFrom c = s.readFrom c.scan.2 := by
        simp only [readFrom]
        rw [Cursor.advance, dif_neg h, if_pos hk]
      have hkeeps : keeps s.skipped c.scan.1 = false := by simp only [keeps, heof, hk]; rfl
      rw [hadvance, ih, filter_cons_of_neg (by simp [hkeeps])]
    · have hread : s.readFrom c = { s with current := c.scan.1, cursor := c.scan.2 } := by
        simp only [readFrom]
        rw [Cursor.advance, dif_neg h, if_neg hk]
      have hkeeps : keeps s.skipped c.scan.1 = true := by
        rw [keeps, heof, Bool.false_or, Bool.eq_false_iff.2 hk]
        rfl
      rw [hread, visited, dif_neg h, filter_cons_of_pos hkeeps]
      have hbump : bump { s with current := c.scan.1, cursor := c.scan.2 } =
          readFrom { s with current := c.scan.1, cursor := c.scan.2 } c.scan.2 :=
        if_neg h
      rw [hbump, ih]

theorem visited_setSkipped_ofSource (source : List Char) (kinds : List Kind) :
    ((ofSource source).setSkipped kinds).visited = (tokenize source).filter (keeps kinds) := by
  have hread : (ofSource source).setSkipped kinds =
      readFrom { ofSource source with skipped := kinds } (.atStart source) := by
    have hscan : (Cursor.atStart source).advance [] = (Cursor.atStart source).scan := by
      rw [Cursor.advance]
      split <;> simp
    have hstart : ofSource source = ⟨source, (Cursor.atStart source).scan.2,
        (Cursor.atStart source).scan.1, []⟩ := by
      simp only [ofSource, readFrom, hscan]
    simp only [setSkipped, hstart, readFrom]
    conv => rhs; rw [Cursor.advance]
    by_cases heof : (Cursor.atStart source).scan.1.isEof = true
    · simp [heof]
    · by_cases hk : (Cursor.atStart source).scan.1.kind ∈ kinds <;> simp [heof, hk]
  rw [hread, visited_readFrom]
  rfl

/-! ## Jumps -/

/-- Whether the character after a text stands at the start of a line. -/
def endsLine (text : List Char) : Bool := text.getLast?.all (· == '\n')

theorem startsLine_byteSize (passed rest : List Char) :
    startsLine (passed ++ rest) (Text.byteSize passed) = endsLine passed := by
  rcases eq_nil_or_concat passed with rfl | ⟨earlier, c, rfl⟩
  · rfl
  · -- the byte before the offset is the last one of `c`
    obtain ⟨k, hk⟩ : ∃ k, c.utf8Size = k + 1 := ⟨c.utf8Size - 1, by have := c.utf8Size_pos; omega⟩
    have hsize : Text.byteSize (earlier ++ [c]) = Text.byteSize earlier + k + 1 := by
      rw [Text.byteSize_append]
      change _ + (c.utf8Size + 0) = _
      omega
    have hzero : (Text.byteSize earlier + k + 1 == 0) = false := by simp
    rw [concat_eq_append, startsLine, hsize, hzero, Bool.false_or, Nat.add_sub_cancel,
      append_assoc, Text.splitAtOffset?_add]
    cases k with
    | zero =>
      by_cases hc : c = '\n' <;> simp [Text.splitAtOffset?, endsLine, hc]
    | succ k =>
      have hc : c ≠ '\n' := by
        rintro rfl
        exact absurd hk (by simp [Char.utf8Size])
      have hsplit : Text.splitAtOffset? (k + 1) ([c] ++ rest) = none :=
        if_neg (by omega)
      rw [hsplit]
      simp [endsLine, hc]

end Scanner

/-! ## Places of tokens -/

namespace Token

theorem newline_notMem_number (cs : List Char) : '\n' ∉ cs.take (numberLength cs) := by
  intro h
  rcases forall_mem_number cs with hall | hall <;> exact absurd (hall _ h) (by decide)

theorem newline_notMem_controls : ∀ glyph ∈ controls, '\n' ∉ glyph.toList := by
  decide

/-- Only a line break ends with a line feed. -/
theorem getLast?_lexeme_eq_iff (cs : List Char) :
    (cs.take (lexeme cs).2).getLast? = some '\n' ↔ (lexeme cs).1 = .newline := by
  have hnotMem {text : List Char} (hnot : '\n' ∉ text) : text.getLast? ≠ some '\n' :=
    fun heq => hnot (mem_of_getLast? heq)
  have hlexed := lexed cs
  generalize lexeme cs = x at hlexed ⊢
  cases hlexed with
  | eof | newline | returnNewline | loneReturn => simp
  | blanks | comment | name =>
    exact iff_of_false (hnotMem (newline_notMem_take_run (by decide) _)) nofun
  | number => exact iff_of_false (hnotMem (newline_notMem_number _)) nofun
  | string hlead hquote h =>
    rw [getLast?_stringLexeme h]
    rcases hquote with rfl | rfl <;> simp
  | control cs hglyph =>
    rw [← String.length_toList, take_left]
    exact iff_of_false (hnotMem (newline_notMem_controls _ hglyph)) nofun
  | unknown cs hc => simp [hc]

namespace Cursor

open Scanner (endsLine)

theorem lineStart_scan_eq (c : Cursor) :
    c.scan.2.lineStart = (c.scan.1.kind == .newline || (c.scan.1.kind == .eof && c.lineStart)) :=
  rfl

/-- After a token that is not empty, a line starts just if the token ends with a line feed. -/
theorem lineStart_scan {c : Cursor} (heof : c.scan.1.isEof = false)
    (htext : c.scan.1.text.toList ≠ []) : c.scan.2.lineStart = endsLine c.scan.1.text.toList := by
  have hkind : c.scan.1.kind ≠ .eof := by simpa [isEof] using heof
  have hnext : c.scan.2.lineStart = (c.scan.1.kind == .newline) := by
    rw [lineStart_scan_eq, beq_eq_false_iff_ne.2 hkind]
    simp
  obtain ⟨last, hlast⟩ : ∃ last, c.scan.1.text.toList.getLast? = some last :=
    ⟨_, getLast?_eq_some_getLast htext⟩
  rw [hnext, endsLine, hlast, Option.all_some]
  by_cases hindent : c.scan.1.kind = .indent
  · have hblank := newline_notMem_scan (c := c) (by simp [isIgnorable, layout, hindent])
    have hne : last ≠ '\n' := fun h => hblank (h ▸ mem_of_getLast? hlast)
    simp [hindent, hne]
  · obtain ⟨hlexeme, htoken⟩ := scan_eq_lexeme hindent hkind
    rw [htoken, String.toList_ofList] at hlast
    have hiff := getLast?_lexeme_eq_iff c.rest
    rw [hlast, Option.some.injEq] at hiff
    rw [hlexeme, Bool.eq_iff_iff, beq_iff_eq, beq_iff_eq]
    exact hiff.symm

/-- From the first token at a place on, the tokens are those that are read there: the only empty
token before another one is an indentation, and it comes first. -/
theorem dropWhile_tokens {source passed rest : List Char} (hs : source = passed ++ rest)
    {c : Cursor}
    (before : List Char) (hsplit : source = before ++ c.rest)
    (hpos : c.pos = Position.start.advance before)
    (hline : c.lineStart = endsLine before ∨
      Text.byteSize before ≠ Text.byteSize passed ∧ c.lineStart = false)
    (hmem : ∃ t ∈ c.tokens, t.pos.offset = Text.byteSize passed) :
    c.tokens.dropWhile (·.pos.offset ≠ Text.byteSize passed) =
      tokens ⟨rest, Position.start.advance passed, endsLine passed⟩ := by
  have hhere {c : Cursor} {before : List Char} (hsplit : source = before ++ c.rest)
      (heq : Text.byteSize before = Text.byteSize passed) : before = passed ∧ c.rest = rest := by
    obtain ⟨m, rfl, hrest⟩ := Text.exists_eq_append_of_byteSize_le (hsplit.symm.trans hs) heq.le
    rw [Text.byteSize_append] at heq
    have hm : Text.byteSize m = 0 := by omega
    rw [Text.byteSize_eq_zero hm] at hrest ⊢
    exact ⟨(append_nil _).symm, hrest⟩
  have hoffset {c : Cursor} {before : List Char} (hpos : c.pos = Position.start.advance before) :
      c.scan.1.pos.offset = Text.byteSize before := by
    rw [c.scan_pos.1, hpos, Position.offset_start_advance]
  fun_induction tokens c generalizing before with
  | case1 c h =>
    obtain ⟨t, ht, heq⟩ := hmem
    rw [mem_singleton.1 ht, hoffset hpos] at heq
    obtain ⟨rfl, hrest⟩ := hhere hsplit heq
    rw [scan_rest_of_isEof h] at hrest
    subst hrest
    rw [tokens_nil, dropWhile_cons_of_neg (by simp [hoffset hpos])]
    have hscan : c.scan.1 = ⟨.eof, "", c.pos⟩ := by simp [scan, upcoming, scan_rest_of_isEof h]
    rw [hscan, hpos]
  | case2 c h ih =>
    by_cases heq : Text.byteSize before = Text.byteSize passed
    · obtain ⟨rfl, hrest⟩ := hhere hsplit heq
      have hline := hline.resolve_right fun hne => hne.1 rfl
      have hc : c = ⟨rest, Position.start.advance before, endsLine before⟩ := by
        rw [← hrest, ← hpos, ← hline]
      rw [dropWhile_cons_of_neg (by simp [hoffset hpos]), ← hc]
      conv => rhs; rw [tokens]
      rw [dif_neg h]
    · rw [dropWhile_cons_of_pos (by simpa [hoffset hpos] using heq)]
      refine ih (before ++ c.scan.1.text.toList) ?_ ?_ ?_ ?_
      · rw [append_assoc, ← c.scan_rest]
        exact hsplit
      · rw [c.scan_pos.2, hpos, Position.advance_append]
      · by_cases htext : c.scan.1.text.toList = []
        · have hindent : c.scan.1.kind = .indent := by
            by_contra hindent
            exact scan_text_ne_nil hindent (by simpa using h) htext
          refine .inr ⟨by rwa [htext, append_nil], ?_⟩
          rw [lineStart_scan_eq, hindent]
          rfl
        · refine .inl ?_
          rw [lineStart_scan (by simpa using h) htext, endsLine, endsLine, getLast?_append,
            getLast?_eq_some_getLast htext, Option.some_or]
      · obtain ⟨t, ht, hat⟩ := hmem
        rcases mem_cons.1 ht with rfl | ht
        · exact absurd ((hoffset hpos).symm.trans hat) heq
        · exact ⟨t, ht, hat⟩

end Cursor

end Token

namespace Scanner

open Token

/-! ## Any sequence of moves -/

/-- A scanner together with the states of it that were saved. -/
structure Session where
  scanner : Scanner
  saved : List Scanner

/-- What can be done with a scanner. -/
inductive Move where
  | bump
  | save
  /-- Back to a state that was saved; nothing happens if there is no such state. -/
  | restore (n : Nat)
  | setSkipped (kinds : List Kind)
  | withSkipped (kinds : List Kind) (moves : List Move)
  | jumpTo (offset : Nat)

mutual

def Session.move (s : Session) : Move → Session
  | .bump => { s with scanner := s.scanner.bump }
  | .save => { s with saved := s.scanner :: s.saved }
  | .restore n => { s with scanner := s.saved[n]?.getD s.scanner }
  | .setSkipped kinds => { s with scanner := s.scanner.setSkipped kinds }
  | .withSkipped kinds moves =>
    let (saved, scanner) := s.scanner.withSkipped kinds fun scanner =>
      let t := Session.run ⟨scanner, s.saved⟩ moves
      (t.saved, t.scanner)
    ⟨scanner, saved⟩
  | .jumpTo offset => { s with scanner := s.scanner.jumpTo offset }

def Session.run (s : Session) : List Move → Session
  | [] => s
  | m :: moves => (s.move m).run moves

end

def Session.start (source : List Char) : Session := ⟨ofSource source, []⟩

section

variable {source : List Char} {s : Scanner}

/-- Every state that was saved stands in the source, too. -/
def Session.Within (source : List Char) (s : Session) : Prop :=
  s.scanner.Within source ∧ ∀ t ∈ s.saved, t.Within source

mutual

theorem Session.Within.move {s : Session} (h : s.Within source) :
    ∀ m : Move, (s.move m).Within source
  | .bump => ⟨h.1.bump, h.2⟩
  | .save => ⟨h.1, forall_mem_cons.2 h⟩
  | .restore n => by
    refine ⟨?_, h.2⟩
    change (s.saved[n]?.getD s.scanner).Within source
    cases hn : s.saved[n]? with
    | none => exact h.1
    | some t => exact h.2 t (mem_of_getElem? hn)
  | .setSkipped kinds => ⟨h.1.setSkipped kinds, h.2⟩
  | .withSkipped kinds moves => by
    have hinside := Session.Within.run (s := ⟨s.scanner.setSkipped kinds, s.saved⟩)
      ⟨h.1.setSkipped kinds, h.2⟩ moves
    exact ⟨hinside.1.setSkipped _, hinside.2⟩
  | .jumpTo offset => ⟨h.1.jumpTo offset, h.2⟩

theorem Session.Within.run {s : Session} (h : s.Within source) :
    ∀ moves : List Move, (s.run moves).Within source
  | [] => h
  | m :: moves => (h.move m).run moves

end

end

/-- A scanner visits the tokens of its source: fresh, those of the kinds that it does not skip; and
after any moves, once nothing is skipped and it has jumped to the place of a token, all from the
first token there on. -/
theorem visited_agrees (source : List Char) :
    (∀ kinds, ((ofSource source).setSkipped kinds).visited =
      (tokenize source).filter fun t => t.isEof || !kinds.contains t.kind) ∧
    ∀ moves, ∀ t ∈ tokenize source,
      ((((Session.start source).run moves).scanner.setSkipped []).jumpTo t.pos.offset).visited =
        (tokenize source).dropWhile (·.pos.offset ≠ t.pos.offset) := by
  refine ⟨visited_setSkipped_ofSource source, fun moves t ht => ?_⟩
  have hstart : (Session.start source).Within source := ⟨⟨[], ofSource_at source⟩, nofun⟩
  obtain ⟨before, hat⟩ := (hstart.run moves).1.setSkipped []
  obtain ⟨earlier, later, htokens⟩ := append_of_mem ht
  obtain ⟨hsource, hpos⟩ := place_of_tokenize htokens
  have hoffset : t.pos.offset = Text.byteSize (texts earlier) := by
    rw [hpos, Position.offset_start_advance]
  have hflag := startsLine_byteSize (texts earlier) (t.text.toList ++ texts later)
  rw [← hsource] at hflag
  rw [hoffset, hat.jumpTo_eq hsource, visited_readFrom, hflag, skipped_setSkipped,
    filter_eq_self.2 fun u _ => by simp [keeps]]
  exact (Cursor.dropWhile_tokens hsource [] rfl rfl (.inl rfl) ⟨t, ht, hoffset⟩).symm

/-- Back to an indentation, after a state was restored and jumps went into a character and past the
end. -/
theorem visited_agrees_afterJumps :
    (⟨.indent, "  ", ⟨3, 2, 0⟩⟩ : Token) ∈ tokenize "é\n  x".toList ∧
      ((((Session.start "é\n  x".toList).run [.save, .withSkipped [.newline] [.bump, .jumpTo 1],
        .jumpTo 99, .restore 0, .setSkipped [.indent], .jumpTo 5]).scanner.setSkipped []).jumpTo
          3).visited =
        [⟨.indent, "  ", ⟨3, 2, 0⟩⟩, ⟨.name, "x", ⟨5, 2, 2⟩⟩, ⟨.eof, "", ⟨6, 2, 3⟩⟩] := by
  have hmem : (⟨.indent, "  ", ⟨3, 2, 0⟩⟩ : Token) ∈ tokenize "é\n  x".toList := by
    with_unfolding_all decide
  refine ⟨hmem, ((visited_agrees _).2 _ _ hmem).trans ?_⟩
  with_unfolding_all decide

end Scanner

end BlockScript
