import BlockScript.Proofs.RoundTrip.Tokens

/-! What lies ahead of the parser. Its state holds the tokens of the text that is left, without the
layout that has no meaning; reading the text from the left takes them off the state one by one. -/

namespace BlockScript

open List

variable {blanks cs : List Char} {kind : Kind}

namespace Token.Cursor

variable {rest : List Char} {c : Char}

theorem tokens_append (hne : cs ≠ []) (hlex : lexeme (cs ++ rest) = (kind, cs.length))
    (pos : Position) : tokens ⟨cs ++ rest, pos, false⟩ =
      ⟨kind, String.ofList cs, pos⟩ :: tokens ⟨rest, pos.advance cs, kind == .newline⟩ := by
  have hscan : scan ⟨cs ++ rest, pos, false⟩ =
      (⟨kind, String.ofList cs, pos⟩, ⟨rest, pos.advance cs, kind == .newline⟩) := by
    simp [scan, upcoming, hne, hlex]
  have heof : (scan ⟨cs ++ rest, pos, false⟩).1.isEof = false := by
    rw [scan_isEof]
    simp [hne]
  rw [tokens, dif_neg (by simp [heof]), hscan]

theorem tokens_nil (pos : Position) (lineStart : Bool) :
    tokens ⟨[], pos, lineStart⟩ = [⟨.eof, "", pos⟩] := by
  rw [tokens, dif_pos (by simp [scan_isEof])]
  rfl

def isBlankChar (c : Char) : Bool := c == ' ' || c == '\t' || c == '\x0c'

theorem lexeme_blank (h : isBlankChar c = true) (cs : List Char) :
    lexeme (c :: cs) = (.whitespace, ((c :: cs).takeWhile isBlankChar).length) := by
  simp only [isBlankChar, Bool.or_eq_true, beq_iff_eq] at h
  rcases h with (rfl | rfl) | rfl <;> rfl

theorem tokens_blank (h : isBlankChar c = true) (cs : List Char) (pos : Position) :
    tokens ⟨c :: cs, pos, false⟩ =
      ⟨.whitespace, String.ofList ((c :: cs).takeWhile isBlankChar), pos⟩ ::
        tokens ⟨cs.dropWhile isBlankChar,
          pos.advance ((c :: cs).takeWhile isBlankChar), false⟩ := by
  have hall : c :: cs = (c :: cs).takeWhile isBlankChar ++ cs.dropWhile isBlankChar := by
    simp [h]
  have hlex := lexeme_blank h cs
  rw [hall] at hlex
  have hne : (c :: cs).takeWhile isBlankChar ≠ [] := by simp [h]
  conv => lhs; rw [hall]
  exact tokens_append hne (by rw [← hall]; exact lexeme_blank h cs) pos

theorem tokens_indent (hne : rest ≠ []) (hblanks : ∀ c ∈ blanks, (c == ' ' || c == '\t') = true)
    (hrest : ∀ c ∈ rest.head?, (c == ' ' || c == '\t') = false) (pos : Position) :
    tokens ⟨blanks ++ rest, pos, true⟩ =
      ⟨.indent, String.ofList blanks, pos⟩ :: tokens ⟨rest, pos.advance blanks, false⟩ := by
  have hscan : scan ⟨blanks ++ rest, pos, true⟩ =
      (⟨.indent, String.ofList blanks, pos⟩, ⟨rest, pos.advance blanks, false⟩) := by
    simp [scan, upcoming, hne, run_append hblanks hrest]
  have heof : (scan ⟨blanks ++ rest, pos, true⟩).1.isEof = false := by
    rw [scan_isEof]
    simp [hne]
  rw [tokens, dif_neg (by simp [heof]), hscan]

end Token.Cursor

namespace Program

open Token

/-- The state `s` holds the tokens of the text `cs`, which goes on in a line at the bracket depth
`d`. -/
def Ahead (d : Nat) (cs : List Char) (s : List Token) : Prop :=
  ∃ pos last, last ≠ Kind.newline ∧ s = linesFrom d (some last) (Cursor.tokens ⟨cs, pos, false⟩)

/-- The state `s` holds the tokens of the text `cs`, which starts a line. -/
def AheadLine (cs : List Char) (s : List Token) : Prop :=
  ∃ pos last, s = linesFrom 0 last (Cursor.tokens ⟨cs, pos, true⟩)

/-- A glyph that is no bracket and does not start with a point. -/
abbrev IsFlat (g : String) : Prop :=
  g ∈ controls ∧ g ∉ ["(", "[", "\x7b", ")", "]", "\x7d", ".", "..."]

/-- The state starts with a token of the kind and text, and goes on as `post` says. -/
def Next (kind : Kind) (text : String) (post : List Token → Prop) (s : List Token) : Prop :=
  ∃ pos s', s = ⟨kind, text, pos⟩ :: s' ∧ post s'

theorem linesFrom_solid {d : Nat} {last : Option Kind} {t : Token} {ts : List Token}
    (h : isSolid t.kind = true) :
    linesFrom d last (t :: ts) = t :: linesFrom (bracketDepth d t) (some t.kind) ts := by
  obtain ⟨kind, text, pos⟩ := t
  cases kind <;> first | rfl | simp [isSolid] at h

theorem isBlankLine_tokens (h : Starts cs) (pos : Position) :
    isBlankLine (Cursor.tokens ⟨cs, pos, false⟩) = false := by
  have hsolid := isSolid_lexeme h
  have hne : cs ≠ [] := by
    rintro rfl
    simp [Starts] at h
  have hkind : (Cursor.scan ⟨cs, pos, false⟩).1.kind = (lexeme cs).1 := by
    simp [Cursor.scan, Cursor.upcoming, hne]
  rw [Cursor.tokens, dif_neg (by simp [Cursor.scan_isEof, hne]), isBlankLine]
  rw [← hkind] at hsolid
  revert hsolid
  generalize (Cursor.scan ⟨cs, pos, false⟩).1 = t
  obtain ⟨kind, text, pos⟩ := t
  cases kind <;> simp [isSolid]

namespace Ahead

variable {d : Nat} {rest : List Char} {s : List Token}

theorem token (h : Ahead d (cs ++ rest) s) (hne : cs ≠ [])
    (hlex : lexeme (cs ++ rest) = (kind, cs.length)) (hkind : isSolid kind = true) :
    Next kind (String.ofList cs) (Ahead (bracketDepth d ⟨kind, String.ofList cs, .start⟩) rest)
      s := by
  obtain ⟨pos, last, -, rfl⟩ := h
  have hline : (kind == .newline) = false := by
    cases kind <;> first | rfl | simp [isSolid] at hkind
  rw [Cursor.tokens_append hne hlex, hline, linesFrom_solid hkind]
  refine ⟨pos, _, rfl, pos.advance cs, kind, ?_, rfl⟩
  simpa using hline

variable {w g : String}

theorem word (h : Ahead d (w.toList ++ rest) s) (hw : IsWord w.toList) (hrest : BoundsWord rest) :
    Next .name w (Ahead d rest) s := by
  have hne : w.toList ≠ [] := by
    obtain ⟨⟨c, hc, -⟩, -⟩ := hw
    rintro hnil
    simp [hnil] at hc
  simpa [bracketDepth, isControlIn] using h.token hne (lexeme_word hw hrest) rfl

theorem number {ds : String} (h : Ahead d (ds.toList ++ rest) s) (hne : ds.toList ≠ [])
    (hds : ∀ c ∈ ds.toList, isDigit c = true) (hrest : Bounds rest) :
    Next .literal ds (Ahead d rest) s := by
  simpa [bracketDepth, isControlIn] using h.token hne (lexeme_number hne hds hrest) rfl

theorem quoted {quote : Char} {text : String} (h : Ahead d ((quotedBy quote text).toList ++ rest) s)
    (hquote : quote ∈ ['\'', '"']) (hrest : BoundsWord rest) :
    Next .literal (quotedBy quote text) (Ahead d rest) s := by
  have hne : (quotedBy quote text).toList ≠ [] := by simp [quotedBy]
  simpa [bracketDepth, isControlIn] using h.token hne (lexeme_quoted hquote text hrest) rfl

variable (h : Ahead d (g.toList ++ rest) s)

include h

theorem control (hglyph : g ∈ controls) (hpoint : g.toList.head? ≠ some '.')
    (hrest : ∀ c ∈ rest.head?, isExtended g c = false) :
    Next .control g (Ahead (bracketDepth d ⟨.control, g, .start⟩) rest) s := by
  have hne : g.toList ≠ [] := (by decide : ∀ g ∈ controls, g.toList ≠ []) g hglyph
  simpa using h.token hne (lexeme_glyph hglyph hpoint hrest) rfl

theorem glyph (hg : IsFlat g) (hrest : ∀ c ∈ rest.head?, isExtended g c = false) :
    Next .control g (Ahead d rest) s := by
  have hpoint : ∀ g ∈ controls, g ∉ ["(", "[", "\x7b", ")", "]", "\x7d", ".", "..."] →
      g.toList.head? ≠ some '.' := by
    decide
  obtain ⟨hglyph, hflat⟩ := hg
  obtain ⟨pos, s', rfl, h'⟩ := h.control hglyph (hpoint g hglyph hflat) hrest
  simp only [mem_cons, not_mem_nil, or_false, not_or] at hflat
  refine ⟨pos, s', rfl, ?_⟩
  simpa [bracketDepth, isControlIn, hflat] using h'

/-- A glyph right before another token. -/
theorem glyphBefore (hg : IsFlat g) (hrest : Starts rest) : Next .control g (Ahead d rest) s :=
  h.glyph hg (hrest.isExtended hg.1)

theorem bracket (hglyph : g ∈ ["(", "[", "\x7b", ")", "]", "\x7d"]) :
    Next .control g (Ahead (bracketDepth d ⟨.control, g, .start⟩) rest) s := by
  have hfacts : ∀ g ∈ ["(", "[", "\x7b", ")", "]", "\x7d"],
      g ∈ controls ∧ g.toList.head? ≠ some '.' ∧ g ∈ closedGlyphs := by
    decide
  obtain ⟨hcontrol, hpoint, hclosed⟩ := hfacts g hglyph
  exact h.control hcontrol hpoint fun c _ => isExtended_of_mem_closedGlyphs hclosed c

omit h

theorem opening (h : Ahead d (g.toList ++ rest) s) (hglyph : g ∈ ["(", "[", "\x7b"]) :
    Next .control g (Ahead (d + 1) rest) s := by
  obtain ⟨pos, s', rfl, h'⟩ := h.bracket (mem_append_left [")", "]", "\x7d"] hglyph)
  exact ⟨pos, s', rfl, by simpa [bracketDepth, isControlIn, hglyph] using h'⟩

theorem bracketed {inner close : String} (h : Ahead d ((g ++ inner ++ close).toList ++ rest) s)
    (hglyph : g ∈ ["(", "[", "\x7b"]) :
    Next .control g (Ahead (d + 1) (inner.toList ++ (close.toList ++ rest))) s := by
  simp only [String.toList_append, append_assoc] at h
  exact h.opening hglyph

theorem closing (h : Ahead (d + 1) (g.toList ++ rest) s) (hglyph : g ∈ [")", "]", "\x7d"]) :
    Next .control g (Ahead d rest) s := by
  obtain ⟨pos, s', rfl, h'⟩ := h.bracket (mem_append_right ["(", "[", "\x7b"] hglyph)
  have hnot : ∀ g ∈ [")", "]", "\x7d"], g ∉ ["(", "[", "\x7b"] := by decide
  refine ⟨pos, s', rfl, ?_⟩
  simpa [bracketDepth, isControlIn, hglyph, hnot g hglyph] using h'

theorem point (h : Ahead d (".".toList ++ (w.toList ++ rest)) s) (hw : IsWord w.toList) :
    Next .control "." (Ahead d (w.toList ++ rest)) s := by
  obtain ⟨c, hc, hstart⟩ := hw.1
  have hnext : ∃ c ∈ (w.toList ++ rest).head?, isWordStart c = true :=
    ⟨c, by rw [head?_append, hc]; rfl, hstart⟩
  exact Ahead.token h (cons_ne_nil '.' []) (lexeme_point hnext) rfl

theorem blank (h : Ahead d (' ' :: rest) s) : Ahead d rest s := by
  obtain ⟨pos, last, hlast, rfl⟩ := h
  refine ⟨pos.next ' ', last, hlast, ?_⟩
  rw [Cursor.tokens_blank rfl]
  cases rest with
  | nil => rfl
  | cons c cs =>
    by_cases hc : Cursor.isBlankChar c = true
    · -- a blank that follows is part of the same token, and both are skipped
      rw [Cursor.tokens_blank hc, dropWhile_cons_of_pos hc]
      rfl
    · rw [dropWhile_cons_of_neg hc, takeWhile_cons_of_pos rfl, takeWhile_cons_of_neg hc]
      rfl

/-! ### Separators -/

theorem spacedWord (h : Ahead d (' ' :: (w.toList ++ ' ' :: rest)) s) (hw : IsWord w.toList) :
    Next .name w (Ahead d rest) s := by
  obtain ⟨pos, s', rfl, h'⟩ := h.blank.word hw (by rintro _ ⟨⟩; exact .inl rfl)
  exact ⟨pos, s', rfl, h'.blank⟩

theorem spacedGlyph (h : Ahead d (' ' :: (g.toList ++ ' ' :: rest)) s) (hg : IsFlat g) :
    Next .control g (Ahead d rest) s := by
  have hnext : ∀ c ∈ (' ' :: rest).head?, isExtended g c = false := by
    rintro _ ⟨⟩
    exact isExtended_of_not_mem hg.1 (by decide)
  obtain ⟨pos, s', rfl, h'⟩ := h.blank.glyph hg hnext
  exact ⟨pos, s', rfl, h'.blank⟩

theorem comma (h : Ahead d (", ".toList ++ rest) s) : Next .control "," (Ahead d rest) s := by
  obtain ⟨pos, s', rfl, h'⟩ := Ahead.glyph (g := ",") h (by decide) fun c _ =>
    isExtended_of_mem_closedGlyphs (by decide) c
  exact ⟨pos, s', rfl, h'.blank⟩

theorem colon (h : Ahead d (": ".toList ++ rest) s) : Next .control ":" (Ahead d rest) s := by
  obtain ⟨pos, s', rfl, h'⟩ := Ahead.glyph (g := ":") h (by decide) <| by
    rintro _ ⟨⟩
    exact isExtended_of_not_mem (by decide) (by decide)
  exact ⟨pos, s', rfl, h'.blank⟩

theorem commaClosing (h : Ahead (d + 1) (",)".toList ++ rest) s) :
    Next .control "," (Ahead (d + 1) (")".toList ++ rest)) s :=
  Ahead.glyph (g := ",") h (by decide) fun c _ => isExtended_of_mem_closedGlyphs (by decide) c

theorem lineEnd (h : Ahead 0 ('\n' :: rest) s) : Next .newline "\n" (AheadLine rest) s := by
  obtain ⟨pos, last, hlast, rfl⟩ := h
  have htokens := Cursor.tokens_append (cons_ne_nil '\n' []) (rfl : lexeme (['\n'] ++ rest) = _) pos
  rw [singleton_append] at htokens
  rw [htokens]
  refine ⟨pos, _, ?_, pos.advance ['\n'], some .newline, rfl⟩
  simp [linesFrom, hlast]

end Ahead

namespace AheadLine

variable {rest : List Char} {s : List Token}

theorem nil (h : AheadLine [] s) : ∃ pos, s = [⟨.eof, "", pos⟩] := by
  obtain ⟨pos, last, rfl⟩ := h
  exact ⟨pos, by rw [Cursor.tokens_nil]; rfl⟩

theorem indent (h : AheadLine (blanks ++ rest) s)
    (hblanks : ∀ c ∈ blanks, (c == ' ' || c == '\t') = true)
    (hrest : Starts rest) : Next .indent (String.ofList blanks) (Ahead 0 rest) s := by
  obtain ⟨pos, last, rfl⟩ := h
  have hne : rest ≠ [] := by
    rintro rfl
    simp [Starts] at hrest
  have hhead : ∀ c ∈ rest.head?, (c == ' ' || c == '\t') = false := by
    obtain ⟨c, hc, hstart⟩ := hrest
    intro x hx
    obtain rfl : c = x := Option.some.inj (hc.symm.trans hx)
    have hnot : ∀ x ∈ [' ', '\t'], isStart x = false := by decide
    rw [Bool.or_eq_false_iff, beq_eq_false_iff_ne, beq_eq_false_iff_ne]
    constructor <;> rintro rfl <;> simp [hnot] at hstart
  rw [Cursor.tokens_indent hne hblanks hhead]
  refine ⟨pos, _, ?_, pos.advance blanks, .indent, by simp, rfl⟩
  simp [linesFrom, isBlankLine_tokens hrest]

end AheadLine

end Program

end BlockScript
