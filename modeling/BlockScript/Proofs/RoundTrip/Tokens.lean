import BlockScript.Program.Parse.State
import BlockScript.Program.Print

/-! The tokens of a printed text. A printed text is a row of words, numbers, quoted texts and
glyphs, single blanks between some of them. Each of them is read back as the token it was, because
what comes after it does not extend it. -/

namespace BlockScript

open List

namespace Token

/-! ## Lexemes -/

section

variable (p : Char → Prop) [DecidablePred p]

-- Bounded statements about characters are decided on the characters they bound, not on all.
instance (priority := high) (cs : List Char) : Decidable (∀ c ∈ cs, p c) := List.decidableBAll p cs

instance (priority := high) (c? : Option Char) : Decidable (∀ c ∈ c?, p c) :=
  Option.decidableForallMem c?

instance (priority := high) (c? : Option Char) : Decidable (∃ c ∈ c?, p c) :=
  Option.decidableExistsMem c?

end

/-- The characters that come after a word, a number or a quoted text. -/
def isBoundary (c : Char) : Bool := [' ', ',', ')', ']', '}', ':', '(', '[', '=', '\n'].contains c

variable {c : Char} {rest cs ds : List Char} {glyph g : String}

theorem isBoundary_iff : isBoundary c = true ↔
    c ∈ [' ', ',', ')', ']', '}', ':', '(', '[', '=', '\n'] := by
  simp [isBoundary]

/-- A text that ends the word, number or quoted text before it. -/
def Bounds (rest : List Char) : Prop := ∀ c ∈ rest.head?, isBoundary c = true

/-- A text that ends the word or quoted text before it. A point ends these, but not a number. -/
def BoundsWord (rest : List Char) : Prop := ∀ c ∈ rest.head?, isBoundary c = true ∨ c = '.'

theorem Bounds.word (h : Bounds rest) : BoundsWord rest :=
  fun c hc => .inl (h c hc)

theorem bounds_append (h : ∃ c ∈ g.toList.head?, isBoundary c = true) (rest : List Char) :
    Bounds (g.toList ++ rest) := by
  obtain ⟨c, hc, hbound⟩ := h
  obtain ⟨cs, hcs⟩ := head?_eq_some_iff.1 (Option.mem_def.1 hc)
  rw [hcs]
  rintro _ ⟨⟩
  exact hbound

/-- The characters that neither go on with a glyph nor are layout. -/
def isStart (c : Char) : Bool :=
  !(['=', '*', '/', '<', '>', '.', '\n', '\r', ' ', '\t', '\x0c', '#'].contains c) &&
  !Text.isBlank c

def Starts (cs : List Char) : Prop := ∃ c ∈ cs.head?, isStart c = true

instance (cs : List Char) : Decidable (Starts cs) := by
  unfold Starts
  infer_instance

theorem Starts.append (h : Starts cs) (rest : List Char) : Starts (cs ++ rest) := by
  obtain ⟨c, hc, hstart⟩ := h
  obtain ⟨cs, rfl⟩ := head?_eq_some_iff.1 (Option.mem_def.1 hc)
  exact ⟨c, rfl, hstart⟩

theorem Starts.text (h : Starts g.toList) (more : String) : Starts (g ++ more).toList := by
  rw [String.toList_append]
  exact h.append _

theorem not_isWord_of_bounds (h : isBoundary c = true ∨ c = '.') :
    isWord c = false ∧ c ≠ '"' ∧ c ≠ '\'' := by
  rcases h with h | rfl
  · rw [isBoundary_iff] at h
    revert c
    decide
  · decide

theorem not_number_of_isBoundary (h : isBoundary c = true) :
    isDigitOrLow c = false ∧ c ≠ '.' ∧ c ≠ 'e' ∧ c ≠ 'E' ∧
      ['x', 'X', 'o', 'O', 'b', 'B'].contains c = false := by
  rw [isBoundary_iff] at h
  revert c
  decide

theorem not_base_of_isDigit (h : isDigit c = true) :
    ['x', 'X', 'o', 'O', 'b', 'B'].contains c = false := by
  rw [contains_eq_any_beq, any_eq_false]
  intro x hx
  have : ∀ x ∈ ['x', 'X', 'o', 'O', 'b', 'B'], isDigit x = false := by decide
  rw [beq_iff_eq]
  rintro rfl
  simp [this c hx] at h

theorem takeWhile_append_of_bounds {p : Char → Bool} (hcs : ∀ c ∈ cs, p c = true)
    (hrest : ∀ c ∈ rest.head?, p c = false) : (cs ++ rest).takeWhile p = cs := by
  rw [takeWhile_append_of_pos hcs]
  cases rest with
  | nil => simp
  | cons c rest => simp [hrest c rfl]

theorem run_append {p : Char → Bool} (hcs : ∀ c ∈ cs, p c = true)
    (hrest : ∀ c ∈ rest.head?, p c = false) : run p (cs ++ rest) = cs.length := by
  rw [run, takeWhile_append_of_bounds hcs hrest]

def IsWord (cs : List Char) : Prop := (∃ c ∈ cs.head?, isWordStart c = true) ∧
    ∀ c ∈ cs, isWord c = true

instance (cs : List Char) : Decidable (IsWord cs) := by
  unfold IsWord
  infer_instance

theorem isStart_of_isWord (h : isWord c = true) : isStart c = true := by
  have hnot : ∀ x ∈ ['=', '*', '/', '<', '>', '.', '\n', '\r', ' ', '\t', '\x0c', '#'],
      isWord x = false := by
    decide
  have hblank : Text.isBlank c = false := by
    simp only [isWord, isWordStart, isLetter, isDigit, Bool.or_eq_true, Bool.and_eq_true,
      decide_eq_true_eq,
      beq_iff_eq, Char.le_def, UInt32.le_iff_toNat_le, Char.ext_iff, ← UInt32.toNat_inj] at h
    simp only [Text.isBlank, Text.blankRanges, Text.Ranges.contains, any_cons, any_nil,
      Bool.or_eq_false_iff, Bool.and_eq_false_iff, decide_eq_false_iff_not, Char.toNat]
    simp at h ⊢
    omega
  rw [isStart, hblank, Bool.not_false, Bool.and_true, Bool.not_eq_true', Bool.eq_false_iff, ne_eq,
    contains_iff_mem]
  intro hmem
  simp [hnot c hmem] at h

theorem IsWord.starts (h : IsWord cs) : Starts cs := by
  obtain ⟨⟨c, hc, -⟩, hall⟩ := h
  exact ⟨c, hc, isStart_of_isWord (hall c (mem_of_mem_head? hc))⟩

theorem wordLexeme_append (hcs : ∀ c ∈ cs, isWord c = true) (hrest : BoundsWord rest) :
    wordLexeme (cs ++ rest) = (.name, cs.length) := by
  have hw : (cs ++ rest).takeWhile isWord = cs :=
    takeWhile_append_of_bounds hcs fun c hc => (not_isWord_of_bounds (hrest c hc)).1
  rw [wordLexeme, hw, drop_left]
  cases rest with
  | nil => rfl
  | cons q rest =>
    have := not_isWord_of_bounds (hrest q rfl)
    simp [this.2.1, this.2.2]

theorem isDigit_of_isWordStart (h : isWordStart c = true) : isDigit c = false := by
  simp only [isWordStart, isLetter, Bool.or_eq_true, Bool.and_eq_true,
    decide_eq_true_eq, beq_iff_eq] at h
  rcases h with (h | h) | rfl
  · have : ¬ c ≤ '9' := fun h' => absurd (Char.le_trans h.1 h') (by decide)
    simp [isDigit, this]
  · have : ¬ c ≤ '9' := fun h' => absurd (Char.le_trans h.1 h') (by decide)
    simp [isDigit, this]
  · decide

theorem lexeme_word (hcs : IsWord cs) (hrest : BoundsWord rest) :
    lexeme (cs ++ rest) = (.name, cs.length) := by
  obtain ⟨⟨c, hc, hstart⟩, hall⟩ := hcs
  obtain ⟨cs, rfl⟩ : ∃ cs', cs = c :: cs' := by
    cases cs with
    | nil => cases hc
    | cons a cs => cases hc; exact ⟨cs, rfl⟩
  have hne (x : Char) (hx : isWordStart x = false) : c ≠ x := by
    rintro rfl
    simp [hstart] at hx
  rw [← wordLexeme_append hall hrest, cons_append, lexeme]
  simp [hne '\n' rfl, hne '\r' rfl, hne ' ' rfl, hne '\t' rfl, hne '\x0c' rfl, hne '#' rfl,
    hne '"' rfl, hne '\'' rfl, hne '.' rfl, isDigit_of_isWordStart hstart, hstart]

/-- What stands after a leading zero is no letter of a base. -/
theorem numberLength_eq_decimalLength {cs : List Char}
    (h : ∀ c ∈ cs.tail.head?, ['x', 'X', 'o', 'O', 'b', 'B'].contains c = false) :
    numberLength cs = decimalLength cs := by
  have hbase : cs.tail.head?.any (['x', 'X', 'o', 'O', 'b', 'B'].contains ·) = false :=
    (Option.any_eq_false _ _).2 h
  rw [numberLength, hbase, Bool.and_false, Bool.false_and]
  rfl

theorem numberLength_append (hds : ∀ c ∈ ds, isDigit c = true) (hrest : Bounds rest) :
    numberLength (ds ++ rest) = ds.length := by
  have hdigits : ∀ c ∈ ds, isDigitOrLow c = true := fun c hc => by simp [isDigitOrLow, hds c hc]
  have hrun : run isDigitOrLow (ds ++ rest) = ds.length :=
    run_append hdigits fun c hc => (not_number_of_isBoundary (hrest c hc)).1
  have hdecimal : decimalLength (ds ++ rest) = ds.length := by
    rw [decimalLength, hrun, drop_left]
    cases rest with
    | nil => simp [fractionLength, exponentLength]
    | cons c rest =>
      have := not_number_of_isBoundary (hrest c rfl)
      simp [fractionLength, exponentLength, this.2.1, this.2.2.1, this.2.2.2.1]
  rcases ds with _ | ⟨d, ds⟩
  · cases rest with
    | nil => exact hdecimal
    | cons c rest =>
      have hzero : c ≠ '0' := by
        rintro rfl
        exact absurd (hrest '0' rfl) (by decide)
      rw [← hdecimal, numberLength]
      simp [hzero]
  -- what follows a leading zero is another digit or the start of the rest
  refine (numberLength_eq_decimalLength fun c hc => ?_).trans hdecimal
  cases ds with
  | nil => exact (not_number_of_isBoundary (hrest c hc)).2.2.2.2
  | cons y ds =>
    cases hc
    exact not_base_of_isDigit (hds c (by simp))

theorem lexeme_of_isDigit (h : isDigit c = true) (cs : List Char) :
    lexeme (c :: cs) = (.literal, numberLength (c :: cs)) := by
  have hne (x : Char) (hx : isDigit x = false) : c ≠ x := by
    rintro rfl
    simp [h] at hx
  rw [lexeme]
  simp [hne '\n' rfl, hne '\r' rfl, hne ' ' rfl, hne '\t' rfl, hne '\x0c' rfl, hne '#' rfl,
    hne '"' rfl, hne '\'' rfl, h]

theorem lexeme_number (hne : ds ≠ []) (hds : ∀ c ∈ ds, isDigit c = true) (hrest : Bounds rest) :
    lexeme (ds ++ rest) = (.literal, ds.length) := by
  rw [← numberLength_append hds hrest]
  cases ds with
  | nil => exact absurd rfl hne
  | cons c ds => exact lexeme_of_isDigit (hds c mem_cons_self) _

/-! ### Glyphs -/

/-- Whether some glyph goes on with `c` after `glyph`. -/
def isExtended (glyph : String) (c : Char) : Bool :=
  controls.any fun longer => (glyph.toList ++ [c]).isPrefixOf longer.toList

theorem isExtended_eq_false (h : ∀ longer ∈ controls, ¬ glyph.toList ++ [c] <+: longer.toList) :
    isExtended glyph c = false := by
  rw [isExtended, any_eq_false]
  exact fun longer hl => by simpa [ isPrefixOf_iff_prefix] using h longer hl

/-- The characters that stand in a glyph after its first one. -/
def continuations : List Char := ['=', '*', '/', '<', '>', '.']

theorem isExtended_of_not_mem (hglyph : glyph ∈ controls) (hc : c ∉ continuations) :
    isExtended glyph c = false := by
  have hlater : ∀ g ∈ controls, ∀ x ∈ g.toList.tail, x ∈ continuations := by
    decide
  refine isExtended_eq_false fun longer hl hpre => hc (hlater longer hl c ?_)
  obtain ⟨more, hmore⟩ := hpre
  have hne : glyph.toList ≠ [] := (by decide : ∀ g ∈ controls, g.toList ≠ []) glyph hglyph
  rw [← hmore, append_assoc, tail_append_of_ne_nil hne]
  simp

theorem Starts.isExtended (h : Starts cs) (hglyph : glyph ∈ controls) :
    ∀ c ∈ cs.head?, isExtended glyph c = false := by
  obtain ⟨c, hc, hstart⟩ := h
  intro x hx
  obtain rfl : c = x := Option.some.inj (hc.symm.trans hx)
  have hnot : ∀ x ∈ continuations, isStart x = false := by decide
  exact isExtended_of_not_mem hglyph fun hmem => by simp [hnot c hmem] at hstart

def closedGlyphs : List String := ["(", "[", "\x7b", ")", "]", "\x7d", ",", "~"]

theorem isExtended_of_mem_closedGlyphs (hglyph : glyph ∈ closedGlyphs) (c : Char) :
    isExtended glyph c = false := by
  have hlonger : ∀ g ∈ closedGlyphs, ∀ longer ∈ controls,
      g.toList <+: longer.toList → longer.toList.length ≤ g.toList.length := by
    decide
  refine isExtended_eq_false fun longer hl hpre => ?_
  have := hlonger glyph hglyph longer hl ((prefix_append ..).trans hpre)
  have := hpre.length_le
  rw [length_append, length_singleton] at this
  omega

/-- A glyph stands before the glyphs that are its beginnings. -/
theorem controls_pairwise : controls.Pairwise fun a b => ¬ a.toList <+: b.toList := by
  decide

theorem controlLexeme_append (hglyph : glyph ∈ controls)
    (hrest : ∀ c ∈ rest.head?, isExtended glyph c = false) :
    controlLexeme (glyph.toList ++ rest) = (.control, glyph.length) := by
  obtain ⟨before, after, hsplit⟩ := append_of_mem hglyph
  -- no glyph of the list before this one is a beginning of the text
  have hbefore : before.find? (fun g => g.toList.isPrefixOf (glyph.toList ++ rest)) = none := by
    rw [find?_eq_none]
    intro g hg hpre
    have hpair := controls_pairwise
    rw [hsplit, pairwise_append] at hpair
    have hnot := hpair.2.2 g hg glyph mem_cons_self
    rcases prefix_or_prefix_of_prefix ( isPrefixOf_iff_prefix.1 hpre)
      (prefix_append glyph.toList rest) with h | ⟨more, hmore⟩
    · exact hnot h
    · cases more with
      | nil => exact hnot (by simp [← hmore])
      | cons c more =>
        rw [ isPrefixOf_iff_prefix, ← hmore, prefix_append_right_inj] at hpre
        have hc : c ∈ rest.head? := by
          obtain ⟨tail, rfl⟩ := hpre
          rfl
        refine absurd (hrest c hc) ?_
        rw [Bool.not_eq_false, isExtended, any_eq_true]
        refine ⟨g, by simp [hsplit, hg], ?_⟩
        rw [ isPrefixOf_iff_prefix, ← hmore]
        exact ⟨more, by simp⟩
  rw [controlLexeme, hsplit, find?_append, hbefore, Option.none_or, find?_cons_of_pos (by simp)]

theorem lexeme_of_glyphStart
    (h : ['\n', '\r', ' ', '\t', '\x0c', '#', '"', '\''].contains c = false)
    (hdigit : isDigit c = false) (hword : isWordStart c = false)
    (hpoint : c = '.' → cs.head?.any isDigit = false) :
    lexeme (c :: cs) = controlLexeme (c :: cs) := by
  have hfraction : (decide (c = '.') && cs.head?.any isDigit) = false := by
    by_cases hc : c = '.'
    · simp [hpoint hc]
    · simp [hc]
  simp only [contains_cons, contains_nil, Bool.or_false, Bool.or_eq_false_iff,
    beq_eq_false_iff_ne] at h
  rw [lexeme]
  simp [h, hdigit, hword, hfraction]

theorem lexeme_glyph (hglyph : glyph ∈ controls) (hpoint : glyph.toList.head? ≠ some '.')
    (hrest : ∀ c ∈ rest.head?, isExtended glyph c = false) :
    lexeme (glyph.toList ++ rest) = (.control, glyph.toList.length) := by
  rw [String.length_toList, ← controlLexeme_append hglyph hrest]
  have hstarts : ∀ g ∈ controls, ∃ c ∈ g.toList.head?,
      ['\n', '\r', ' ', '\t', '\x0c', '#', '"', '\''].contains c = false ∧
        isDigit c = false ∧ isWordStart c = false := by
    decide
  obtain ⟨c, hc, hplain, hdigit, hword⟩ := hstarts glyph hglyph
  obtain ⟨cs, hcs⟩ := head?_eq_some_iff.1 (Option.mem_def.1 hc)
  rw [hcs, cons_append]
  exact lexeme_of_glyphStart hplain hdigit hword fun h => absurd (h ▸ hc) hpoint

theorem lexeme_point (hrest : ∃ c ∈ rest.head?, isWordStart c = true) :
    lexeme ('.' :: rest) = (.control, 1) := by
  obtain ⟨c, hc, hstart⟩ := hrest
  obtain ⟨cs, rfl⟩ := head?_eq_some_iff.1 (Option.mem_def.1 hc)
  rw [lexeme_of_glyphStart rfl rfl rfl fun _ => by simpa using isDigit_of_isWordStart hstart]
  have hpoint : "." ∈ controls := by decide
  have hnot : ∀ x ∈ continuations, isWordStart x = false := by decide
  have hnext : ∀ x ∈ (c :: cs).head?, isExtended "." x = false := by
    rintro _ ⟨⟩
    refine isExtended_of_not_mem hpoint fun hmem => ?_
    simp [hnot c hmem] at hstart
  exact controlLexeme_append hpoint hnext

def isSolid (kind : Kind) : Bool := kind == .name || kind == .literal || kind ==
    .control || kind == .unknown

theorem isSolid_lexeme (h : Starts cs) : isSolid (lexeme cs).1 = true := by
  obtain ⟨c, hc, hstart⟩ := h
  obtain ⟨cs, rfl⟩ := head?_eq_some_iff.1 (Option.mem_def.1 hc)
  have hstring (lead : Nat) (quote : Char) (cs : List Char) :
      isSolid (stringLexeme lead quote cs).1 = true := by
    rw [stringLexeme]
    split <;> rfl
  simp only [isStart, contains_cons, contains_nil, Bool.or_false, Bool.not_or,
    Bool.and_eq_true, Bool.not_eq_true', beq_eq_false_iff_ne] at hstart
  simp only [lexeme, hstart, Bool.false_and, decide_false, Bool.or_self, if_false,
    Bool.false_eq_true]
  split; · exact hstring 0 c cs
  split; · rfl
  split
  · rw [wordLexeme]
    split
    · split
      · exact hstring ..
      · rfl
    · rfl
  · rw [controlLexeme]
    split <;> rfl

/-! ### Quoted texts -/

/-- A text between quotes in which the string does not end: the quote and the end of a line stand
there only behind a backslash. -/
inductive Inside (quote : Char) : List Char → Prop
  | nil : Inside quote []
  | plain {c : Char} {cs : List Char} : c ≠ '\\' → c ≠ quote → c ≠ '\n' → Inside quote cs →
    Inside quote (c :: cs)
  | escaped {c : Char} {cs : List Char} : Inside quote cs → Inside quote ('\\' :: c :: cs)

variable {quote : Char}

theorem closing?_cons (h : c ≠ '\\') (cs : List Char) : closing? quote false (c :: cs) =
      if c = quote then some 1 else if c =
        '\n' then none else (closing? quote false cs).map (· + 1) := by
  rw [closing?]
  · simp
  · rintro rfl
    exact absurd rfl h
  · rintro _ _ rfl
    exact absurd rfl h

namespace Inside

variable {quote : Char} {ds : List Char}

theorem append (h : Inside quote cs) (h' : Inside quote ds) : Inside quote (cs ++ ds) := by
  induction h with
  | nil => exact h'
  | plain h1 h2 h3 _ ih => exact .plain h1 h2 h3 ih
  | escaped _ ih => exact .escaped ih

/-- The search for the end of a string goes through the text. -/
theorem closing?_append (h : Inside quote cs) (rest : List Char) :
    closing? quote false (cs ++ rest) = (closing? quote false rest).map (· + cs.length) := by
  induction h with
  | nil => simp
  | plain h1 h2 h3 _ ih =>
    rw [cons_append, closing?_cons h1, if_neg h2, if_neg h3, ih, Option.map_map]
    rfl
  | escaped _ ih =>
    rw [cons_append, cons_append, closing?, ih, Option.map_map]
    rfl

/-- If the quote after a text is the first that ends a string, it does not end in the text. -/
theorem of_closing? (h : closing? quote false (cs ++ [quote]) = some (cs.length + 1)) :
    Inside quote cs := by
  -- a backslash takes the next character with it
  induction hlen : cs.length using Nat.strongRecOn generalizing cs with
  | ind len ih =>
    subst hlen
    cases cs with
    | nil => exact .nil
    | cons c cs =>
      by_cases hc : c = '\\'
      · subst hc
        cases cs with
        | nil => simp [closing?] at h
        | cons c cs =>
          rw [cons_append, cons_append, closing?] at h
          obtain ⟨k, hk, hlen⟩ := Option.map_eq_some_iff.1 h
          have hinside : closing? quote false (cs ++ [quote]) = some (cs.length + 1) := by
            rw [hk, Option.some_inj]
            simp only [length_cons] at hlen
            omega
          exact .escaped (ih cs.length (by simp only [length_cons]; omega) hinside rfl)
      · rw [cons_append, closing?_cons hc] at h
        split at h
        · simp at h
        · next hne =>
          split at h
          · cases h
          · next hline =>
            obtain ⟨k, hk, hlen⟩ := Option.map_eq_some_iff.1 h
            have hinside : closing? quote false (cs ++ [quote]) = some (cs.length + 1) := by
              rw [hk, Option.some_inj]
              simpa using hlen
            exact .plain hc hne hline (ih cs.length (Nat.lt_succ_self _) hinside rfl)

theorem head?_ne (h : Inside quote cs) (hquote : quote ≠ '\\') : cs.head? ≠ some quote := by
  cases h with
  | nil => simp
  | plain _ hne => simpa using hne
  | escaped => simpa using hquote.symm

theorem not_triple (h : Inside quote cs) (hquote : quote ≠ '\\') {rest : List Char}
    (hrest : rest.head? ≠ some quote) :
    [quote, quote].isPrefixOf (cs ++ quote :: rest) = false := by
  have hhead := h.head?_ne hquote
  cases cs with
  | nil =>
    cases rest with
    | nil => simp [List.isPrefixOf]
    | cons c rest => simpa [List.isPrefixOf] using fun h => hrest (by rw [h, head?_cons])
  | cons c cs => simpa [List.isPrefixOf] using fun h => absurd (by rw [h, head?_cons]) hhead

end Inside

theorem plain_hexDigits : ∀ n < 0xa0, ∀ d ∈ Text.hexDigits 2 n, d ≠ '\\' ∧
    d ∉ ['\'', '"'] ∧ d ≠ '\n' := by
  set_option maxRecDepth 4000 in decide

theorem toNat_lt_of_isControl (h : Text.isControl c = true) : c.toNat < 0xa0 := by
  simp only [Text.isControl, Bool.or_eq_true, Bool.and_eq_true, decide_eq_true_eq] at h
  omega

theorem inside_escape (hquote : quote ∈ ['\'', '"']) (cs : List Char) :
    Inside quote (Text.escape quote cs) := by
  have hhex : ∀ ds : List Char, (∀ d ∈ ds, d ≠ '\\' ∧ d ∉ ['\'', '"'] ∧ d ≠ '\n') →
      Inside quote ds := by
    intro ds h
    induction ds with
    | nil => exact .nil
    | cons d ds ih =>
      rw [forall_mem_cons] at h
      exact .plain h.1.1 (fun heq => h.1.2.1 (heq ▸ hquote)) h.1.2.2 (ih h.2)
  induction cs with
  | nil => exact .nil
  | cons c cs ih =>
    rw [Text.escape, flatMap_cons, ← Text.escape]
    refine .append ?_ ih
    unfold Text.escapeChar
    split; · exact .escaped .nil
    split; · exact .escaped .nil
    split; · exact .escaped .nil
    split; · exact .escaped .nil
    split; · exact .escaped .nil
    split
    · next h => exact .escaped (hhex _ (plain_hexDigits _ (toNat_lt_of_isControl h)))
    · exact .plain ‹_› ‹_› ‹_› .nil

theorem stringLexeme_inside (lead : Nat) (hquote : quote ∈ ['\'', '"']) (h : Inside quote cs)
    (hrest : BoundsWord rest) :
    stringLexeme lead quote (cs ++ quote :: rest) = (.literal, lead + cs.length + 2) := by
  have hne : quote ≠ '\\' := fun heq => absurd (heq ▸ hquote) (by decide)
  have hhead : rest.head? ≠ some quote := by
    intro heq
    obtain ⟨-, hdouble, hsingle⟩ := not_isWord_of_bounds (hrest quote heq)
    simp_all
  rw [stringLexeme]
  simp only [h.not_triple hne hhead, Bool.false_eq_true, if_false, Nat.sub_self, drop_zero,
    h.closing?_append, closing?_cons hne, if_true, Option.map_some, Prod.mk.injEq, true_and]
  omega

def quotedBy (quote : Char) (s : String) : String :=
  String.ofList (quote :: Text.escape quote s.toList ++ [quote])

theorem lexeme_quoted (hquote : quote ∈ ['\'', '"']) (s : String) (hrest : BoundsWord rest) :
    lexeme ((quotedBy quote s).toList ++ rest) = (.literal, (quotedBy quote s).toList.length) := by
  have htext : (quotedBy quote s).toList ++ rest =
      quote :: (Text.escape quote s.toList ++ quote :: rest) := by
    simp [quotedBy]
  have hopen (cs : List Char) : lexeme (quote :: cs) = stringLexeme 0 quote cs := by
    simp only [List.mem_cons, List.not_mem_nil, or_false] at hquote
    rcases hquote with rfl | rfl <;> simp [lexeme]
  rw [htext, hopen, stringLexeme_inside 0 hquote (inside_escape hquote s.toList) hrest]
  simp [quotedBy]

end Token

end BlockScript
