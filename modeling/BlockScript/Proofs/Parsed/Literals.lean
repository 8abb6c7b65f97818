import BlockScript.Proofs.RoundTrip.Literals
import BlockScript.Proofs.Scanner

/-! Literal tokens. The scanner decides for three quotes or one where a string opens, and the
decoder by the length and the first characters of the whole token: they agree, so the decoder finds
the body that the scanner has read. -/

namespace BlockScript

open List

namespace Token

open Program.Literal Text

/-! ## Numbers -/

def isDecimal (c : Char) : Bool := isDigitOrLow c || ['.', 'e', 'E', '+', '-'].contains c

theorem forall_mem_take_run {p q : Char → Bool} (hpq : ∀ c, p c = true → q c = true)
    (cs : List Char) : ∀ c ∈ cs.take (run p cs), q c = true := by
  rw [take_length_takeWhile]
  exact fun c hc => hpq c (forall_mem_takeWhile c hc)

theorem isDecimal_digits (cs : List Char) :
    ∀ c ∈ cs.take (run isDigitOrLow cs), isDecimal c = true :=
  forall_mem_take_run (fun c hc => by simp [isDecimal, hc]) cs

theorem exists_of_any_head? {p : Char → Bool} {cs : List Char} (h : cs.head?.any p = true) :
    ∃ c rest, cs = c :: rest ∧ p c = true := by
  cases cs with
  | nil => cases h
  | cons c rest => exact ⟨c, rest, rfl, h⟩

theorem isDecimal_fraction (cs : List Char) :
    ∀ c ∈ cs.take (fractionLength cs), isDecimal c = true := by
  unfold fractionLength
  split
  · next h =>
    obtain ⟨_, cs, rfl, hc⟩ := exists_of_any_head? (Bool.and_eq_true_iff.1 h).1
    rw [Nat.add_comm, take_succ_cons]
    exact forall_mem_cons.2 ⟨by rw [eq_of_beq hc]; decide, isDecimal_digits _⟩
  · simp

theorem isDecimal_exponent (cs : List Char) :
    ∀ c ∈ cs.take (exponentLength cs), isDecimal c = true := by
  have hmarks : ∀ c ∈ ['e', 'E'], isDecimal c = true := by decide
  have hsigns : ∀ c ∈ ['+', '-'], isDecimal c = true := by decide
  rw [exponentLength]
  generalize hsign : (if cs.tail.head?.any (['+', '-'].contains ·) then 1 else 0) = sign
  split
  · next h =>
    obtain ⟨e, cs, rfl, he⟩ := exists_of_any_head? (Bool.and_eq_true_iff.1 h).1
    rw [Nat.add_assoc, Nat.add_comm 1, take_succ_cons]
    refine forall_mem_cons.2 ⟨hmarks e (contains_iff_mem.1 he), ?_⟩
    rw [tail_cons] at hsign ⊢
    split at hsign
    · next hhead =>
      obtain ⟨s, cs, rfl, hs⟩ := exists_of_any_head? hhead
      rw [← hsign, Nat.add_comm, drop_one, tail_cons, take_succ_cons]
      exact forall_mem_cons.2 ⟨hsigns s (contains_iff_mem.1 hs), isDecimal_digits cs⟩
    · rw [← hsign, Nat.zero_add, drop_zero]
      exact isDecimal_digits cs
  · simp

theorem isDecimal_decimal (cs : List Char) :
    ∀ c ∈ cs.take (decimalLength cs), isDecimal c = true := by
  unfold decimalLength
  dsimp only
  rw [take_add, take_add]
  exact forall_mem_append.2
    ⟨forall_mem_append.2 ⟨isDecimal_digits cs, isDecimal_fraction _⟩, isDecimal_exponent _⟩

theorem forall_mem_number (cs : List Char) : (∀ c ∈ cs.take (numberLength cs), isDecimal c = true) ∨
      ∀ c ∈ cs.take (numberLength cs), isWord c = true := by
  unfold numberLength
  dsimp only
  split
  · next h =>
    have hbase : ∀ x ∈ ['x', 'X', 'o', 'O', 'b', 'B'], isWord x = true := by decide
    simp only [Bool.and_eq_true] at h
    obtain ⟨zero, cs, rfl, hzero⟩ := exists_of_any_head? h.1.1
    obtain ⟨x, rest, rfl, hx⟩ := exists_of_any_head? h.1.2
    refine .inr ?_
    rw [Nat.add_comm, take_succ_cons, take_succ_cons]
    refine forall_mem_cons.2 ⟨by rw [eq_of_beq hzero]; decide,
      forall_mem_cons.2 ⟨hbase x (contains_iff_mem.1 hx), ?_⟩⟩
    refine forall_mem_take_run (fun c hc => ?_) _
    simp only [isAlphanumeric, Bool.or_eq_true, beq_iff_eq] at hc
    simp only [isWord, isWordStart, Bool.or_eq_true, beq_iff_eq]
    rcases hc with (hc | hc) | hc
    · exact .inl (.inl hc)
    · exact .inr hc
    · exact .inl (.inr hc)
  · exact .inl (isDecimal_decimal _)

theorem not_isQuote_of_mem_number (cs : List Char) :
    ∀ c ∈ cs.take (numberLength cs), (!isQuote c) = true := by
  have hnot (p : Char → Bool) (hp : ∀ q ∈ ['"', '\''], p q = false) {c : Char} (hc : p c = true) :
      (!isQuote c) = true := by
    cases hquote : isQuote c with
    | false => rfl
    | true => simp [hp c (by simpa [isQuote] using hquote)] at hc
  rcases forall_mem_number cs with hall | hall
  · exact fun c hc => hnot isDecimal (by decide) (hall c hc)
  · exact fun c hc => hnot isWord (by decide) (hall c hc)

/-! ## String literals -/

variable {quote : Char} {triple : Bool} {letters body after cs source : List Char} {c : Cursor}
  {t : Token} {n : Nat}

theorem closing?_eq_some (h : closing? quote triple cs = some n) : ∃ body after,
    cs = body ++ (delimiter quote triple ++ after) ∧
    (body ++ delimiter quote triple).length = n := by
  fun_induction closing? quote triple cs generalizing n with
  | case1 | case2 | case7 => cases h
  | case3 d cs ih =>
    obtain ⟨m, hm, rfl⟩ := Option.map_eq_some_iff.1 h
    obtain ⟨body, after, rfl, rfl⟩ := ih hm
    exact ⟨'\\' :: d :: body, after, rfl, rfl⟩
  | case4 cs htriple =>
    cases h
    rw [delimiter, if_neg (by simpa using htriple)]
    exact ⟨[], cs, rfl, rfl⟩
  | case5 cs htriple hprefix =>
    obtain ⟨after, rfl⟩ := isPrefixOf_iff_prefix.1 hprefix
    cases h
    rw [delimiter, if_pos (by simpa using htriple)]
    exact ⟨[], after, rfl, rfl⟩
  | case6 cs _ _ _ _ ih | case8 c cs _ _ _ _ ih =>
    obtain ⟨m, hm, rfl⟩ := Option.map_eq_some_iff.1 h
    obtain ⟨body, after, rfl, rfl⟩ := ih hm
    exact ⟨_ :: body, after, rfl, rfl⟩

/-- How the scanner reads a quoted text: it decides for three quotes or one where the text opens,
and ends it where it first finds as many again. -/
structure Delimits (quote : Char) (triple : Bool) (body after : List Char) : Prop where
  opens : [quote, quote, quote].isPrefixOf (quoted quote triple body ++ after) = triple
  closes : closing? quote triple (body ++ (delimiter quote triple ++ after)) =
    some (body ++ delimiter quote triple).length

theorem length_delimiter (quote : Char) (triple : Bool) :
    (delimiter quote triple).length = if triple then 3 else 1 := by
  cases triple <;> rfl

theorem exists_delimits {lead : Nat} (h : stringLexeme lead quote cs = (.literal, n)) :
    ∃ triple body after, quote :: cs = quoted quote triple body ++ after ∧
      Delimits quote triple body after ∧ n = lead + (quoted quote triple body).length := by
  obtain ⟨triple, htriple⟩ : ∃ triple, [quote, quote].isPrefixOf cs = triple := ⟨_, rfl⟩
  have hopening : quote :: cs = delimiter quote triple ++
      cs.drop ((delimiter quote triple).length - 1) := by
    cases triple with
    | false => rfl
    | true =>
      obtain ⟨rest, rfl⟩ := isPrefixOf_iff_prefix.1 htriple
      rfl
  rw [stringLexeme, htriple, ← length_delimiter quote triple] at h
  generalize cs.drop ((delimiter quote triple).length - 1) = rest at h hopening
  cases hclosing : closing? quote triple rest with
  | none => simp [hclosing] at h
  | some m =>
    rw [hclosing] at h
    cases h
    obtain ⟨body, after, rfl, rfl⟩ := closing?_eq_some hclosing
    refine ⟨triple, body, after, by simpa [quoted] using hopening, ⟨?_, hclosing⟩, ?_⟩
    · have hopens : [quote, quote, quote].isPrefixOf (quote :: cs) =
          triple := by simpa [isPrefixOf] using htriple
      simpa [quoted, hopening] using hopens
    · simp only [quoted, length_append]
      omega

theorem getLast?_stringLexeme {lead : List Char}
    (h : stringLexeme lead.length quote cs = (.literal, n)) :
    ((lead ++ quote :: cs).take n).getLast? = some quote := by
  obtain ⟨triple, body, after, hcs, -, rfl⟩ := exists_delimits h
  rw [hcs, ← append_assoc, ← length_append, take_left]
  cases triple <;> simp [quoted, delimiter, getLast?_cons]

/-- The literals before a text: numbers, and quoted texts after letters that mark them. -/
inductive IsLiteral (after : List Char) : List Char → Prop where
  | number {x : Char} {cs text : List Char} (hx : isDigit x = true ∨ x = '.' ∧
      cs.head?.any isDigit = true)
    (hcs : text ++ after = x :: cs) (htext : text = (x :: cs).take (numberLength (x :: cs))) :
    IsLiteral after text
  | string {letters body : List Char} {quote : Char} {triple : Bool}
      (hletters : isLead letters = true)
    (hquote : isQuote quote = true) (h : Delimits quote triple body after) :
    IsLiteral after (letters ++ quoted quote triple body)

theorem isLiteral_lexeme (h : (lexeme cs).1 = .literal) :
    IsLiteral (cs.drop (lexeme cs).2) (cs.take (lexeme cs).2) := by
  have hlexed := lexed cs
  generalize lexeme cs = x at hlexed h ⊢
  cases hlexed with
  | number hc => exact .number hc (take_append_drop ..) rfl
  | string hlead hquote hstring =>
    obtain ⟨triple, body, after, hcs, hdelimits, rfl⟩ := exists_delimits hstring
    rw [hcs, ← append_assoc, ← length_append, take_left, drop_left]
    exact .string hlead (by simpa [isQuote] using hquote) hdelimits
  | _ => cases h

/-! ## The tokens of a text -/

def texts (ts : List Token) : List Char := ts.flatMap (·.text.toList)

@[simp] theorem texts_nil : texts [] = [] := rfl

@[simp] theorem texts_cons (t : Token) (ts : List Token) :
    texts (t :: ts) = t.text.toList ++ texts ts := rfl

@[simp] theorem texts_append (ts us : List Token) : texts (ts ++ us) = texts ts ++ texts us :=
  flatMap_append

namespace Cursor

theorem texts_tokens (c : Cursor) : texts c.tokens = c.rest := by
  fun_induction tokens c with
  | case1 c h =>
    have hsplit := c.scan_rest
    rw [scan_rest_of_isEof h, eq_comm, append_eq_nil_iff] at hsplit
    simp [hsplit.1, scan_rest_of_isEof h]
  | case2 c h ih =>
    rw [texts_cons, ih]
    exact c.scan_rest.symm

theorem scan_of_tokens_eq {after : List Token} (h : c.tokens = t :: after) : c.scan.1 = t := by
  rw [tokens] at h
  split at h <;> exact (cons.inj h).1

theorem exists_tokens_eq {before after : List Token} (h : c.tokens = before ++ t :: after) :
    ∃ c' : Cursor, c'.tokens = t :: after ∧ c'.pos = c.pos.advance (texts before) := by
  induction before generalizing c with
  | nil => exact ⟨c, h, rfl⟩
  | cons b before ih =>
    rw [tokens] at h
    split at h
    · simp at h
    · obtain ⟨rfl, htail⟩ := cons.inj h
      obtain ⟨c', htokens, hpos⟩ := ih htail
      exact ⟨c', htokens, by rw [hpos, c.scan_pos.2, texts_cons, Position.advance_append]⟩

end Cursor

theorem texts_tokenize (source : List Char) : texts (tokenize source) = source :=
  (Cursor.atStart source).texts_tokens

structure IsRead (source : List Char) (t : Token) (c : Cursor) (before : List Char) : Prop where
  split : source = before ++ c.rest
  pos : c.pos = Position.start.advance before
  token : t = c.scan.1

theorem IsRead.pos_eq {before : List Char} (h : IsRead source t c before) :
    t.pos = Position.start.advance before := by
  rw [h.token, c.scan_pos.1, h.pos]

theorem exists_isRead (ht : t ∈ tokenize source) : ∃ c before, IsRead source t c before := by
  obtain ⟨earlier, later, h⟩ := append_of_mem ht
  obtain ⟨c, hc, hpos⟩ := Cursor.exists_tokens_eq h
  refine ⟨c, texts earlier, ?_, hpos, (Cursor.scan_of_tokens_eq hc).symm⟩
  rw [← c.texts_tokens, hc, ← texts_append, ← h, texts_tokenize]

theorem Cursor.isLiteral_scan (h : c.scan.1.kind = .literal) :
    IsLiteral c.scan.2.rest c.scan.1.text.toList := by
  obtain ⟨hlexeme, htext⟩ := scan_eq_lexeme (c := c) (by simp [h]) (by simp [h])
  have hrest := c.scan_rest
  rw [htext, String.toList_ofList] at hrest ⊢
  rw [append_cancel_left (hrest.symm.trans (take_append_drop (lexeme c.rest).2 c.rest).symm)]
  exact isLiteral_lexeme (hlexeme ▸ h)

theorem not_isQuote_of_isLead (h : isLead letters = true) : ∀ c ∈ letters, (!isQuote c) = true := by
  have hall : ∀ c ∈ ['b', 'B', 'r', 'R', 'f', 'F', 'u', 'U'], (!isQuote c) = true := by decide
  simp only [isLead, Bool.and_eq_true, all_eq_true, contains_iff_mem] at h
  exact fun c hc => hall c (h.2 c hc)

theorem Delimits.isPrefixOf_quoted (h : Delimits quote triple body after) :
    [quote, quote, quote].isPrefixOf (quoted quote triple body) = triple := by
  cases triple with
  | true => simp [quoted, delimiter]
  | false =>
    rw [Bool.eq_false_iff, Ne, isPrefixOf_iff_prefix]
    intro hquotes
    have hopens := isPrefixOf_iff_prefix.2 (hquotes.trans (prefix_append _ after))
    rw [h.opens] at hopens
    cases hopens

/-- How the decoder reads a quoted text after letters: it finds the body, and the bytes at which it
cuts, chosen by the length and the first characters of the text, are in range and between
characters. -/
structure Opened (letters : List Char) (quote : Char) (triple : Bool) (body : List Char) :
    Prop where
  split : splitQuoted? (letters ++ quoted quote triple body) = some (letters, body)
  width : (if 6 ≤ byteSize (quoted quote triple body) && [quote, quote, quote].isPrefixOf
    (quoted quote triple body)
    then 3 else 1) = (delimiter quote triple).length
  range : 2 * (delimiter quote triple).length ≤ byteSize (quoted quote triple body)
  slice : slice? (delimiter quote triple).length
    (byteSize (quoted quote triple body) - (delimiter quote triple).length)
      (quoted quote triple body) = some body

theorem length_le_byteSize (text : List Char) : text.length ≤ byteSize text := by
  induction text with
  | nil => exact Nat.le_refl 0
  | cons c cs ih =>
    have := c.utf8Size_pos
    simp only [byteSize, foldr_cons, length_cons] at ih ⊢
    omega

theorem Delimits.opened (h : Delimits quote triple body after) (hletters : isLead letters = true)
    (hquote : isQuote quote = true) : Opened letters quote triple body := by
  have hopens := h.isPrefixOf_quoted
  have hdelimiter : byteSize (delimiter quote triple) = (delimiter quote triple).length := by
    simp only [isQuote, Bool.or_eq_true, beq_iff_eq] at hquote
    rcases hquote with rfl | rfl <;> cases triple <;> rfl
  have hsize : byteSize (quoted quote triple body) =
      byteSize (delimiter quote triple ++ body) + (delimiter quote triple).length := by
    rw [quoted, byteSize_append, byteSize_append, byteSize_append, hdelimiter, Nat.add_assoc]
  refine ⟨splitQuoted?_quoted (not_isQuote_of_isLead hletters) hquote hopens,
    width_eq hopens ?_, ?_, ?_⟩
  · exact length_le_byteSize _
  · rw [hsize, byteSize_append, hdelimiter]
    omega
  · rw [hsize, Nat.add_sub_cancel, ← hdelimiter]
    exact slice?_byteSize ..

/-- The scanner and the decoder agree on every literal of a text. -/
theorem literal_of_mem_tokenize (ht : t ∈ tokenize source) (hkind : t.kind = .literal) :
    ∃ before after, source = before ++ (t.text.toList ++ after) ∧
      t.pos = Position.start.advance before ∧
      ((∃ x cs, t.text.toList ++ after = x :: cs ∧
      (isDigit x = true ∨ x = '.' ∧ cs.head?.any isDigit = true) ∧
          t.text.toList = (x :: cs).take (numberLength (x :: cs)) ∧
            splitQuoted? t.text.toList = none) ∨
        ∃ letters quote triple body, isLead letters = true ∧ isQuote quote = true ∧
          Delimits quote triple body after ∧ t.text.toList = letters ++ quoted quote triple body ∧
          Opened letters quote triple body) := by
  obtain ⟨c, before, hread⟩ := exists_isRead ht
  have hsplit : c.rest = t.text.toList ++ c.scan.2.rest := hread.token ▸ c.scan_rest
  have hliteral : IsLiteral c.scan.2.rest t.text.toList := by
    rw [hread.token] at hkind ⊢
    exact c.isLiteral_scan hkind
  refine ⟨before, c.scan.2.rest, hsplit ▸ hread.split, hread.pos_eq, ?_⟩
  generalize t.text.toList = text at hliteral ⊢
  cases hliteral with
  | number hx hcs htext =>
    refine .inl ⟨_, _, hcs, hx, htext, ?_⟩
    rw [htext]
    exact splitQuoted?_eq_none (not_isQuote_of_mem_number _)
  | string hletters hquote h =>
    exact .inr ⟨_, _, _, _, hletters, hquote, h, rfl, h.opened hletters hquote⟩

theorem literal_of_mem_tokenize_markedText :
    ∃ t ∈ tokenize "f'''it\\''s'''1".toList, ∃ letters quote triple body,
      t.text.toList = letters ++ quoted quote triple body ∧ Opened letters quote triple body := by
  have ht : (⟨.literal, "f'''it\\''s'''", .start⟩ : Token) ∈ tokenize "f'''it\\''s'''1".toList := by
    with_unfolding_all decide
  obtain ⟨before, after, -, -, ⟨x, cs, htext, hx, -⟩ | ⟨letters, quote, triple, body,
    -, -, -, htext, h⟩⟩ :=
    literal_of_mem_tokenize ht rfl
  · obtain rfl : 'f' = x := (List.cons.inj htext).1
    rcases hx with hx | ⟨hx, -⟩ <;> exact absurd hx (by decide)
  · exact ⟨_, ht, letters, quote, triple, body, htext, h⟩

end Token

end BlockScript
