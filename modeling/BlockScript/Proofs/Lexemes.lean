import BlockScript.Proofs.RoundTrip.Tokens

/-! What the texts of tokens are made of, by kind: names are words, and layout stays on its line. -/

namespace BlockScript.Token

/-- The first token of a text, kind by kind. -/
inductive Lexed : List Char → Kind × Nat → Prop where
  | eof : Lexed [] (.eof, 0)
  | newline (cs : List Char) : Lexed ('\n' :: cs) (.newline, 1)
  | returnNewline (cs : List Char) : Lexed ('\r' :: '\n' :: cs) (.newline, 2)
  | blanks (cs : List Char) :
    Lexed cs (.whitespace, run (fun c => c == ' ' || c == '\t' || c == '\x0c') cs)
  | loneReturn (cs : List Char) : Lexed ('\r' :: cs) (.whitespace, 1)
  | comment (cs : List Char) : Lexed cs (.comment, run (· != '\n') cs)
  | number {c : Char} {cs : List Char} (hc : isDigit c = true ∨ c = '.' ∧
      cs.head?.any isDigit = true) :
    Lexed (c :: cs) (.literal, numberLength (c :: cs))
  | string {lead cs : List Char} {quote : Char} {n : Nat} (hlead : isLead lead = true)
    (hquote : quote = '"' ∨ quote = '\'') (h : stringLexeme lead.length quote cs = (.literal, n)) :
    Lexed (lead ++ quote :: cs) (.literal, n)
  | name {c : Char} {cs : List Char} (hc : isWordStart c = true) :
      Lexed (c :: cs) (.name, run isWord (c :: cs))
  | control {glyph : String} (cs : List Char) (hglyph : glyph ∈ controls) :
    Lexed (glyph.toList ++ cs) (.control, glyph.length)
  | unknown {c : Char} (cs : List Char) (hc : c ≠ '\n') : Lexed (c :: cs) (.unknown, 1)

theorem lexed_string {lead : List Char} {quote : Char} (cs : List Char) (hlead : isLead lead = true)
    (hquote : quote = '"' ∨ quote = '\'') :
    Lexed (lead ++ quote :: cs) (stringLexeme lead.length quote cs) := by
  cases hx : stringLexeme lead.length quote cs with
  | mk kind n =>
    have hx' := hx
    rw [stringLexeme] at hx'
    split at hx'
    · cases hx'
      exact .string hlead hquote hx
    · cases hx'
      cases lead with
      | nil => exact .unknown cs (by rcases hquote with rfl | rfl <;> decide)
      | cons c lead =>
        refine .unknown _ ?_
        rintro rfl
        simp [isLead] at hlead

theorem lexed (cs : List Char) : Lexed cs (lexeme cs) := by
  cases cs with
  | nil => exact .eof
  | cons c cs =>
    have hform := lexeme_form c cs
    generalize lexeme (c :: cs) = x at hform ⊢
    cases hform with
    | newline hc => exact hc ▸ .newline cs
    | returnNewline hc hcs =>
      obtain ⟨rest, rfl⟩ := List.isPrefixOf_iff_prefix.1 hcs
      exact hc ▸ .returnNewline rest
    | blanks => exact .blanks _
    | loneReturn hc => exact hc ▸ .loneReturn cs
    | comment => exact .comment _
    | string hc => exact @lexed_string [] _ cs rfl hc
    | number hc => exact .number hc
    | word hc =>
      have hsplit := List.prefix_iff_eq_append.1 ( List.takeWhile_prefix isWord (l := c :: cs))
      unfold wordLexeme
      dsimp only
      split
      · next q rest hdrop =>
        split
        · next hq =>
          simp only [Bool.and_eq_true, Bool.or_eq_true, beq_iff_eq] at hq
          have hstring := lexed_string rest hq.2 hq.1
          rwa [← hdrop, hsplit] at hstring
        · exact .name hc
      · exact .name hc
    | control hc =>
      unfold controlLexeme
      split
      · next glyph hfind =>
        obtain ⟨rest, hrest⟩ : glyph.toList <+: c :: cs := by simpa using List.find?_some hfind
        exact hrest ▸ .control rest (List.mem_of_find?_eq_some hfind)
      · exact .unknown cs hc

theorem lexeme_ne_indent (cs : List Char) : (lexeme cs).1 ≠ .indent := by
  have hlexed := lexed cs
  generalize lexeme cs = x at hlexed
  cases hlexed <;> exact nofun

theorem take_length_takeWhile (p : Char → Bool) (cs : List Char) :
    cs.take (run p cs) = cs.takeWhile p :=
  (List.prefix_iff_eq_take.1 ( List.takeWhile_prefix p)).symm

variable {cs : List Char} {c : Cursor}

theorem forall_mem_takeWhile {p : Char → Bool} : ∀ c ∈ cs.takeWhile p, p c = true :=
  List.all_eq_true.1 List.all_takeWhile

theorem isWord_of_lexeme (h : (lexeme cs).1 = .name) : IsWord (cs.take (lexeme cs).2) := by
  have hlexed := lexed cs
  generalize lexeme cs = x at hlexed h ⊢
  cases hlexed with
  | @name c cs hc =>
    rw [take_length_takeWhile]
    refine ⟨⟨c, ?_, hc⟩, forall_mem_takeWhile⟩
    rw [List.takeWhile_cons_of_pos (by simp [isWord, hc])]
    rfl
  | _ => cases h

theorem scan_eq_lexeme (hindent : c.scan.1.kind ≠ .indent) (heof : c.scan.1.kind ≠ .eof) :
    c.scan.1.kind = (lexeme c.rest).1 ∧
    c.scan.1.text = String.ofList (c.rest.take (lexeme c.rest).2) := by
  have hscan : c.scan.1 = ⟨c.upcoming.1, String.ofList (c.rest.take c.upcoming.2), c.pos⟩ := rfl
  have hupcoming : c.upcoming = lexeme c.rest := by
    rw [hscan, Cursor.upcoming] at hindent heof
    rw [Cursor.upcoming]
    split
    · next h => simp [h] at heof
    · next h =>
      split
      · next h' => simp [h, h'] at hindent
      · rfl
  rw [hscan, hupcoming]
  exact ⟨rfl, rfl⟩

theorem Cursor.isWord_scan (h : c.scan.1.kind = .name) : IsWord c.scan.1.text.toList := by
  obtain ⟨hlexeme, htext⟩ := scan_eq_lexeme (c := c) (by simp [h]) (by simp [h])
  rw [htext, String.toList_ofList]
  exact isWord_of_lexeme (hlexeme ▸ h)

/-! ## Layout -/

theorem newline_notMem_take_run {p : Char → Bool} (hp : p '\n' = false) (cs : List Char) :
    '\n' ∉ cs.take (run p cs) := by
  rw [take_length_takeWhile]
  intro h
  have := forall_mem_takeWhile _ h
  rw [hp] at this
  cases this

theorem newline_notMem_lexeme (h : (lexeme cs).1 = .whitespace ∨ (lexeme cs).1 = .comment) :
    '\n' ∉ cs.take (lexeme cs).2 := by
  have hlexed := lexed cs
  generalize lexeme cs = x at hlexed h ⊢
  cases hlexed with
  | blanks | comment => exact newline_notMem_take_run (by decide) _
  | loneReturn => simp
  | _ => simp at h

/-- Layout that never ends a statement has no line break. -/
theorem Cursor.newline_notMem_scan (h : c.scan.1.isIgnorable false = true) :
    '\n' ∉ c.scan.1.text.toList := by
  have hkind : c.scan.1.kind = .indent ∨ c.scan.1.kind = .whitespace ∨
      c.scan.1.kind = .comment := by
    simpa [isIgnorable, layout] using h
  rcases hkind with hindent | hkind
  · have hscan : c.scan.1 = ⟨c.upcoming.1, String.ofList (c.rest.take c.upcoming.2), c.pos⟩ := rfl
    rw [hscan, String.toList_ofList]
    rw [hscan] at hindent
    unfold upcoming at hindent ⊢
    split
    · simp
    · next hne =>
      split
      · exact newline_notMem_take_run (by decide) _
      · next hstart =>
        rw [if_neg hne, if_neg hstart] at hindent
        exact absurd hindent (lexeme_ne_indent _)
  · obtain ⟨hlexeme, htext⟩ := scan_eq_lexeme (c := c) (by rcases hkind with h | h <;> simp [h])
      (by rcases hkind with h | h <;> simp [h])
    rw [htext, String.toList_ofList]
    exact newline_notMem_lexeme (hlexeme ▸ hkind)

end BlockScript.Token
