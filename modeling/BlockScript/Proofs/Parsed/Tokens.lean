import BlockScript.Proofs.ClosureIds
import BlockScript.Proofs.Parsed.Literals
import BlockScript.Proofs.Parsed.Run

/-! The texts of tokens: numbers have no sign, and the tokens of a text stand at different
places. -/

namespace BlockScript

open List

variable {i : Int64}

namespace Program.Literal

open Token

theorem eq_of_toLower_eq_hyphen {c : Char} (h : c.toLower = '-') : c = '-' := by
  unfold Char.toLower at h
  split at h
  · next hc =>
    have hval := congrArg (fun c => c.val.toNat) h
    have hlow := UInt32.le_iff_toNat_le.1 hc.1
    have hhigh := UInt32.le_iff_toNat_le.1 hc.2
    simp [UInt32.toNat_add] at hval hlow hhigh
    omega
  · exact h

theorem isDecimal_toLower {c : Char} (h : isDecimal c = true) : isDecimal c.toLower = true := by
  by_cases hdigit : isDigit c = true
  · have hc : c.toLower = c := by
      simp only [isDigit, Bool.and_eq_true, decide_eq_true_eq] at hdigit
      refine dif_neg fun hc => ?_
      exact absurd (Char.le_trans hc.1 hdigit.2) (by decide)
    rw [hc]
    exact h
  · simp only [isDecimal, isDigitOrLow, hdigit, Bool.false_or, Bool.or_eq_true, beq_iff_eq,
      contains_iff_mem] at h
    have hall : ∀ c ∈ ['_', '.', 'e', 'E', '+', '-'], isDecimal c.toLower = true := by decide
    exact hall c (mem_cons.2 h)

variable {cs : List Char} {n : Int}

theorem nonneg_of_integer? {radix : Nat} (hcs : cs.head? ≠ some '-')
    (h : Number.integer? radix cs = some n) : 0 ≤ n := by
  unfold Number.integer? at h
  split at h
  · simp at hcs
  all_goals
    obtain ⟨k, -, rfl⟩ := Option.map_eq_some_iff.1 h
    exact Int.natCast_nonneg k

theorem nonneg_of_word? (hn : 0 ≤ n) (h : Number.word? n = some i) : 0 ≤ i.toInt := by
  unfold Number.word? at h
  split at h
  · next hbounds =>
    cases h
    rw [Int64.toInt_ofInt_of_le hbounds.1 (Int.lt_add_one_of_le hbounds.2)]
    exact hn
  · cases h

theorem mem_clean {p : Char → Prop} {text : List Char} {c : Char}
    (hp : ∀ c ∈ text, p c) (hc : c ∈ Number.lowerAscii (text.filter (· ≠ '_'))) :
    ∃ x, p x ∧ c = x.toLower := by
  obtain ⟨x, hx, rfl⟩ := mem_map.1 hc
  exact ⟨x, hp x (mem_filter.1 hx).1, rfl⟩

theorem eq_of_basePrefix? {digits : List Char} {base : Nat}
    (h : basePrefix? cs = some (base, digits)) :
    ∃ x ∈ ['x', 'o', 'b'], cs = '0' :: x :: digits := by
  unfold basePrefix? at h
  split at h <;> cases h <;> exact ⟨_, by decide, rfl⟩

theorem nonneg_of_number {c : Char} (hc : isDigit c = true ∨ c = '.')
    (hchars : (∀ x ∈ c :: cs, isDecimal x = true) ∨ ∀ x ∈ c :: cs, isWord x = true)
    (h : number (String.ofList (c :: cs)) = .ok (.int i)) : 0 ≤ i.toInt := by
  have hhead : (Number.lowerAscii ((c :: cs).filter (· ≠ '_'))).head? ≠ some '-' := by
    have hlow : c ≠ '_' := by
      rintro rfl
      rcases hc with hc | hc <;> simp [isDigit] at hc
    have hminus : c ≠ '-' := by
      rintro rfl
      rcases hc with hc | hc <;> simp [isDigit] at hc
    rw [filter_cons_of_pos (by simpa using hlow)]
    simp only [Number.lowerAscii, map_cons, head?_cons, ne_eq, Option.some.injEq]
    exact fun hlower => hminus (eq_of_toLower_eq_hyphen hlower)
  rw [number, String.toList_ofList] at h
  split at h
  · next base digits hbase =>
    obtain ⟨x, hx, hclean⟩ := eq_of_basePrefix? hbase
    split at h
    · next i' hi =>
      cases h
      obtain ⟨n, hn, hi⟩ := Option.bind_eq_some_iff.1 hi
      refine nonneg_of_word? (nonneg_of_integer? ?_ hn) hi
      intro hdigits
      have hmem (y : Char) (hy : y ∈ '0' :: x :: digits) :
          y ∈ Number.lowerAscii ((c :: cs).filter (· ≠ '_')) := hclean ▸ hy
      rcases hchars with hchars | hchars
      · -- No character of a decimal number names a base.
        obtain ⟨y, hy, rfl⟩ := mem_clean hchars (hmem x (by simp))
        have hbases : ∀ x ∈ ['x', 'o', 'b'], isDecimal x = false := by decide
        have hnot := hbases y.toLower hx
        rw [isDecimal_toLower hy] at hnot
        cases hnot
      · -- A letter or digit is no sign.
        obtain ⟨y, hy, hyminus⟩ := mem_clean hchars (hmem '-' (by simp [mem_of_mem_head? hdigits]))
        rw [eq_of_toLower_eq_hyphen hyminus.symm] at hy
        revert hy
        decide
    · cases h
  · split at h
    · split at h <;> cases h
    · split at h
      · cases h
      · next n hn =>
        split at h
        · next i' hi =>
          cases h
          exact nonneg_of_word? (nonneg_of_integer? hhead hn) hi
        · cases h

end Program.Literal

namespace Token

variable {cs source before : List Char} {c : Cursor} {t : Token}

/-! ## The tokens of a text -/

theorem IsRead.word (h : IsRead source t c before) (hkind : t.kind = .name) :
    IsWord t.text.toList := by
  rw [h.token] at hkind ⊢
  exact c.isWord_scan hkind

theorem IsRead.number (h : IsRead source t c before) (hkind : t.kind = .literal)
    (hquoted : Program.Literal.splitQuoted? t.text.toList = none)
    (hi : Program.Literal.number t.text = .ok (.int i)) : 0 ≤ i.toInt := by
  have hliteral := c.isLiteral_scan (h.token ▸ hkind)
  rw [← h.token] at hliteral
  rw [← String.ofList_toList (s := t.text)] at hi
  generalize t.text.toList = text at hliteral hquoted hi
  cases hliteral with
  | @number x cs _ hx _ htext =>
    obtain ⟨k, hk⟩ : ∃ k, numberLength (x :: cs) = k + 1 :=
      ⟨numberLength (x :: cs) - 1, by have := numberLength_pos hx; omega⟩
    have hchars := forall_mem_number (x :: cs)
    rw [hk, take_succ_cons] at hchars
    rw [htext, hk, take_succ_cons] at hi
    exact Program.Literal.nonneg_of_number (hx.imp id And.left) hchars hi
  | string hletters hquote hdelimits =>
    rw [(hdelimits.opened hletters hquote).split] at hquoted
    cases hquoted

theorem pos_of_mem_tokens (ht : t ∈ c.tokens) : ∃ gap, t.pos = c.pos.advance gap := by
  obtain ⟨earlier, later, h⟩ := append_of_mem ht
  obtain ⟨c', hc, hpos⟩ := Cursor.exists_tokens_eq h
  exact ⟨texts earlier, by rw [← Cursor.scan_of_tokens_eq hc, c'.scan_pos.1, hpos]⟩

theorem scan_text_ne_nil (hindent : c.scan.1.kind ≠ .indent) (heof : c.scan.1.isEof = false) :
    c.scan.1.text.toList ≠ [] := by
  have hne : c.rest ≠ [] := by
    rintro h
    simp [Cursor.scan_isEof, h] at heof
  have hkind : c.scan.1.kind ≠ .eof := by
    rintro h
    simp [isEof, h] at heof
  rw [(scan_eq_lexeme hindent hkind).2, String.toList_ofList]
  have hpos := lexeme_pos hne
  intro hnil
  rcases take_eq_nil_iff.1 hnil with h | h
  · omega
  · exact hne h

open Program in
theorem hasEnd_tokens (c : Cursor) : Parse.HasEnd c.tokens := by
  fun_induction Cursor.tokens c with
  | case1 c h => exact ⟨c.scan.1, mem_singleton.2 rfl, h⟩
  | case2 c h ih =>
    obtain ⟨t, ht, heof⟩ := ih
    exact ⟨t, mem_cons_of_mem _ ht, heof⟩

open Program in
theorem endsLast_tokens (c : Cursor) : Parse.EndsLast c.tokens := by
  fun_induction Cursor.tokens c with
  | case1 c h =>
    intro t s' hs _
    have hlength := hs.length_le
    exact eq_nil_of_length_eq_zero (by simpa using hlength)
  | case2 c h ih =>
    intro t s' hs heof
    rcases sublist_cons_iff.1 hs with hs | ⟨r, hr, -⟩
    · exact ih hs heof
    · obtain ⟨rfl, -⟩ := List.cons.inj hr
      exact absurd heof h

open Program in
theorem tokens_apart (c : Cursor) : c.tokens.Pairwise Parse.Apart := by
  fun_induction Cursor.tokens c with
  | case1 c h => exact pairwise_singleton ..
  | case2 c h ih =>
    refine pairwise_cons.2 ⟨fun t ht => ?_, ih⟩
    by_cases hindent : c.scan.1.kind = .indent
    · exact .inl hindent
    · obtain ⟨gap, hgap⟩ := pos_of_mem_tokens ht
      have hne : c.scan.1.text.toList ++ gap ≠ [] :=
        append_ne_nil_of_left_ne_nil (scan_text_ne_nil hindent (by simpa using h)) gap
      have hbefore := c.pos.before_advance hne
      refine .inr fun heq => hbefore.ne ?_
      rw [hgap, c.scan_pos.2, c.scan_pos.1, ← Position.advance_append] at heq
      have hline := congrArg Span.line heq
      have hcolumn := congrArg Span.column heq
      exact Prod.ext hline hcolumn

end Token

namespace Program.Parse

theorem linesFrom_sublist (depth : Nat) (last : Option Token.Kind) (ts : List Token) :
    (linesFrom depth last ts).Sublist ts := by
  induction ts generalizing depth last with
  | nil => exact .refl _
  | cons t ts ih =>
    rw [linesFrom]
    split
    · exact (ih ..).cons t
    · exact (ih ..).cons t
    · split
      · exact (ih ..).cons_cons t
      · exact (ih ..).cons t
    · split
      · exact (ih ..).cons_cons t
      · exact (ih ..).cons t
    · exact (ih ..).cons_cons t

theorem hasEnd_linesFrom (depth : Nat) (last : Option Token.Kind) {ts : List Token}
    (h : HasEnd ts) : HasEnd (linesFrom depth last ts) := by
  obtain ⟨e, he, heof⟩ := h
  induction ts generalizing depth last with
  | nil => cases he
  | cons t ts ih =>
    rw [linesFrom]
    have hkind : e.kind = .eof := by simpa [Token.isEof] using heof
    have hrest (d : Nat) (l : Option Token.Kind) (ht : t.kind ≠ .eof) :
        HasEnd (linesFrom d l ts) := by
      rcases mem_cons.1 he with rfl | he
      · exact absurd hkind ht
      · exact ih d l he
    have hcons {xs : List Token} (h : HasEnd xs) : HasEnd (t :: xs) := by
      obtain ⟨x, hx, hxeof⟩ := h
      exact ⟨x, mem_cons_of_mem t hx, hxeof⟩
    split
    · next ht => exact hrest depth last (by simp [ht])
    · next ht => exact hrest depth last (by simp [ht])
    · next ht =>
      split
      · exact hcons (hrest depth _ (by simp [ht]))
      · exact hrest depth last (by simp [ht])
    · next ht =>
      split
      · exact hcons (hrest depth _ (by simp [ht]))
      · exact hrest depth last (by simp [ht])
    · rcases mem_cons.1 he with rfl | he
      · exact ⟨e, mem_cons_self, heof⟩
      · exact hcons (ih _ _ he)

def IsLexed (source : List Char) (t : Token) : Prop := ∃ c before, Token.IsRead source t c before

variable {source : List Char} {t : Token}

theorem IsLexed.place (h : IsLexed source t) : PlaceIn source t.pos := by
  obtain ⟨c, before, h⟩ := h
  exact ⟨before, c.rest, h.split, h.pos_eq⟩

theorem isLexed_of_mem {filename : String} (h : t ∈ (Source.ofText source filename).tokens) :
    IsLexed source t :=
  Token.exists_isRead ((linesFrom_sublist ..).mem h)

def Lexical.within {source : List Char} (filename : String) (I : Token → Prop)
    (hI : ∀ t, I t → IsLexed source t) : Lexical (.ofText source filename) where
  Mem := I
  place t ht := (hI t ht).place
  places _ ht := (isLexed_of_mem ht).place
  word := by
    intro t ht hkind
    obtain ⟨c, before, h⟩ := hI t ht
    exact h.word hkind
  number := by
    intro t ht hkind hquoted i hi
    obtain ⟨c, before, h⟩ := hI t ht
    exact h.number hkind hquoted hi

def Lexical.ofText (source : List Char) (filename : String) : Lexical (.ofText source filename) :=
  .within filename (IsLexed source) fun _ => id

theorem all_isLexed (source : List Char) (filename : String) :
    All (.ofText source filename) (Source.ofText source filename).tokens where
  left _ ht := isLexed_of_mem ht
  apart := (Token.tokens_apart _).sublist (linesFrom_sublist ..)
  hasEnd := hasEnd_linesFrom 0 none (Token.hasEnd_tokens _)
  endsLast _ _ hs := Token.endsLast_tokens _ (hs.trans (linesFrom_sublist ..))

end Program.Parse

end BlockScript
