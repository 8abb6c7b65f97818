import BlockScript.Proofs.RoundTrip.Context

/-! Operators, from signs to conditional expressions. -/

namespace BlockScript.Program.Parse

open Token List

variable {src : Source} {n m b c d : Nat} {e : Expr} {rest : List Char}

theorem binding_ne_unary (t : Token) : binding t ≠ 12 := by
  have hop (op : BinaryOp) : op.precedence ≠ 12 := by cases op <;> decide
  unfold binding
  split
  · split
    · decide
    · split
      · exact hop _
      · split <;> decide
  · repeat' split
    all_goals decide
  · decide
  · decide

variable [View] {operand left right : Expr} {span : Span} {text more : List Char}

theorem Readable.of_textAt (hc : loops c = false) (hatom : c < 14) (hprec : Print.precedence e = c)
    (h : TextAt c (Print.bare e).toList e) : Readable e := by
  have hbounds {rest : List Char} (hends : EndsBefore c e rest) : Bounds rest :=
    hends.resolve_right fun h => Nat.not_le.2 hatom h.2.1
  rw [Readable, hprec]
  exact .of_reads h.starts hc (fun _ _ _ hends => h.opens (hbounds hends))
    fun src n _ _ _ hn hends hstops => h.reads src n hn ⟨hbounds hends, hstops⟩

theorem TextAt.of_left (hleft : TextAt b text left) (hcb : c ≤ b)
    (hmore : ∀ d rest, Follow (·.isControl "=" = false) d (more ++ rest))
    (hreads : ∀ src n ⦃m d rest⦄, 4 * m + 4 ≤ n → Follow (binding · < c) d rest →
      Reads m (Ahead d (text ++ (more ++ rest))) (level src n c) e d rest) :
      TextAt c (text ++ more) e where
  starts := hleft.starts.append more
  opens d rest s _ hs := by
    rw [append_assoc] at hs
    exact ((hleft.opens (hmore d rest).bounds hs).of_left (hmore d rest).head).mono hcb
  reads src n _ _ _ hn hfollow := by
    rw [append_assoc]
    exact hreads src n hn hfollow

/-! ## Signs and negation -/

theorem readable_unary {op : UnaryOp} (h : Readable operand) (hop : op ≠ .not) :
    Readable (.unary span op operand) := by
  have hsign : Print.unarySymbol op ∈ ["-", "+", "~"] := by cases op <;>
    first | decide | contradiction
  have htext : Print.bare (.unary span op operand) = Print.unarySymbol op ++
      Print.expr 12 operand := by
    rw [Print.bare, if_neg hop]
    rfl
  have hprec : Print.precedence (.unary span op operand) = 12 := by
    cases op <;> first | rfl | contradiction
  have hfacts : ∀ g ∈ ["-", "+", "~"], Starts g.toList ∧ IsFlat g := by decide
  obtain ⟨hstarts, hflat⟩ := hfacts _ hsign
  have hoperand := h.at 12 (by decide)
  have hnext ⦃d : Nat⦄ ⦃rest : List Char⦄ ⦃s : List Token⦄
      (hs : Ahead d ((Print.unarySymbol op ++ Print.expr 12 operand).toList ++ rest) s) :
      Next .control (Print.unarySymbol op) (Ahead d ((Print.expr 12 operand).toList ++ rest))
        s := by
    rw [String.toList_append, append_assoc] at hs
    exact hs.glyphBefore hflat (hoperand.starts.append rest)
  refine .of_textAt rfl (by decide) hprec (htext ▸ ⟨hstarts.text _,
    fun d rest s _ hs => .of_next (hnext hs) ?_ (by decide), fun src n m d rest hn hfollow => ?_⟩)
  · cases op <;> first | contradiction | exact fun _ => rfl
  · obtain ⟨n, rfl⟩ : ∃ k, n = k + 3 := ⟨n - 3, by omega⟩
    refine .next (q := fun pos => do
      return .unary (.ofPosition pos) op (← (Rules.ofDepth (n + 1) src).unary))
      (@hnext d rest) (fun pos s => ?_) rfl ?_
    · change parseUnary src (.ofDepth (n + 1) src) _ = _
      cases op <;> first | contradiction | simp [parseUnary, Print.unarySymbol, -ofDepth_unary]
    · rintro pos m rfl
      exact Takes.bind (hoperand.reads src (n + 2) (by omega) hfollow) fun _ h =>
        .pure (by simp [h])

theorem readable_not (h : Readable operand) : Readable (.unary span .not operand) := by
  have htext : Print.bare (.unary span .not operand) = "not " ++ Print.expr 4 operand := by
    rw [Print.bare]
    rfl
  have hoperand := h.at 4 (by decide)
  have hnext ⦃d : Nat⦄ ⦃rest : List Char⦄ ⦃s : List Token⦄
      (hs : Ahead d (("not " ++ Print.expr 4 operand).toList ++ rest) s) :
      Next .name "not" (Ahead d ((Print.expr 4 operand).toList ++ rest)) s := by
    rw [String.toList_append, append_assoc] at hs
    obtain ⟨pos, s', rfl, hs'⟩ :=
      Ahead.word (w := "not") hs (by decide) (by rintro _ ⟨⟩; exact .inl rfl)
    exact ⟨pos, s', rfl, hs'.blank⟩
  refine .of_textAt (c := 4) rfl (by decide) rfl
    (htext ▸ ⟨.text (by decide) _, fun d rest s hrest hs => ?_,
    fun src n m d rest hn hfollow => ?_⟩)
  · obtain ⟨pos, s', rfl, hs'⟩ := hnext hs
    obtain ⟨t, s', rfl, ht⟩ := (hoperand.opens hrest hs').notAt (g := "=") fun _ => rfl
    exact ⟨_, _, rfl, rfl, fun _ _ => ht⟩
  · obtain ⟨n, rfl⟩ : ∃ k, n = k + 2 := ⟨n - 2, by omega⟩
    refine .next (q := fun pos => do
      return .unary (.ofPosition pos) .not (← (Rules.ofDepth (n + 1) src).negation))
      (@hnext d rest) (fun pos s => by simp [level, parseNegation, -ofDepth_negation]) rfl ?_
    rintro pos m rfl
    exact Takes.bind (hoperand.reads src (n + 1) (by omega) hfollow) fun _ h => .pure (by simp [h])

/-! ## Operators that group to the left -/

section

omit [View]

theorem spaced_eq (symbol text : String) (rest : List Char) :
    (" " ++ symbol ++ " " ++ text).toList ++ rest =
      ' ' :: (symbol.toList ++ ' ' :: (text.toList ++ rest)) := by
  simp

theorem symbol_facts (op : BinaryOp) : IsFlat op.symbol ∧ op.symbol ≠ "=" := by
  cases op <;> decide

theorem binaryOp?_symbol (op : BinaryOp) (pos : Position) :
    binaryOp? op.precedence ⟨.control, op.symbol, pos⟩ = some op := by
  cases op <;> rfl

theorem step_binary (hc : 6 ≤ c ∧ c ≤ 11) (left : Expr) : step src n c left = do
      match binaryOp? c (← peek) with
      | some op =>
        advance
        let right ← level src n (c + 1)
        return some (.binary left.span op left right)
      | none => return none := by
  obtain rfl | rfl | rfl | rfl | rfl | rfl : c = 6 ∨ c = 7 ∨ c = 8 ∨ c = 9 ∨ c = 10 ∨
    c = 11 := by omega
  all_goals rfl

end

/-- Two operands with an operator between them that groups to the left at level `c`. -/
theorem Readable.of_operator {kind : Kind} {g : String} {make : Expr → Expr → Expr} (c : Nat)
    (hkind : isSolid kind = true) (hleft : Readable left) (hright : Readable right)
    (hc : loops c = true)
    (hatom : c < 14)
    (hprec : Print.precedence e = c)
    (htext : Print.bare e = Print.expr c left ++ (" " ++ g ++ " " ++ Print.expr (c + 1) right))
    (hnext : ∀ ⦃d rest s⦄, Ahead d (' ' :: (g.toList ++ ' ' :: rest)) s →
    Next kind g (Ahead d rest) s)
    (hsymbol : ∀ pos, binding ⟨kind, g, pos⟩ < c + 1 ∧ Token.isControl ⟨kind, g, pos⟩ "=" = false)
    (hstep : ∀ src n left' pos s, step src n c left' (⟨kind, g, pos⟩ :: s) =
      (do return some (make left' (← level src n (c + 1)))) s)
    (hmake : ∀ left' right', left'.viewed = left.viewed → right'.viewed = right.viewed →
      (make left' right').viewed = e.viewed) : Readable e := by
  refine .of_left c hc hprec hleft htext (fun rest => .inl ?_) (fun d rest s hs => ?_)
    fun src n m d rest left' hn hends hstops hleft' => ?_
  · rw [spaced_eq]
    rintro _ ⟨⟩
    rfl
  · rw [spaced_eq] at hs
    exact .of_next (hnext hs) hsymbol
  · rw [spaced_eq]
    refine .next (q := fun _ => _) (fun _ hs => hnext hs) (fun pos s =>
      hstep src n left' pos s) hkind ?_
    rintro _ m rfl
    refine ((hright.at (c + 1) (by omega)).reads src n (by omega)
      ⟨hends.resolve_right fun h => by omega, hstops⟩).bind fun right' hright' => ?_
    exact .pure ⟨_, rfl, hmake left' right' hleft' hright'⟩

theorem readable_binary {op : BinaryOp} (hleft : Readable left) (hright : Readable right)
    (hop : op ≠ .pow) : Readable (.binary span op left right) := by
  have hbounds : 6 ≤ op.precedence ∧ op.precedence ≤ 11 := by
    cases op <;> first | decide | contradiction
  have hloops : loops op.precedence = true := by cases op <;> first | rfl | contradiction
  have hcontexts : Print.operandContexts op = (op.precedence, op.precedence + 1) := by
    cases op <;> first | rfl | contradiction
  obtain ⟨hflat, hassign⟩ := symbol_facts op
  refine .of_operator op.precedence rfl hleft hright hloops (by omega) rfl ?_
    (fun d rest s hs => hs.spacedGlyph hflat)
    (fun pos => ⟨by rw [binding_symbol]; omega, by simpa using hassign⟩)
    (fun src n left' pos s => by simp [step_binary hbounds, binaryOp?_symbol]; rfl)
    fun left' right' hleft' hright' => ?_
  · rw [Print.bare, hcontexts]
    simp only [String.append_assoc]
  · simp [hleft', hright']

theorem readable_logical {op : LogicalOp} (hleft : Readable left) (hright : Readable right) :
    Readable (.logical span op left right) := by
  have hmake (left' right' : Expr) (hleft' : left'.viewed = left.viewed)
      (hright' : right'.viewed = right.viewed) :
      (Expr.logical left'.span op left' right').viewed =
        (Expr.logical span op left right).viewed := by
    simp [hleft', hright']
  cases op with
  | and =>
    exact .of_operator (g := "and") 3 rfl hleft hright rfl (by decide) rfl
      (by rw [Print.bare, String.append_assoc]; rfl)
      (fun d rest s hs => hs.spacedWord (by decide)) (fun _ => ⟨Nat.le_refl 4, rfl⟩)
      (fun _ _ _ _ _ => by simp [step]) hmake
  | or =>
    exact .of_operator (g := "or") 2 rfl hleft hright rfl (by decide) rfl
      (by rw [Print.bare, String.append_assoc]; rfl)
      (fun d rest s hs => hs.spacedWord (by decide)) (fun _ => ⟨Nat.le_refl 3, rfl⟩)
      (fun _ _ _ _ _ => by simp [step]) hmake

/-! ## Powers -/

theorem readable_power (hleft : Readable left) (hright : Readable right) :
    Readable (.binary span .pow left right) := by
  have htext : Print.bare (.binary span .pow left right) =
      Print.expr 14 left ++ (" " ++ "**" ++ " " ++ Print.expr 12 right) := by
    rw [Print.bare]
    simp only [String.append_assoc]
    rfl
  refine .of_textAt (c := 13) rfl (by decide) rfl ?_
  rw [htext, String.toList_append]
  refine (hleft.at 14 (by decide)).of_left (by decide)
    (fun d rest => spaced_eq .. ▸ follow_glyph (by decide) fun _ => rfl) fun src n m d rest hn
      hfollow => ?_
  rw [spaced_eq]
  obtain ⟨n, rfl⟩ : ∃ k, n = k + 3 := ⟨n - 3, by omega⟩
  change Takes _ _ _ (parsePower src (.ofDepth (n + 3 - 2) src)) _ _
  rw [parsePower_eq]
  refine ((hleft.at 14 (by decide)).reads src (n + 3) hn
    (follow_glyph (g := "**") (by decide) fun _ => Nat.lt_succ_self 13)).bind fun left' hleft' => ?_
  refine (Takes.next (q := fun _ => do
    return .binary left'.span .pow left' (← level src (n + 2) 12))
    (fun _ hs => hs.spacedGlyph (by decide)) (fun _ _ => by simp [level, parseBinary]) rfl ?_).le
  rintro _ m rfl
  have htight := hfollow.imp fun t ht => Nat.lt_of_le_of_ne (Nat.le_of_lt_succ ht)
    (binding_ne_unary t)
  refine ((hright.at 12 (by decide)).reads src (n + 2) (by omega) htight).bind
    fun right' hright' => ?_
  exact .pure (by simp [hleft', hright'])

/-! ## Comparisons -/

section

omit [View]

theorem comparison_eq (op : CompareOp) (right : Expr) (rest : List Char) :
    (Print.comparison (.mk op right)).toList ++ rest =
      ' ' :: (op.symbol.toList ++ ' ' :: ((Print.expr 6 right).toList ++ rest)) := by
  rw [Print.comparison, Precedence.compare, spaced_eq]

theorem follow_comparison (cmp : Comparison) :
    Follow (fun t => binding t < 6 ∧ t.isControl "=" = false) d
      ((Print.comparison cmp).toList ++ rest) := by
  obtain ⟨op, right⟩ := cmp
  rw [comparison_eq]
  cases op with
  | eq | notEq | lt | ltEq | gt | gtEq =>
    exact follow_glyph (by decide) fun _ => ⟨Nat.le_refl 6, rfl⟩
  | isIn | is => exact follow_word (by decide) fun _ => ⟨Nat.le_refl 6, rfl⟩
  | notIn => exact follow_word (w := "not") (by decide) fun _ => ⟨Nat.le_refl 6, rfl⟩
  | isNot => exact follow_word (w := "is") (by decide) fun _ => ⟨Nat.le_refl 6, rfl⟩

theorem takes_comparisonOp {op : CompareOp} (hopens : ∀ ⦃s⦄, Ahead d rest s →
      First (·.isName "not" = false) s) :
    Takes m 1 (Ahead d (' ' :: (op.symbol.toList ++ ' ' :: rest))) parseComparisonOp (· = some op)
      (Ahead d rest) := by
  -- the second word of an operator, after which nothing is left to decide
  have hsecond {w : String} {p : Parsing (Option CompareOp)} {m : Nat} (hw : IsWord w.toList)
      (hrun : ∀ pos s, p (⟨.name, w, pos⟩ :: s) = .ok (some op) s) :
      Takes m 0 (Ahead d (w.toList ++ ' ' :: rest)) p (· = some op) (Ahead d rest) := by
    refine .le (.next (q := fun _ => pure (some op)) (fun s hs => ?_) hrun rfl
      fun _ _ _ => .pure rfl)
    obtain ⟨pos, s', rfl, hs'⟩ := hs.word hw (by rintro _ ⟨⟩; exact .inl rfl)
    exact ⟨pos, s', rfl, hs'.blank⟩
  cases op with
  | eq | notEq | lt | ltEq | gt | gtEq =>
    exact .next (q := fun _ => pure _) (fun _ hs => hs.spacedGlyph (by decide))
      (fun _ _ => by simp [parseComparisonOp, CompareOp.symbol]) rfl fun _ _ _ => .pure rfl
  | isIn =>
    exact .next (q := fun _ => pure _) (fun _ hs => hs.spacedWord (by decide))
      (fun _ _ => by simp [parseComparisonOp, CompareOp.symbol]) rfl fun _ _ _ => .pure rfl
  | is =>
    refine .next (q := fun pos s => parseComparisonOp (⟨.name, "is", pos⟩ :: s))
      (fun _ hs => hs.spacedWord (by decide))
      (fun _ _ => rfl) rfl fun pos _ _ s hs _ => ?_
    obtain ⟨t, s', rfl, ht⟩ := hopens hs
    exact ⟨_, _, by simp [parseComparisonOp, ht], rfl, hs, Nat.le_refl _, Nat.le_refl _⟩
  | notIn =>
    exact .next (q := fun pos s => parseComparisonOp (⟨.name, "not", pos⟩ :: s))
      (fun _ hs => Ahead.spacedWord (w := "not") hs (by decide)) (fun _ _ => rfl) rfl
      fun _ _ _ => hsecond (w := "in") (by decide) fun _ _ => by simp [parseComparisonOp]
  | isNot =>
    exact .next (q := fun pos s => parseComparisonOp (⟨.name, "is", pos⟩ :: s))
      (fun _ hs => Ahead.spacedWord (w := "is") hs (by decide)) (fun _ _ => rfl) rfl
      fun _ _ _ => hsecond (w := "not") (by decide) fun _ _ => by simp [parseComparisonOp]

end

theorem readable_compare {first : Expr} {cmps : List Comparison} (hfirst : Readable first)
    (hcmps : ∀ x ∈ cmps, Readable x.right) (hne : cmps ≠ []) :
    Readable (.compare span first cmps) := by
  have htext : (Print.bare (.compare span first cmps)).toList =
      (Print.expr 6 first).toList ++ cmps.flatMap fun x => (Print.comparison x).toList := by
    rw [Print.bare, String.toList_append, Print.toList_comparisons, Precedence.compare]
  have hmore (d : Nat) (rest : List Char) :
      Follow (fun t => binding t < 6 ∧ t.isControl "=" = false) d
      ((cmps.flatMap fun x => (Print.comparison x).toList) ++ rest) := by
    obtain ⟨x, xs, rfl⟩ := exists_cons_of_ne_nil hne
    rw [flatMap_cons, append_assoc]
    exact follow_comparison x
  refine .of_textAt (c := 5) rfl (by decide) rfl ?_
  rw [htext]
  refine (hfirst.at 6 (by decide)).of_left (by decide) (fun d rest =>
    (hmore d rest).imp fun _ => And.right)
    fun src n m d rest hn hfollow => ?_
  refine ((hfirst.at 6 (by decide)).reads src n hn ((hmore d rest).imp fun _ => And.left)).bind
    fun first' hfirst' => ?_
  refine (Takes.many (f := Comparison.viewed) (g := Comparison.viewed) (Follow (binding · < 6) d)
    (fun x hx rest hrest => ?_) (fun x _ rest => (follow_comparison x).imp fun _ => And.left)
    (hfollow.mono (by decide)) fun s hs => ?_).last fun cmps' hcmps' => ?_
  · obtain ⟨op, right⟩ := x
    have hright : TextAt 6 _ right := (hcmps _ hx).at 6 (by decide)
    rw [comparison_eq]
    refine (takes_comparisonOp fun s hs =>
      (hright.opens hrest.bounds hs).notAtWord fun _ => rfl).bind ?_
    rintro _ rfl
    exact (hright.reads src n hn hrest).bind fun right' hright' => .pure ⟨_, rfl, by simp [hright']⟩
  · obtain ⟨t, s', rfl, ht⟩ := hfollow.head hs
    simp [parseComparisonOp_stops ht]
  · have hne' : cmps' ≠ [] := by
      rintro rfl
      exact hne (map_eq_nil_iff.1 hcmps'.symm)
    exact .pure (by simp [hne', hfirst', hcmps'])

/-! ## Conditional expressions -/

theorem readable_ternary {test body orelse : Expr} (htest : Readable test) (hbody : Readable body)
    (horelse : Readable orelse) : Readable (.ternary span test body orelse) := by
  have htext : (Print.bare (.ternary span test body orelse)).toList = (Print.expr 2 body).toList ++
      ' ' :: ("if".toList ++ ' ' :: ((Print.expr 2 test).toList ++
        ' ' :: ("else".toList ++ ' ' :: (Print.expr 1 orelse).toList))) := by
    simp only [Print.bare, String.toList_append, append_assoc]
    rfl
  refine .of_textAt (c := 1) rfl (by decide) rfl ?_
  rw [htext]
  refine (hbody.at 2 (by decide)).of_left (by decide) (fun d rest => ?_) fun src n m d rest hn
    hfollow => ?_
  all_goals simp only [cons_append, append_assoc]
  · exact follow_word (by decide) fun _ => rfl
  obtain ⟨n, rfl⟩ : ∃ k, n = k + 1 := ⟨n - 1, by omega⟩
  refine ((hbody.at 2 (by decide)).reads src (n + 1) hn
    (follow_word (w := "if") (by decide) fun _ => Nat.le_refl 2)).bind fun body' hbody' => ?_
  refine .eatWord (fun _ hs => hs.spacedWord (by decide)) ?_
  refine ((htest.at 2 (by decide)).reads src (n + 1) hn
    (follow_word (w := "else") (by decide) fun _ => Nat.zero_lt_two)).bind fun test' htest' => ?_
  refine (Takes.next (q := fun _ => do return .ternary body'.span test' body' (← level src n 1))
    (fun _ hs => hs.spacedWord (by decide)) (fun _ _ => by simp [level]) rfl ?_).le
  rintro _ m rfl
  refine (horelse.whole.reads src n (by omega) hfollow).bind fun orelse' horelse' => ?_
  exact .pure (by simp [htest', hbody', horelse'])

end BlockScript.Program.Parse
