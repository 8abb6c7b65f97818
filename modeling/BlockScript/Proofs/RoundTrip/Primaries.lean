import BlockScript.Proofs.RoundTrip.Decimals
import BlockScript.Proofs.RoundTrip.Context

/-! Primaries that are read back: constants, names, and what stands in brackets. -/

namespace BlockScript.Program.Parse

open Token List

variable {n m d : Nat} {e : Expr} {rest : List Char}

theorem starts_of_isDigit {c : Char} {cs : List Char} (h : isDigit c = true) : Starts (c :: cs) :=
  ⟨c, rfl, isStart_of_isWord (by simp [isWord, h])⟩

variable [View]

/-! ## Words and literals -/

theorem growsAt_token (kind : Kind) (hkind : isSolid kind = true) {text : String}
    (hstarts : Starts text.toList) (hopens : ∀ pos, opens 15 ⟨kind, text, pos⟩ = true)
    (hnext : ∀ ⦃d rest s⦄, EndsBefore 15 e rest → Ahead d (text.toList ++ rest) s →
      Next kind text (Ahead d rest) s)
    (hrun : ∀ src n pos t s, 4 * text.length + 2 ≤ n → binding t < 15 →
    ∃ e', parsePrimary src (.ofDepth n src)
      (⟨kind, text, pos⟩ :: t :: s) = .ok e' (t :: s) ∧ e'.viewed = e.viewed) :
      GrowsAt 15 text.toList e := by
  refine .of_reads hstarts rfl (fun d rest s hends hs => ?_) fun src n m d rest hn hends hstops
    s hs hm => ?_
  · obtain ⟨pos, s', rfl, hs'⟩ := hnext hends hs
    refine ⟨_, s', rfl, hopens pos, fun _ hassign => ?_⟩
    obtain ⟨t, s'', rfl, ht⟩ := hassign hs'
    exact ht
  · obtain ⟨pos, s', rfl, hs'⟩ := hnext hends hs
    obtain ⟨t, s', rfl, ht⟩ := hstops hs'
    have hweight : weight ⟨kind, text, pos⟩ = max 1 text.length := if_pos hkind
    rw [load, hweight] at hm ⊢
    obtain ⟨e', hparse, he⟩ := hrun src (n - 2) pos t s' (by omega) ht
    exact ⟨e', t :: s', hparse, he, hs', by omega, Nat.le_refl _⟩

theorem growsAt_word {w : String} (hw : IsWord w.toList)
    (hopens : ∀ pos, opens 15 ⟨.name, w, pos⟩ = true)
    (hparse : ∀ src pos s, ∃ e', parseWord src ⟨.name, w, pos⟩ (.ofPosition pos)
      (⟨.name, w, pos⟩ :: s) = .ok e' s ∧ e'.viewed = e.viewed) : GrowsAt 15 w.toList e :=
  growsAt_token .name rfl hw.starts hopens (fun _ _ _ hends hs => hs.word hw hends.word)
    fun src _ pos t s _ _ => by simpa [parsePrimary] using hparse src pos (t :: s)

variable {span : Span}

theorem readable_name {id : String} (h : IsName id) : Readable (.name span id) := by
  refine .of_primary rfl ?_
  rw [Print.bare]
  have hkeyword : ∀ w ∈ keywords, id ≠ w := fun w hw heq => by
    have := h.2
    simp [isKeyword, heq, hw] at this
  refine growsAt_word h.1 (fun pos => by simp [opens, h.2]) fun src pos s =>
    ⟨.name (.ofPosition pos) id, ?_, rfl⟩
  simp [parseWord, h.2, hkeyword "None" (by decide), hkeyword "True" (by decide),
    hkeyword "False" (by decide)]

theorem growsAt_integer {i : Int64} (h : 0 ≤ i.toInt) :
    GrowsAt 15 (toString i.toInt).toList (.constant span (.int i)) := by
  obtain ⟨k, hk⟩ := Int.eq_ofNat_of_zero_le h
  have htext : toString i.toInt = Nat.repr k := by
    rw [hk]
    rfl
  have hdigits : ∀ c ∈ (Nat.repr k).toList, isDigit c = true := fun c hc =>
    Literal.isDigit_of_mem_toDigits (by simpa using hc)
  have hne : (Nat.repr k).toList ≠ [] := by simp [Nat.toDigits_ne_nil]
  have hstarts : Starts (Nat.repr k).toList := by
    obtain ⟨c, cs, hcs⟩ := exists_cons_of_ne_nil hne
    exact hcs ▸ starts_of_isDigit (hdigits c (hcs ▸ mem_cons_self))
  rw [htext]
  refine growsAt_token .literal rfl hstarts (fun _ => rfl) (fun d rest s hends hs => ?_)
    fun src n pos t s _ _ => ⟨.constant (.ofPosition pos) (.int i), ?_, rfl⟩
  · exact hs.number hne hdigits (hends.resolve_right fun h => by simp [Expr.isInteger] at h)
  · simp [parsePrimary, parseLiteral, Literal.splitQuoted?_toDigits, Literal.number_toString hk]

/-- A text is a literal of its own: no other literal stands next to it. -/
theorem growsAt_text {quote : Char} (text : String) (hquote : quote ∈ ['\'', '"']) :
    GrowsAt 15 (quotedBy quote text).toList (.constant span (.str text)) := by
  have hstarts : Starts (quotedBy quote text).toList := by
    refine ⟨quote, by simp [quotedBy], ?_⟩
    exact (by decide : ∀ q ∈ ['\'', '"'], isStart q = true) quote hquote
  refine growsAt_token .literal rfl hstarts (fun _ => rfl)
    (fun d rest s hends hs => hs.quoted hquote hends.word)
    fun src n pos t s _ ht => ⟨.constant (.ofPosition pos) (.str text), ?_, rfl⟩
  have hadjacent : t.kind ≠ .literal := by
    intro hkind
    simp [binding, hkind, Precedence.atom] at ht
  simp [parsePrimary, parseLiteral, Literal.splitQuoted?_quotedBy hquote, parseQuoted, parseText,
    Literal.unescape_escape hquote, run_many, manyTo, parseAdjacent, hadjacent,
    plainText?, Expr.str]

theorem readable_constant {value : Constant} (hshape : (Expr.constant span value).Shape)
    (hfloat : ∀ f, value ≠ .float f) : Readable (.constant span value) := by
  refine .of_primary rfl ?_
  rw [Print.bare]
  cases value with
  | none =>
    exact growsAt_word (w := "None") (by decide) (fun _ => rfl)
      fun src pos s => ⟨.constant (.ofPosition pos) .none, by simp [parseWord], rfl⟩
  | bool b =>
    cases b with
    | true =>
      exact growsAt_word (w := "True") (by decide) (fun _ => rfl)
        fun src pos s => ⟨.constant (.ofPosition pos) (.bool true), by simp [parseWord], rfl⟩
    | false =>
      exact growsAt_word (w := "False") (by decide) (fun _ => rfl)
        fun src pos s => ⟨.constant (.ofPosition pos) (.bool false), by simp [parseWord], rfl⟩
  | int i => exact growsAt_integer hshape
  | float f => exact absurd rfl (hfloat f)
  | str text => exact growsAt_text text mem_cons_self

theorem readable_float {f : Float} {m : Nat} {k : Int}
    (hview : View.literals = true → Literal.number (Number.literal f) = .ok (.float f))
    (hf : Number.Binary.ofFloat f = .finite false m k) : Readable (.constant span (.float f)) := by
  refine .of_primary rfl ?_
  rw [Print.bare, Print.constant, Number.literal, hf]
  rw [Number.literal, hf] at hview
  have hdecimal := Number.isDecimal_literalDigits m k
  obtain ⟨digit, more, hcons, hdigit⟩ := hdecimal.exists_cons
  obtain ⟨f', hf'⟩ := Literal.number_decimal hdecimal
  refine growsAt_token .literal rfl ?_ (fun _ => rfl) (fun d rest s hends hs => ?_)
    fun src n pos t s _ _ => ⟨.constant (.ofPosition pos) (.float f'), ?_, ?_⟩
  · rw [String.toList_ofList, hcons]
    exact starts_of_isDigit hdigit
  · rw [String.toList_ofList] at hs
    exact hs.token (hcons ▸ cons_ne_nil digit more) (lexeme_decimal hdecimal hends.word) rfl
  · simp [parsePrimary, parseLiteral, Literal.splitQuoted?_decimal hdecimal, hf']
  · cases hliterals : View.literals with
    | false => simp [Constant.viewed, hliterals]
    | true =>
      have hsame := hview hliterals
      rw [hf'] at hsame
      cases hsame
      rfl

/-! ## Brackets -/

section

variable {α : Type} {as : List α} {text : α → String} {value : α → Expr}

theorem growsAt_list (h : ∀ a ∈ as, TextAt 1 (text a).toList (value a)) :
    GrowsAt 15 ("[" ++ ", ".intercalate (as.map text) ++ "]").toList
      (.list span (as.map value)) := by
  refine growsAt_bracketed (q := parseBracketed) (by decide) (fun _ _ _ _ => by simp [parsePrimary])
    fun src n m d rest span' hn => ?_
  have hitem (a : α) (ha : a ∈ as) := (h a ha).item (m := m) (d := d) src hn "]" fun _ => rfl
  cases as with
  | nil => exact .eat (fun _ hs => Ahead.closing (g := "]") hs (by decide)) (.pure rfl)
  | cons a as =>
    rw [toList_row, append_assoc]
    have hends : EndsItem "]" d (rowTail (fun a => (text a).toList) as ++ ("]".toList ++ rest)) :=
      endsItem_rowTail (by decide) _ as
    obtain ⟨hnot, hfirst⟩ := hitem a mem_cons_self _ hends
    refine .notEat hnot (hfirst.bind fun b hb => ?_)
    refine .isAtWord (fun _ hs => (hends.head hs).imp fun _ => EndsIn.notName) ?_
    refine (TakesItem.more (by decide) fun a ha => hitem a (mem_cons_of_mem _ ha)).last
      fun bs hbs => ?_
    exact .val (.expect (fun _ hs => hs.closing (by decide)) (.pure (by simp [hb, hbs])))

/-- The text of a tuple: a comma tells one item from an expression in parentheses. -/
def tupleText : List String → String
  | [only] => "(" ++ only ++ ",)"
  | texts => "(" ++ ", ".intercalate texts ++ ")"

theorem growsAt_tuple (h : ∀ a ∈ as, TextAt 1 (text a).toList (value a)) :
    GrowsAt 15 (tupleText (as.map text)).toList (.tuple span (as.map value)) := by
  have hrun (src : Source) (rules : Rules) (pos : Position) (s : List Token) :
      parsePrimary src rules (⟨.control, "(", pos⟩ :: s) =
        parseParenthesized src rules (.ofPosition pos) s := by
    simp [parsePrimary]
  cases as with
  | nil =>
    exact growsAt_bracketed (by decide) hrun fun _ _ _ _ _ _ _ =>
      .eat (fun _ hs => Ahead.closing (g := ")") hs (by decide)) (.pure rfl)
  | cons a as =>
    cases as with
    | nil =>
      refine growsAt_bracketed (by decide) hrun fun src n m d rest span' hn => ?_
      have hfollow {P : Token → Prop} (hP : ∀ pos, P ⟨.control, ",", pos⟩) :
          Follow P (d + 1) (",)".toList ++ rest) :=
        .of_next (bounds_append (by decide) rest) (fun _ hs => hs.commaClosing) hP
      have hmore : Takes m 0 (Ahead (d + 1) (",)".toList ++ rest))
          (moreItems (isAt ")") (Rules.ofDepth n src).expr)
          (· = []) (Ahead (d + 1) (")".toList ++ rest)) := by
        intro s hs _
        obtain ⟨pos, s', rfl, hs'⟩ := hs.commaClosing
        obtain ⟨pos', s'', rfl, -⟩ := hs'.closing (by decide)
        exact ⟨[], _, by simp [moreItems, run_many, manyTo], rfl, hs',
          Nat.le_add_right .., Nat.le_succ _⟩
      have ha := h a mem_cons_self
      refine .notEat (fun _ hs => (ha.opens (bounds_append (by decide) rest) hs).notAt fun _ => rfl)
        ?_
      refine (ha.expr src hn (hfollow fun _ => Nat.zero_lt_one)).bind fun b hb => ?_
      refine .isAtWord (hfollow fun _ => rfl).head
        (.isAt (hfollow fun _ => rfl).head (hmore.last ?_))
      rintro _ rfl
      exact .val (.expect (fun _ hs => hs.closing (by decide)) (.pure (by simp [hb])))
    | cons a' as =>
      refine growsAt_bracketed (by decide) hrun fun src n m d rest span' hn => ?_
      have hitem (x : α) (hx : x ∈ a :: a' :: as) :=
        (h x hx).item (m := m) (d := d) src hn ")" fun _ => rfl
      rw [← map_cons, toList_row, append_assoc]
      have hends : EndsItem ")" d (rowTail (fun a => (text a).toList) (a' :: as) ++
          (")".toList ++ rest)) :=
        endsItem_rowTail (by decide) _ _
      obtain ⟨hnot, hfirst⟩ := hitem a mem_cons_self _ hends
      refine .notEat hnot (hfirst.bind fun b hb => ?_)
      refine .isAtWord (fun _ hs => (hends.head hs).imp fun _ => EndsIn.notName)
        (.isAt (b := true) (fun s hs => ?_) ?_)
      · rw [rowTail, flatMap_cons, append_assoc, append_assoc] at hs
        exact (follow_comma fun _ => rfl).head hs
      refine (TakesItem.more (by decide) fun x hx => hitem x (mem_cons_of_mem _ hx)).last
        fun bs hbs => ?_
      exact .val (.expect (fun _ hs => hs.closing (by decide)) (.pure (by simp [hb, hbs])))

inductive EntryText : String → Entry → Prop
  | mk {keyText valueText : String} {key value : Expr} (hkey : TextAt 1 keyText.toList key)
    (hvalue : TextAt 1 valueText.toList value) :
    EntryText (keyText ++ ": " ++ valueText) (.mk key value)

theorem growsAt_dict {value : α → Entry} (h : ∀ a ∈ as, EntryText (text a) (value a)) :
    GrowsAt 15 ("\x7b" ++ ", ".intercalate (as.map text) ++ "\x7d").toList
      (.dict span (as.map value)) := by
  refine growsAt_bracketed (q := parseDict) (by decide) (fun _ _ _ _ => by simp [parsePrimary])
    fun src n m d rest span' hn => ?_
  refine (TakesItem.items (f := Entry.viewed) (g := fun a => (value a).viewed) (by decide)
    fun a ha rest hends => ?_).last
    fun entries hentries => .expect (fun _ hs => hs.closing (by decide))
      (.pure (by simp [hentries, Function.comp_def]))
  have ha := h a ha
  generalize text a = text, value a = entry at ha
  obtain ⟨hkey, hvalue⟩ := ha
  simp only [String.toList_append, append_assoc]
  refine ⟨fun _ hs => (hkey.opens (bounds_append (by decide) _) hs).notAt fun _ => rfl, ?_⟩
  refine (hkey.expr src hn (follow_colon fun _ => Nat.zero_lt_one)).bind fun key' hkey' => ?_
  refine .expect (fun _ hs => hs.colon)
    ((hvalue.expr src hn (hends.imp fun _ => And.left)).bind fun value' hvalue' => ?_)
  exact .pure (by simp [hkey', hvalue'])

end

theorem readable_list {items : List Expr} (h : ∀ e ∈ items, Readable e) :
    Readable (.list span items) := by
  refine .of_primary rfl ?_
  rw [Print.bare, Print.exprs_eq_map]
  have hlist : GrowsAt 15 _ (.list span (items.map id)) := growsAt_list fun e he => (h e he).whole
  rwa [map_id] at hlist

theorem readable_tuple {items : List Expr} (h : ∀ e ∈ items, Readable e) :
    Readable (.tuple span items) := by
  have htext : Print.bare (.tuple span items) = tupleText (items.map (Print.expr 1)) := by
    rw [Print.bare]
    unfold Print.tuple
    split
    · rfl
    · rw [Print.exprs_eq_map, tupleText.eq_def]
      split <;> simp_all [Precedence.ternary]
  refine .of_primary rfl ?_
  rw [htext]
  have htuple : GrowsAt 15 _ (.tuple span (items.map id)) :=
    growsAt_tuple fun e he => (h e he).whole
  rwa [map_id] at htuple

theorem readable_dict {entries : List Entry} (h : ∀ e ∈ entries, ∀ x ∈ e.exprs, Readable x) :
    Readable (.dict span entries) := by
  refine .of_primary rfl ?_
  rw [Print.bare, Print.dictEntries_eq_map]
  have hentry : ∀ e ∈ entries, EntryText (Print.entry e) (id e) := by
    rintro ⟨key, value⟩ he
    exact .mk (h _ he key (by simp [Entry.exprs])).whole
      (h _ he value (by simp [Entry.exprs])).whole
  have hdict : GrowsAt 15 _ (.dict span (entries.map id)) := growsAt_dict hentry
  rwa [map_id] at hdict

/-! ## Comprehensions -/

theorem Readable.target (h : Readable e) (hassign : e.isAssignable = true) (src : Source)
    (hn : 4 * m + 4 ≤ n)
    (hfollow : Follow (fun t => binding t < 6 ∧ t.isControl "," = false) d rest) :
    Reads m (Ahead d ((Print.expr 0 e).toList ++ rest)) (parseTargets src (.ofDepth n src))
      e d rest := by
  have hexpr : Print.expr 0 e = Print.expr 6 e := by
    rw [Print.expr_of_le (Nat.zero_le _), Print.expr_of_le]
    rw [Print.precedence_of_isAssignable hassign]
    decide
  rw [hexpr]
  refine .peek fun t => ((h.at 6 (by decide)).reads src (n + 1) (by omega)
    (hfollow.imp fun _ => And.left)).bind fun e' he' => ?_
  refine .isAt (fun _ hs => (hfollow.head hs).imp fun _ => And.right) (.val ?_)
  have hassign' : e'.isAssignable = true := by
    rw [← hassign, ← Expr.isAssignable_viewed, he', Expr.isAssignable_viewed]
  simp only [hassign', if_true]
  exact .pure he'

omit [View] in
theorem condition_eq (e : Expr) (rest : List Char) : (Print.condition e).toList ++ rest =
      ' ' :: ("if".toList ++ ' ' :: ((Print.expr 2 e).toList ++ rest)) := by
  rw [Print.condition, String.toList_append, append_assoc]
  rfl

/-- What follows a clause: another one or the closing bracket. -/
abbrev FollowsClause (d : Nat) (rest : List Char) : Prop :=
  Follow (fun t => binding t < 1 ∧ t.isName "if" = false) d rest

omit [View] in
theorem FollowsClause.conditions (h : FollowsClause d rest) (es : List Expr) :
    Follow (binding · < 2) d ((Print.conditionList es).toList ++ rest) := by
  rw [Print.toList_conditionList]
  cases es with
  | nil => exact h.imp fun _ ht => Nat.lt_succ_of_lt ht.1
  | cons e es =>
    rw [flatMap_cons, append_assoc, condition_eq]
    exact follow_word (by decide) fun _ => Nat.le_refl 2

theorem takes_conditions (src : Source) {es : List Expr} (hes : ∀ e ∈ es, Readable e)
    (hn : 4 * m + 4 ≤ n) (hrest : FollowsClause d rest) :
    Takes m 0 (Ahead d ((Print.conditionList es).toList ++ rest))
      (many do
        if ← eatWord "if" then return some (← parseDisjunction (.ofDepth n src)) else return none)
      (·.map Expr.viewed = es.map Expr.viewed) (Ahead d rest) := by
  rw [Print.toList_conditionList]
  refine .many (Follow (binding · < 2) d) (fun e he rest hfollow => ?_) (fun e _ rest => ?_)
    (hrest.imp fun _ ht => Nat.lt_succ_of_lt ht.1) fun s hs => ?_
  · rw [condition_eq]
    exact .eatWord (fun _ hs => hs.spacedWord (by decide))
      ((((hes e he).at 2 (by decide)).reads src n hn hfollow).bind fun e' he' =>
      .pure ⟨e', rfl, he'⟩)
  · rw [condition_eq]
    exact follow_word (by decide) fun _ => Nat.le_refl 2
  · obtain ⟨t, s', rfl, ht⟩ := hrest.head hs
    simp [ht.2]

omit [View] in
theorem clause_eq (target source : Expr) (conditions : List Expr) (rest : List Char) :
    (Print.clause (.mk target source conditions)).toList ++ rest =
      ' ' :: ("for".toList ++ ' ' :: ((Print.expr 0 target).toList ++
        ' ' :: ("in".toList ++ ' ' :: ((Print.expr 2 source).toList ++
          ((Print.conditionList conditions).toList ++ rest))))) := by
  simp only [Print.clause, String.toList_append, append_assoc]
  rfl

omit [View] in
theorem follow_clause {P : Token → Prop} (hP : ∀ pos, P ⟨.name, "for", pos⟩) (c : Clause) :
    Follow P d ((Print.clause c).toList ++ rest) := by
  obtain ⟨target, source, conditions⟩ := c
  rw [clause_eq]
  exact follow_word (by decide) hP

theorem takes_clause (src : Source) {c : Clause} (hc : ∀ x ∈ c.exprs, Readable x)
    (hassign : c.target.isAssignable = true) (hn : 4 * m + 4 ≤ n) (hrest : FollowsClause d rest) :
    Takes m 1 (Ahead d ((Print.clause c).toList ++ rest)) (parseClause src (.ofDepth n src))
      (fun r => ∃ c', r = some c' ∧ c'.viewed = c.viewed) (Ahead d rest) := by
  obtain ⟨target, source, conditions⟩ := c
  simp only [Clause.exprs, forall_mem_cons] at hc
  rw [clause_eq]
  refine .eatWord (fun _ hs => hs.spacedWord (by decide)) ?_
  refine (hc.1.target hassign src hn
    (follow_word (w := "in") (by decide) fun _ => ⟨Nat.le_refl 6, rfl⟩)).bind
      fun target' htarget => ?_
  refine .expectWord (fun _ hs => hs.spacedWord (by decide)) ?_
  refine ((hc.2.1.at 2 (by decide)).reads src n hn (hrest.conditions _)).bind
    fun source' hsource => ?_
  refine (takes_conditions src hc.2.2 hn hrest).last fun conditions' hconditions => ?_
  exact .pure ⟨_, rfl, by simp [htarget, hsource, hconditions]⟩

theorem readable_comprehension {element : Expr} {clauses : List Clause}
    (helement : Readable element) (hclauses : ∀ c ∈ clauses, ∀ x ∈ c.exprs, Readable x)
    (hne : clauses ≠ []) (hassign : ∀ c ∈ clauses, c.target.isAssignable = true) :
    Readable (.comprehension span element clauses) := by
  refine .of_primary rfl ?_
  have htext : Print.bare (.comprehension span element clauses) =
      "[" ++ (Print.expr 1 element ++ Print.comprehensionClauses clauses) ++ "]" := by
    simp [Print.bare, String.append_assoc, Precedence.ternary]
  rw [htext]
  refine growsAt_bracketed (q := parseBracketed) (by decide) (fun _ _ _ _ => by simp [parsePrimary])
    fun src n m d rest span' hn => ?_
  rw [String.toList_append, append_assoc, Print.toList_comprehensionClauses]
  -- the element is followed by the first clause
  have hnext {P : Token → Prop} (hP : ∀ pos, P ⟨.name, "for", pos⟩) :
      Follow P (d + 1) ((clauses.flatMap fun c => (Print.clause c).toList) ++
        ("]".toList ++ rest)) := by
    obtain ⟨c, cs, rfl⟩ := exists_cons_of_ne_nil hne
    rw [flatMap_cons, append_assoc]
    exact follow_clause hP c
  have hread := helement.whole
  have hrest (element' : Expr) (helement' : element'.viewed = element.viewed) : Takes m 0
      (Ahead (d + 1) ((clauses.flatMap fun c => (Print.clause c).toList) ++ ("]".toList ++ rest)))
      (parseComprehension src (.ofDepth n src) element')
      (·.viewed = (Expr.comprehension span element clauses).viewed)
        (Ahead (d + 1) ("]".toList ++ rest)) := by
    refine .last (.many (FollowsClause (d + 1))
      (fun c hc rest hfollow => takes_clause src (hclauses c hc) (hassign c hc) (by omega) hfollow)
      (fun c _ rest => follow_clause (fun _ => ⟨Nat.zero_lt_one, rfl⟩) c)
      (follow_closing (by decide) fun _ => ⟨Nat.zero_lt_one, rfl⟩) fun s hs => ?_)
      fun clauses' hclauses' => .pure (by simp [helement', hclauses'])
    obtain ⟨pos, s', rfl, -⟩ := hs.closing (by decide)
    simp [parseClause]
  refine .notEat (fun _ hs =>
    (hread.opens (hnext (P := fun _ => True) fun _ => trivial).bounds hs).notAt fun _ => rfl) ?_
  refine (hread.expr src hn (hnext fun _ => Nat.zero_lt_one)).bind fun element' helement' => ?_
  refine .isAtWord (hnext fun _ => rfl).head ((hrest element' helement').last fun e' he' => ?_)
  exact .expect (fun _ hs => hs.closing (by decide)) (.pure he')

end BlockScript.Program.Parse
