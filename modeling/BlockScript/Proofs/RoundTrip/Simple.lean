import BlockScript.Proofs.RoundTrip.Blocks

/-! Statements that stand on one line. -/

namespace BlockScript.Program.Parse

open Token List

variable {src : Source} {n m d : Nat} {e : Expr} {rest : List Char} {s : List Token} {t : Token}

/-! ## Expressions in a line -/

abbrev EndsList (d : Nat) (rest : List Char) : Prop :=
  Follow (fun t => binding t < 1 ∧ t.isControl "," = false) d rest

theorem follow_newline {P : Token → Prop} (hP : ∀ pos, P ⟨.newline, "\n", pos⟩) :
    Follow P 0 ('\n' :: rest) :=
  .of_next (by rintro _ ⟨⟩; rfl) (fun _ hs => hs.lineEnd) hP

theorem endsList_newline : EndsList 0 ('\n' :: rest) :=
  follow_newline fun _ => ⟨Nat.zero_lt_one, rfl⟩

variable [View]

theorem Readable.list (h : Readable e) (src : Source) (hn : 4 * m + 5 ≤ n)
    (hends : EndsList d rest) :
    Reads m (Ahead d ((Print.expr 0 e).toList ++ rest))
      (parseExprList (.ofDepth n src)) e d rest := by
  rw [Print.expr_zero]
  refine .here fun span => (h.whole.expr src hn (hends.imp fun _ => And.left)).bind fun e' he' => ?_
  exact .isAt (fun _ hs => (hends.head hs).imp fun _ => And.right) (.pure he')

/-! ## Lines -/

def blockWords : List String := ["if", "while", "for", "with", "try", "def", "class"] ++ clauseWords

def lineWords : List String :=
  ["pass", "break", "continue", "return", "assert", "raise", "yield", "import", "from",
  "global", "nonlocal"]

variable {rules : Rules} {stmt : Stmt} {span : Span}

omit [View] in
theorem parseStatement_of_line {blocks : Blocks} {w : Nat} (hat : t.isControl "@" = false)
    (hword : ∀ w ∈ blockWords, t.isName w = false) :
    parseStatement src rules blocks w (t :: s) = parseSimpleLine src rules (t :: s) := by
  by_cases hkind : t.kind = .name
  · have htext (w : String) (hw : w ∈ blockWords) : t.text ≠ w := by
      simpa [Token.isName, hkind] using hword w hw
    simp [parseStatement, hat, hkind, htext "if" (by decide), htext "while" (by decide),
      htext "for" (by decide), htext "with" (by decide), htext "try" (by decide),
      htext "def" (by decide), htext "class" (by decide)]
  · simp [parseStatement, hat, hkind]

theorem takes_simpleLine {pre : List Token → Prop}
    (h : Takes m 1 pre (parseSimple src rules) (·.viewed = stmt.viewed) (Ahead 0 ('\n' :: rest))) :
    Takes m 1 pre (parseSimpleLine src rules) (·.map Stmt.viewed = [stmt.viewed])
      (AheadLine rest) :=
  h.bind fun stmt' hstmt => .skip (q := fun _ => pure [stmt']) (fun _ hs => hs.lineEnd)
    (fun _ _ _ => by simp [run_many, manyTo, Token.isControl]) fun _ => .pure (by simp [hstmt])

omit [View] in
theorem bounds_line {more : String} (h : ∀ c ∈ more.toList.head?, isBoundary c = true)
    (rest : List Char) : Bounds (more.toList ++ '\n' :: rest) := by
  cases hmore : more.toList with
  | nil => rintro _ ⟨⟩; rfl
  | cons c cs =>
    rw [hmore] at h
    rintro _ ⟨⟩
    exact h c rfl

theorem StmtReadable.of_line {text : String} (htext : ∀ k, Print.stmt k stmt = Print.line k text)
    (hstarts : Starts text.toList)
    (hstmt : ∀ span test body orelse, stmt ≠ .ifElse span test body orelse)
    (hhead : ∀ rest ⦃s⦄, Ahead 0 (text.toList ++ '\n' :: rest) s →
      First (fun t => t.isControl "@" = false ∧ ∀ w ∈ blockWords, t.isName w = false) s)
    (hreads : ∀ src n ⦃m rest⦄, 4 * m + 8 ≤ n → Takes m 1 (Ahead 0 (text.toList ++ '\n' :: rest))
      (parseSimple src (.ofDepth n src)) (·.viewed = stmt.viewed) (Ahead 0 ('\n' :: rest))) :
      StmtReadable stmt where
  own k := by
    refine ⟨text.toList ++ ['\n'], by rw [htext, Print.toList_line], hstarts.append _,
      fun rest s hs => ?_, fun src n b m rest hn _ _ => ?_⟩
    · rw [append_assoc] at hs
      exact (hhead rest hs).imp fun _ ht w hw => ht.2 w (mem_append_right _ hw)
    · rw [append_assoc]
      refine .congr (fun s hs => ?_) (takes_simpleLine (hreads src n hn))
      obtain ⟨t, s', rfl, hat, hword⟩ := hhead rest hs
      exact parseStatement_of_line hat hword
  conditional := fun _ _ _ _ h => (hstmt _ _ _ _ h).elim

theorem StmtReadable.of_word (w more : String) {q : Source → Rules → Span → Parsing Stmt}
    (hw : w ∈ lineWords) (hstmt : ∀ span test body orelse, stmt ≠ .ifElse span test body orelse)
    (htext : ∀ k, Print.stmt k stmt = Print.line k (w ++ more))
    (hmore : ∀ c ∈ more.toList.head?, isBoundary c = true)
    (hrun : ∀ src rules pos s, parseSimple src rules (⟨.name, w, pos⟩ :: s) =
      q src rules (.ofPosition pos) s)
    (hq : ∀ src n ⦃m rest⦄ span, 4 * m + 8 ≤ n → Takes m 0 (Ahead 0 (more.toList ++ '\n' :: rest))
      (q src (.ofDepth n src) span) (·.viewed = stmt.viewed) (Ahead 0 ('\n' :: rest))) :
    StmtReadable stmt := by
  have hfacts : ∀ w ∈ lineWords, IsWord w.toList ∧ w ∉ blockWords := by decide
  obtain ⟨hword, hline⟩ := hfacts w hw
  have hnext (rest : List Char) ⦃s :
      List Token⦄ (hs : Ahead 0 ((w ++ more).toList ++ '\n' :: rest) s) :
      Next .name w (Ahead 0 (more.toList ++ '\n' :: rest)) s := by
    rw [String.toList_append, append_assoc] at hs
    exact hs.word hword (bounds_line hmore rest).word
  refine .of_line htext (by rw [String.toList_append]; exact hword.starts.append _) hstmt
    (fun rest s hs => .of_next (hnext rest hs) fun _ => ⟨rfl, fun x hx => ?_⟩)
    fun src n m rest hn => .next (hnext rest) (fun pos s => hrun src _ pos s) rfl ?_
  · rw [isName_name, beq_eq_false_iff_ne]
    rintro rfl
    exact hline hx
  · rintro pos m rfl
    exact hq src n _ (by omega)

omit [View] in
theorem parseSimple_of_expr (h : opens 1 t = true) :
    parseSimple src rules (t :: s) = parseExprStmt src rules (t :: s) := by
  by_cases hkind : t.kind = .name
  · have htext (w : String) (hw : w ∈ lineWords) : t.text ≠ w := by
      have hclosed : ∀ w ∈ lineWords, opens 1 ⟨.name, w, .start⟩ = false := by decide
      have hname : t.isName w = false := not_isName_of_opens h fun pos => hclosed w hw
      simpa [Token.isName, hkind] using hname
    simp [parseSimple, hkind, htext "pass" (by decide), htext "break" (by decide),
      htext "continue" (by decide), htext "return" (by decide), htext "assert" (by decide),
      htext "raise" (by decide), htext "yield" (by decide), htext "import" (by decide),
      htext "from" (by decide), htext "global" (by decide), htext "nonlocal" (by decide)]
  · simp [parseSimple, hkind]

theorem StmtReadable.of_expr {first : Expr} (more : String) (hfirst : Readable first)
    (htext : ∀ k, Print.stmt k stmt = Print.line k (Print.expr 0 first ++ more))
    (hstmt : ∀ span test body orelse, stmt ≠ .ifElse span test body orelse)
    (hends : ∀ rest, EndsList 0 (more.toList ++ '\n' :: rest))
    (hreads : ∀ src n ⦃m rest⦄, 4 * m + 8 ≤ n →
      Takes m 1 (Ahead 0 ((Print.expr 0 first).toList ++ (more.toList ++ '\n' :: rest)))
        (parseExprStmt src (.ofDepth n src)) (·.viewed = stmt.viewed) (Ahead 0 ('\n' :: rest))) :
    StmtReadable stmt := by
  have hopens (rest : List Char) ⦃s : List Token⦄
      (hs : Ahead 0 ((Print.expr 0 first ++ more).toList ++ '\n' :: rest) s) :
      First (opens 1 · = true) s := by
    rw [String.toList_append, append_assoc, Print.expr_zero] at hs
    exact (hfirst.whole.opens (hends rest).bounds hs).first
  refine .of_line htext ?_ hstmt (fun rest s hs => (hopens rest hs).imp fun t ht => ?_)
    fun src n m rest hn =>
    .congr (fun s hs => ?_) (.of (fun s hs => ?_) (hreads src n hn))
  · rw [String.toList_append, Print.expr_zero]
    exact hfirst.whole.starts.append _
  · have hclosed : ∀ w ∈ blockWords, opens 1 ⟨.name, w, .start⟩ = false := by decide
    exact ⟨not_isControl_of_opens ht fun _ => rfl, fun w hw => not_isName_of_opens ht
      fun _ => hclosed w hw⟩
  · obtain ⟨t, s', rfl, ht⟩ := hopens rest hs
    exact parseSimple_of_expr ht
  · rwa [String.toList_append, append_assoc] at hs

/-! ## Assignments -/

theorem stmtReadable_expr (h : Readable e) : StmtReadable (.expr span e) := by
  refine .of_expr "" h (fun k => by rw [Print.stmt, String.append_empty])
    (by rintro _ _ _ _ ⟨⟩) (fun rest => endsList_newline) fun src n m rest hn => ?_
  refine .here fun span' => (h.list src (by omega) endsList_newline).bind fun e' he' => ?_
  refine .congr (q := pure (.expr span' e')) (fun s hs => ?_) (.pure (by simp [he']))
  obtain ⟨pos, s', rfl, -⟩ := hs.lineEnd
  simp [run_many, manyTo, Token.isControl]

theorem isPlace_viewed (e : Expr) : Stmt.isPlace e.viewed = Stmt.isPlace e := by
  cases e with
  | fstring s parts | call s callee args =>
    simp only [Expr.viewed_eq]
    split <;> rfl
  | _ => rfl

omit [View] in
theorem augmented_facts (op : BinaryOp) : IsFlat (op.symbol ++ "=") ∧
    op.symbol ++ "=" ≠ "," ∧ binding ⟨.control, op.symbol ++ "=", .start⟩ = 0 ∧
    BinaryOp.ofAugmented? (op.symbol ++ "=") = some op := by
  cases op <;> decide

theorem stmtReadable_augAssign {target value : Expr} {op : BinaryOp} (htarget : Readable target)
    (hvalue : Readable value) (hplace : Stmt.isPlace target = true) :
    StmtReadable (.augAssign span target op value) := by
  obtain ⟨hflat, hcomma, hbinding, hop⟩ := augmented_facts op
  have hmore (rest : List Char) : (" " ++ op.symbol ++ "= " ++ Print.expr 0 value).toList ++
      '\n' :: rest =
        ' ' :: ((op.symbol ++ "=").toList ++ ' ' ::
          ((Print.expr 0 value).toList ++ '\n' :: rest)) := by
    simp
  have hends (rest : List Char) :
      EndsList 0 ((" " ++ op.symbol ++ "= " ++ Print.expr 0 value).toList ++ '\n' :: rest) := by
    rw [hmore]
    exact follow_glyph hflat fun _ => ⟨Nat.lt_of_le_of_lt (Nat.le_of_eq hbinding) Nat.zero_lt_one,
      by simpa using hcomma⟩
  refine .of_expr (" " ++ op.symbol ++ "= " ++ Print.expr 0 value) htarget
    (fun k => by rw [Print.stmt]; simp only [String.append_assoc]) (by rintro _ _ _ _ ⟨⟩) hends
    fun src n m rest hn => ?_
  refine .here fun span' => (htarget.list src (by omega) (hends rest)).bind
    fun target' htarget' => ?_
  have hplace' : Stmt.isPlace target' = true := by
    rw [← isPlace_viewed, htarget', isPlace_viewed, hplace]
  rw [hmore]
  refine .skip (q := fun _ => do
    return .augAssign span' target' op (← parseExprList (.ofDepth n src)))
    (fun _ hs => hs.spacedGlyph hflat) (fun pos s _ => ?_) fun _ => ?_
  · cases target' <;> first
      | exact absurd hplace' Bool.false_ne_true
      | simp [hop]
  · refine (hvalue.list src (by omega) endsList_newline).bind fun value' hvalue' => ?_
    exact .pure (by simp [htarget', hvalue'])

omit [View] in
theorem assigned_eq (e : Expr) (rest : List Char) :
    (" = ".toList ++ (Print.expr 0 e).toList) ++ rest =
      ' ' :: ("=".toList ++ ' ' :: ((Print.expr 0 e).toList ++ rest)) := by
  rw [append_assoc]
  rfl

omit [View] in
theorem endsList_assigned (e : Expr) :
    EndsList d ((" = ".toList ++ (Print.expr 0 e).toList) ++ rest) := by
  rw [assigned_eq]
  exact follow_glyph (by decide) fun _ => ⟨Nat.zero_lt_one, rfl⟩

/-- What is assigned, after the first target. -/
theorem takes_assigned (src : Source) {es : List Expr} (hes : ∀ e ∈ es, Readable e)
    (hn : 4 * m + 5 ≤ n) :
    Takes m 0 (Ahead 0 ((es.flatMap fun e =>
      " = ".toList ++ (Print.expr 0 e).toList) ++ '\n' :: rest))
      (many do if ← eat "=" then return some (← parseExprList (.ofDepth n src)) else return none)
      (·.map Expr.viewed = es.map Expr.viewed) (Ahead 0 ('\n' :: rest)) := by
  refine .many (EndsList 0) (fun e he rest hends => ?_) (fun e _ rest => endsList_assigned e)
    endsList_newline fun s hs => ?_
  · rw [assigned_eq]
    exact .eat (fun _ hs => hs.spacedGlyph (by decide))
      (((hes e he).list src hn hends).bind fun e' he' => .pure ⟨e', rfl, he'⟩)
  · obtain ⟨pos, s', rfl, -⟩ := hs.lineEnd
    simp [Token.isControl]

theorem stmtReadable_assign {targets : List Expr} {value : Expr}
    (htargets : ∀ e ∈ targets, Readable e) (hvalue : Readable value) (hne : targets ≠ [])
    (hassign : ∀ e ∈ targets, e.isAssignable = true) :
    StmtReadable (.assign span targets value) := by
  obtain ⟨first, more, rfl⟩ := exists_cons_of_ne_nil hne
  obtain ⟨e, es, hcons⟩ : ∃ e es, more ++ [value] = e :: es := exists_cons_of_ne_nil (by simp)
  have hmore : (String.ofList
      ((more ++ [value]).flatMap fun e => " = ".toList ++ (Print.expr 0 e).toList)).toList =
      (more ++ [value]).flatMap fun e => " = ".toList ++ (Print.expr 0 e).toList :=
    String.toList_ofList
  have hends (rest : List Char) : EndsList 0
      (((more ++ [value]).flatMap fun e =>
        " = ".toList ++ (Print.expr 0 e).toList) ++ '\n' :: rest) := by
    rw [hcons, flatMap_cons, append_assoc]
    exact endsList_assigned e
  refine .of_expr (String.ofList ((more ++ [value]).flatMap fun e =>
    " = ".toList ++ (Print.expr 0 e).toList))
    (htargets first mem_cons_self) (fun k => ?_) (by rintro _ _ _ _ ⟨⟩)
    (fun rest => by rw [hmore]; exact hends rest)
    fun src n m rest hn => ?_
  · rw [Print.stmt]
    congr 1
    rw [← String.toList_inj, map_cons, cons_append, Print.toList_intercalate_cons,
      String.toList_append, hmore, ← map_singleton, ← map_append, flatMap_map]
  have hes : ∀ e ∈ more ++ [value], Readable e := by
    intro e he
    rcases mem_append.1 he with he | he
    · exact htargets e (mem_cons_of_mem _ he)
    · exact mem_singleton.1 he ▸ hvalue
  rw [hmore]
  refine .here fun span' => ((htargets first mem_cons_self).list src (by omega) (hends rest)).bind
    fun first' hfirst' s hs hm => ?_
  obtain ⟨es', s', hmany, hes', hs', hsmaller⟩ := takes_assigned src hes (n := n) (by omega) hs hm
  rw [map_append, map_singleton, map_eq_append_iff] at hes'
  obtain ⟨more', last, rfl, hmore', hlast⟩ := hes'
  obtain ⟨value', rfl, hvalue'⟩ := map_eq_singleton_iff.1 hlast
  -- the new targets are assignable because the old ones are
  have hfound : (first' :: more').find? (!·.isAssignable) = none := by
    have hviewed : (first' :: more').map Expr.viewed = (first :: more).map Expr.viewed := by
      rw [map_cons, map_cons, hfirst', hmore']
    rw [find?_eq_none]
    intro x hx
    obtain ⟨y, hy, hyx⟩ := mem_map.1 (hviewed ▸ mem_map_of_mem hx)
    rw [← Expr.isAssignable_viewed, ← hyx, Expr.isAssignable_viewed, hassign y hy]
    decide
  obtain ⟨_, pos, s, rfl, -⟩ : ∃ mid, Next .control "=" mid s := by
    rw [hcons, flatMap_cons, append_assoc, assigned_eq] at hs
    exact ⟨_, hs.spacedGlyph (by decide)⟩
  have haugmented : BinaryOp.ofAugmented? "=" = none := by decide
  refine ⟨.assign span' (first' :: more') value', s',
    ?_, by simp [hfirst', hmore', hvalue'], hs', hsmaller⟩
  simp [haugmented, -bind_pure_comp, hmany, hfound]

end BlockScript.Program.Parse
