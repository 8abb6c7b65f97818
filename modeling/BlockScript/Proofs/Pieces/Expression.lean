import BlockScript.Proofs.Pieces.Reading

/-! Expressions are read faithfully: the code that a rule returns is the code of the pieces it has
read, if that holds of the rules it calls. So do plugins: whatever code a plugin writes, it stands
for the text from the plugin's mark to the place where reading goes on. -/

namespace BlockScript.Desugar

open List

/-! ## Plugins -/

theorem splitLine_cons (c : Char) (cs : List Char) : splitLine (c :: cs) =
    if c = '\n' then (['\n'], cs) else (c :: (splitLine cs).1, (splitLine cs).2) := by
  unfold splitLine
  by_cases hc : c = '\n'
  · simp [hc]
  · simp only [ne_eq, hc, not_false_eq_true, decide_true, takeWhile_cons_of_pos, length_cons,
      drop_succ_cons, if_false]
    split <;> rfl

theorem splitLine_append (text : List Char) : (splitLine text).1 ++ (splitLine text).2 = text := by
  induction text with
  | nil => rfl
  | cons c cs ih =>
    rw [splitLine_cons]
    split
    · next hc => rw [hc]; rfl
    · exact congrArg (c :: ·) ih

variable {document rest text before source : List Char} {width : Option Nat} {s t : Scanner}
  {grammar : Grammar}

theorem readDocument_induct {P : List Char → List Char → Prop}
    (refl : ∀ text, text ≠ [] → P text text)
    (line : ∀ text rest, text ≠ [] → P (splitLine text).2 rest → P text rest)
    (h : readDocument width text = .dedent document rest) : P text rest := by
  have step {text rest : List Char} {inner : DocumentEnd} {lead document : List Char}
      (htext : text ≠ [])
      (h : inner.prepend lead = .dedent document rest)
      (hi : ∀ {document rest}, inner = .dedent document rest → P (splitLine text).2 rest) :
      P text rest := by
    cases inner with
    | dedent document' rest' =>
      obtain ⟨-, rfl⟩ := DocumentEnd.dedent.inj h
      exact line _ _ htext (hi rfl)
    | endOfInput | notIndented => cases h
  fun_induction readDocument width text generalizing document rest with
  | case1 => cases h
  | case2 => rename_i ih; exact step ‹_› h ih
  | case3 => cases h
  | case4 => rename_i ih; exact step ‹_› h ih
  | case5 =>
    obtain ⟨-, rfl⟩ := DocumentEnd.dedent.inj h
    exact refl _ ‹_›
  | case6 => rename_i ih; exact step ‹_› h ih

theorem readDocument_rest (h : readDocument width text = .dedent document rest) :
    ∃ passed, text = passed ++ rest := by
  refine readDocument_induct (P := fun text rest => ∃ passed, text = passed ++ rest)
    (fun text _ => ⟨[], rfl⟩) (fun text rest _ => ?_) h
  rintro ⟨passed, hp⟩
  exact ⟨(splitLine text).1 ++ passed, by rw [append_assoc, ← hp, splitLine_append]⟩

theorem openDocument_at {brace after : Token} (h : openDocument s = ((brace, some after), t))
    (hk : s.skipped = []) (hs : s.At source before) :
    t.skipped = [] ∧ t.current = after ∧ ∃ text, t.At source (before ++ text) := by
  simp only [openDocument, Scanner.withSkipped, hk, Prod.mk.injEq] at h
  obtain ⟨h, rfl⟩ := h
  split at h
  · next hc =>
    rw [if_pos hc]
    obtain rfl := Option.some.inj (Prod.mk.inj h).2
    refine ⟨Scanner.skipped_setSkipped _ _, Scanner.current_setSkipped_nil _, ?_⟩
    refine Scanner.Before.trans (s.before_setSkipped [.whitespace]) ?_ source before hs
    refine (Scanner.before_bump _).trans (.trans ?_ (Scanner.before_setSkipped _ []))
    split
    · exact Scanner.before_bump _
    · exact .refl _
  · simp at h

/-- The closing brace of a document comes after the document. -/
theorem closeDocument_at {passed : List Char} {close : Token}
    (h : closeDocument s (Text.byteSize passed) = (close, t)) (hk : s.skipped = [])
    (hat : s.At source before) (hs : source = passed ++ rest) :
    t.skipped = [] ∧ ∃ text, t.At source (passed ++ text) := by
  simp only [closeDocument, Scanner.withSkipped, Prod.mk.injEq] at h
  obtain ⟨-, rfl⟩ := h
  have hjump : (s.jumpTo (Text.byteSize passed)).skipped = [] := hk
  rw [hjump]
  refine ⟨Scanner.skipped_setSkipped _ _, ?_⟩
  exact ((Scanner.before_setSkipped _ _).trans (Scanner.before_setSkipped _ _)) source passed
    (hat.jumpTo hk hs)

section

variable {script : Script} (hplugins : script.plugins ≠ [])

include hplugins

theorem readYaml_faithful (read? : List Char → Option Yaml.Value) :
    Faithful script (readYaml read? script) := by
  intro s
  unfold readYaml
  refine .get ?_
  rcases hopen : openDocument s.scanner with ⟨⟨brace, after⟩, scanner⟩
  refine .moveTo ?_
  dsimp only
  split
  · next after =>
    split
    · split
      · exact .fail _ _ _
      · exact .fail _ _ _
      · next document rest hdocument =>
        rcases hclose : closeDocument scanner
          (Text.byteSize script.source - Text.byteSize rest) with ⟨close, scanner'⟩
        refine .moveTo ?_
        dsimp only
        split
        · refine .bump ?_
          split
          · exact .fail _ _ _
          · refine .pure (Reads.replaced _ fun before hs => ?_)
            obtain ⟨hk, rfl, text, hat⟩ := openDocument_at hopen hs.skipped hs.scanner
            rw [hat.splitAtOffset?] at hdocument
            obtain ⟨passed, hp⟩ := readDocument_rest hdocument
            have hsource : script.source =
                before ++ (text ++ (scanner.current.text.toList ++ passed)) ++ rest := by
              rw [hat.split]
              simpa using hp
            rw [hsource, Text.byteSize_append, Nat.add_sub_cancel] at hclose
            obtain ⟨hk', text', hat'⟩ := closeDocument_at hclose hk hat hsource
            have hend := hat'.bump_all hk'
            rw [append_assoc, append_assoc] at hend
            exact ⟨(Scanner.skipped_bump _).trans hk', _, hend, fun h => absurd h hplugins⟩
        · exact .failThen _ _ _
    · exact .failThen _ _ _
  · exact .fail _ _ _

theorem readUpper_faithful : Faithful script (readUpper script) := by
  intro s
  unfold readUpper
  refine (copyUntil_yields _ s).andThen fun _ t h => .current ?_
  split
  · refine .bump (.pure ?_)
    rw [h.1]
    exact .of_passed hplugins _ (h.2.trans (Scanner.copies_bump _))
  · exact .failThen _ _ _

theorem readMaybe_faithful (hg : grammar.Faithful script) :
    Faithful script (readMaybe grammar) := by
  intro s code t h
  have := hg.extending
  unfold readMaybe at h
  cases hrun : tryReading (grammar.expr {}) s with
  | ok inner u =>
    rw [hrun] at h
    cases h
    have hinner : Reads script s inner t := hg.expr {} s inner t (tryReading_ok hrun)
    exact ((Reads.written hplugins s "(").trans hinner).trans (.written hplugins t ")")
  | error e u =>
    rw [hrun] at h
    cases e with
    | error _ =>
      cases h
      exact .of_rolledBack (tryReading_error (.anywhere script _) hrun).1 (.written hplugins t _)
    | exhausted => cases h

theorem Plugin.read_faithful (hg : grammar.Faithful script) (plugin : Plugin) :
    Faithful script (plugin.read script grammar) := by
  cases plugin with
  | yaml read? => exact readYaml_faithful hplugins read?
  | answer => exact fun s => .pure (.written hplugins s _)
  | upper => exact readUpper_faithful hplugins
  | maybe => exact readMaybe_faithful hplugins hg

end

theorem readPlugin_faithful {script : Script} (hg : grammar.Faithful script) :
    Faithful script (readPlugin script grammar) := by
  intro s
  unfold readPlugin
  refine .bump (.current ?_)
  dsimp only
  split
  · split
    · exact .fail _ _ _
    · next plugin hplugin =>
      have hplugins : script.plugins ≠ [] := ne_nil_of_mem (mem_of_find?_eq_some hplugin)
      refine .bump fun code t h => ?_
      have hmark : Reads script s "" s.bumped.bumped :=
        (Reads.dropped hplugins s).trans (.dropped hplugins _)
      simpa using hmark.trans (Plugin.read_faithful hplugins hg plugin _ code t h)
  · exact .failThen _ _ _

/-! ## Rules -/

variable {script : Script} {grammar : Grammar} (hg : grammar.Faithful script)

include hg

theorem readClosureStatements_faithful (lead : String) :
    Faithful script (readClosureStatements grammar lead) := by
  intro s
  unfold readClosureStatements
  split
  · refine (hg.block none s).andThen fun block t1 h1 => ?_
    exact (layout_faithful script true t1).andThen fun after t2 h2 => .pure (h1.trans h2)
  · exact hg.inlineStatements s

theorem readClosureBody_yields (s : State) : Yields (readClosureBody script grammar) s fun code u =>
      ∃ t, Reads script s.bumped code t ∧ t.scanner.current.isControl "\x7d" = true ∧
        u = t.bumped := by
  unfold readClosureBody
  refine .current (.bump ?_)
  refine (layoutToIndent_faithful script _).andThen fun lead t1 h1 => ?_
  refine (readClosureStatements_faithful hg lead t1).andThen fun code t2 h2 => .current ?_
  split
  · next hclose => exact .bump (.pure ⟨t2, h1.trans h2, hclose, rfl⟩)
  · exact .failThen _ _ _

theorem readInlineStatements_faithful : Faithful script (readInlineStatements grammar) := by
  intro s
  unfold readInlineStatements
  refine .current ?_
  split
  · exact .pure (.refl s)
  refine (hg.simpleStatements s).andThen fun code t1 h1 => ?_
  refine (layout_faithful script true t1).andThen fun after t2 h2 => ?_
  refine .current ?_
  split
  · exact .pure (h1.trans h2)
  · exact (hg.inlineStatements t2).andThen fun rest t3 h3 => .pure ((h1.trans h2).trans h3)

/-- The body of a closure is a block in braces, or an expression after an arrow. -/
theorem readClosureContent?_yields (parameters : Option (List String)) (s : State) :
    Yields (readClosureContent? script grammar parameters) s fun body? u =>
    ∀ body, body? = some body →
        (∃ code t, s.scanner.current.isControl "\x7b" = true ∧ body = .block code ∧
          Reads script s.bumped code t ∧ t.scanner.current.isControl "\x7d" = true ∧
          u = t.bumped ∧ (Text.trim code.toList).isEmpty = false) ∨
        ∃ code, parameters.isSome = true ∧ body = .expr code ∧ Reads script s code u := by
  unfold readClosureContent?
  refine .current ?_
  split
  · next hbrace =>
    refine (readClosureBody_yields hg s).andThen ?_
    rintro code _ ⟨t, ht, hclose, rfl⟩
    refine .pure fun body hbody => .inl ?_
    split at hbody
    · cases hbody
    · next hblank =>
      cases hbody
      exact ⟨code, t, hbrace, rfl, ht, hclose, rfl, Bool.eq_false_iff.2 hblank⟩
  split
  · next hparameters =>
    refine (hg.expr {} s).andThen fun code t ht => .pure fun body hbody => .inr ?_
    cases hbody
    exact ⟨code, hparameters, rfl, ht⟩
  · exact .pure nofun

omit hg in
theorem inClosure_yields {α : Type} {p : Reading α} {s : State} {id : String} {scanner : Scanner}
    {post : α → State → Prop} (h : Yields p { s with scanner, stack := id :: s.stack } post) :
    Yields (inClosure id scanner p) s fun a t =>
      ∃ u, post a u ∧ t = { u with stack := u.stack.drop 1 } := by
  change Yields (p >>= _) { s with scanner, stack := id :: s.stack } _
  refine h.andThen fun a u hu => ?_
  rintro _ _ ⟨⟩
  exact ⟨u, hu, rfl⟩

theorem readClosure?_yields (s : State) :
    Yields (readClosure? script grammar) s fun closure? t => ∀ closure, closure? = some closure →
      Reads script s closure.id { t with closures := t.closures.register closure } := by
  have hopen (before : List Char) (hs : s.At script.source before) :=
    Scanner.passHeader_at hs.skipped hs.scanner
  have hwords := Scanner.isWord_of_passHeader (s := s.scanner)
  unfold readClosure?
  refine .get ?_
  rcases hheader : s.scanner.passHeader with ⟨parameters, scanner⟩
  rw [hheader] at hopen hwords
  refine (inClosure_yields (readClosureContent?_yields hg parameters _)).andThen ?_
  rintro body? _ ⟨u, hu, rfl⟩
  cases body? with
  | none =>
    rintro _ _ ⟨⟩
    exact nofun
  | some body =>
    rintro _ _ ⟨⟩ _ ⟨⟩
    obtain ⟨code, t, hbrace, rfl, ht, hclose, rfl, hsolid⟩ | ⟨code, hparameters, rfl, ht⟩ :=
      hu body rfl
    · refine Reads.block (fun before hs => ?_) hwords hbrace ht hclose hsolid
      obtain ⟨hk, header, hat, -⟩ := hopen before hs
      exact ⟨hk, header, hat⟩
    · refine Reads.arrow (fun before hs => ?_) hwords ht
      obtain ⟨hk, header, hat, hne⟩ := hopen before hs
      exact ⟨hk, header, hne hparameters, hat⟩

theorem atDict_yields (s : State) : Yields (atDict grammar) s fun isDict t =>
      s.RolledBack t ∧ (isDict = true → s.scanner.current.isControl "\x7b" = true) := by
  have := hg.extending
  unfold atDict
  refine .current ?_
  split
  · next hbrace => exact fun isDict t h => ⟨succeeds_ok (.anywhere script _) h, fun _ => hbrace⟩
  · exact .pure ⟨.refl s, nofun⟩

theorem readDictEntries_faithful : Faithful script (readDictEntries script grammar) := by
  intro s
  unfold readDictEntries
  refine .current ?_
  split
  · exact .pure (.refl s)
  refine (layout_faithful script true s).andThen fun lead t1 h1 => ?_
  refine (hg.expr _ t1).andThen fun key t2 h2 => ?_
  refine (layout_faithful script true t2).andThen fun afterKey t3 h3 => .current ?_
  split
  · next hcolon =>
    refine .bump ?_
    refine (layout_faithful script true _).andThen fun afterColon t4 h4 => ?_
    refine (hg.expr _ t4).andThen fun value t5 h5 => ?_
    refine (layout_faithful script true t5).andThen fun afterValue t6 h6 => .current ?_
    have hentry := (((((h1.trans h2).trans h3).trans (.control hcolon)).trans h4).trans h5).trans h6
    split
    · next hcomma =>
      refine .bump ?_
      refine (layout_faithful script true _).andThen fun afterComma t7 h7 => ?_
      refine (hg.dictEntries t7).andThen fun rest t8 h8 => ?_
      exact .pure (((hentry.trans (.control hcomma)).trans h7).trans h8)
    · exact .pure hentry
  · exact .failThen _ _ _

theorem readDict_faithful {s : State} (h : s.scanner.current.isControl "\x7b" = true) :
    Yields (readDict script grammar) s (Reads script s) := by
  unfold readDict
  refine .current (.bump ?_)
  refine (hg.dictEntries _).andThen fun entries t1 h1 => .current ?_
  split
  · next hclose => exact .bump (.pure (((Reads.control h).trans h1).trans (.control hclose)))
  · exact .failThen _ _ _

omit hg in
theorem readWordOperator_faithful : Faithful script (readWordOperator script) := by
  intro s
  unfold readWordOperator
  refine .current (.bump ?_)
  have hword : Reads script s s.scanner.current.text s.bumped := .token s
  split
  · next his =>
    rw [beq_iff_eq.1 his] at hword
    refine .get ((layout_yields false s.bumped).andThen fun between t1 h1 => .current ?_)
    split
    · next hnot => exact .bump (.pure ((hword.trans (h1.reads _)).trans (.name hnot)))
    · refine .moveTo (.pure ?_)
      rwa [h1.back]
  split
  · next hnot =>
    rw [beq_iff_eq.1 hnot] at hword
    refine (layout_faithful script false _).andThen fun between t1 h1 => .current ?_
    split
    · next hin => exact .bump (.pure ((hword.trans h1).trans (.name hin)))
    · exact .failThen _ _ _
  · exact .pure hword

theorem readBracketItems_faithful (opening : Token) (close : String) (mode : Mode) :
    Faithful script (readBracketItems script grammar opening close mode) := by
  intro s code t h
  unfold readBracketItems at h
  split at h
  · next hitems =>
    cases h
    exact hg.items mode s _ _ hitems
  · dsimp only at h
    split at h <;> cases h
  · cases h

theorem readBracketContent_faithful (opening : Token) (close : String) (mode : Mode) :
    Faithful script (readBracketContent script grammar opening close mode) := by
  intro s
  unfold readBracketContent
  refine .current ?_
  split
  · exact .pure (.refl s)
  · exact readBracketItems_faithful hg opening close mode s

theorem readBracket_faithful (mode : Mode) : Faithful script (readBracket script grammar mode) := by
  intro s
  unfold readBracket
  refine .current (.bump ?_)
  refine (layout_faithful script true _).andThen fun lead t1 h1 => ?_
  refine (readBracketContent_faithful hg _ _ _ t1).andThen fun inner t2 h2 => .current ?_
  split
  · next hclose =>
    exact .bump (.pure ((((Reads.token s).trans h1).trans h2).trans (.control hclose)))
  · exact .failThen _ _ _

theorem readOperand_faithful (mode : Mode) : Faithful script (readOperand script grammar mode) := by
  intro s
  unfold readOperand
  refine .current ?_
  split
  · exact readPlugin_faithful hg s
  split
  · exact readBracket_faithful hg mode s
  split
  · refine .bump ((hg.expr {} _).andThen fun code t h => ?_)
    exact .pure ((Reads.token s).trans h)
  split
  · exact .bump (.pure (.token s))
  split
  · refine .bump ((hg.expr mode _).andThen fun code t h => ?_)
    exact .pure ((Reads.token s).trans h)
  · exact .fail _ _ _

theorem readAtom_faithful (mode : Mode) : Faithful script (readAtom script grammar mode) := by
  intro s
  unfold readAtom
  have := hg.extending
  refine (atDict_yields hg s).andThen fun isDict t1 ⟨h1, hbrace⟩ => ?_
  split
  · next h =>
    rw [← h1.scanner_eq] at hbrace
    exact fun code t ht => .of_rolledBack h1 (readDict_faithful hg (hbrace h) code t ht)
  · refine .runThen fun closure? t2 hrun => ?_
    cases closure? with
    | some closure =>
      rintro _ _ ⟨⟩
      exact .of_rolledBack h1 (readClosure?_yields hg t1 _ _ hrun closure rfl)
    | none =>
      intro code t ht
      have hoperand := readOperand_faithful hg mode t2 code t ht
      exact .of_rolledBack h1 (.of_rolledBack (readClosure?_none (.anywhere ..) hrun) hoperand)

theorem readExpr_faithful (mode : Mode) : Faithful script (readExpr script grammar mode) := by
  intro s
  unfold readExpr
  refine (layout_faithful script _ s).andThen fun lead t1 h1 => ?_
  refine (readAtom_faithful hg mode t1).andThen fun atom t2 h2 => ?_
  refine (hg.exprTail mode t2).andThen fun tail t3 h3 => ?_
  exact .pure ((h1.trans h2).trans h3)

theorem readExprTail_faithful (mode : Mode) :
    Faithful script (readExprTail script grammar mode) := by
  intro s
  unfold readExprTail
  refine (layout_faithful script _ s).andThen fun space t1 h1 => .current ?_
  split
  · refine .bump ((hg.expr mode _).andThen fun operand t2 h2 => ?_)
    refine (hg.exprTail mode t2).andThen fun tail t3 h3 => ?_
    exact .pure (((h1.trans (.token t1)).trans h2).trans h3)
  split
  · refine (readWordOperator_faithful t1).andThen fun word t2 h2 => ?_
    refine (hg.expr mode t2).andThen fun operand t3 h3 => ?_
    refine (hg.exprTail mode t3).andThen fun tail t4 h4 => ?_
    exact .pure (((h1.trans h2).trans h3).trans h4)
  split
  · refine (readAtom_faithful hg _ t1).andThen fun call t2 h2 => ?_
    refine (hg.exprTail mode t2).andThen fun tail t3 h3 => ?_
    exact .pure ((h1.trans h2).trans h3)
  split
  · refine (readAtom_faithful hg _ t1).andThen fun index t2 h2 => ?_
    refine (hg.exprTail mode t2).andThen fun tail t3 h3 => ?_
    exact .pure ((h1.trans h2).trans h3)
  · exact .pure h1

theorem readItem_faithful (mode : Mode) : Faithful script (readItem grammar mode) := by
  intro s
  unfold readItem
  refine .current ?_
  split
  · exact .pure (.refl s)
  · refine (hg.expr mode s).andThen fun code t1 h1 => ?_
    exact (layout_faithful script _ t1).andThen fun after t2 h2 => .pure (h1.trans h2)

theorem readKeywordValue_faithful (mode : Mode) :
    Faithful script (readKeywordValue grammar mode) := by
  intro s
  unfold readKeywordValue
  refine .current ?_
  split
  · next heq =>
    refine .bump ((hg.expr mode _).andThen fun code t1 h1 => ?_)
    refine (layout_faithful script _ t1).andThen fun after t2 h2 => ?_
    exact .pure (((Reads.control (Bool.and_eq_true_iff.1 heq).2).trans h1).trans h2)
  · exact .pure (.refl s)

theorem readItems_faithful (mode : Mode) : Faithful script (readItems grammar mode) := by
  intro s
  unfold readItems
  refine (layout_faithful script _ s).andThen fun lead t1 h1 => ?_
  refine (readItem_faithful hg mode t1).andThen fun item t2 h2 => ?_
  refine (readKeywordValue_faithful hg mode t2).andThen fun value t3 h3 => .current ?_
  have hitem := (h1.trans h2).trans h3
  split
  · refine .bump ((layout_faithful script _ _).andThen fun after t4 h4 => .current ?_)
    have hcode := (hitem.trans (.token t3)).trans h4
    split
    · exact .pure hcode
    · exact (hg.items mode t4).andThen fun rest t5 h5 => .pure (hcode.trans h5)
  · exact .pure hitem

end BlockScript.Desugar
