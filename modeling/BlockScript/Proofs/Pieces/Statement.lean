import BlockScript.Proofs.Pieces.Expression

/-! Statements are read faithfully, and with them whole scripts. -/

namespace BlockScript.Desugar

variable {script : Script} {grammar : Grammar} (hg : grammar.Faithful script)

include hg

theorem readAssignments_faithful : Faithful script (readAssignments grammar) := by
  intro s
  unfold readAssignments
  refine .current ?_
  split
  · next heq =>
    refine .bump ((hg.items {} _).andThen fun value t1 h1 => ?_)
    refine (layout_faithful script false t1).andThen fun after t2 h2 => ?_
    refine (hg.assignments t2).andThen fun rest t3 h3 => ?_
    exact .pure ((((Reads.control heq).trans h1).trans h2).trans h3)
  · exact .pure (.refl s)

theorem readAssigned_faithful : Faithful script (readAssigned grammar) := by
  intro s
  unfold readAssigned
  refine .current ?_
  split
  · refine .bump ((hg.items {} _).andThen fun value t h => ?_)
    exact .pure ((Reads.token s).trans h)
  · exact hg.assignments s

theorem readExprStatement_faithful : Faithful script (readExprStatement grammar) := by
  intro s
  unfold readExprStatement
  refine (hg.items {} s).andThen fun first t1 h1 => ?_
  refine (layout_faithful script false t1).andThen fun after t2 h2 => ?_
  refine (readAssigned_faithful hg t2).andThen fun assigned t3 h3 => .current ?_
  have hcode := (h1.trans h2).trans h3
  split
  · exact .pure hcode
  · exact (hg.items _ t3).andThen fun arguments t4 h4 => .pure (hcode.call h4)

omit hg in
theorem isNameIn_let {t : Token} (h : t.isNameIn ["def", "let"] = true) :
    t.text = "def" ∨ t.text = "let" := by
  simp only [Token.isNameIn, Bool.and_eq_true, List.contains_iff_mem] at h
  simpa using h.2

omit hg in
theorem readLocalName?_yields {mark : String} (hmark : script.localPrefix = some mark) (s : State) :
    Yields readLocalName? s fun found? t => ∀ name space, found? = some (name, space) →
      Reads script s (mark ++ name ++ space ++ "=") t := by
  unfold readLocalName?
  refine .current ?_
  split
  · next hkeyword =>
    refine .bump (.runThen fun gap t1 hrun => .current ?_)
    have hmark : Reads script s mark t1 := by
      have hmoves := layout_yields false s.bumped gap t1 hrun
      rw [hmoves.1]
      refine .marked hmark (s.scanner.copies_bump.trans hmoves.2) fun hs => ?_
      cases hrun
      rw [List.mem_append, not_or]
      refine ⟨?_, Scanner.newline_notMem_layout hs.bump⟩
      rcases isNameIn_let hkeyword with h | h <;> rw [h] <;> decide
    split
    · refine .bump ((layout_faithful script false _).andThen fun space t2 h2 => .current ?_)
      split
      · next heq =>
        refine .bump (.pure ?_)
        rintro _ _ ⟨⟩
        exact ((hmark.trans (.token t1)).trans h2).trans (.control heq)
      · exact .pure nofun
    · exact .pure nofun
  · exact .pure nofun

theorem readLocalDef?_yields (s : State) :
    Yields (readLocalDef? script grammar) s fun definition? t =>
      ∀ definition, definition? = some definition → Reads script s definition t := by
  unfold readLocalDef?
  split
  · exact .pure fun _ h => by cases h
  · next mark hmark =>
    refine .get ((readLocalName?_yields hmark s).andThen fun found? t1 h1 => ?_)
    cases found? with
    | none =>
      rintro _ _ ⟨⟩ _ ⟨⟩
    | some found =>
      obtain ⟨name, space⟩ := found
      refine (hg.items {} t1).andThen fun value t2 h2 => .pure ?_
      rintro _ ⟨⟩
      exact (h1 name space rfl).trans h2

omit hg in
theorem readYieldFrom_faithful (script : Script) (keyword : Token) :
    Faithful script (readYieldFrom keyword) := by
  intro s
  unfold readYieldFrom
  split
  · refine .get ((layout_yields false s).andThen fun between t1 h1 => .current ?_)
    split
    · next hfrom => exact .bump (.pure ((h1.reads script).trans (.name hfrom)))
    · refine .moveTo (.pure ?_)
      rw [h1.back]
      exact .refl s
  · exact .pure (.refl s)

theorem readListStatement_faithful : Faithful script (readListStatement grammar) := by
  intro s
  unfold readListStatement
  refine .current (.bump ?_)
  refine (readYieldFrom_faithful script _ _).andThen fun source t1 h1 => ?_
  refine (layout_faithful script false t1).andThen fun space t2 h2 => .current ?_
  have hcode := ((Reads.token s).trans h1).trans h2
  split
  · exact .pure hcode
  · exact (hg.items {} t2).andThen fun values t3 h3 => .pure (hcode.trans h3)

theorem readSimpleStatement_faithful : Faithful script (readSimpleStatement script grammar) := by
  intro s
  unfold readSimpleStatement
  have := hg.extending
  refine (layout_faithful script false s).andThen fun lead t1 h1 => ?_
  refine .runThen fun definition? t2 hrun => ?_
  cases definition? with
  | some definition => exact .pure (h1.trans (readLocalDef?_yields hg t1 _ t2 hrun definition rfl))
  | none =>
    have h2 : Reads script s lead t2 := by
      simpa using h1.trans (.of_rolledBack (readLocalDef?_none (.anywhere ..) hrun) (.refl t2))
    refine .current ?_
    split
    · exact .bump (.pure (h2.trans (.token _)))
    split
    · exact (readListStatement_faithful hg _).andThen fun code t3 h3 => .pure (h2.trans h3)
    split
    · exact (copyUntil_faithful script _ _).andThen fun code t3 h3 => .pure (h2.trans h3)
    · exact (readExprStatement_faithful hg _).andThen fun code t3 h3 => .pure (h2.trans h3)

theorem readSimpleStatements_faithful : Faithful script (readSimpleStatements script grammar) := by
  intro s
  unfold readSimpleStatements
  refine (readSimpleStatement_faithful hg s).andThen fun statement t1 h1 => ?_
  refine (layout_faithful script false t1).andThen fun after t2 h2 => .current ?_
  split
  · next hsemi =>
    refine .bump ((layout_faithful script false _).andThen fun space t3 h3 => .current ?_)
    have hcode := ((h1.trans h2).trans (.control hsemi)).trans h3
    split
    · exact .pure hcode
    · exact (hg.simpleStatements t3).andThen fun rest t4 h4 => .pure (hcode.trans h4)
  · exact .pure (h1.trans h2)

omit hg in
omit hg in
theorem readBlockHeader_faithful : Faithful script (readBlockHeader script) := by
  intro s
  unfold readBlockHeader
  refine .get (.moveTo ?_)
  have hheader : Reads script s (String.join (Scanner.copyHeader 0 s.scanner).1)
      { s with scanner := (Scanner.copyHeader 0 s.scanner).2 } :=
    .of_copies (copyHeader_copies 0 s.scanner)
  dsimp only
  split
  · next hcolon => exact .bump (.pure (hheader.trans (.control hcolon)))
  · exact .failThen _ _ _

theorem readSuite_faithful (width : Nat) : Faithful script (readSuite grammar width) := by
  intro s
  unfold readSuite
  refine .current ?_
  split
  · exact hg.block (some width) s
  · exact hg.simpleStatements s

omit hg in
theorem atLocalDef_yields (s : State) : Yields (atLocalDef script) s fun _ t => t = s := by
  unfold atLocalDef
  refine .get ?_
  dsimp only
  split
  · exact .pure rfl
  refine .bump ((layout_yields false s.bumped).andThen fun _ t1 h1 => .current (.bump ?_))
  refine (layout_yields false t1.bumped).andThen fun _ t2 h2 => .current (.moveTo (.pure ?_))
  rw [h2.1, State.bumped, h1.1, State.bumped]

theorem readStatement?_yields (width : Nat) (s : State) :
    Yields (readStatement? script grammar width) s fun statement? t =>
      match statement? with
      | none => t = s
      | some statement => Reads script s statement t := by
  unfold readStatement?
  refine .get ((layoutToIndent_yields s).andThen fun lead t1 h1 => .current ?_)
  split
  · exact .moveTo (.pure h1.back)
  refine .bump (.current ?_)
  split
  · exact .moveTo (.pure h1.back)
  dsimp only
  split
  · exact .failThen _ _ _
  have hindent := (h1.reads script).trans (.token t1)
  refine (atLocalDef_yields _).andThen fun isDef t2 h2 => ?_
  subst h2
  split
  · refine (readBlockHeader_faithful _).andThen fun header t3 h3 => ?_
    refine (layout_faithful script false t3).andThen fun space t4 h4 => ?_
    refine (readSuite_faithful hg width t4).andThen fun body t5 h5 => ?_
    exact .pure (((hindent.trans h3).trans h4).trans h5)
  · exact (hg.simpleStatements _).andThen fun code t3 h3 => .pure (hindent.trans h3)

theorem readStatements_faithful (width : Nat) :
    Faithful script (readStatements script grammar width) := by
  intro s
  unfold readStatements
  refine (readStatement?_yields hg width s).andThen fun statement? t1 h1 => ?_
  cases statement? with
  | none =>
    subst h1
    exact .pure (.refl _)
  | some statement =>
    refine (layoutToIndent_faithful script t1).andThen fun after t2 h2 => ?_
    exact (hg.statements width t2).andThen fun rest t3 h3 => .pure ((h1.trans h2).trans h3)

theorem readBlock_faithful (parent : Option Nat) :
    Faithful script (readBlock script grammar parent) := by
  intro s
  unfold readBlock
  refine (layoutToIndent_faithful script s).andThen fun lead t1 h1 => .get ?_
  dsimp only
  split
  · exact .pure h1
  have statements (width : Nat) : Yields (do return lead ++ (← grammar.statements width)) t1
      (Reads script s) :=
    (hg.statements width t1).andThen fun code t2 h2 => .pure (h1.trans h2)
  split
  · exact statements _
  · split
    · exact .failThen _ _ _
    · exact statements _

theorem readProgram_faithful : Faithful script (readProgram script grammar) := by
  intro s
  unfold readProgram
  refine (hg.block none s).andThen fun code t1 h1 => .get ?_
  refine (layout_yields true t1).andThen fun trailing t2 h2 => .current ?_
  split
  · exact .pure (h1.trans (h2.reads _))
  refine .moveTo ?_
  rw [h2.back]
  split
  · exact .failThen _ _ _
  · exact (hg.program t1).andThen fun rest t3 h3 => .pure (h1.trans h3)

omit hg in
theorem Grammar.exhausted_faithful (script : Script) : Grammar.exhausted.Faithful script := by
  refine ⟨Grammar.extending_ofDepth _ script 0, ?_, ?_, ?_, ?_, ?_, ?_, ?_, ?_, ?_, ?_⟩ <;>
    intros <;> intro s code t h <;> cases h

omit hg in
/-- Every rule of the grammar is faithful, at every depth of recursion. -/
theorem Grammar.ofDepth_faithful (script : Script) (n : Nat) :
    (Grammar.ofDepth script n).Faithful script := by
  induction n with
  | zero => exact Grammar.exhausted_faithful script
  | succ n ih =>
    rw [Grammar.ofDepth_succ]
    exact {
      extending := Grammar.extending_ofDepth _ script (n + 1)
      expr := readExpr_faithful ih
      exprTail := readExprTail_faithful ih
      items := readItems_faithful ih
      dictEntries := readDictEntries_faithful ih
      simpleStatements := readSimpleStatements_faithful ih
      inlineStatements := readInlineStatements_faithful ih
      assignments := readAssignments_faithful ih
      block := readBlock_faithful ih
      statements := readStatements_faithful ih
      program := readProgram_faithful ih }

omit hg in
theorem Grammar.ofDepth_program_yields (script : Script) (n : Nat) (s : State) :
    Yields (Grammar.ofDepth script n).program s fun _ t => t.scanner.current.isEof = true := by
  induction n generalizing s with
  | zero =>
    intro _ _ h
    cases h
  | succ n ih =>
    rw [Grammar.ofDepth_succ]
    change Yields (readProgram script (Grammar.ofDepth script n)) s _
    unfold readProgram
    refine .anyThen fun code t1 => .get ?_
    refine (layout_yields true t1).andThen fun trailing t2 _ => .current ?_
    split
    · next heof => exact .pure heof
    refine .moveTo ?_
    dsimp only
    split
    · exact .failThen _ _ _
    · exact (ih _).andThen fun rest t3 h3 => .pure h3

end BlockScript.Desugar

namespace BlockScript

open Desugar

/-- A script that is read, if its run to the end gives a value of the last state. -/
theorem exists_desugar_of_run' {α : Type} {script : Desugar.Script} {view : State → α}
    {a : α} (h : (do
      let _ ← (Grammar.ofDepth script script.depth).program
      return view (← get) : Reading α).run' script.start = some a) :
    ∃ d t, desugar script = .ok d ∧
      (Grammar.ofDepth script script.depth).program script.start = .ok d.code t ∧ view t = a := by
  change (EStateM.bind (Grammar.ofDepth script script.depth).program _).run' script.start = _ at h
  unfold EStateM.run' EStateM.run EStateM.bind at h
  cases hrun : (Grammar.ofDepth script script.depth).program script.start with
  | error e t =>
    rw [hrun] at h
    cases h
  | ok code t =>
    rw [hrun] at h
    refine ⟨⟨code, t.closures.sortByPosition⟩, t, ?_, rfl, Option.some.inj h⟩
    unfold desugar Script.readTo
    rw [hrun]

/-- A script that is read, if running it shows so. -/
theorem exists_desugar_of_any {script : Desugar.Script} {p : Desugared → Bool}
    (h : (desugar script).toOption.any p = true) : ∃ d, desugar script = .ok d ∧ p d = true := by
  cases hd : desugar script with
  | error e =>
    rw [hd] at h
    cases h
  | ok d =>
    rw [hd] at h
    exact ⟨d, rfl, h⟩

end BlockScript
