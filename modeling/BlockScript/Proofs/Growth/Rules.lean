import BlockScript.Proofs.Growth

/-! Every rule of the grammar extends the state. Where a rule only puts others together this is seen
from its shape; documents, closures and local definitions, which may be looked for in vain, need an
argument. -/

namespace BlockScript.Desugar

class Grammar.Extending (K : Prop) (script : Script) (grammar : Grammar) : Prop where
  expr : ∀ mode, Desugar.Extending K script (grammar.expr mode)
  exprTail : ∀ mode, Desugar.Extending K script (grammar.exprTail mode)
  items : ∀ mode, Desugar.Extending K script (grammar.items mode)
  dictEntries : Desugar.Extending K script grammar.dictEntries
  simpleStatements : Desugar.Extending K script grammar.simpleStatements
  inlineStatements : Desugar.Extending K script grammar.inlineStatements
  assignments : Desugar.Extending K script grammar.assignments
  block : ∀ parent, Desugar.Extending K script (grammar.block parent)
  statements : ∀ width, Desugar.Extending K script (grammar.statements width)
  program : Desugar.Extending K script grammar.program

attribute [instance] Grammar.Extending.expr Grammar.Extending.exprTail Grammar.Extending.items
  Grammar.Extending.dictEntries Grammar.Extending.simpleStatements
  Grammar.Extending.inlineStatements Grammar.Extending.assignments Grammar.Extending.block
  Grammar.Extending.statements Grammar.Extending.program

-- an instance for a rule has one node for each step of the rule
set_option synthInstance.maxSize 512

variable {K : Prop} {script : Script} {grammar : Grammar}

/-! ## Plugins -/

theorem inside_openDocument {s : Scanner} (h : Inside K script s) :
    Stands K script (openDocument s).1.1.pos ∧
    (∀ after ∈ (openDocument s).1.2, Stands K script after.pos) ∧
      Inside K script (openDocument s).2 := by
  have hopen (hK : K) := (h.within hK).setSkipped [.whitespace]
  simp only [openDocument, Scanner.withSkipped]
  split
  · have hnext (hK : K) : Scanner.Within script.source
        (if (s.setSkipped [.whitespace]).bump.current.kind == .comment then
          (s.setSkipped [.whitespace]).bump.bump else (s.setSkipped [.whitespace]).bump) := by
      split
      · exact (hopen hK).bump.bump
      · exact (hopen hK).bump
    refine ⟨⟨fun hK => (hopen hK).place⟩, ?_, ⟨fun hK => ?_, fun hK => (hnext hK).setSkipped _⟩⟩
    · rintro _ ⟨⟩
      exact ⟨fun hK => (hnext hK).place⟩
    · rw [Scanner.skipped_setSkipped, h.skipped hK]
  · refine ⟨⟨fun hK => (hopen hK).place⟩, nofun, ⟨fun hK => ?_, fun hK => (hopen hK).setSkipped _⟩⟩
    rw [Scanner.skipped_setSkipped, h.skipped hK]

theorem inside_closeDocument {s : Scanner} (h : Inside K script s) (offset : Nat) :
    Stands K script (closeDocument s offset).1.pos ∧
    Inside K script (closeDocument s offset).2 := by
  have hjump (hK : K) := ((h.within hK).jumpTo offset).setSkipped [.indent, .whitespace]
  refine ⟨⟨fun hK => (hjump hK).place⟩, fun hK => ?_, fun hK => (hjump hK).setSkipped _⟩
  exact (Scanner.skipped_setSkipped _ _).trans (h.skipped hK)

namespace Extending

instance readYaml (read? : List Char → Option Yaml.Value) :
    Extending K script (readYaml read? script) := by
  unfold Desugar.readYaml
  refine @getBind _ _ _ _ fun ⟨s, hs⟩ => ?_
  have hopen := inside_openDocument hs
  dsimp only
  generalize openDocument s.scanner = opened at hopen ⊢
  obtain ⟨⟨brace, after⟩, scanner⟩ := opened
  obtain ⟨hbrace, hafter, hscanner⟩ := hopen
  dsimp only at hbrace hscanner ⊢
  refine .andThen fun _ => ?_
  cases after with
  | none => infer_instance
  | some after =>
    have := hafter after rfl
    refine @ite _ _ _ _ _ _ _ ?_ inferInstance
    split
    · infer_instance
    · infer_instance
    · next document rest hdocument =>
      obtain ⟨hclose, hend⟩ := inside_closeDocument hscanner
        (Text.byteSize script.source - Text.byteSize rest)
      refine .andThen fun _ => @ite _ _ _ _ _ _ _ (.andThen fun _ => ?_) inferInstance
      split
      · infer_instance
      · infer_instance

instance readUpper : Extending K script (readUpper script) := by
  unfold Desugar.readUpper
  infer_instance

variable [grammar.Extending K script]

instance readMaybe : Extending K script (readMaybe grammar) where
  ok {s t code} hs h := by
    unfold Desugar.readMaybe at h
    split at h
    · next hrun =>
      cases h
      exact ok hs hrun
    · next hrun =>
      cases h
      exact (tryReading_error hs hrun).1.extends_ hs
    · cases h
  error {s t e} hs h := by
    unfold Desugar.readMaybe at h
    split at h
    · cases h
    · cases h
    · next hrun =>
      cases h
      exact error hs hrun

instance read (plugin : Plugin) : Extending K script (plugin.read script grammar) := by
  cases plugin with
  | yaml read? => exact readYaml read?
  | answer => exact pure _
  | upper => exact readUpper
  | maybe => exact readMaybe

instance readPlugin : Extending K script (readPlugin script grammar) := by
  unfold Desugar.readPlugin
  refine .andThen fun _ => @currentBind _ _ _ _ fun name => @ite _ _ _ _ _ _ _ ?_ inferInstance
  split
  · infer_instance
  · infer_instance

/-! ## Expressions -/

instance readClosureStatements (lead : String) :
    Extending K script (readClosureStatements grammar lead) := by
  unfold Desugar.readClosureStatements
  infer_instance

instance readClosureBody : Extending K script (readClosureBody script grammar) := by
  unfold Desugar.readClosureBody
  infer_instance

instance readInlineStatements : Extending K script (readInlineStatements grammar) := by
  unfold Desugar.readInlineStatements
  infer_instance

instance readClosureContent? (parameters : Option (List String)) :
    Extending K script (readClosureContent? script grammar parameters) := by
  unfold Desugar.readClosureContent?
  infer_instance

instance opensDict : Extending K script (opensDict grammar) := by
  unfold Desugar.opensDict
  infer_instance

instance atDict : Extending K script (atDict grammar) := by
  unfold Desugar.atDict
  infer_instance

end Extending

section

variable {s t : State} (hs : Inside K script s.scanner)

include hs

/-- What looking for a closure comes to: the inside of one was read up to a state `u`, and then that
failed, or there was no body and all is undone, or the closure is complete. -/
theorem readClosure?_cases (grammar : Grammar) [grammar.Extending K script] : ∃ u : State,
    State.Extends { s with scanner := s.scanner.passHeader.2, stack := s.nextId :: s.stack } u ∧
      Inside K script u.scanner ∧
      ((∃ e, readClosure? script grammar s = .error e u ∧ Blames K script e) ∨
        readClosure? script grammar s =
          .ok none (State.rollback { u with stack := s.stack } s.checkpoint) ∨
        ∃ closure : Closure, closure.id = s.nextId ∧ readClosure? script grammar s =
          .ok (some closure) { u with stack := s.stack, counter := u.counter + 1 }) := by
  have hcontent : Extending K script (readClosureContent? script grammar s.scanner.passHeader.1) :=
    inferInstance
  cases hrun : readClosureContent? script grammar s.scanner.passHeader.1
      { s with scanner := s.scanner.passHeader.2, stack := s.nextId :: s.stack } with
  | error e u =>
    have hinside : inClosure s.nextId s.scanner.passHeader.2
        (readClosureContent? script grammar s.scanner.passHeader.1) s = .error e u :=
      (bind_ok rfl).trans (bind_error hrun)
    obtain ⟨hu, hscanner, he⟩ := hcontent.error Inside.passHeader hrun
    exact ⟨u, hu, hscanner, .inl ⟨e, (bind_ok rfl).trans (bind_error hinside), he⟩⟩
  | ok body? u =>
    obtain ⟨hu, hstack, hscanner⟩ := hcontent.ok Inside.passHeader hrun
    have hinside : inClosure s.nextId s.scanner.passHeader.2
        (readClosureContent? script grammar s.scanner.passHeader.1) s =
          .ok body? { u with stack := u.stack.drop 1 } := (bind_ok rfl).trans (bind_ok hrun)
    rw [hstack] at hinside
    refine ⟨u, hu, hscanner, .inr ?_⟩
    cases body? with
    | none => exact .inl ((bind_ok rfl).trans (bind_ok hinside))
    | some body => exact .inr ⟨_, rfl, (bind_ok rfl).trans (bind_ok hinside)⟩

variable [grammar.Extending K script]

theorem readClosure?_none (h : readClosure? script grammar s = .ok none t) : s.RolledBack t := by
  obtain ⟨u, hu, -, ⟨e, herror, -⟩ | hnone | ⟨closure, -, hsome⟩⟩ := readClosure?_cases hs grammar
  · cases herror.symm.trans h
  · cases hnone.symm.trans h
    exact ⟨_, hu.closed (Nat.le_refl _), rfl⟩
  · cases hsome.symm.trans h

theorem readClosure?_some {closure : Closure}
    (h : readClosure? script grammar s = .ok (some closure) t) :
    (s.Extends t ∧ t.stack = s.stack ∧ Inside K script t.scanner) ∧ closure.id = s.nextId ∧
      s.counter < t.counter ∧ (s.Numbered → closure.id ∉ t.closures.keys) := by
  obtain ⟨u, hu, hscanner, ⟨e, herror, -⟩ | hnone | ⟨closure', hid, hsome⟩⟩ :=
    readClosure?_cases hs grammar
  · cases herror.symm.trans h
  · cases hnone.symm.trans h
  · cases hsome.symm.trans h
    exact ⟨⟨hu.closed (Nat.le_succ _), rfl, hscanner⟩, hid, Nat.lt_succ_of_le hu.counter,
      hid ▸ hu.nextId_not_mem⟩

end

namespace Extending

variable [grammar.Extending K script]

instance readClosure? : Extending K script (readClosure? script grammar) where
  ok {s t closure?} hs h := by
    cases closure? with
    | none => exact (readClosure?_none hs h).extends_ hs
    | some closure => exact (readClosure?_some hs h).1
  error {s t e} hs h := by
    obtain ⟨u, hu, hscanner, ⟨e', herror, he⟩ | hnone | ⟨closure, -, hsome⟩⟩ :=
    readClosure?_cases hs grammar
    · cases herror.symm.trans h
      exact ⟨(State.Extends.opened s _ [s.nextId]).trans hu, hscanner, he⟩
    · cases hnone.symm.trans h
    · cases hsome.symm.trans h

instance readDictEntries : Extending K script (readDictEntries script grammar) := by
  unfold Desugar.readDictEntries
  infer_instance

instance readDict : Extending K script (readDict script grammar) := by
  unfold Desugar.readDict
  infer_instance

instance readWordOperator : Extending K script (readWordOperator script) := by
  unfold Desugar.readWordOperator
  infer_instance

/-- An error at the end of input is told at the bracket, but the state is that of the error. -/
instance readBracketItems (opening : Token) [hopening : Stands K script opening.pos]
    (close : String)
    (mode : Mode) : Extending K script (readBracketItems script grammar opening close mode) where
  ok {s t code} hs h := by
    unfold Desugar.readBracketItems at h
    split at h
    · next hrun =>
      cases h
      exact ok hs hrun
    · dsimp only at h
      split at h <;> cases h
    · cases h
  error {s t e} hs h := by
    unfold Desugar.readBracketItems at h
    split at h
    · cases h
    · next hrun =>
      obtain ⟨hu, hscanner, he⟩ := error hs hrun
      dsimp only at h
      split at h
      · cases h
        refine ⟨hu, hscanner, ?_⟩
        rintro _ ⟨⟩ hK
        exact ⟨_, _, _, hopening.place hK, rfl⟩
      · cases h
        exact ⟨hu, hscanner, he⟩
    · next hrun =>
      cases h
      exact error hs hrun

instance readBracketContent (opening : Token) [Stands K script opening.pos] (close : String)
    (mode : Mode) : Extending K script (readBracketContent script grammar opening close mode) := by
  unfold Desugar.readBracketContent
  infer_instance

instance readBracket (mode : Mode) : Extending K script (readBracket script grammar mode) := by
  unfold Desugar.readBracket
  infer_instance

instance readOperand (mode : Mode) : Extending K script (readOperand script grammar mode) := by
  unfold Desugar.readOperand
  infer_instance

instance readAtom (mode : Mode) : Extending K script (readAtom script grammar mode) := by
  unfold Desugar.readAtom
  refine .andThen fun isDict => @ite _ _ _ _ _ _ _ inferInstance ?_
  refine ⟨fun {s t code} hs h => ?_, fun {s t e} hs h => ?_⟩
  · cases hrun : Desugar.readClosure? script grammar s with
    | error e u => cases (bind_error hrun).symm.trans h
    | ok closure? u =>
      rw [bind_ok hrun] at h
      cases closure? with
      | none =>
        obtain ⟨h₁, hstack₁, hu⟩ := readClosure?.ok hs hrun
        obtain ⟨h₂, hstack₂, ht⟩ := (readOperand mode).ok hu h
        exact ⟨h₁.trans h₂, hstack₂.trans hstack₁, ht⟩
      | some closure =>
        obtain ⟨⟨hextends, hstack, hu⟩, hid, hcounter, hnew⟩ := readClosure?_some hs hrun
        cases h
        exact ⟨hextends.registered hid hcounter hnew, hstack, hu⟩
  · cases hrun : Desugar.readClosure? script grammar s with
    | error e u =>
      cases (bind_error hrun).symm.trans h
      exact readClosure?.error hs hrun
    | ok closure? u =>
      rw [bind_ok hrun] at h
      cases closure? with
      | none =>
        obtain ⟨h₁, -, hu⟩ := readClosure?.ok hs hrun
        obtain ⟨h₂, ht⟩ := (readOperand mode).error hu h
        exact ⟨h₁.trans h₂, ht⟩
      | some closure => cases h

instance readExpr (mode : Mode) : Extending K script (readExpr script grammar mode) := by
  unfold Desugar.readExpr
  infer_instance

instance readExprTail (mode : Mode) : Extending K script (readExprTail script grammar mode) := by
  unfold Desugar.readExprTail
  infer_instance

instance readItem (mode : Mode) : Extending K script (readItem grammar mode) := by
  unfold Desugar.readItem
  infer_instance

instance readKeywordValue (mode : Mode) : Extending K script (readKeywordValue grammar mode) := by
  unfold Desugar.readKeywordValue
  infer_instance

instance readItems (mode : Mode) : Extending K script (readItems grammar mode) := by
  unfold Desugar.readItems
  infer_instance

/-! ## Statements -/

instance readAssignments : Extending K script (readAssignments grammar) := by
  unfold Desugar.readAssignments
  infer_instance

instance readAssigned : Extending K script (readAssigned grammar) := by
  unfold Desugar.readAssigned
  infer_instance

instance readExprStatement : Extending K script (readExprStatement grammar) := by
  unfold Desugar.readExprStatement
  infer_instance

instance readYieldFrom (keyword : Token) : Extending K script (readYieldFrom keyword) := by
  unfold Desugar.readYieldFrom
  infer_instance

instance readListStatement : Extending K script (readListStatement grammar) := by
  unfold Desugar.readListStatement
  infer_instance

instance atLocalDef : Extending K script (atLocalDef script) := by
  unfold Desugar.atLocalDef
  infer_instance

instance readLocalName? : Extending K script readLocalName? := by
  unfold Desugar.readLocalName?
  infer_instance

end Extending

section

variable {s t : State} (hs : Inside K script s.scanner)

include hs

/-- What looking for a local definition comes to: that may fail, or none stands here, or its value
is read from the state after its name. -/
theorem readLocalDef?_cases (grammar : Grammar) :
    (∃ e t, (s.Extends t ∧ Inside K script t.scanner ∧ Blames K script e) ∧
        readLocalDef? script grammar s = .error e t) ∨
      (∃ t, s.RolledBack t ∧ readLocalDef? script grammar s = .ok none t) ∨
      ∃ (u : State) (f : String → String), (s.Extends u ∧ u.stack = s.stack ∧
        Inside K script u.scanner) ∧
        readLocalDef? script grammar s =
          (do return some (f (← grammar.items {})) : Reading _) u := by
  unfold readLocalDef?
  cases script.localPrefix with
  | none => exact .inr (.inl ⟨s, .refl s, rfl⟩)
  | some mark =>
    cases hname : readLocalName? s with
    | error e u =>
      exact .inl ⟨e, u, Extending.readLocalName?.error hs hname,
        (bind_ok rfl).trans (bind_error hname)⟩
    | ok name? u =>
      have hu := Extending.readLocalName?.ok hs hname
      cases name? with
      | none => exact .inr (.inl ⟨_, ⟨u, hu.1, rfl⟩, (bind_ok rfl).trans (bind_ok hname)⟩)
      | some name => exact .inr (.inr ⟨u, _, hu, (bind_ok rfl).trans (bind_ok hname)⟩)

theorem readLocalDef?_none (h : readLocalDef? script grammar s = .ok none t) : s.RolledBack t := by
  obtain ⟨e, t', -, herror⟩ | ⟨t', ht', hnone⟩ | ⟨u, f, -, hsome⟩ := readLocalDef?_cases hs grammar
  · cases herror.symm.trans h
  · cases hnone.symm.trans h
    exact ht'
  · rw [hsome] at h
    cases hvalue : grammar.items {} u with
    | ok value v => cases (bind_ok hvalue).symm.trans h
    | error e v => cases (bind_error hvalue).symm.trans h

end

namespace Extending

variable [grammar.Extending K script]

instance readLocalDef? : Extending K script (readLocalDef? script grammar) where
  ok {s t definition?} hs h := by
    obtain ⟨e, t', -, herror⟩ | ⟨t', ht', hnone⟩ | ⟨u, f, ⟨hu, hstack, hscanner⟩, hsome⟩ :=
      readLocalDef?_cases hs grammar
    · cases herror.symm.trans h
    · cases hnone.symm.trans h
      exact ht'.extends_ hs
    · obtain ⟨hvalue, hstack', ht⟩ := ok hscanner (hsome.symm.trans h)
      exact ⟨hu.trans hvalue, hstack'.trans hstack, ht⟩
  error {s t e} hs h := by
    obtain ⟨e, t', ht', herror⟩ | ⟨t', -, hnone⟩ | ⟨u, f, ⟨hu, -, hscanner⟩, hsome⟩ :=
      readLocalDef?_cases hs grammar
    · cases herror.symm.trans h
      exact ht'
    · cases hnone.symm.trans h
    · obtain ⟨hvalue, ht⟩ := error hscanner (hsome.symm.trans h)
      exact ⟨hu.trans hvalue, ht⟩

instance readSimpleStatement : Extending K script (readSimpleStatement script grammar) := by
  unfold Desugar.readSimpleStatement
  refine .andThen fun lead => .andThen fun definition? => ?_
  cases definition? with
  | some definition => exact pure _
  | none => infer_instance

instance readSimpleStatements : Extending K script (readSimpleStatements script grammar) := by
  unfold Desugar.readSimpleStatements
  infer_instance

instance readBlockHeader : Extending K script (readBlockHeader script) := by
  unfold Desugar.readBlockHeader
  refine @getBind _ _ _ _ fun ⟨s, hs⟩ => ?_
  have := hs.copies (copyHeader_copies 0 s.scanner)
  dsimp only
  infer_instance

instance readSuite (width : Nat) : Extending K script (readSuite grammar width) := by
  unfold Desugar.readSuite
  infer_instance

instance readStatement? (width : Nat) :
    Extending K script (readStatement? script grammar width) := by
  unfold Desugar.readStatement?
  infer_instance

instance readStatements (width : Nat) :
    Extending K script (readStatements script grammar width) := by
  unfold Desugar.readStatements
  refine .andThen fun statement? => ?_
  cases statement? with
  | none => exact pure ""
  | some statement => infer_instance

instance readBlock (parent : Option Nat) :
    Extending K script (readBlock script grammar parent) := by
  unfold Desugar.readBlock
  cases parent with
  | none => infer_instance
  | some width => infer_instance

instance readProgram : Extending K script (readProgram script grammar) := by
  unfold Desugar.readProgram
  infer_instance

end Extending

instance Grammar.extending_step [grammar.Extending K script] :
    (grammar.step script).Extending K script where
  expr := Extending.readExpr
  exprTail := Extending.readExprTail
  items := Extending.readItems
  dictEntries := Extending.readDictEntries
  simpleStatements := Extending.readSimpleStatements
  inlineStatements := Extending.readInlineStatements
  assignments := Extending.readAssignments
  block := Extending.readBlock
  statements := Extending.readStatements
  program := Extending.readProgram

instance Grammar.extending_ofDepth (K : Prop) (script : Script) (n : Nat) :
    (Grammar.ofDepth script n).Extending K script := by
  induction n with
  | zero => constructor <;> intros <;> exact .throw nofun
  | succ n ih =>
    rw [Grammar.ofDepth_succ]
    infer_instance

end BlockScript.Desugar
