import BlockScript.Proofs.RoundTrip.Definitions
import BlockScript.Proofs.RoundTrip.Keywords

/-! Every program that can be written is read back. -/

namespace BlockScript.Program

open Parse Token List

variable [View]

theorem Stmt.Valid.readable {stmt : Stmt} (h : stmt.Valid) (hkept : stmt.Kept) :
    StmtReadable stmt := by
  induction h with
  | @intro stmt shape exprs _ ih =>
    replace ih : ∀ t ∈ stmt.nested, StmtReadable t := fun t ht => ih t ht (hkept.nested ht)
    replace exprs : ∀ e ∈ stmt.exprs, Readable e :=
      fun e he => (exprs e he).readable (hkept.expr he)
    cases stmt with
    | expr s e => exact stmtReadable_expr (exprs e mem_cons_self)
    | assign s targets value =>
      exact stmtReadable_assign (fun e he => exprs e (mem_append_left _ he))
        (exprs value (mem_append_right _ mem_cons_self)) shape.1 shape.2
    | augAssign s target op value =>
      exact stmtReadable_augAssign (exprs target mem_cons_self)
        (exprs value (mem_cons_of_mem _ mem_cons_self)) shape
    | pass s => exact stmtReadable_pass
    | breakLoop s => exact stmtReadable_breakLoop
    | continueLoop s => exact stmtReadable_continueLoop
    | returns s value => exact stmtReadable_returns fun e he => exprs e (Option.mem_toList.2 he)
    | raises s value => exact stmtReadable_raises fun e he => exprs e (Option.mem_toList.2 he)
    | yields s value => exact stmtReadable_yields fun e he => exprs e (Option.mem_toList.2 he)
    | yieldsFrom s source => exact stmtReadable_yieldsFrom (exprs source mem_cons_self)
    | asserts s test message =>
      exact stmtReadable_asserts (exprs test mem_cons_self) fun e he =>
        exprs e (mem_cons_of_mem _ (Option.mem_toList.2 he))
    | imports s names => exact stmtReadable_imports shape.1 shape.2
    | importsFrom s module names => exact stmtReadable_importsFrom shape.1 shape.2.1 shape.2.2
    | globals s names => exact stmtReadable_globals shape.1 shape.2
    | nonlocals s names => exact stmtReadable_nonlocals shape.1 shape.2
    | ifElse s test body orelse =>
      exact stmtReadable_ifElse (exprs test mem_cons_self) (fun t ht =>
        ih t (mem_append_left _ ht)) shape
        fun t ht => ih t (mem_append_right _ ht)
    | whileLoop s test body =>
      exact stmtReadable_whileLoop (exprs test mem_cons_self) ih shape
    | forLoop s target source body =>
      exact stmtReadable_forLoop (exprs target mem_cons_self)
        (exprs source (mem_cons_of_mem _ mem_cons_self)) ih shape.1 shape.2
    | withBlock s context target body =>
      exact stmtReadable_withBlock (exprs context mem_cons_self)
        (fun e he => exprs e (mem_cons_of_mem _ (Option.mem_toList.2 he))) ih shape.1 shape.2
    | tryBlock s body handlers finalBody =>
      refine stmtReadable_tryBlock (fun t ht => ih t (mem_append_left _ ht))
        (fun h hh e he => exprs e (mem_filterMap.2 ⟨h, hh, he⟩)) (fun h hh t ht => ?_)
        (fun t ht => ih t (mem_append_right _ (mem_append_right _ ht))) shape.1 shape.2.1
        shape.2.2
      exact ih t (mem_append_right _ (mem_append_left _ (mem_flatMap.2 ⟨h, hh, ht⟩)))
    | functionDef s name params body decorators =>
      exact stmtReadable_functionDef shape.1 shape.2.1
        (fun e he => exprs e (mem_append_right _ he)) ih shape.2.2
        fun e he => exprs e (mem_append_left _ he)
    | classDef s name bases body decorators =>
      exact stmtReadable_classDef shape.1 (fun e he => exprs e (mem_append_right _ he)) ih
        shape.2 fun e he => exprs e (mem_append_left _ he)

namespace Parse

theorem module_reads {m : Module} (hm : ∀ stmt ∈ m, StmtReadable stmt) (filename : String) :
    ∃ m' s', parseModule (.ofText (m.flatMap fun stmt => (Print.stmt 0 stmt).toList) filename)
        (Source.ofText (m.flatMap fun stmt => (Print.stmt 0 stmt).toList) filename).tokens =
          .ok m' s' ∧ m'.map Stmt.viewed = m.map Stmt.viewed := by
  have hload := load_ofText_le (m.flatMap fun stmt => (Print.stmt 0 stmt).toList) filename
  generalize hsrc : Source.ofText (m.flatMap fun stmt => (Print.stmt 0 stmt).toList) filename =
    src at hload ⊢
  have hdepth : src.depth =
      4 * ((m.flatMap fun stmt => (Print.stmt 0 stmt).toList).length + 4) := by
    rw [← hsrc]
    rfl
  have hs : AheadLine ((m.flatMap fun stmt => (Print.stmt 0 stmt).toList) ++ []) src.tokens := by
    rw [append_nil, ← hsrc]
    exact ⟨_, none, rfl⟩
  have hitem (pos : Position) (s : List Token) :
      parseTopLevel src src.rules (.ofDepth src src.rules src.depth)
        (⟨.indent, Print.indentation 0, pos⟩ :: s) =
        (do return some (← parseStatement src src.rules (.ofDepth src src.rules src.depth) (4 * 0)))
          s := by
    have hwidth : width ⟨.indent, Print.indentation 0, pos⟩ = 0 := Print.utf8ByteSize_indentation 0
    simp [parseTopLevel, hwidth]
  obtain ⟨sss, s', hmany, hsss, -⟩ := Takes.many (Continues 0)
    (fun stmt hstmt rest hfollow => (hm stmt hstmt).line _ hitem (by omega) (by omega) hfollow)
    (fun stmt hstmt rest => (hm stmt hstmt).continues) (.ends .nil) (fun s hs => by
      obtain ⟨pos, rfl⟩ := hs.nil
      rfl) hs hload
  refine ⟨sss.flatten, s', ?_, flatten_map_viewed hsss⟩
  change many (parseTopLevel src src.rules (.ofDepth src src.rules src.depth)) src.tokens =
    _ at hmany
  simp [parseModule, hmany]

end Parse

/-- What is printed of a program that can be written and of which nothing is lost is read as the
same program. -/
theorem Module.parse_print {m : Module} (hne : m ≠ []) (hvalid : ∀ stmt ∈ m, stmt.Valid)
    (hkept : ∀ stmt ∈ m, stmt.Kept) (filename : String) :
    ∃ m', Module.parse m.print.toList filename = .ok m' ∧ m'.viewed = m.viewed := by
  obtain ⟨m', s', hrun, hm'⟩ :=
    module_reads (fun stmt hstmt => (hvalid stmt hstmt).readable (hkept stmt hstmt)) filename
  refine ⟨m', ?_, hm'⟩
  rw [Module.print, Print.toList_block hne]
  simp only [Module.parse, Source.run, hrun, Source.finish]

end BlockScript.Program
