import BlockScript.Proofs.SourceLines
import BlockScript.Proofs.TokenStream

/-! Errors that quote what is read. The errors of reading a script stand at places of the script and
quote their line. The errors of the parser of programs quote its text: the code of the script, or
the definition of a closure. A line of those need not be a line of the script. -/

namespace BlockScript

open List

/-- The error names a line of the text, quotes it, and points into it. Carriage returns at the end
of the line are left out. -/
def SyntaxError.Quotes (e : SyntaxError) (text : List Char) : Prop :=
  1 ≤ e.line ∧ ∃ line, (text.splitOn '\n')[e.line - 1]? = some line ∧
    e.text.toList = Text.dropTrailing (· == '\r') line ∧ e.column ≤ line.length

variable {text : List Char}

theorem SyntaxError.quotes_ofFault (fault : SyntaxFault) (filename : String)
    {pos : Position} (h : PlaceIn text pos) : (ofFault fault filename text pos).Quotes text := by
  obtain ⟨before, after, rfl, rfl⟩ := h
  have hline : (Position.start.advance before).line = before.count '\n' + 1 := by
    rw [Position.line_advance, Nat.add_comm]
    rfl
  refine ⟨?_, Text.lineAround before after, ?_, ?_, ?_⟩
  · change 1 ≤ (Position.start.advance before).line
    rw [hline]
    exact Nat.le_add_left ..
  · change ((before ++ after).splitOn '\n')[(Position.start.advance before).line - 1]? = _
    rw [hline, Nat.add_sub_cancel]
    exact Text.getElem?_splitOn before after
  · change (String.ofList (Text.lineAt _ (Position.start.advance before).offset)).toList = _
    rw [Position.offset_start_advance, Text.lineAt_byteSize, String.toList_ofList]
  · change (Position.start.advance before).column ≤ _
    rw [Position.column_start_advance, Text.lineAround, Text.lastLine,
      length_append, length_reverse]
    exact Nat.le_add_right ..

variable {e : SyntaxError}

theorem SyntaxError.IsOf.quotes (h : e.IsOf text) : e.Quotes text := by
  obtain ⟨fault, filename, pos, hpos, rfl⟩ := h
  exact quotes_ofFault fault filename hpos

theorem quotes_of_desugar {script : Desugar.Script}
    (h : desugar script = .error e) : e.Quotes script.source := by
  unfold desugar Desugar.Script.readTo at h
  have hstart : Desugar.Inside True script script.start.scanner :=
    ⟨fun _ => rfl, fun _ => ⟨[], Scanner.ofSource_at _⟩⟩
  cases hrun : (Desugar.Grammar.ofDepth script script.depth).program script.start with
  | ok code t =>
    rw [hrun] at h
    cases h
  | error halt t =>
    rw [hrun] at h
    cases halt with
    | error e' =>
      cases h
      have hprogram := (Desugar.Grammar.extending_ofDepth True script script.depth).program
      exact ((hprogram.error hstart hrun).2.2 _ rfl trivial).quotes
    | exhausted =>
      cases h
      exact SyntaxError.quotes_ofFault _ _ inferInstance

open Program Compile Desugar

/-! ## Closures -/

def FailsWith {α : Type} (P : SyntaxError → Prop) (x : Except SyntaxError α) : Prop :=
  ∀ e, x = .error e → P e

namespace FailsWith

variable {α β : Type} {P : SyntaxError → Prop}

theorem ok (a : α) : FailsWith P (.ok a) := nofun

variable {f : α → Except SyntaxError β}

theorem bind {x : Except SyntaxError α} (hx : FailsWith P x)
    (hf : ∀ a, FailsWith P (f a)) : FailsWith P (x >>= f) := by
  intro e h
  cases x with
  | error e' =>
    cases h
    exact hx e rfl
  | ok a => exact hf a e h

theorem mapM {as : List α} (hf : ∀ a ∈ as, FailsWith P (f a)) : FailsWith P (as.mapM f) := by
  induction as with
  | nil => exact ok _
  | cons a as ih =>
    obtain ⟨ha, has⟩ := forall_mem_cons.1 hf
    rw [mapM_cons]
    exact bind ha fun _ => bind (ih has) fun _ => ok _

end FailsWith

namespace Compile

variable {closures : ClosureRegistry} {define : String → Except SyntaxError Stmt}
  {P : SyntaxError → Prop}

theorem failsWith_mentioned (hdefine : ∀ id, closures.contains id = true → FailsWith P (define id))
    (s : Stmt) : FailsWith P ((mentioned closures s).mapM define) :=
  .mapM fun id hid => hdefine id (mem_filter.1 (mem_eraseDups.1 hid)).2

mutual

theorem failsWith_withClosures (hdefine : ∀ id, closures.contains id = true →
      FailsWith P (define id)) :
    ∀ s : Stmt, FailsWith P (withClosures closures define s)
  | .ifElse _ _ body orelse => by
    rw [withClosures]
    exact (failsWith_blockWithClosures hdefine body).bind fun _ =>
      (failsWith_blockWithClosures hdefine orelse).bind fun _ =>
        (failsWith_mentioned hdefine _).bind fun _ => .ok _
  | .whileLoop _ _ body | .forLoop _ _ _ body | .withBlock _ _ _ body | .functionDef _ _ _ body _
  | .classDef _ _ _ body _ => by
    rw [withClosures]
    exact (failsWith_blockWithClosures hdefine body).bind fun _ =>
      (failsWith_mentioned hdefine _).bind fun _ => .ok _
  | .tryBlock _ body handlers finalBody => by
    rw [withClosures]
    exact (failsWith_blockWithClosures hdefine body).bind fun _ =>
      (failsWith_handlersWithClosures hdefine handlers).bind fun _ =>
        (failsWith_blockWithClosures hdefine finalBody).bind fun _ =>
          (failsWith_mentioned hdefine _).bind fun _ => .ok _
  | .expr .. | .assign .. | .augAssign .. | .pass .. | .breakLoop .. | .continueLoop ..
  | .returns .. | .asserts .. | .raises .. | .yields .. | .yieldsFrom .. | .imports ..
  | .importsFrom .. | .globals .. | .nonlocals .. =>
    (failsWith_mentioned hdefine _).bind fun _ => .ok _

theorem failsWith_blockWithClosures (hdefine : ∀ id, closures.contains id = true →
      FailsWith P (define id)) :
    ∀ ss : List Stmt, FailsWith P (blockWithClosures closures define ss)
  | [] => .ok _
  | s :: ss => by
    rw [blockWithClosures]
    exact (failsWith_withClosures hdefine s).bind fun _ =>
      (failsWith_blockWithClosures hdefine ss).bind fun _ => .ok _

theorem failsWith_handlersWithClosures
    (hdefine : ∀ id, closures.contains id = true → FailsWith P (define id)) :
    ∀ hs : List Handler, FailsWith P (handlersWithClosures closures define hs)
  | [] => .ok _
  | .mk _ _ _ body :: hs => by
    rw [handlersWithClosures]
    exact (failsWith_blockWithClosures hdefine body).bind fun _ =>
      (failsWith_handlersWithClosures hdefine hs).bind fun _ => .ok _

end

/-- The errors that the definition of a closure gives: those of parsing its text, and two that quote
no line. -/
inductive DefinitionError (filename : String) (closures : ClosureRegistry) : SyntaxError → Prop
  | parsed {id : String} {c : Closure} {e : SyntaxError} (hget : closures.get? id = some c)
      (hparse : Module.parse (definitionText c) filename = .error e) :
      DefinitionError filename closures e
  | notOne {id : String} {c : Closure} (hget : closures.get? id = some c) :
      DefinitionError filename closures ⟨.notOneDefinition, filename, c.line, c.column, ""⟩
  | nested : DefinitionError filename closures ⟨.tooDeep, filename, 0, 0, ""⟩

theorem failsWith_define (options : Options) (filename : String)
    (closures : ClosureRegistry) (n : Nat) : ∀ id, closures.contains id = true →
      FailsWith (DefinitionError filename closures)
        (Compile.define options filename closures n id) := by
  induction n with
  | zero =>
    rintro id - e ⟨⟩
    exact .nested
  | succ n ih =>
    intro id hid
    rw [Compile.define]
    split
    · next hnone =>
      rw [OrderedMap.contains, hnone] at hid
      cases hid
    · next c hget =>
      refine .bind (fun e h => .parsed hget h) fun m => ?_
      split
      · exact (failsWith_blockWithClosures ih _).bind fun _ => .ok _
      · rintro e ⟨⟩
        exact .notOne hget

theorem failsWith_insertClosures (options : Options) (filename : String)
    (closures : ClosureRegistry) (m : Module) :
    FailsWith (DefinitionError filename closures) (insertClosures options filename closures m) :=
  failsWith_blockWithClosures (failsWith_define options filename closures _) m

end Compile

theorem Desugared.failsWith_compile (d : Desugared) {filename : String} {options : Options}
    (hpreamble : (Text.trim options.preamble.toList).isEmpty = true) :
    FailsWith (fun e => Module.parse d.code.toList filename = .error e ∨
      DefinitionError filename d.closures e) (d.compile filename options) := by
  refine .bind (fun e h => .inl h) fun code => .bind (fun e h => .inr ?_) fun body => ?_
  · exact failsWith_insertClosures options filename d.closures code e h
  · rw [if_pos hpreamble]
    exact .ok _

theorem OrderedMap.mem_values {κ α : Type} [BEq κ] [LawfulBEq κ] {m : OrderedMap κ α}
    {key : κ} {a : α} (h : m.get? key = some a) : a ∈ m.values := by
  obtain ⟨before, after, hsplit, -⟩ := lookup_eq_some_iff.1 h
  rw [OrderedMap.values, hsplit]
  simp

/-! ## Scripts -/

/-- The error quotes the text, and it quotes the script exactly if the script has the quoted line
under the same number, up to carriage returns at its end, and the line is long enough. -/
def SyntaxError.QuotesVia (e : SyntaxError) (text source : List Char) : Prop :=
  e.Quotes text ∧ (e.Quotes source ↔ ∃ line line',
    (text.splitOn '\n')[e.line - 1]? = some line ∧ (source.splitOn '\n')[e.line - 1]? = some line' ∧
      Text.dropTrailing (· == '\r') line = Text.dropTrailing (· == '\r') line' ∧
      e.column ≤ line'.length)

theorem SyntaxError.IsOf.quotesVia (h : e.IsOf text) (source : List Char) :
    e.QuotesVia text source := by
  obtain ⟨hpositive, line, hline, htext, hcolumn⟩ := h.quotes
  refine ⟨h.quotes, fun ⟨_, line', hline', htext', hcolumn'⟩ => ?_, ?_⟩
  · exact ⟨line, line', hline, hline', htext.symm.trans htext', hcolumn'⟩
  · rintro ⟨_, line', hsame, hline', heq, hcolumn'⟩
    obtain rfl := Option.some.inj (hline.symm.trans hsame)
    exact ⟨hpositive, line', hline', htext.trans heq, hcolumn'⟩

theorem SyntaxError.IsOf.comesFrom {p : Pieces} (h : e.IsOf (p.code [] 0)) :
    ∃ spot, p.ComesFrom none ⟨e.line, e.column⟩ spot := by
  obtain ⟨fault, filename, pos, ⟨before, after, hsplit, rfl⟩, rfl⟩ := h
  refine ⟨_, before.length, ?_, ?_, rfl⟩
  · rw [hsplit, length_append]
    exact Nat.le_add_right ..
  · rw [hsplit, take_left]
    rfl

/-- The errors of reading a script quote it. The errors of parsing its code and the definitions of
its closures quote those texts, and the script only if it has the same line under the same number;
an error in the code stands as many lines further up as line breaks were cut out before it. Two
errors quote no line at all. -/
theorem quotes_of_compile_error {source : List Char} {filename : String} {options : Options}
    {e : SyntaxError} (h : compile source filename options [] = .error e)
    (hpreamble : (Text.trim options.preamble.toList).isEmpty = true)
    (hmark : ∀ mark ∈ options.localMark, '\n' ∉ mark.toList) :
    desugar ⟨source, filename, options.localMark, []⟩ = .error e ∧ e.Quotes source ∨
    ∃ (d : Desugared) (p : Pieces), desugar ⟨source, filename, options.localMark, []⟩ = .ok d ∧
      p.source = source ∧ p.code [] 0 = d.code.toList ∧
      (e.QuotesVia d.code.toList source ∧ (∃ spot, p.ComesFrom none ⟨e.line, e.column⟩ spot ∧
            spot.place.line = e.line + spot.cut) ∨
        (∃ c ∈ d.closures.values, e.QuotesVia (definitionText c) source ∨
          e = ⟨.notOneDefinition, filename, c.line, c.column, ""⟩) ∨
        e = ⟨.tooDeep, filename, 0, 0, ""⟩) := by
  cases hdesugar : desugar ⟨source, filename, options.localMark, []⟩ with
  | error e' =>
    rw [compile, hdesugar] at h
    cases h
    exact .inl ⟨rfl, quotes_of_desugar hdesugar⟩
  | ok d =>
    obtain ⟨p, t, -, hsource, hcode, -, hentries, hsorted, -, hplain⟩ := desugar_registry hdesugar
    refine .inr ⟨d, p, rfl, hsource, hcode, ?_⟩
    rw [compile, hdesugar] at h
    rcases d.failsWith_compile hpreamble e h with hparse | hdefinition
    · have hof := Module.isOf_of_parse hparse
      obtain ⟨spot, hspot⟩ := SyntaxError.IsOf.comesFrom (hcode ▸ hof)
      exact .inl ⟨hof.quotesVia source, spot, hspot, hspot.line hmark (hplain rfl)⟩
    · cases hdefinition with
      | parsed hget hparse =>
        have hof := Module.isOf_of_parse hparse
        exact .inr (.inl ⟨_, OrderedMap.mem_values hget, .inl (hof.quotesVia source)⟩)
      | notOne hget => exact .inr (.inl ⟨_, OrderedMap.mem_values hget, .inr rfl⟩)
      | nested => exact .inr (.inr rfl)

def callThenFault : List Char := "print 'hi'\nx = 1 if 2\n".toList

/-- The line with the fault is a line of the script. -/
theorem quotes_of_compile_error_callThenFault : ∃ e, compile callThenFault "call" {} [] = .error e ∧
      (∀ mark ∈ Options.localMark {}, '\n' ∉ mark.toList) ∧
      e.line = 2 ∧ e.column = 10 ∧ e.Quotes callThenFault := by
  have hrun : ((desugar ⟨callThenFault, "call", Options.localMark {}, []⟩).toOption.any fun d =>
      d.code.toList == "print('hi')\nx = 1 if 2\n".toList && d.closures.values.isEmpty &&
        match compile callThenFault "call" {} [] with
        | .ok _ => false
        | .error e => e.line == 2 && e.column == 10) = true := by
    decide +kernel
  obtain ⟨d, hd, hchecks⟩ := exists_desugar_of_any hrun
  simp only [Bool.and_eq_true, beq_iff_eq, List.isEmpty_iff] at hchecks
  obtain ⟨⟨hcode, hclosures⟩, hfault⟩ := hchecks
  have hmark : ∀ mark ∈ Options.localMark {}, '\n' ∉ mark.toList := by
    rintro _ ⟨⟩
    decide
  cases hm : compile callThenFault "call" {} [] with
  | ok m =>
    rw [hm] at hfault
    cases hfault
  | error e =>
    rw [hm] at hfault
    simp only [Bool.and_eq_true, beq_iff_eq] at hfault
    obtain ⟨hline, hcolumn⟩ := hfault
    refine ⟨e, rfl, hmark, hline, hcolumn, ?_⟩
    obtain ⟨herror, -⟩ | ⟨d', p, hd', -, -, hvia | ⟨c, hc, -⟩ | rfl⟩ :=
      quotes_of_compile_error hm (by decide) hmark
    · cases hd.symm.trans herror
    · obtain rfl := Except.ok.inj (hd.symm.trans hd')
      refine hvia.1.2.2 ?_
      rw [hline, hcolumn, hcode]
      exact ⟨"x = 1 if 2".toList, "x = 1 if 2".toList, by decide, by decide, rfl, by decide⟩
    · obtain rfl := Except.ok.inj (hd.symm.trans hd')
      rw [hclosures] at hc
      cases hc
    · cases hline

def blockThenFault : List Char := "foo \x7b\n  a()\n\x7d\nx = 1 if 2\n".toList

/-- The fault on line four is reported for line two, and the line that is quoted is not that
line. -/
theorem not_quotes_blockThenFault :
    ∃ e, compile blockThenFault "block" {} [] = .error e ∧ e.line = 2 ∧ e.text = "x = 1 if 2" ∧
      (blockThenFault.splitOn '\n')[1]? = some "  a()".toList ∧ ¬ e.Quotes blockThenFault := by
  have hrun : (match compile blockThenFault "block" {} [] with
      | .ok _ => false
      | .error e => e.line == 2 && e.text == "x = 1 if 2") = true := by
    decide +kernel
  cases hm : compile blockThenFault "block" {} [] with
  | ok m =>
    rw [hm] at hrun
    cases hrun
  | error e =>
    rw [hm] at hrun
    simp only [Bool.and_eq_true, beq_iff_eq] at hrun
    obtain ⟨hline, htext⟩ := hrun
    have hsecond : (blockThenFault.splitOn '\n')[1]? = some "  a()".toList := by decide
    refine ⟨e, rfl, hline, htext, hsecond, ?_⟩
    rintro ⟨-, line, hat, hquoted, -⟩
    rw [hline] at hat
    obtain rfl := Option.some.inj (hsecond.symm.trans hat)
    rw [htext] at hquoted
    revert hquoted
    decide

end BlockScript
