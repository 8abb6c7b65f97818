import BlockScript.Proofs.Outline.Definition
import BlockScript.Proofs.Outline.Order
import BlockScript.Proofs.RoundTrip.Context

/-! The statements of a closure in its definition: they stand in the text of the closure, after the
header. -/

namespace BlockScript

open List

/-! ## The order of tokens -/

variable {source before : List Char}

namespace Token

theorem tokens_ordered (c : Cursor) : c.tokens.Pairwise fun a b => a.stop ≤ b.pos.offset := by
  fun_induction Cursor.tokens c with
  | case1 c h => exact pairwise_singleton ..
  | case2 c h ih =>
    refine pairwise_cons.2 ⟨fun t ht => ?_, ih⟩
    obtain ⟨gap, hgap⟩ := pos_of_mem_tokens ht
    rw [hgap, c.scan_pos.2, Position.offset_advance, Position.offset_advance, Text.byteSize_toList,
      stop, c.scan_pos.1]
    exact Nat.le_add_right ..

theorem IsRead.isPrefix {before' : List Char} {t u : Token} {c c' : Cursor}
    (ht : IsRead source t c before) (hu : IsRead source u c' before')
    (hle : t.stop ≤ u.pos.offset) : before ++ t.text.toList <+: before' := by
  have hsplit : before ++ t.text.toList ++ c.scan.2.rest = before' ++ c'.rest := by
    rw [ht.token, append_assoc, ← c.scan_rest, ← ht.split, hu.split]
  suffices hle : Text.byteSize (before ++ t.text.toList) ≤ Text.byteSize before' by
    obtain ⟨between, heq, -⟩ := Text.exists_eq_append_of_byteSize_le hsplit hle
    exact ⟨between, heq.symm⟩
  have hstop : t.stop = Text.byteSize (before ++ t.text.toList) := by
    rw [stop, ht.pos_eq, Position.offset_start_advance, Text.byteSize_append, Text.byteSize_toList]
  rwa [hstop, hu.pos_eq, Position.offset_start_advance] at hle

end Token

/-! ## Bodies -/

variable {span : Span} {name filename : String} {params : Params} {body : List Stmt}
  {marks : List Expr}

namespace Program.Parse

variable {src : Source} {I : Lexical src}

variable {s s' : List Token}

theorem exists_of_expect {glyph : String} (hs : All I s) (hrun : expect src glyph s = .ok () s') :
    ∃ t, t.isControl glyph = true ∧ s = t :: s' := by
  change (if (s.headD noToken).isControl glyph then advance
    else fail src (.expected glyph (s.headD noToken)) (s.headD noToken).pos) s = _ at hrun
  split at hrun
  · next hglyph =>
    cases s with
    | nil =>
      obtain ⟨_, h, _⟩ := hs.hasEnd
      cases h
    | cons t s =>
      have heof : t.isEof = false := by
        simp only [headD_cons, Token.isControl, Bool.and_eq_true, beq_iff_eq] at hglyph
        simp [Token.isEof, hglyph.1]
      have hadvance : advance (t :: s) = .ok () s := by
        change EStateM.Result.ok () (if t.isEof then t :: s else s) = _
        rw [heof]
        rfl
      rw [hadvance] at hrun
      cases hrun
      exact ⟨t, hglyph, rfl⟩
  · cases hrun

/-- Going on after a step of a run. -/
theorem Gives.after {α β : Type} {p : Parsing α} {P : α → Prop} {f : α → Parsing β}
    (hp : Gives I p P) {s'' : List Token} (hs : All I s) (hs' : Leaves s s') {b : β}
    (hrun : (p >>= f) s' = .ok b s'') : ∃ a rest, Leaves s rest ∧ f a rest = .ok b s'' := by
  obtain ⟨a, rest, ha, hrun⟩ := exists_of_run_bind hrun
  exact ⟨a, rest, (hp.ok (hs.leaves hs') ha).2.trans hs', hrun⟩

theorem body_of_parseDef {rules : Rules} (hrules : rules.Sound I)
    {blocks : Blocks} {w : Nat} {decorators : List Expr} (hs : All I s)
    (hrun : parseDef src rules blocks w decorators s =
      .ok (.functionDef span name params body marks) s') :
    ∃ colon rest, colon.isControl ":" = true ∧ Leaves s (colon :: rest) ∧
      blocks.suite w rest = .ok body s' := by
  obtain ⟨_, s1, hs1, hrun⟩ := gives_spanHere.after hs hs.refl hrun
  obtain ⟨_, s2, hs2, hrun⟩ := gives_advance.after hs hs1 hrun
  obtain ⟨_, s3, hs3, hrun⟩ := gives_name.after hs hs2 hrun
  obtain ⟨_, s4, hs4, hrun⟩ := (gives_expect "(").after hs hs3 hrun
  obtain ⟨_, s5, hs5, hrun⟩ := (gives_parseParams hrules).after hs hs4 hrun
  obtain ⟨_, s6, hs6, hrun⟩ := (gives_expect ")").after hs hs5 hrun
  obtain ⟨arrow, s7, hs7, hrun⟩ := (gives_eat "->").after hs hs6 hrun
  have hcolon {span' : Span} {name' : String} {params' : Params} {x : List Token} (hx : Leaves s x)
      (hrun : (do
        expect src ":"
        return .functionDef span' name' params' (← blocks.suite w) decorators : Parsing Stmt) x =
          .ok (.functionDef span name params body marks) s') :
      ∃ colon rest, colon.isControl ":" = true ∧ Leaves s (colon :: rest) ∧
        blocks.suite w rest = .ok body s' := by
    obtain ⟨_, rest, hexpect, hrest⟩ := exists_of_run_bind hrun
    obtain ⟨colon, hcolon, rfl⟩ := exists_of_expect (hs.leaves hx) hexpect
    obtain ⟨body', s9, hsuite, hdone⟩ := exists_of_run_bind hrest
    cases hdone
    exact ⟨colon, rest, hcolon, hx, hsuite⟩
  cases arrow with
  | true =>
    obtain ⟨_, s8, hs8, hrun⟩ := hrules.expr.gives.after hs hs7 hrun
    exact hcolon hs8 hrun
  | false => exact hcolon hs7 hrun

end Program.Parse

namespace Program

theorem Stmt.mem_nested_of_mem_blocks {s t : Stmt} {b : List Stmt} (hb : b ∈ s.blocks)
    (ht : t ∈ b) : t ∈ s.nested := by
  have hflatten : s.nested = s.blocks.flatten := by
    cases s with
    | tryBlock s body handlers finalBody => simp [nested, blocks, List.flatMap]
    | _ => simp [nested, blocks]
  rw [hflatten]
  exact mem_flatten.2 ⟨b, hb, ht⟩

theorem Stmt.Placed.of_in {I : Token → Prop} {s : Stmt} {ss : List Stmt} (hs : In s ss)
    (h : ∀ t ∈ ss, t.Placed I) : s.Placed I := by
  induction hs with
  | here hs => exact h s hs
  | inside ht hb _ ih =>
    obtain ⟨-, -, -, hnested, -⟩ := h _ ht
    exact ih fun u hu => hnested u (mem_nested_of_mem_blocks hb hu)

end Program

namespace Compile

open Program Parse Stmt

/-- The text of the definition of a closure before the text of the closure. -/
def lead (c : Closure) : List Char := List.replicate (c.line - 1) '\n' ++ header c

theorem isPrefix_of_notMem {α : Type} {x : α} {a b c d : List α} (hx : x ∉ a)
    (h : a ++ x :: b = c ++ x :: d) : a ++ [x] <+: c ++ [x] := by
  rcases append_eq_append_iff.1 h with ⟨more, rfl, hmore⟩ | ⟨more, rfl, hmore⟩
  · cases more with
    | nil => simp
    | cons y more =>
      obtain ⟨rfl, -⟩ := List.cons.inj hmore
      exact ⟨more ++ [x], by simp⟩
  · cases more with
    | nil => simp
    | cons y more =>
      obtain ⟨rfl, -⟩ := List.cons.inj hmore
      simp at hx

theorem forall_mem_intercalate {p : Char → Prop} (hcomma : p ',') (hblank : p ' ')
    {names : List String} (hnames : ∀ name ∈ names, ∀ c ∈ name.toList, p c) :
    ∀ c ∈ (", ".intercalate names).toList, p c := by
  cases names with
  | nil => simp
  | cons name names =>
    obtain ⟨hname, hnames⟩ := forall_mem_cons.1 hnames
    rw [Print.toList_intercalate_cons]
    refine forall_mem_append.2 ⟨hname, fun c hc => ?_⟩
    obtain ⟨x, hx, hc⟩ := mem_flatMap.1 hc
    rcases mem_append.1 hc with hc | hc
    · have hsep : c = ',' ∨ c = ' ' := by simpa using hc
      rcases hsep with rfl | rfl
      · exact hcomma
      · exact hblank
    · exact hnames x hx c hc

theorem isWord_of_mem_parameters {c : Closure}
    (hwords : ∀ names ∈ c.parameters, ∀ name ∈ names, Token.IsWord name.toList) :
    ∀ name ∈ parameters c, ∀ x ∈ name.toList, Token.isWord x = true := by
  have hdeclared : ∀ name ∈ c.parameters.getD [], ∀ x ∈ name.toList, Token.isWord x = true := by
    intro name hname
    cases hc : c.parameters with
    | none => simp [hc] at hname
    | some names => exact (hwords names hc name (by simpa [hc] using hname)).2
  rw [parameters]
  split
  · exact hdeclared
  · exact forall_mem_cons.2 ⟨by decide, hdeclared⟩

theorem ne_of_isWord {x : Char} (h : Token.isWord x = true) : x ≠ ':' ∧ x ≠ '\n' := by
  constructor <;> rintro rfl <;> revert h <;> decide

/-- A header stays on its line, and its only colon is its last character. -/
theorem exists_header_eq {c : Closure} (hid : IsName c.id)
    (hwords : ∀ names ∈ c.parameters, ∀ name ∈ names, Token.IsWord name.toList) :
    ∃ start, header c = start ++ [':'] ∧ ∀ x ∈ start, x ≠ ':' ∧ x ≠ '\n' := by
  refine ⟨"def ".toList ++ c.id.toList ++ "(".toList ++ (", ".intercalate (parameters c)).toList ++
    ")".toList, by simp [header], ?_⟩
  simp only [forall_mem_append]
  refine ⟨⟨⟨⟨by decide, fun x hx => ne_of_isWord (hid.1.2 x hx)⟩, by decide⟩, ?_⟩, by decide⟩
  exact forall_mem_intercalate (by decide) (by decide) fun name hname x hx =>
    ne_of_isWord (isWord_of_mem_parameters hwords name hname x hx)

def IsAfter (c : Closure) (t : Token) : Prop :=
  ∃ c' before, Token.IsRead (definitionText c) t c' before ∧ lead c <+: before

def afterTokens (c : Closure) (filename : String) : Lexical (.ofText (definitionText c) filename) :=
  .within filename (IsAfter c) fun _ ⟨c', before, hread, _⟩ => ⟨c', before, hread⟩

section

variable {c : Closure} (hid : IsName c.id)
  (hwords : ∀ names ∈ c.parameters, ∀ name ∈ names, Token.IsWord name.toList)

include hid hwords

theorem count_lead : (lead c).count '\n' = c.line - 1 := by
  obtain ⟨start, hheader, hstart⟩ := exists_header_eq hid hwords
  have hnone : start.count '\n' = 0 := count_eq_zero.2 fun h => (hstart _ h).2 rfl
  rw [lead, hheader, List.count_append, List.count_append, hnone, count_replicate_self]
  simp

/-- A colon in the text of a definition ends the header or stands after it. -/
theorem lead_isPrefix {rest : List Char} (h : definitionText c = before ++ ':' :: rest) :
    lead c <+: before ++ [':'] := by
  obtain ⟨start, hheader, hstart⟩ := exists_header_eq hid hwords
  have hsplit : lead c = List.replicate (c.line - 1) '\n' ++ start ++ [':'] := by
    rw [lead, hheader, append_assoc]
  rw [hsplit]
  refine isPrefix_of_notMem (b := afterHeader c) (d := rest) ?_ ?_
  · rw [mem_append, not_or]
    refine ⟨fun hmem => ?_, fun hmem => (hstart _ hmem).1 rfl⟩
    exact absurd (eq_of_mem_replicate hmem) (by decide)
  · rw [← h, definitionText_eq, hheader]
    simp

theorem all_isAfter {colon : Token} {left : List Token} (hcolon : colon.isControl ":" = true)
    (hall : All (.ofText (definitionText c) filename) (colon :: left))
    (hordered : (colon :: left).Pairwise fun a b => a.stop ≤ b.pos.offset) :
    All (afterTokens c filename) left := by
  simp only [Token.isControl, Bool.and_eq_true, beq_iff_eq] at hcolon
  have htext : colon.text.toList = [':'] := by
    rw [hcolon.2]
    rfl
  have hrest := hall.leaves (hall.tail (by simp [Token.isEof, hcolon.1]))
  refine ⟨fun t ht => ?_, hrest.apart, hrest.hasEnd, hrest.endsLast⟩
  obtain ⟨c1, before1, hread1⟩ := hall.head
  obtain ⟨c2, before2, hread2⟩ := hrest.left t ht
  have hafter := hread1.isPrefix hread2 (rel_of_pairwise_cons hordered ht)
  have hscan := c1.scan_rest
  rw [htext] at hafter
  rw [← hread1.token, htext] at hscan
  have hsplit := hread1.split.trans (congrArg (before1 ++ ·) hscan)
  exact ⟨c2, before2, hread2, (lead_isPrefix hid hwords hsplit).trans hafter⟩

/-- The statements of a closure stand after the header. -/
theorem isPrefix_of_mem_body {more : List Stmt} (h : Module.parse (definitionText c) filename =
      .ok (.functionDef span name params body marks :: more)) :
    ∀ s ∈ withinAll body, ∃ before rest, definitionText c = before ++ rest ∧ rest ≠ [] ∧
      lead c <+: before ∧ s.span = .ofPosition (Position.start.advance before) := by
  obtain ⟨indent, posDef, posId, s, stmt, s', rest, hindent, htokens, hdef, hm⟩ :=
    exists_parseDef hid h rfl
  obtain ⟨rfl, -⟩ := List.cons.inj hm
  have hlexed := all_isLexed (definitionText c) filename
  have hstart : Leaves (Source.ofText (definitionText c) filename).tokens
      (⟨.name, "def", posDef⟩ :: ⟨.name, c.id, posId⟩ :: s) := by
    rw [htokens] at hlexed ⊢
    exact hlexed.tail (by simp [Token.isEof, hindent])
  obtain ⟨colon, left, hcolon, hleaves, hsuite⟩ :=
    body_of_parseDef (rules_sound _ _) (hlexed.leaves hstart) hdef
  have hcolons := hleaves.trans hstart
  have hordered : (colon :: left).Pairwise fun a b => a.stop ≤ b.pos.offset := by
    exact (Token.tokens_ordered (.atStart (definitionText c))).sublist
      (hcolons.sublist.trans (linesFrom_sublist ..))
  have hleft := all_isAfter hid hwords hcolon (hlexed.leaves hcolons) hordered
  obtain ⟨⟨-, hplaced⟩, -⟩ := ((blocks_sound (rules_sound (afterTokens c filename) _)
    _).suite 0).ok hleft hsuite
  intro x hx
  obtain ⟨⟨t, ⟨c', before, hread, hlead⟩, heof, hspan⟩, -⟩ :=
    Placed.of_in (in_of_mem_withinAll body hx) hplaced
  refine ⟨before, c'.rest, hread.split, ?_, hlead, ?_⟩
  · rw [hread.token, Token.Cursor.scan_isEof] at heof
    simpa using heof
  · rw [hspan, hread.token, c'.scan_pos.1, hread.pos]

theorem exists_take_of_mem_body {code : String} (hbody : c.body = .block code) (hsolid : c.Solid)
    {more : List Stmt}
    (h : Module.parse (definitionText c) filename =
      .ok (.functionDef span name params body marks :: more)) :
    ∀ s ∈ withinAll body, ∃ k ≤ code.toList.length,
      s.span = .ofPosition (Position.start.advance (lead c ++ code.toList.take k)) := by
  intro s hs
  obtain ⟨before, rest, hsplit, hrest, ⟨inner, rfl⟩, hspan⟩ :=
    isPrefix_of_mem_body hid hwords h s hs
  have htext : definitionText c = lead c ++ (code.toList ++ ['\n']) := by
    rw [definitionText_eq, afterHeader, hbody]
    dsimp only
    rw [hsolid code hbody, lead, append_assoc]
    rfl
  rw [htext, append_assoc, append_cancel_left_eq] at hsplit
  have hlength := congrArg List.length hsplit
  have hpos := length_pos_iff.2 hrest
  simp only [length_append, length_singleton] at hlength
  refine ⟨inner.length, by omega, ?_⟩
  have hinner : inner = code.toList.take inner.length := by
    have := congrArg (List.take inner.length) hsplit
    rwa [take_append_of_le_length (by omega), take_left, eq_comm] at this
  rw [← hinner]
  exact hspan

end

end Compile

theorem Program.Module.exists_take_of_parse {m : Module}
    (h : Module.parse source filename = .ok m) : ∀ s ∈ Stmt.withinAll m,
      ∃ k ≤ source.length, s.span = .ofPosition (Position.start.advance (source.take k)) := by
  intro s hs
  obtain ⟨⟨t, ⟨c, before, hread⟩, -, hspan⟩, -⟩ :=
    Stmt.Placed.of_in (Stmt.in_of_mem_withinAll m hs) (Module.placed_of_parse h)
  refine ⟨before.length, ?_, ?_⟩
  · rw [hread.split, length_append]
    exact Nat.le_add_right ..
  · rw [hspan, hread.token, c.scan_pos.1, hread.pos]
    conv => rhs; rw [hread.split, take_left]

end BlockScript
