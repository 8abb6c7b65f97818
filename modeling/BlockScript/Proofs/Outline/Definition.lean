import BlockScript.Proofs.Orphans
import BlockScript.Proofs.Outline.Trace
import BlockScript.Proofs.Parsed.Stmt

/-! The text of a definition is read as a function with the id of the closure for its name. -/

namespace BlockScript

open Program List

/-! ## The head of the text -/

namespace Token.Cursor

theorem tokens_lineBreak (cs : List Char) (pos : Position) : tokens ⟨'\n' :: cs, pos, true⟩ =
      ⟨.indent, "", pos⟩ :: ⟨.newline, "\n", pos⟩ :: tokens ⟨cs, pos.advance ['\n'], true⟩ := by
  have hindent : tokens ⟨[] ++ '\n' :: cs, pos, true⟩ = _ :=
    tokens_indent (cons_ne_nil '\n' cs) (by simp) (by simp) pos
  have hbreak := tokens_append (cons_ne_nil '\n' []) (rfl : lexeme (['\n'] ++ cs) = _) pos
  rw [nil_append] at hindent
  rw [singleton_append] at hbreak
  rw [hindent, Position.advance, foldl_nil, hbreak]
  rfl

end Token.Cursor

namespace Program

theorem linesFrom_lineBreaks (k : Nat) (cs : List Char) (pos : Position) :
    linesFrom 0 none (Token.Cursor.tokens ⟨List.replicate k '\n' ++ cs, pos, true⟩) =
      linesFrom 0 none
        (Token.Cursor.tokens ⟨cs, pos.advance (List.replicate k '\n'), true⟩) := by
  induction k generalizing pos with
  | zero => rfl
  | succ k ih =>
    rw [replicate_succ, cons_append, Token.Cursor.tokens_lineBreak]
    have hskip (ts : List Token) :
        linesFrom 0 none (⟨.indent, "", pos⟩ :: ⟨.newline, "\n", pos⟩ :: ts) =
        linesFrom 0 none ts := by
      simp [linesFrom, isBlankLine]
    rw [hskip, ih, ← Position.advance_append]
    rfl

end Program

namespace Compile

/-- The header of the definition of a closure, without the line breaks before it. -/
def header (c : Closure) : List Char :=
  ("def " ++ c.id ++ "(" ++ ", ".intercalate (parameters c) ++ "):").toList

def afterHeader (c : Closure) : List Char :=
  match c.body with
  | .expr code => " return ".toList ++ code.toList ++ ['\n']
  | .block code =>
    if (Text.trim code.toList).isEmpty then " pass\n".toList
    else code.toList ++ ['\n']

theorem definitionText_eq (c : Closure) :
    definitionText c = List.replicate (c.line - 1) '\n' ++ (header c ++ afterHeader c) := by
  unfold definitionText afterHeader header
  cases c.body with
  | expr code => simp
  | block code =>
    dsimp only
    split <;> simp

/-! ## Reading the head -/

end Compile

variable {pos : Position} {src : Source}

namespace Program.Parse

/-- The parser gives only what satisfies `P`. -/
def Returns {α : Type} (p : Parsing α) (P : α → Prop) : Prop := ∀ ⦃s a s'⦄, p s = .ok a s' → P a

variable {α : Type}

theorem Returns.bind {β : Type} {p : Parsing α} {f : α → Parsing β} {P : β → Prop}
    (h : ∀ a, Returns (f a) P) : Returns (p >>= f) P := by
  intro s b s' hrun
  rw [run_bind] at hrun
  split at hrun
  · exact h _ hrun
  · cases hrun

theorem Returns.pure {a : α} {P : α → Prop} (h : P a) : Returns (pure a) P := by
  rintro s _ _ ⟨⟩
  exact h

theorem name_of_parseDef {rules : Rules} {blocks : Blocks} {w : Nat} {decorators : List Expr}
    {word id : String} {pos' : Position} {s s' : List Token} {stmt : Stmt}
    (hid : isKeyword id = false)
    (hrun : parseDef src rules blocks w decorators (⟨.name, word, pos⟩ :: ⟨.name, id, pos'⟩ :: s) =
      .ok stmt s') : ∃ span params body, stmt = .functionDef span id params body decorators := by
  have hadvance : advance (⟨.name, word, pos⟩ :: ⟨.name, id, pos'⟩ :: s) =
      .ok () (⟨.name, id, pos'⟩ :: s) := rfl
  rw [parseDef, run_bind, run_spanHere] at hrun
  dsimp only at hrun
  rw [run_bind, hadvance] at hrun
  dsimp only at hrun
  rw [run_bind, run_identifier hid] at hrun
  dsimp only at hrun
  suffices hrest : Returns _ fun stmt : Stmt =>
      ∃ span params body, stmt = .functionDef span id params body decorators from hrest hrun
  refine .bind fun _ => .bind fun _ => .bind fun _ => .bind fun _ => ?_
  split
  · exact .bind fun _ => .bind fun _ => .bind fun _ => .pure ⟨_, _, _, rfl⟩
  · exact .bind fun _ => .bind fun _ => .pure ⟨_, _, _, rfl⟩

/-- A program starts with the statements of its first line. -/
theorem first_of_parse {text : List Char} {filename : String} {m : Module}
    (h : Module.parse text filename = .ok m) (hsrc : Source.ofText text filename = src) :
    ∃ r s', parseTopLevel src src.rules (.ofDepth src src.rules src.depth) src.tokens = .ok r s' ∧
      ∀ ss ∈ r, ∃ more, m = ss ++ more := by
  rw [Module.parse, hsrc, Source.run] at h
  split at h
  · next m' s'' hrun =>
    cases h
    rw [parseModule, run_bind, run_many, manyTo, run_bind] at hrun
    cases hfirst : parseTopLevel src src.rules (.ofDepth src src.rules src.depth) src.tokens with
    | error e s' =>
      rw [hfirst] at hrun
      cases hrun
    | ok r s' =>
      refine ⟨r, s', rfl, ?_⟩
      rintro ss ⟨⟩
      rw [hfirst] at hrun
      dsimp only at hrun
      rw [run_bind] at hrun
      cases hmore : manyTo (parseTopLevel src src.rules (.ofDepth src src.rules src.depth))
          src.tokens.length s' with
      | error e t =>
        rw [hmore] at hrun
        cases hrun
      | ok more t =>
        rw [hmore] at hrun
        cases hrun
        exact ⟨more.flatten, rfl⟩
  · next e _ _ => cases e <;> cases h

end Program.Parse

namespace Compile

open Parse Stmt

variable {c : Closure} {filename : String} {m : Module} {d : Desugared} {closures : ClosureRegistry}
  {script : Desugar.Script}

theorem exists_parseDef (hid : IsName c.id) (h : Module.parse (definitionText c) filename = .ok m)
    (hsrc : Source.ofText (definitionText c) filename = src) :
    ∃ indent posDef posId s stmt s' rest, indent.kind = .indent ∧
      src.tokens = indent :: ⟨.name, "def", posDef⟩ :: ⟨.name, c.id, posId⟩ :: s ∧
      parseDef src src.rules (.ofDepth src src.rules src.depth) 0 []
        (⟨.name, "def", posDef⟩ :: ⟨.name, c.id, posId⟩ :: s) = .ok stmt s' ∧ m = stmt :: rest := by
  obtain ⟨pos, posDef, posId, s, htokens⟩ : ∃ pos posDef posId s, src.tokens =
      ⟨.indent, "", pos⟩ :: ⟨.name, "def", posDef⟩ :: ⟨.name, c.id, posId⟩ :: s := by
    have hlines : AheadLine ([] ++ (header c ++ afterHeader c)) src.tokens := by
      refine ⟨Position.start.advance (List.replicate (c.line - 1) '\n'), none, ?_⟩
      rw [← hsrc, nil_append, ← linesFrom_lineBreaks (c.line - 1) _ .start, ← definitionText_eq]
      rfl
    have hheader : header c ++ afterHeader c = "def".toList ++ (' ' :: (c.id.toList ++
        ('(' :: ((", ".intercalate (parameters c)).toList ++ "):".toList ++ afterHeader c)))) := by
      simp [header]
    rw [hheader] at hlines
    obtain ⟨pos, s1, hs, h1⟩ := hlines.indent (by simp) ⟨'d', rfl, by decide⟩
    obtain ⟨posDef, s2, rfl, h2⟩ := h1.word (by decide) (by rintro _ ⟨⟩; exact .inl (by decide))
    obtain ⟨posId, s3, rfl, h3⟩ := h2.blank.word hid.1 (by rintro _ ⟨⟩; exact .inl (by decide))
    exact ⟨pos, posDef, posId, s3, hs⟩
  obtain ⟨r, s', hfirst, hm⟩ := first_of_parse h hsrc
  have hskip : skipKinds [.newline] (⟨.indent, "", pos⟩ :: ⟨.name, "def", posDef⟩ ::
      ⟨.name, c.id, posId⟩ :: s) = .ok () (⟨.indent, "", pos⟩ :: ⟨.name, "def", posDef⟩ ::
        ⟨.name, c.id, posId⟩ :: s) := rfl
  rw [htokens, parseTopLevel, run_bind, hskip] at hfirst
  cases hdef : parseDef src src.rules (.ofDepth src src.rules src.depth) 0 []
      (⟨.name, "def", posDef⟩ :: ⟨.name, c.id, posId⟩ :: s) with
  | error e s'' => simp [parseStatement, width, hdef] at hfirst
  | ok stmt s'' =>
    have hr : some [stmt] = r ∧ s'' = s' := by simpa [parseStatement, width, hdef] using hfirst
    obtain ⟨more, hmore⟩ := hm _ hr.1.symm
    exact ⟨_, posDef, posId, s, stmt, s'', more, rfl, htokens, hdef, hmore⟩

theorem name_of_parse_definitionText (hid : IsName c.id)
    (h : Module.parse (definitionText c) filename = .ok m) :
    ∃ span params body rest, m = .functionDef span c.id params body [] :: rest := by
  obtain ⟨-, posDef, posId, s, stmt, s', rest, -, -, hdef, hm⟩ := exists_parseDef hid h rfl
  obtain ⟨span, params, body, rfl⟩ := name_of_parseDef hid.2 hdef
  exact ⟨span, params, body, rest, hm⟩

/-- Closures registered under their ids, which are names. -/
def Named (closures : ClosureRegistry) : Prop :=
  ∀ id c, closures.get? id = some c → c.id = id ∧ IsName id

theorem traces_define (hnamed : Named closures) (options : Options) (filename : String) (n : Nat) :
    Traces (define options filename closures n) (traceDefinition filename closures n) := by
  induction n with
  | zero => rintro id s ⟨⟩
  | succ n ih =>
    intro id s h
    rw [define] at h
    rw [traceDefinition, definition?]
    cases hget : closures.get? id with
    | none => rw [hget] at h; cases h
    | some c =>
      obtain ⟨rfl, hid⟩ := hnamed id c hget
      rw [hget] at h
      obtain ⟨m, hm, h⟩ := except_bind_ok h
      obtain ⟨span, params, body, rest, rfl⟩ := name_of_parse_definitionText hid hm
      dsimp only
      rw [hm]
      cases rest with
      | cons t ts => cases h
      | nil =>
        obtain ⟨body', hbody, h⟩ := except_bind_ok h
        cases h
        rw [outline_functionDef, outlineAll_blockWithClosures ih body hbody]
        rfl

theorem head_closureId {stack : List String} (h : ∀ id ∈ stack, id.toList.head? = some '_')
    (n : Nat) : (Desugar.closureId stack n).toList.head? = some '_' := by
  rw [Desugar.toList_closureId, String.toList_join, head?_append]
  cases hstack : stack.reverse with
  | nil => rfl
  | cons id ids =>
    rw [flatMap_cons, head?_append, h id (mem_reverse.1 (hstack ▸ mem_cons_self))]
    rfl

theorem isName_of_mem_closures {p : Desugar.Pieces} {n : Nat} (hc : c ∈ p.closures [] n pos) :
    IsName c.id := by
  have hword := Desugar.Pieces.isWord_of_mem_closures (by simp) hc
  have hhead : c.id.toList.head? = some '_' :=
    Desugar.Pieces.forall_id_closures (q := fun id => id.toList.head? = some '_')
      (fun _ n hs => head_closureId hs n) (by simp) hc
  refine ⟨⟨⟨'_', hhead, by decide⟩, hword⟩, ?_⟩
  have hkeywords : ∀ k ∈ keywords, k.toList.head? ≠ some '_' := by decide
  exact Bool.eq_false_iff.2 fun hk => hkeywords _ (contains_iff_mem.1 hk) hhead

theorem named_of_desugar (h : desugar script = .ok d) : Named d.closures := by
  intro id c hget
  obtain ⟨p, t, -, -, -, -, hentries, hsorted, -⟩ := desugar_registry h
  rw [hsorted] at hget
  obtain ⟨hc, rfl⟩ := ClosureRegistry.mem_of_get? hentries hget
  exact ⟨rfl, isName_of_mem_closures hc⟩

theorem nodup_keys_of_desugar (h : desugar script = .ok d) : d.closures.keys.Nodup := by
  obtain ⟨p, t, -, -, -, -, hentries, hsorted, -⟩ := desugar_registry h
  have hperm : d.closures.keys.Perm ((p.closures [] 0 .start).map Closure.id) := by
    rw [hsorted]
    refine ((mergeSort_perm t.closures.entries _).map Prod.fst).trans ?_
    rw [hentries, map_map]
    rfl
  exact hperm.nodup_iff.2 (pairwise_map.2 (p.closures_pairwise_id [] 0 .start))

/-- The plain code that a compiled program starts with. -/
def preamble (options : Options) : Module :=
  if (Text.trim options.preamble.toList).isEmpty then []
  else (Module.parse options.preamble.toList "<preamble>").toOption.getD []

variable {options : Options}

/-- How a program is compiled: closures become definitions, then calls and names are changed. -/
theorem exists_of_compile (h : d.compile filename options = .ok m) :
    ∃ code body, Module.parse d.code.toList filename = .ok code ∧
      insertClosures options filename d.closures code = .ok body ∧
      m = route options (lower options.runtimeName d.closures (preamble options ++ body)) := by
  obtain ⟨code, hcode, h⟩ := except_bind_ok h
  obtain ⟨body, hbody, h⟩ := except_bind_ok h
  refine ⟨code, body, hcode, hbody, ?_⟩
  rw [preamble]
  dsimp only at h
  split at h
  · next hblank =>
    cases h
    rw [if_pos hblank]
  · next hblank =>
    obtain ⟨plain, hplain, h⟩ := except_bind_ok h
    cases h
    rw [if_neg hblank, hplain]
    rfl

/-- The statements of a compiled program: those of the preamble, then those that become of the
code. -/
theorem outline_compiled (hnamed : Named closures) {code body : Module}
    (h : insertClosures options filename closures code = .ok body) :
    outlineAll (route options (lower options.runtimeName closures (preamble options ++ body))) =
      outlineAll (preamble options) ++ (trace filename closures code).map Prod.snd := by
  rw [trace, outlineAll_route, outlineAll_lower, outlineAll_append,
    outlineAll_blockWithClosures (traces_define hnamed options filename _) code h]

end Compile

end BlockScript
