import BlockScript.Proofs.Parsed.Expr

/-! Statements that are parsed are valid, and each stands at a token. -/

namespace BlockScript.Program

open List

def Stmt.decorators : Stmt → List Expr
  | .functionDef _ _ _ _ decorators | .classDef _ _ _ _ decorators => decorators
  | _ => []

/-- A statement that can be written, and that stands at a token which satisfies `I` and at which no
decorator of it stands, as do those in its blocks. -/
inductive Stmt.Placed (I : Token → Prop) : Stmt → Prop where
  | intro {s : Stmt} (span : Parse.IsPlace I s.span) (shape : s.Shape)
    (exprs : ∀ e ∈ s.exprs, e.Valid) (nested : ∀ t ∈ s.nested, Placed I t)
    (decorators : ∀ e ∈ s.decorators, e.span ≠ s.span) : Placed I s

theorem Stmt.Placed.valid {I : Token → Prop} {s : Stmt} (h : s.Placed I) : s.Valid := by
  induction h with
  | intro span shape exprs nested decorators ih => exact .intro shape exprs ih

theorem Stmt.Placed.flat {I : Token → Prop} {s : Stmt} (span : Parse.IsPlace I s.span)
    (shape : s.Shape) (exprs : ∀ e ∈ s.exprs, e.Valid) (hnested : s.nested = [])
    (hdecorators : s.decorators = []) : s.Placed I :=
  .intro span shape exprs (hnested ▸ forall_mem_nil _) (hdecorators ▸ forall_mem_nil _)

namespace Parse

variable {src : Source} {I : Lexical src}

def BlockPlaced (I : Token → Prop) (ss : List Stmt) : Prop := ss ≠ [] ∧ ∀ s ∈ ss, s.Placed I

structure Blocks.Sound (I : Lexical src) (blocks : Blocks) : Prop where
  suite : ∀ w, Gives I (blocks.suite w) (BlockPlaced I)
  conditional : ∀ w, Gives I (blocks.conditional w) (Stmt.Placed I)

theorem gives_isAtClause (w : Nat) (word : String) : Gives I (isAtClause w word) fun _ => True :=
  gives_peek.bind fun _ _ => gives_peekNext.bind fun _ _ => .pure trivial

theorem gives_eatClause (w : Nat) (word : String) : Gives I (eatClause w word) fun _ => True :=
  .test (gives_isAtClause w word) (.advance (.advance (.pure trivial))) (.pure trivial)

theorem gives_isAtLineEnd : Gives I isAtLineEnd fun _ => True :=
  gives_peek.bind fun _ _ => .pure trivial

/-! ## Simple statements -/

theorem gives_parseDottedName : Gives I (parseDottedName src) IsDotted :=
  gives_name.bind fun first hfirst => (gives_many (.ifEat gives_name.some .none)).bind
    fun more hmore => .pure ⟨first, more, forall_mem_cons.2 ⟨hfirst, hmore⟩, rfl⟩

theorem gives_parseAlias {name : Parsing String} {isName : String → Prop}
    (hname : Gives I name isName) : Gives I (parseAlias src name) (Alias.Valid isName) := by
  refine hname.bind fun id hid => .ifEatWord ?_ (.pure ⟨hid, nofun⟩)
  refine gives_name.bind fun rename hrename => .pure ⟨hid, ?_⟩
  rintro _ ⟨⟩
  exact hrename

theorem gives_parseImportFrom {span : Span} (hspan : IsPlace I span) :
    Gives I (parseImportFrom src span) (Stmt.Placed I) := by
  refine gives_parseDottedName.bind fun module hmodule =>
    (gives_expectWord "import").bind fun _ _ => (gives_eat "(").bind fun grouped _ => ?_
  have hends : Gives I (return grouped && (← isAt ")")) fun _ => True :=
    (gives_isAt ")").bind fun _ _ => .pure trivial
  refine (gives_commaSeparated hends (gives_parseAlias gives_name)).bind fun names hnames => ?_
  have hdone : Gives I (pure (.importsFrom span module names)) (Stmt.Placed I) :=
    .pure (.flat hspan ⟨hmodule, hnames⟩ (forall_mem_nil _) rfl rfl)
  exact .ite (fun _ => .expect hdone) fun _ => hdone

section

variable {rules : Rules} (hrules : rules.Sound I)
include hrules

theorem gives_parseOptionalList : Gives I (parseOptionalList rules) fun r =>
    ∀ e ∈ r.toList, e.Valid := by
  refine gives_isAtLineEnd.bind fun _ _ => (gives_isAt ";").bind fun _ _ =>
    .ite (fun _ => .pure nofun) fun _ => ?_
  exact (gives_parseExprList hrules).bind fun e he => .pure (by simpa using he)

omit hrules in
theorem gives_positionOf (span : Span) : Gives I (positionOf src span) (PlaceIn src.text) := by
  unfold positionOf
  split
  · next t hfind => exact .pure (I.places t (mem_of_find?_eq_some hfind))
  · exact gives_peek.bind fun t ht => .pure (I.place t ht)

theorem gives_parseExprStmt : Gives I (parseExprStmt src rules) (Stmt.Placed I) := by
  refine .ofSpanHere (fun _ => (failsAtEnd_parseExprList hrules).bind) fun span hspan =>
    (gives_parseExprList hrules).bind fun first hfirst => gives_peek.bind fun t ht => ?_
  have haugmented (op : BinaryOp) (hplace : Stmt.isPlace first = true) :
      Gives I (do advance; return .augAssign span first op (← parseExprList rules))
        (Stmt.Placed I) :=
    .advance <| (gives_parseExprList hrules).bind fun value hvalue =>
      .pure (.flat hspan hplace (by simp [Stmt.exprs, hfirst, hvalue]) rfl rfl)
  split
  · split
    · exact haugmented _ rfl
    · exact haugmented _ rfl
    · exact haugmented _ rfl
    · exact .fail (I.place t ht)
  · refine (gives_many (.ifEat (gives_parseExprList hrules).some .none)).bind fun rest hrest => ?_
    split
    · exact .pure (.flat hspan trivial (by simpa [Stmt.exprs] using hfirst) rfl rfl)
    · next value hvalue =>
      dsimp only
      split
      · exact (gives_positionOf _).bind fun _ => .fail
      · next hfind =>
        have htargets : ∀ e ∈ first :: rest.dropLast, e.Valid :=
          forall_mem_cons.2 ⟨hfirst, fun e he => hrest e ((dropLast_sublist rest).mem he)⟩
        refine .pure (.flat hspan ⟨cons_ne_nil _ _, ?_⟩ ?_ rfl rfl)
        · simpa using hfind
        · refine forall_mem_append.2 ⟨htargets, ?_⟩
          simpa using hrest value (mem_of_getLast? hvalue)

theorem gives_parseSimple : Gives I (parseSimple src rules) (Stmt.Placed I) := by
  refine gives_peek.bind fun t ht => ?_
  refine .ite (fun _ => gives_parseExprStmt hrules) fun hname => ?_
  have hspan : IsPlace I (.ofPosition t.pos) := by
    have hkind : t.kind = .name := by simpa using hname
    exact ⟨t, ht, by simp [Token.isEof, hkind], rfl⟩
  split
  · exact .advance <| .pure (.flat hspan trivial (forall_mem_nil _) rfl rfl)
  · exact .advance <| .pure (.flat hspan trivial (forall_mem_nil _) rfl rfl)
  · exact .advance <| .pure (.flat hspan trivial (forall_mem_nil _) rfl rfl)
  · exact .advance <| (gives_parseOptionalList hrules).bind fun value hvalue =>
      .pure (.flat hspan trivial hvalue rfl rfl)
  · refine .advance <| hrules.expr.gives.bind fun test htest => .ifEat ?_
      (.pure (.flat hspan trivial (by simp [Stmt.exprs, htest]) rfl rfl))
    exact hrules.expr.gives.bind fun message hmessage =>
      .pure (.flat hspan trivial (by simp [Stmt.exprs, htest, hmessage]) rfl rfl)
  · refine .advance <| (gives_parseOptionalList hrules).bind fun value hvalue => ?_
    have hdone : Gives I (pure (.raises (.ofPosition t.pos) value)) (Stmt.Placed I) :=
      .pure (.flat hspan trivial hvalue rfl rfl)
    exact .ite (fun _ => .ifEatWord (hrules.expr.gives.bind fun _ _ => hdone) hdone) fun _ => hdone
  · refine .advance <| .ifEatWord ?_ ?_
    · exact hrules.expr.gives.bind fun source hsource =>
        .pure (.flat hspan trivial (by simpa [Stmt.exprs] using hsource) rfl rfl)
    · exact (gives_parseOptionalList hrules).bind fun value hvalue =>
        .pure (.flat hspan trivial hvalue rfl rfl)
  · refine .advance <| (gives_commaSeparated (.pure trivial)
      (gives_parseAlias gives_parseDottedName)).bind fun names hnames => ?_
    exact .pure (.flat hspan hnames (forall_mem_nil _) rfl rfl)
  · exact .advance <| gives_parseImportFrom hspan
  · exact .advance <| (gives_commaSeparated (.pure trivial) gives_name).bind
      fun names hnames => .pure (.flat hspan hnames (forall_mem_nil _) rfl rfl)
  · exact .advance <| (gives_commaSeparated (.pure trivial) gives_name).bind
      fun names hnames => .pure (.flat hspan hnames (forall_mem_nil _) rfl rfl)
  · exact gives_parseExprStmt hrules

theorem gives_parseSimpleLine : Gives I (parseSimpleLine src rules) (BlockPlaced I) := by
  refine (gives_parseSimple hrules).bind fun first hfirst =>
    (gives_many (P := Stmt.Placed I) ?_).bind fun rest hrest => ?_
  · exact .ifEat (.test gives_isAtLineEnd .none (gives_parseSimple hrules).some) .none
  · have hdone : Gives I (pure (first :: rest)) (BlockPlaced I) :=
      .pure ⟨cons_ne_nil _ _, forall_mem_cons.2 ⟨hfirst, hrest⟩⟩
    exact gives_peek.bind fun t ht => .ite (fun _ => .advance hdone) fun _ =>
      .ite (fun _ => .failBind (I.place t ht)) fun _ => hdone

/-! ## Parameters -/

def ParamsValid (p : Params) : Prop := p.Valid ∧ ∀ e ∈ p.defaults, e.Valid

omit hrules in
theorem paramsValid_empty : ParamsValid {} :=
  ⟨⟨fun _ h => (nomatch h), .nil, .nil⟩, fun _ h => (nomatch h)⟩

omit hrules in
theorem paramsValid_addArg {p : Params} (hp : p.Valid) {name : String} (hname : IsName name)
    (hnew : name ∉ p.names) {default : Option Expr}
    (hdefault : default = none → p.args.getLast?.any (·.default.isSome) = false) :
    Params.Valid { p with args := p.args ++ [⟨name, default⟩] } where
  names := by
    intro id hid
    simp only [Params.names, map_append, map_cons, map_nil, mem_append, mem_singleton] at hid
    have hold (h : id ∈ p.args.map Param.name ++ p.rest.toList ++ p.keywords.toList) : IsName id :=
      hp.names id h
    simp only [mem_append] at hold
    rcases hid with ((h | rfl) | h) | h
    · exact hold (.inl (.inl h))
    · exact hname
    · exact hold (.inl (.inr h))
    · exact hold (.inr h)
  distinct := by
    have hnotArg : name ∉ p.args.map Param.name :=
      fun h => hnew (mem_append_left _ (mem_append_left _ h))
    rw [map_append, nodup_append]
    refine ⟨hp.distinct, pairwise_singleton .., ?_⟩
    intro a ha b hb hab
    rw [map_cons, map_nil, mem_singleton] at hb
    rw [hab, hb] at ha
    exact hnotArg ha
  defaults := by
    refine pairwise_append.2 ⟨hp.defaults, pairwise_singleton .., ?_⟩
    intro a ha b hb hsome
    rw [mem_singleton.1 hb]
    cases default with
    | some e => rfl
    | none =>
      -- The last parameter has no default, so none before it has one.
      have hlast := hdefault rfl
      have hargs := hp.defaults
      rcases eq_nil_or_concat p.args with hnil | ⟨before, last, heq⟩
      · rw [hnil] at ha
        cases ha
      · rw [heq, concat_eq_append] at ha hargs hlast
        rw [getLast?_concat, Option.any_some] at hlast
        rcases mem_append.1 ha with ha | ha
        · have := (pairwise_append.1 hargs).2.2 a ha last mem_cons_self hsome
          simp [hlast] at this
        · rw [mem_singleton.1 ha, hlast] at hsome
          cases hsome

theorem gives_parseParam {params : Params} (hparams : ParamsValid params) :
    Gives I (parseParam src rules params) ParamsValid := by
  obtain ⟨hvalid, hdefaults⟩ := hparams
  refine .ifEat ?_ ?_
  · refine gives_name.bind fun id hid => .pure ⟨⟨?_, hvalid.distinct, hvalid.defaults⟩, hdefaults⟩
    intro x hx
    rcases mem_append.1 hx with hx | hx
    · exact hvalid.names x (mem_append_left _ hx)
    · exact mem_singleton.1 hx ▸ hid
  refine .ifEat ?_ ?_
  · refine gives_name.bind fun id hid => .pure ⟨⟨?_, hvalid.distinct, hvalid.defaults⟩, hdefaults⟩
    intro x hx
    rcases mem_append.1 hx with hx | hx
    · rcases mem_append.1 hx with hx | hx
      · exact hvalid.names x (mem_append_left _ (mem_append_left _ hx))
      · exact mem_singleton.1 hx ▸ hid
    · exact hvalid.names x (mem_append_right _ hx)
  refine gives_peek.bind fun t ht => gives_name.bind fun name hname => ?_
  have hcheck (default : Option Expr) (hdefault : ∀ e ∈ default, e.Valid) : Gives I (do
      if default.isNone && params.args.getLast?.any (·.default.isSome) then
        fail src .nonDefaultAfterDefault t.pos
      if params.names.contains name then fail src (.duplicateArgument name) t.pos
      return { params with args := params.args ++ [⟨name, default⟩] }) ParamsValid := by
    refine .ite (fun _ => .failBind (I.place t ht)) fun hlast => ?_
    refine .ite (fun _ => .failBind (I.place t ht)) fun hnew => ?_
    refine .pure ⟨paramsValid_addArg hvalid hname (by simpa using hnew) fun h => ?_, ?_⟩
    · simpa [h] using hlast
    · intro e he
      rw [Params.defaults, filterMap_append] at he
      rcases mem_append.1 he with he | he
      · exact hdefaults e he
      · simp only [mem_filterMap, mem_singleton, exists_eq_left] at he
        exact hdefault e he
  suffices hdefault : Gives I _ ParamsValid from .ifEat (hrules.expr.gives.bind fun _ _ => hdefault)
      hdefault
  refine .ifEat ?_ (hcheck none nofun)
  refine hrules.expr.gives.bind fun e he => hcheck (some e) ?_
  rintro _ ⟨⟩
  exact he

theorem gives_parseParams : Gives I (parseParams src rules) ParamsValid := by
  refine .ifAt (.pure paramsValid_empty) ?_
  exact (gives_parseParam hrules paramsValid_empty).bind fun first hfirst =>
    gives_grow (fun params hparams =>
      .ifEat (.ifAt .none (gives_parseParam hrules hparams).some) .none)
      hfirst

/-! ## Statements with blocks -/

section

variable {blocks : Blocks} (hblocks : blocks.Sound I)
include hblocks

theorem gives_parseConditional (w : Nat) :
    Gives I (parseConditional src rules blocks w) (Stmt.Placed I) := by
  refine .ofSpanHere (fun _ => .advance (failsAtEnd_expr hrules).bind) fun span hspan => .advance <|
    hrules.expr.gives.bind fun test htest => .expect <| (hblocks.suite w).bind fun body hbody => ?_
  have hdone {orelse : List Stmt} (h : ∀ s ∈ orelse, s.Placed I) :
      (Stmt.ifElse span test body orelse).Placed I :=
    .intro hspan hbody.1 (by simpa [Stmt.exprs] using htest) (forall_mem_append.2 ⟨hbody.2, h⟩)
      (forall_mem_nil _)
  refine .test (gives_isAtClause w "elif") ?_ (.test (gives_eatClause w "else") ?_
    (.pure (hdone (forall_mem_nil _))))
  · exact .advance <| (hblocks.conditional w).bind fun stmt hstmt =>
      .pure (hdone (by simpa using hstmt))
  · exact .expect <| (hblocks.suite w).bind fun orelse horelse => .pure (hdone horelse.2)

theorem gives_parseWhile (w : Nat) : Gives I (parseWhile src rules blocks w) (Stmt.Placed I) :=
  .ofSpanHere (fun _ => .advance (failsAtEnd_expr hrules).bind) fun _ hspan => .advance <|
    hrules.expr.gives.bind fun _ htest => .expect <| (hblocks.suite w).bind fun _ hbody =>
      .pure (.intro hspan hbody.1 (by simpa [Stmt.exprs] using htest) hbody.2 nofun)

theorem gives_parseFor (w : Nat) : Gives I (parseFor src rules blocks w) (Stmt.Placed I) :=
  .ofSpanHere (fun _ => .advance (failsAtEnd_parseTargets hrules).bind) fun _ hspan => .advance <|
    (gives_parseTargets hrules).bind fun _ htarget => (gives_expectWord "in").bind fun _ _ =>
      (gives_parseExprList hrules).bind fun _ hsource =>
      .expect <| (hblocks.suite w).bind fun _ hbody =>
          .pure (.intro hspan ⟨htarget.2, hbody.1⟩
            (by simp [Stmt.exprs, htarget, hsource]) hbody.2 nofun)

theorem gives_parseWith (w : Nat) : Gives I (parseWith src rules blocks w) (Stmt.Placed I) := by
  refine .ofSpanHere (fun _ => .advance (failsAtEnd_expr hrules).bind) fun span hspan => .advance <|
    hrules.expr.gives.bind fun context hcontext => ?_
  have hbody (target : Option Expr) (htarget : ∀ e ∈ target, e.Valid ∧ e.isAssignable = true) :
      Gives I (do expect src ":"; return .withBlock span context target (← blocks.suite w))
        (Stmt.Placed I) := by
    refine .expect <| (hblocks.suite w).bind fun body hbody => .pure ?_
    refine .intro hspan ⟨fun e he => (htarget e he).2, hbody.1⟩ ?_ hbody.2 nofun
    exact forall_mem_cons.2 ⟨hcontext, fun e he => (htarget e (Option.mem_toList.1 he)).1⟩
  refine .ifEatWord ?_ (hbody none nofun)
  refine (gives_parseTargets hrules).bind fun target htarget => hbody (some target) ?_
  rintro _ ⟨⟩
  exact htarget

def HandlerPlaced (I : Token → Prop) (h : Handler) : Prop :=
  h.Shape ∧ (∀ e ∈ h.kind, e.Valid) ∧ ∀ s ∈ h.body, s.Placed I

theorem gives_parseHandler (w : Nat) :
    Gives I (parseHandler src rules blocks w) fun r => ∀ h ∈ r, HandlerPlaced I h := by
  refine .test (gives_isAtClause w "except") ?_ (.pure nofun)
  refine .advance <| gives_spanHere.bind fun span _ => .advance ?_
  have hbody (kind : Option Expr) (name : Option String) (hkind : ∀ e ∈ kind, e.Valid)
      (hname : ∀ id ∈ name, IsName id) (hanonymous : kind = none → name = none) :
      Gives I (do expect src ":"; return some (.mk span kind name (← blocks.suite w)))
        fun r => ∀ h ∈ r, HandlerPlaced I h := by
    refine .expect <| (hblocks.suite w).bind fun body hbody => .pure ?_
    rintro _ ⟨⟩
    exact ⟨⟨hbody.1, hanonymous, hname⟩, hkind, hbody.2⟩
  refine .ifLook (·.isControl ":") (fun _ => rfl) (fun t ht => ?_) ?_
  · -- After a colon no name can follow.
    refine givesAt_eatWord.bind fun b hb => ?_
    rw [hb, isName_of_isControl ht]
    exact hbody none none nofun nofun fun _ => rfl
  · refine hrules.expr.gives.bind fun kind hkind => .ifEatWord ?_ ?_
    · refine gives_name.bind fun name hname => hbody (some kind) (some name) ?_ ?_ nofun
      · rintro _ ⟨⟩
        exact hkind
      · rintro _ ⟨⟩
        exact hname
    · refine hbody (some kind) none ?_ nofun nofun
      rintro _ ⟨⟩
      exact hkind

theorem gives_parseTry (w : Nat) : Gives I (parseTry src rules blocks w) (Stmt.Placed I) := by
  refine .ofSpanHere (fun _ => .advance (failsAtEnd_expect ":").bind) fun span hspan => .advance <|
    .expect <| (hblocks.suite w).bind fun body hbody =>
      (gives_many (gives_parseHandler hrules hblocks w)).bind fun handlers hhandlers => ?_
  have hdone (finalBody : List Stmt) (hfinal : ∀ s ∈ finalBody, s.Placed I) : Gives I (do
      if handlers.isEmpty && finalBody.isEmpty then fail src .expectedExceptOrFinally (← peek).pos
      return .tryBlock span body handlers finalBody) (Stmt.Placed I) := by
    refine .ite (fun _ => gives_peek.bind fun t ht => .failBind (I.place t ht)) fun hne => ?_
    refine .pure (.intro hspan ⟨hbody.1, ?_, fun h hh => (hhandlers h hh).1⟩ ?_ ?_ nofun)
    · simpa [Classical.or_iff_not_imp_left] using hne
    · intro e he
      obtain ⟨h, hh, he⟩ := mem_filterMap.1 he
      exact (hhandlers h hh).2.1 e he
    · refine forall_mem_append.2 ⟨hbody.2, forall_mem_append.2 ⟨?_, hfinal⟩⟩
      intro s hs
      obtain ⟨h, hh, hs⟩ := mem_flatMap.1 hs
      exact (hhandlers h hh).2.2 s hs
  exact .test (gives_eatClause w "finally")
    (.expect <| (hblocks.suite w).bind fun finalBody hfinal => hdone finalBody hfinal.2)
      (hdone [] nofun)

/-! ## Definitions -/

variable {decorators : List Expr} {t : Token}

theorem givesAt_parseDef (w : Nat) (hdecorators : ∀ e ∈ decorators, e.Valid)
    (hplaces : ∀ e ∈ decorators, e.span ≠ .ofPosition t.pos) :
    GivesAt I t (parseDef src rules blocks w decorators) (Stmt.Placed I) := by
  refine .ofSpanHere (fun _ => .advance failsAtEnd_identifier.bind) fun hspan => ?_
  generalize Span.ofPosition t.pos = span at hspan hplaces ⊢
  refine Gives.advance (gives_name.bind fun name hname => .expect <|
    (gives_parseParams hrules).bind fun params hparams => .expect ?_) t
  suffices hbody : Gives I _ (Stmt.Placed I) from .ifEat (hrules.expr.gives.bind fun _ _ => hbody)
      hbody
  exact .expect <| (hblocks.suite w).bind fun body hbody =>
    .pure (.intro hspan ⟨hname, hparams.1, hbody.1⟩
      (forall_mem_append.2 ⟨hdecorators, hparams.2⟩) hbody.2 hplaces)

theorem givesAt_parseClass (w : Nat) (hdecorators : ∀ e ∈ decorators, e.Valid)
    (hplaces : ∀ e ∈ decorators, e.span ≠ .ofPosition t.pos) :
    GivesAt I t (parseClass src rules blocks w decorators) (Stmt.Placed I) := by
  refine .ofSpanHere (fun _ => .advance failsAtEnd_identifier.bind) fun hspan => ?_
  generalize Span.ofPosition t.pos = span at hspan hplaces ⊢
  refine Gives.advance (gives_name.bind fun name hname => ?_) t
  have hbody (bases : List Expr) (hbases : ∀ e ∈ bases, e.Valid) : Gives I (do
      expect src ":"
      return .classDef span name bases (← blocks.suite w) decorators) (Stmt.Placed I) :=
    .expect <| (hblocks.suite w).bind fun body hbody =>
      .pure (.intro hspan ⟨hname, hbody.1⟩
        (forall_mem_append.2 ⟨hdecorators, hbases⟩) hbody.2 hplaces)
  exact .ifEat ((gives_items hrules.expr.gives).bind fun bases hbases =>
    .expect (hbody bases hbases))
    (hbody [] nofun)

theorem gives_parseDef (w : Nat) : Gives I (parseDef src rules blocks w []) (Stmt.Placed I) :=
  fun _ => givesAt_parseDef hrules hblocks w (by simp) (by simp)

theorem gives_parseClass (w : Nat) : Gives I (parseClass src rules blocks w []) (Stmt.Placed I) :=
  fun _ => givesAt_parseClass hrules hblocks w (by simp) (by simp)

omit hrules hblocks in
theorem gives_decoratorEnd (e : Expr) (w : Nat) : Gives I (do
    let t ← peek
    if t.kind != .newline then fail src (.expectedLineBreakAfterDecorator t) t.pos
    advance
    let indent ← peek
    if indent.kind != .indent || width indent != w then fail src .expectedDefinition indent.pos
    advance
    return some e) (· = some e) :=
  gives_peek.bind fun t ht => .ite (fun _ => .failBind (I.place t ht)) fun _ => .advance <|
    gives_peek.bind fun indent hindent => .ite (fun _ => .failBind (I.place indent hindent))
      fun _ => .advance (.pure rfl)

omit hblocks in
theorem gives_parseDecorator (w : Nat) : Gives I (parseDecorator src rules w) fun r =>
    ∀ e ∈ r, e.Valid := by
  refine .ifEat (hrules.expr.gives.bind fun e he => (gives_decoratorEnd e w).mono ?_) (.pure nofun)
  rintro _ rfl _ ⟨⟩
  exact he

variable {s s' : List Token}

omit hblocks in
theorem readAt_parseDecorator {w : Nat} {e : Expr} (hs : All I s)
    (hrun : parseDecorator src rules w s = .ok (some e) s') : ReadAt s e.span s' := by
  obtain ⟨found, s1, hfound, hrun⟩ := exists_of_run_bind hrun
  have hs1 := ((gives_eat "@").ok hs hfound).2
  cases found with
  | false => cases hrun
  | true =>
    obtain ⟨first, s2, hfirst, hrun⟩ := exists_of_run_bind hrun
    have hs2 := (hrules.expr.gives.ok (hs.leaves hs1) hfirst).2
    have hread := Spanned.readAt hrules.expr (hs.leaves hs1) hfirst
    obtain ⟨heq, hs'⟩ := (gives_decoratorEnd first w).ok ((hs.leaves hs1).leaves hs2) hrun
    cases heq
    exact (hread.trans hs').later hs1

omit hblocks in
theorem readAt_decorators {w : Nat} (n : Nat) {es : List Expr} (hs : All I s)
    (hrun : manyTo (parseDecorator src rules w) n s = .ok es s') :
    ∀ e ∈ es, ReadAt s e.span s' := by
  induction n generalizing s es with
  | zero => cases hrun
  | succ n ih =>
    obtain ⟨first, s1, hfirst, hrun⟩ := exists_of_run_bind hrun
    have hs1 := ((gives_parseDecorator hrules w).ok hs hfirst).2
    cases first with
    | none =>
      cases hrun
      exact nofun
    | some e =>
      obtain ⟨rest, s2, hrest, hrun⟩ := exists_of_run_bind hrun
      cases hrun
      have hs2 := ((gives_manyTo (gives_parseDecorator hrules w) n).ok (hs.leaves hs1) hrest).2
      have hread := (readAt_parseDecorator hrules hs hfirst).trans hs2
      exact forall_mem_cons.2 ⟨hread, fun d hd => (ih (hs.leaves hs1) hrest d hd).later hs1⟩

omit hrules hblocks in
theorem ReadAt.ne_head {span : Span} (h : ReadAt s span (t :: s'))
    (hs : All I s) : span ≠ .ofPosition t.pos := by
  obtain ⟨before, r, after, rfl, hkind, rfl, hafter⟩ := h
  have happart := (pairwise_append.1 hs.apart).2.1
  have ht : t ∈ after := hafter.sublist.mem mem_cons_self
  exact (rel_of_pairwise_cons happart ht).resolve_left hkind

theorem gives_parseDecorated (w : Nat) :
    Gives I (parseDecorated src rules blocks w) (Stmt.Placed I) := by
  refine fun t => (gives_many (gives_parseDecorator hrules w) t).bindRun
    fun s decorators s' hs hmany hvalid => .peek (.ofMem fun ht => ?_)
  have hplaces {word : String} (hname : (s'.headD noToken).isName word = true) :
      ∀ e ∈ decorators, e.span ≠ .ofPosition (s'.headD noToken).pos := by
    intro e he
    have hread := readAt_decorators hrules _ hs hmany e he
    cases s' with
    | nil => simp [Token.isName, noToken] at hname
    | cons t' rest => exact hread.ne_head hs
  refine .ite (fun h => ?_) fun _ => .ite (fun h => ?_) fun _ => Gives.fail (I.place _ ht) _
  · exact givesAt_parseDef hrules hblocks w hvalid (hplaces h)
  · exact givesAt_parseClass hrules hblocks w hvalid (hplaces h)

/-! ## Blocks -/

theorem gives_parseStatement (w : Nat) :
    Gives I (parseStatement src rules blocks w) (BlockPlaced I) := by
  have hone {p : Parsing Stmt} (hp : Gives I p (Stmt.Placed I)) :
      Gives I (return [← p]) (BlockPlaced I) :=
    hp.bind fun stmt hstmt => .pure ⟨cons_ne_nil _ _, by simpa using hstmt⟩
  have hline := gives_parseSimpleLine hrules
  refine gives_peek.bind fun t _ => .ite (fun _ => hone (gives_parseDecorated hrules hblocks w))
    fun _ => .ite (fun _ => hline) fun _ => ?_
  split
  · exact hone (gives_parseConditional hrules hblocks w)
  · exact hone (gives_parseWhile hrules hblocks w)
  · exact hone (gives_parseFor hrules hblocks w)
  · exact hone (gives_parseWith hrules hblocks w)
  · exact hone (gives_parseTry hrules hblocks w)
  · exact hone (gives_parseDef hrules hblocks w)
  · exact hone (gives_parseClass hrules hblocks w)
  · exact hline

theorem gives_parseBlockLine (w : Nat) :
    Gives I (parseBlockLine src rules blocks w) fun r => ∀ ss ∈ r, BlockPlaced I ss := by
  exact gives_peek.bind fun t _ => .ite (fun _ => .pure nofun) fun _ =>
    .ite (fun _ => gives_peekNext.bind fun t ht => .failBind (I.place t ht)) fun _ =>
      .advance (gives_parseStatement hrules hblocks w).some

theorem givesAt_parseBlockLine (ht : t.kind = .indent) :
    GivesAt I t (parseBlockLine src rules blocks (width t))
      fun r => ∃ ss, r = some ss ∧ BlockPlaced I ss := by
  refine .peek (.ite (fun h => ?_) fun _ => Gives.ite
    (fun _ => gives_peekNext.bind fun t ht => .failBind (I.place t ht)) (fun _ => ?_) t)
  · simp [ht] at h
  · exact .advance <| (gives_parseStatement hrules hblocks _).bind fun ss hss =>
      .pure ⟨ss, rfl, hss⟩

omit hrules hblocks in
theorem blockPlaced_flatten {sss : List (List Stmt)} (hne : sss ≠ [])
    (h : ∀ ss ∈ sss, BlockPlaced I ss) : BlockPlaced I sss.flatten := by
  refine ⟨?_, fun s hs => ?_⟩
  · obtain ⟨ss, hss⟩ := exists_mem_of_ne_nil sss hne
    obtain ⟨s, hs⟩ := exists_mem_of_ne_nil ss (h ss hss).1
    exact ne_nil_of_mem (mem_flatten.2 ⟨ss, hss, hs⟩)
  · obtain ⟨ss, hss, hs⟩ := mem_flatten.1 hs
    exact (h ss hss).2 s hs

theorem gives_parseSuite (w : Nat) : Gives I (parseSuite src rules blocks w) (BlockPlaced I) := by
  refine gives_peek.bind fun t _ => .ite (fun _ => gives_parseSimpleLine hrules) fun _ => ?_
  refine .advance <| .peek fun t ht => .ite (fun _ => Gives.failBind (I.place t ht) t)
    fun hkind => ?_
  have hindent : t.kind = .indent := by simpa using hkind
  refine .ite (fun _ => gives_peekNext.bind (fun u hu => .failBind (I.place u hu)) t) fun _ => ?_
  refine (givesAt_many (givesAt_parseBlockLine hrules hblocks hindent)
    (gives_parseBlockLine hrules hblocks (width t))).bind fun sss hsss => ?_
  exact .pure (blockPlaced_flatten hsss.1 hsss.2)

theorem gives_parseTopLevel :
    Gives I (parseTopLevel src rules blocks) fun r => ∀ ss ∈ r, BlockPlaced I ss := by
  refine (gives_skipKinds (by decide)).bind fun _ _ => gives_peek.bind fun t _ =>
    .ite (fun _ => .pure nofun) fun _ => ?_
  have hstatement (w : Nat) : Gives I (return some (← parseStatement src rules blocks w))
      fun r => ∀ ss ∈ r, BlockPlaced I ss :=
    (gives_parseStatement hrules hblocks w).some
  exact .ite (fun _ => .advance (hstatement _)) fun _ => hstatement _

end

theorem blocks_sound (n : Nat) : (Blocks.ofDepth src rules n).Sound I := by
  induction n with
  | zero => exact ⟨fun _ => .exhausted, fun _ => .exhausted⟩
  | succ n ih =>
    exact ⟨gives_parseSuite hrules ih, gives_parseConditional hrules ih⟩

end

/-- Every statement that is parsed is valid and stands at a token. -/
theorem gives_parseModule (I : Lexical src) :
    Gives I (parseModule src) fun m => ∀ s ∈ m, s.Placed I := by
  have hrules : src.rules.Sound I := rules_sound I _
  refine (gives_many (gives_parseTopLevel hrules (blocks_sound hrules _))).bind
    fun sss hsss => .pure fun s hs => ?_
  obtain ⟨ss, hss, hs⟩ := mem_flatten.1 hs
  exact (hsss ss hss).2 s hs

end Parse

open Parse

/-- Every statement of a parsed program is valid and stands at a token of the text. -/
theorem Module.placed_of_parse {source : List Char} {filename : String} {m : Module}
    (h : Module.parse source filename = .ok m) : ∀ s ∈ m, s.Placed (IsLexed source) := by
  rw [Module.parse, Source.run] at h
  split at h
  · next a s' hrun =>
    cases h
    exact ((gives_parseModule (.ofText source filename)).ok (all_isLexed ..) hrun).1
  · next e s' hrun => cases e <;> cases h

theorem Module.isOf_of_parse {text : List Char} {filename : String} {e : SyntaxError}
    (h : Module.parse text filename = .error e) : e.IsOf text := by
  rw [Module.parse, Source.run] at h
  split at h
  · cases h
  · next halt rest hrun =>
    cases halt with
    | error fault =>
      cases h
      exact (gives_parseModule (.ofText text filename) _).error (all_isLexed ..) rfl hrun
    | exhausted =>
      cases h
      exact ⟨.tooDeep, filename, .start, .start, rfl⟩

end BlockScript.Program
