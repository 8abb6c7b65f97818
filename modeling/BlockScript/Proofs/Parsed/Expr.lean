import BlockScript.Proofs.Parsed.Tokens

/-! Parsers of expressions: what they give is valid, and stands at a token that is read for it. -/

namespace BlockScript.Program.Parse

open List

variable {src : Source} {I : Lexical src}

/-- The place of one of the tokens that were read between two states. -/
def ReadAt (s : List Token) (span : Span) (s' : List Token) : Prop :=
  ∃ before t after, s = before ++ t :: after ∧ t.kind ≠ .indent ∧ span = .ofPosition t.pos ∧
    Leaves after s'

variable {s s' s'' : List Token} {span : Span} {p q : Parsing Expr} {t : Token} {Q : Span → Prop}
  {f : Expr → Parsing Expr} {α : Type}

theorem ReadAt.trans (h : ReadAt s span s') (hs : Leaves s' s'') : ReadAt s span s'' := by
  obtain ⟨before, t, after, hsplit, hkind, hspan, hafter⟩ := h
  exact ⟨before, t, after, hsplit, hkind, hspan, hs.trans hafter⟩

theorem ReadAt.later (hs : Leaves s s') (h : ReadAt s' span s'') : ReadAt s span s'' := by
  obtain ⟨before, t, after, rfl, hkind, hspan, hafter⟩ := h
  obtain ⟨l1, l2, rfl, -, hl2⟩ := append_sublist_iff.1 hs.sublist
  obtain ⟨r1, r2, rfl, ht, hr2⟩ := cons_sublist_iff.1 hl2
  obtain ⟨a, b, rfl⟩ := append_of_mem ht
  refine ⟨l1 ++ a, t, b ++ r2, by simp, hkind, hspan, ?_⟩
  exact ⟨(hafter.sublist.trans hr2).trans (sublist_append_right b r2), hafter.hasEnd⟩

/-- From `t` on the parser gives valid expressions, each at a place in `Q` or at a token read for
it. -/
structure PlacedAt (I : Lexical src) (Q : Span → Prop) (t : Token) (p : Parsing Expr) : Prop where
  gives : GivesAt I t p Expr.Valid
  place : ∀ ⦃s e s'⦄, All I s → s.headD noToken = t → p s = .ok e s' → Q e.span ∨ ReadAt s e.span s'

def Placed (I : Lexical src) (Q : Span → Prop) (p : Parsing Expr) : Prop := ∀ t, PlacedAt I Q t p

/-- The expressions stand at a token read for them. -/
abbrev Spanned (I : Lexical src) (p : Parsing Expr) : Prop := Placed I (fun _ => False) p

abbrev SpannedAt (I : Lexical src) (t : Token) (p : Parsing Expr) : Prop :=
  PlacedAt I (fun _ => False) t p

theorem Placed.gives (h : Placed I Q p) : Gives I p Expr.Valid := fun t => (h t).gives

theorem Spanned.readAt (h : Spanned I p) {e : Expr} (hs : All I s) (hrun : p s = .ok e s') :
    ReadAt s e.span s' := ((h _).place hs rfl hrun).resolve_left id

theorem Spanned.failsAtEnd (h : Spanned I p) : FailsAtEnd I p := by
  refine fun t heof => ⟨fun s a s' hs hhead hrun => ?_, (h t).gives.error⟩
  obtain ⟨before, x, after, hsplit, -, -, hafter⟩ := h.readAt hs hrun
  have hlength := congrArg List.length (hsplit.symm.trans (hs.eq_singleton (hhead ▸ heof)))
  have hnil : after = [] := by
    simp only [length_cons, length_nil, length_append] at hlength
    exact eq_nil_of_length_eq_zero (by omega)
  obtain ⟨y, hy, -⟩ := hafter.hasEnd
  have := hafter.sublist.mem hy
  rw [hnil] at this
  cases this

/-- What comes after an expression and keeps its place, or moves to one in `Q`. -/
theorem PlacedAt.bindOr (hp : SpannedAt I t p)
    (hf : ∀ a, a.Valid → Gives I (f a) fun e => e.Valid ∧ (e.span = a.span ∨ Q e.span)) :
    PlacedAt I Q t (p >>= f) where
  gives := hp.gives.bind fun a ha => (hf a ha).mono fun _ => And.left
  place s e s'' hs hhead hrun := by
    obtain ⟨a, s', ha, hrun⟩ := exists_of_run_bind hrun
    obtain ⟨hvalid, hs'⟩ := hp.gives.ok hs hhead ha
    obtain ⟨⟨-, hspan | hspan⟩, hs''⟩ := (hf a hvalid).ok (hs.leaves hs') hrun
    · rw [hspan]
      exact .inr (((hp.place hs hhead ha).resolve_left id).trans hs'')
    · exact .inl hspan

theorem Spanned.bind (hp : Spanned I p)
    (hf : ∀ a, a.Valid → Gives I (f a) fun e => e.Valid ∧ e.span = a.span) : Spanned I (p >>= f) :=
  fun t => PlacedAt.bindOr (hp t) fun a ha => (hf a ha).mono fun _ => And.imp_right .inl

theorem Placed.exhausted : Placed I Q (throw .exhausted) :=
  fun t => ⟨Gives.exhausted t, by rintro s _ _ _ _ ⟨⟩⟩

theorem Placed.fail {fault : SyntaxFault} {pos : Position} (h : PlaceIn src.text pos) :
    Placed I Q (fail src fault pos) :=
  fun t => ⟨Gives.fail h t, by rintro s _ _ _ _ ⟨⟩⟩

theorem Placed.ofGives (h : Gives I p fun e => e.Valid ∧ Q e.span) : Placed I Q p :=
  fun t => ⟨h.mono (fun _ => And.left) t, fun _ _ _ hs _ hrun => .inl (h.ok hs hrun).1.2⟩

theorem PlacedAt.congr (h : PlacedAt I Q t q)
    (heq : ∀ s, All I s → s.headD noToken = t → p s = q s) : PlacedAt I Q t p where
  gives := ⟨fun s _ _ hs hhead hrun => h.gives.ok hs hhead (heq s hs hhead ▸ hrun),
    fun s _ _ hs hhead hrun => h.gives.error hs hhead (heq s hs hhead ▸ hrun)⟩
  place s _ _ hs hhead hrun := h.place hs hhead (heq s hs hhead ▸ hrun)

theorem PlacedAt.ofMem (h : I t → PlacedAt I Q t p) : PlacedAt I Q t p where
  gives := .ofMem fun ht => (h ht).gives
  place _ _ _ hs hhead hrun := (h (hhead ▸ hs.current)).place hs hhead hrun

theorem PlacedAt.look {look : Parsing α} {f : α → Parsing Expr} (result : Token → α)
    (hlook : ∀ s, look s = .ok (result (s.headD noToken)) s) (h : PlacedAt I Q t (f (result t))) :
    PlacedAt I Q t (look >>= f) :=
  h.congr fun s _ hhead => by rw [run_bind, hlook, hhead]

theorem Placed.after {P : α → Prop} {p : Parsing α} {f : α → Parsing Expr} (hp : Gives I p P)
    (hf : ∀ a, Placed I Q (f a)) : Placed I Q (p >>= f) := by
  refine fun t => ⟨hp.bind (fun a _ => (hf a).gives) t, fun s e s'' hs _ hrun => ?_⟩
  obtain ⟨a, s', ha, hrun⟩ := exists_of_run_bind hrun
  obtain ⟨-, hs'⟩ := hp.ok hs ha
  exact (hf a _).place (hs.leaves hs') rfl hrun |>.imp_right (.later hs')

theorem Placed.ite {c : Prop} [Decidable c] (hp : Placed I Q p) (hq : Placed I Q q) :
    Placed I Q (if c then p else q) := by
  split
  · exact hp
  · exact hq

theorem PlacedAt.taken (ht : t.kind ≠ .indent) (heof : t.isEof = false) {f : Unit → Parsing Expr}
    (hf : Placed I (· = .ofPosition t.pos) (f ())) : SpannedAt I t (advance >>= f) where
  gives := Gives.advance hf.gives t
  place s e s' hs hhead hrun := by
    obtain ⟨s, rfl⟩ := hs.exists_cons hhead
    rw [run_bind, run_advance, heof] at hrun
    have htail := hs.tail heof
    rcases (hf _).place (hs.leaves htail) rfl hrun with hspan | hread
    · exact .inr ⟨[], t, s, rfl, ht, hspan, (hf.gives.ok (hs.leaves htail) hrun).2⟩
    · exact .inr (hread.later htail)

/-- An expression that starts with the current token if that is taken, or goes on without it. -/
theorem PlacedAt.ifTaken {look : Parsing Bool} {c : Bool}
    (hlook : ∀ s, look (t :: s) = if c then .ok true s else .ok false (t :: s))
    (hkind : c = true → t.kind ≠ .indent ∧ t.isEof = false)
    (hp : Placed I (· = .ofPosition t.pos) p) (hq : SpannedAt I t q) :
    SpannedAt I t (do if ← look then p else q) := by
  cases c with
  | false =>
    refine hq.congr fun s hs hhead => ?_
    obtain ⟨s, rfl⟩ := hs.exists_cons hhead
    rw [run_bind, hlook]
    rfl
  | true =>
    obtain ⟨ht, heof⟩ := hkind rfl
    refine (PlacedAt.taken ht heof (f := fun _ => p) hp).congr fun s hs hhead => ?_
    obtain ⟨s, rfl⟩ := hs.exists_cons hhead
    rw [run_bind, hlook, run_bind, run_advance, heof]
    rfl

theorem PlacedAt.ifEat {glyph : String} (hp : Placed I (· = .ofPosition t.pos) p)
    (hq : SpannedAt I t q) : SpannedAt I t (do if ← eat glyph then p else q) := by
  refine .ifTaken (fun _ => run_eat glyph) (fun h => ?_) hp hq
  simp only [Token.isControl, Bool.and_eq_true, beq_iff_eq] at h
  simp [h.1, Token.isEof]

theorem PlacedAt.ifEatWord {word : String} (hp : Placed I (· = .ofPosition t.pos) p)
    (hq : SpannedAt I t q) : SpannedAt I t (do if ← eatWord word then p else q) := by
  refine .ifTaken (fun _ => run_eatWord word) (fun h => ?_) hp hq
  simp only [Token.isName, Bool.and_eq_true, beq_iff_eq] at h
  simp [h.1, Token.isEof]

/-! ## The rules -/

/-- The rules give valid expressions at the tokens they read. -/
structure Rules.Sound (I : Lexical src) (rules : Rules) : Prop where
  expr : Spanned I rules.expr
  negation : Spanned I rules.negation
  unary : Spanned I rules.unary
  field : ∀ text e, rules.field text = .ok e → e.Valid

/-! ## Literals -/

def PartsValid (parts : List FStringPart) : Prop := ∀ x ∈ parts.flatMap FStringPart.exprs, x.Valid

theorem partsValid_of_forall {parts : List FStringPart}
    (h : ∀ part ∈ parts, ∀ x ∈ part.exprs, x.Valid) : PartsValid parts := by
  intro x hx
  obtain ⟨part, hpart, hx⟩ := mem_flatMap.1 hx
  exact h part hpart x hx

section

variable {pos : Position} (hpos : PlaceIn src.text pos) {rules : Rules} (hrules : rules.Sound I)

include hpos

theorem gives_parseText (isRaw : Bool) (raw : List Char) :
    Gives I (parseText src isRaw pos raw) fun part => ∀ x ∈ part.exprs, x.Valid := by
  refine .ite (fun _ => .pure nofun) fun _ => ?_
  split
  · exact .pure nofun
  · exact .fail hpos

include hrules

theorem gives_parseField (raw : List Char) :
    Gives I (parseField src rules pos raw) fun part => ∀ x ∈ part.exprs, x.Valid := by
  refine .ite (fun _ => .failBind hpos) fun _ => ?_
  split
  · next value hvalue =>
    refine .pure fun x hx => ?_
    rw [mem_singleton.1 hx]
    exact hrules.field _ value hvalue
  · exact .fail hpos
  · exact .exhausted

theorem gives_parseQuoted (letters body : List Char) :
    Gives I (parseQuoted src rules pos letters body) PartsValid := by
  refine .ite (fun _ => ?_) fun _ => (gives_parseText hpos _ _).bind fun part hpart => .pure ?_
  · refine (gives_mapM (P := fun part => ∀ x ∈ part.exprs, x.Valid) fun segment _ => ?_).bind
      fun parts hparts => ?_
    · cases segment with
      | text raw => exact gives_parseText hpos _ _
      | field raw => exact gives_parseField hpos hrules _
    · split
      · exact .fail hpos
      · exact .pure (partsValid_of_forall hparts)
  · exact partsValid_of_forall (forall_mem_singleton.2 hpart)

omit hpos

theorem gives_parseAdjacent : Gives I (parseAdjacent src rules) fun r =>
    ∀ parts ∈ r, PartsValid parts := by
  refine gives_peek.bind fun t ht => .ite (fun _ => ?_) fun _ => .pure nofun
  split
  · exact .advance (gives_parseQuoted (I.place t ht) hrules _ _).some
  · exact .pure nofun

theorem spannedAt_parseLiteral {t : Token} (ht : I t) (hkind : t.kind = .literal) :
    SpannedAt I t (parseLiteral src rules) := by
  refine .look id (fun _ => rfl)
    (.taken (by simp [hkind]) (by simp [Token.isEof, hkind]) (.ofGives ?_))
  dsimp only [id]
  split
  · next hquoted =>
    split
    · next value hvalue =>
      refine .pure ⟨.leaf ?_ rfl, rfl⟩
      cases value with
      | int i => exact I.number t ht hkind hquoted i hvalue
      | _ => trivial
    · exact .fail (I.place t ht)
  · refine (gives_parseQuoted (I.place t ht) hrules _ _).bind fun first hfirst => ?_
    refine (gives_many (gives_parseAdjacent hrules)).bind fun more hmore => ?_
    split
    · exact .pure ⟨.leaf trivial rfl, rfl⟩
    · next hfield =>
      refine .pure ⟨.intro hfield fun x hx => ?_, rfl⟩
      change x ∈ (first ++ more.flatten).flatMap FStringPart.exprs at hx
      rw [flatMap_append] at hx
      rcases mem_append.1 hx with hx | hx
      · exact hfirst x hx
      · obtain ⟨part, hpart, hx⟩ := mem_flatMap.1 hx
        obtain ⟨parts, hparts, hpart⟩ := mem_flatten.1 hpart
        exact hmore parts hparts x (mem_flatMap.2 ⟨part, hpart, hx⟩)

end

/-! ## Operators -/

theorem gives_parseComparisonOp : Gives I parseComparisonOp fun _ => True := by
  refine gives_peek.bind fun t _ => gives_peekNext.bind fun next _ => ?_
  have htake (op : CompareOp) :
      Gives I (do advance; return some op : Parsing (Option CompareOp)) fun _ => True :=
    .advance <| .pure trivial
  have htakeBoth (op : CompareOp) :
      Gives I (do advance; advance; return some op : Parsing (Option CompareOp)) fun _ => True :=
    .advance <| htake op
  refine .ite (fun _ => ?_) fun _ => .ite (fun _ => htake _) fun _ => .ite (fun _ => htakeBoth _)
    fun _ => .ite (fun _ => .ite (fun _ => htakeBoth _) fun _ => htake _) fun _ => .pure trivial
  split
  · exact htake _
  · exact .pure trivial

section

variable {rules : Rules} (hrules : rules.Sound I)
include hrules

theorem spanned_parseBinary (ps : List Nat) : Spanned I (parseBinary rules ps) := by
  induction ps with
  | nil => exact hrules.unary
  | cons p ps ih =>
    refine ih.bind fun first hfirst => gives_grow (fun left hleft => ?_) ⟨hfirst, rfl⟩
    refine gives_peek.bind fun t _ => ?_
    split
    · refine .advance <| ih.gives.bind fun right hright => .pure ?_
      rintro _ ⟨⟩
      exact ⟨.intro trivial (by simp [Expr.operands, Expr.children, hleft, hright]), hleft.2⟩
    · exact .none

theorem spanned_parseOperand : Spanned I (parseOperand rules) := spanned_parseBinary hrules _

theorem spanned_parseComparison : Spanned I (parseComparison rules) := by
  refine (spanned_parseOperand hrules).bind fun first hfirst => ?_
  refine (gives_many (P := fun c => c.right.Valid) ?_).bind fun rest hrest => .pure ?_
  · refine gives_parseComparisonOp.bind fun op _ => ?_
    split
    · exact .some (spanned_parseOperand hrules).gives
    · exact .pure nofun
  · split
    · exact ⟨hfirst, rfl⟩
    · next hne =>
      refine ⟨.intro (by simpa [Expr.Shape] using hne) fun x hx => ?_, rfl⟩
      rcases mem_cons.1 hx with rfl | hx
      · exact hfirst
      · obtain ⟨c, hc, rfl⟩ := mem_map.1 hx
        exact hrest c hc

theorem spanned_parseNegation : Spanned I (parseNegation rules) := by
  refine fun t => .look (.ofPosition ·.pos) (fun _ => rfl) <|
    .ifEatWord (.ofGives ?_) (spanned_parseComparison hrules t)
  refine hrules.negation.gives.bind fun operand hoperand => .pure ⟨?_, rfl⟩
  exact .intro trivial (by simp [Expr.operands, Expr.children, hoperand])

omit hrules in
theorem spanned_parseLogical {word : String} {op : LogicalOp} {operand : Parsing Expr}
    (hoperand : Spanned I operand) : Spanned I (parseLogical word op operand) := by
  refine hoperand.bind fun first hfirst => gives_grow (fun left hleft => ?_) ⟨hfirst, rfl⟩
  refine .ifEatWord ?_ .none
  refine hoperand.gives.bind fun right hright => .pure ?_
  rintro _ ⟨⟩
  exact ⟨.intro trivial (by simp [Expr.operands, Expr.children, hleft, hright]), hleft.2⟩

theorem spanned_parseDisjunction : Spanned I (parseDisjunction rules) :=
  spanned_parseLogical (spanned_parseLogical hrules.negation)

theorem gives_parseDisjunction : Gives I (parseDisjunction rules) Expr.Valid :=
  (spanned_parseDisjunction hrules).gives

theorem spanned_parseExpr : Spanned I (parseExpr src rules) := by
  refine (spanned_parseDisjunction hrules).bind fun body hbody => .ifEatWord ?_ (.pure ⟨hbody, rfl⟩)
  refine (gives_parseDisjunction hrules).bind fun test htest =>
    (gives_expectWord "else").bind fun _ _ =>
    hrules.expr.gives.bind fun orelse horelse => .pure ⟨?_, rfl⟩
  exact .intro trivial (by simp [Expr.operands, Expr.children, htest, hbody, horelse])

/-! ## Rows -/

omit hrules in
theorem valid_tuple {span : Span} {first : Expr} {more : List Expr} (hfirst : first.Valid)
    (hmore : ∀ e ∈ more, e.Valid) : (Expr.tuple span (first :: more)).Valid :=
  .intro trivial (forall_mem_cons.2 ⟨hfirst, hmore⟩)

omit hrules in
theorem gives_endsRow : Gives I (return !(← startsExpr)) fun _ => True :=
  gives_startsExpr.bind fun _ _ => .pure trivial

theorem gives_parseExprList : Gives I (parseExprList rules) Expr.Valid := by
  refine gives_spanHere.bind fun span _ => hrules.expr.gives.bind fun first hfirst =>
    .ifAt ?_ (.pure hfirst)
  exact (gives_moreItems gives_endsRow hrules.expr.gives).bind fun more hmore =>
    .pure (valid_tuple hfirst hmore)

theorem gives_parseTargets : Gives I (parseTargets src rules) fun e => e.Valid ∧
    e.isAssignable = true := by
  refine gives_peek.bind fun t ht => (spanned_parseOperand hrules).gives.bind fun first hfirst => ?_
  have hcheck (target : Expr) (htarget : target.Valid) :
      Gives I (if target.isAssignable then pure target else fail src .cannotAssign t.pos)
        fun e => e.Valid ∧ e.isAssignable = true :=
    .ite (fun h => .pure ⟨htarget, h⟩) fun _ => .fail (I.place t ht)
  refine .ifAt ?_ (hcheck first hfirst)
  exact (gives_moreItems gives_endsRow (spanned_parseOperand hrules).gives).bind fun more hmore =>
    hcheck _ (valid_tuple hfirst hmore)

/-! ## Comprehensions and calls -/

def ClauseValid (c : Clause) : Prop := c.target.isAssignable = true ∧ ∀ x ∈ c.exprs, x.Valid

theorem gives_clauseBody : Gives I (do
      let target ← parseTargets src rules
      expectWord src "in"
      let source ← parseDisjunction rules
      let conditions ← many do
        if ← eatWord "if" then return some (← parseDisjunction rules) else return none
      return some (.mk target source conditions) : Parsing (Option Clause))
      fun r => ∃ c, r = some c ∧ ClauseValid c := by
  refine (gives_parseTargets hrules).bind fun target htarget =>
    (gives_expectWord "in").bind fun _ _ => (gives_parseDisjunction hrules).bind
      fun source hsource => ?_
  refine (gives_many (P := Expr.Valid) ?_).bind fun conditions hconditions => .pure ?_
  · exact .ifEatWord (gives_parseDisjunction hrules).some .none
  · exact ⟨_, rfl, htarget.2,
      forall_mem_cons.2 ⟨htarget.1, forall_mem_cons.2 ⟨hsource, hconditions⟩⟩⟩

theorem gives_parseClause : Gives I (parseClause src rules) fun r => ∀ c ∈ r, ClauseValid c := by
  refine .ifEatWord ?_ .none
  refine (gives_clauseBody hrules).mono ?_
  rintro _ ⟨c, rfl, hc⟩ _ ⟨⟩
  exact hc

theorem givesAt_parseComprehension {t : Token} (ht : t.isName "for" = true)
    {element : Expr} (helement : element.Valid) :
    GivesAt I t (parseComprehension src rules element) fun e => e.Valid ∧
    e.span = element.span := by
  have hfirst : GivesAt I t (parseClause src rules) fun r => ∃ c, r = some c ∧ ClauseValid c := by
    refine givesAt_eatWord.bind fun b hb => ?_
    rw [hb, ht]
    exact gives_clauseBody hrules
  refine (givesAt_many hfirst (gives_parseClause hrules)).bind fun clauses ⟨hne, hclauses⟩ =>
    .pure ⟨.intro ⟨hne, fun c hc => (hclauses c hc).1⟩ fun x hx => ?_, rfl⟩
  rcases mem_cons.1 hx with rfl | hx
  · exact helement
  · obtain ⟨c, hc, hx⟩ := mem_flatMap.1 hx
    exact (hclauses c hc).2 x hx

def ArgValid (a : Arg) : Prop := a.value.Valid ∧ ∀ n ∈ a.name?, IsName n

theorem gives_parseArg (isFirst : Bool) : Gives I (parseArg src rules isFirst) ArgValid := by
  have hplain {make : Expr → Arg} (hvalue : ∀ e, (make e).value = e) (hname : ∀ e,
      (make e).name? = none) : Gives I (return make (← rules.expr)) ArgValid := by
    refine hrules.expr.gives.bind fun e he => .pure ⟨(hvalue e).symm ▸ he, ?_⟩
    rw [hname e]
    exact nofun
  refine .ifEat (hplain (fun _ => rfl) fun _ => rfl)
    (.ifEat (hplain (fun _ => rfl) fun _ => rfl) ?_)
  refine gives_peek.bind fun _ _ => gives_peekNext.bind fun _ _ => .ite (fun _ => ?_) fun _ => ?_
  · refine gives_name.bind fun name hname => .advance <| hrules.expr.gives.bind fun e he =>
      .pure ⟨he, ?_⟩
    rintro _ ⟨⟩
    exact hname
  · refine hrules.expr.gives.bind fun value hvalue => ?_
    have hlast : Gives I (pure (.positional value)) ArgValid := .pure ⟨hvalue, nofun⟩
    refine .ifLook (·.isName "for") (fun _ => rfl) (fun t ht => .ite (fun _ => ?_) fun _ => hlast t)
      (.ite (fun h => ?_) fun _ => hlast)
    · exact (givesAt_parseComprehension hrules ht hvalue).bind fun e he => .pure ⟨he.1, nofun⟩
    · simp at h

theorem gives_parseArgs : Gives I (parseArgs src rules) fun args => ∀ a ∈ args, ArgValid a := by
  have hclose (args : List Arg) (hargs : ∀ a ∈ args, ArgValid a) :
      Gives I (do expect src ")"; return args) fun args => ∀ a ∈ args, ArgValid a :=
    .expect (.pure hargs)
  refine .ifAt (hclose [] nofun) ?_
  refine (gives_parseArg hrules true).bind fun first hfirst =>
    (gives_moreItems (gives_isAt ")") (gives_parseArg hrules false)).bind fun more hmore => ?_
  exact hclose _ (forall_mem_cons.2 ⟨hfirst, hmore⟩)

/-! ## Subscripts -/

theorem gives_parseBound : Gives I (parseBound rules) fun r => ∀ e ∈ r, e.Valid := by
  have hends : Gives I endsBound fun _ => True := gives_peek.bind fun _ _ => .pure trivial
  exact .test hends .none hrules.expr.gives.some

omit hrules in
theorem bounds_of_valid {e : Expr} (h : e.Valid) : ∀ x ∈ e.bounds, x.Valid := by
  cases e with
  | slice s lower upper step => cases h with | intro shape => exact shape.elim
  | _ =>
    intro x hx
    exact mem_singleton.1 hx ▸ h

theorem gives_parseIndex : Gives I (parseIndex src rules) fun e => ∀ x ∈ e.bounds, x.Valid := by
  refine gives_spanHere.bind fun span _ => ?_
  have hstep (lower upper : Option Expr) (hlower : ∀ e ∈ lower, e.Valid)
      (hupper : ∀ e ∈ upper, e.Valid) (step : Option Expr) (hstep : ∀ e ∈ step, e.Valid) :
      Gives I (pure (Expr.slice span lower upper step)) fun e => ∀ x ∈ e.bounds, x.Valid := by
    refine .pure fun x hx => ?_
    simp only [Expr.bounds, Expr.children, mem_append, Option.mem_toList] at hx
    rcases hx with hx | hx | hx
    · exact hlower x hx
    · exact hupper x hx
    · exact hstep x hx
  have hslice (lower : Option Expr) (hlower : ∀ e ∈ lower, e.Valid) : Gives I (do
        expect src ":"
        let upper ← parseBound rules
        let step ← if ← eat ":" then parseBound rules else pure none
        return Expr.slice span lower upper step) fun e => ∀ x ∈ e.bounds, x.Valid := by
    exact .expect <| (gives_parseBound hrules).bind fun upper hupper =>
      .ifEat ((gives_parseBound hrules).bind (hstep lower upper hlower hupper))
        (hstep lower upper hlower hupper none (by simp))
  refine .ifAt ?_ ?_
  · exact (gives_isAt ":").bind fun _ _ => hslice none (by simp)
  · refine hrules.expr.gives.bind fun index hindex => .bind (P := (· = some index)) (.pure rfl) ?_
    rintro _ rfl
    refine (gives_isAt ":").bind fun b _ => ?_
    cases b with
    | false => exact .pure (bounds_of_valid hindex)
    | true =>
      refine hslice (some index) ?_
      rintro _ ⟨⟩
      exact hindex

omit hrules in
theorem indexOperands_of_bounds {e : Expr} (h : ∀ x ∈ e.bounds, x.Valid) :
    ∀ x ∈ e.indexOperands, x.Valid := by
  cases e with
  | tuple s items =>
    intro x hx
    obtain ⟨item, hitem, hx⟩ := mem_flatMap.1 hx
    cases h _ mem_cons_self with
    | intro shape operands => exact bounds_of_valid (operands item hitem) x hx
  | _ => exact h

theorem gives_parseSubscript :
    Gives I (parseSubscript src rules) fun e => ∀ x ∈ e.indexOperands, x.Valid := by
  refine gives_spanHere.bind fun span _ => (gives_parseIndex hrules).bind fun first hfirst =>
    .ifAt ?_ (.pure (indexOperands_of_bounds hfirst))
  refine (gives_moreItems (gives_isAt "]") (gives_parseIndex hrules)).bind fun more hmore =>
    .pure fun x hx => ?_
  obtain ⟨item, hitem, hbounds⟩ := mem_flatMap.1 hx
  rcases mem_cons.1 hitem with rfl | hitem
  · exact hfirst x hbounds
  · exact hmore item hitem x hbounds

/-! ## Primaries -/

theorem placed_parseParenthesized (span : Span) :
    Placed I (· = span) (parseParenthesized src rules span) := by
  refine .after (gives_eat ")") fun _ => .ite (.ofGives (.pure ⟨.leaf trivial rfl, rfl⟩)) ?_
  refine fun t => (hrules.expr t).bindOr fun first hfirst =>
    .ifLook (·.isName "for") (fun _ => rfl) (fun t ht => ?_) ?_
  · refine .isAt ((givesAt_parseComprehension hrules ht hfirst).bind fun inner hinner => ?_)
    exact .expect (.pure ⟨hinner.1, .inl hinner.2⟩)
  · refine (gives_isAt ",").bind fun _ _ => .ite (fun h => absurd h Bool.false_ne_true) fun _ =>
      .ite (fun _ => ?_) fun _ => .expect (.pure ⟨hfirst, .inl rfl⟩)
    exact (gives_moreItems (gives_isAt ")") hrules.expr.gives).bind fun more hmore =>
      .expect (.pure ⟨valid_tuple hfirst hmore, .inr rfl⟩)

theorem placed_parseBracketed (span : Span) :
    Placed I (· = span) (parseBracketed src rules span) := by
  refine .after (gives_eat "]") fun _ => .ite (.ofGives (.pure ⟨.leaf trivial rfl, rfl⟩)) ?_
  refine fun t => (hrules.expr t).bindOr fun first hfirst =>
    .ifLook (·.isName "for") (fun _ => rfl) (fun t ht => ?_) ?_
  · refine (givesAt_parseComprehension hrules ht hfirst).bind fun inner hinner => ?_
    exact .expect (.pure ⟨hinner.1, .inl hinner.2⟩)
  · refine .ite (fun h => absurd h Bool.false_ne_true) fun _ => ?_
    exact (gives_moreItems (gives_isAt "]") hrules.expr.gives).bind fun more hmore =>
      .expect (.pure ⟨.intro trivial (forall_mem_cons.2 ⟨hfirst, hmore⟩), .inr rfl⟩)

theorem placed_parseDict (span : Span) : Placed I (· = span) (parseDict src rules span) := by
  refine .ofGives <| (gives_items (P := fun entry => ∀ x ∈ entry.exprs, x.Valid) ?_).bind
    fun entries hentries => .expect <| .pure ⟨.intro trivial fun x hx => ?_, rfl⟩
  · refine hrules.expr.gives.bind fun key hkey => .expect <|
      hrules.expr.gives.bind fun value hvalue => .pure ?_
    simp [Entry.exprs, hkey, hvalue]
  · obtain ⟨entry, hentry, hx⟩ := mem_flatMap.1 hx
    exact hentries entry hentry x hx

omit hrules in
theorem spannedAt_parseWord {t : Token} (ht : I t) (hkind : t.kind = .name) :
    SpannedAt I t (parseWord src t (.ofPosition t.pos)) := by
  refine .taken (by simp [hkind]) (by simp [Token.isEof, hkind]) (.ofGives ?_)
  split
  · exact .pure ⟨.leaf trivial rfl, rfl⟩
  · exact .pure ⟨.leaf trivial rfl, rfl⟩
  · exact .pure ⟨.leaf trivial rfl, rfl⟩
  · refine .ite (fun _ => .fail (I.place t ht)) fun hkeyword => .pure ⟨.leaf ?_ rfl, rfl⟩
    exact ⟨I.word t ht hkind, Bool.eq_false_iff.2 hkeyword⟩

theorem spanned_parsePrimary : Spanned I (parsePrimary src rules) := by
  refine fun t => .look id (fun _ => rfl) (.ofMem fun ht => ?_)
  dsimp only [id]
  cases hkind : t.kind with
  | name => exact spannedAt_parseWord ht hkind
  | literal => exact spannedAt_parseLiteral hrules ht hkind
  | unknown => exact Placed.fail (I.place t ht) t
  | _ =>
    exact .ifEat (placed_parseParenthesized hrules _) (.ifEat (placed_parseBracketed hrules _)
      (.ifEat (placed_parseDict hrules _) (Placed.fail (I.place t ht) t)))

theorem gives_parseTrailer {e : Expr} (he : e.Valid) :
    Gives I (parseTrailer src rules e) fun r => ∀ x ∈ r, x.Valid ∧ x.span = e.span := by
  refine .ifEat ?_ ?_
  · refine gives_name.bind fun name hname => .pure ?_
    rintro _ ⟨⟩
    exact ⟨.intro hname (by simp [Expr.attr, Expr.operands, Expr.children, he]), rfl⟩
  refine .ifEat ?_ ?_
  · refine (gives_parseArgs hrules).bind fun args hargs => .pure ?_
    rintro _ ⟨⟩
    refine ⟨.intro (fun a ha => (hargs a ha).2) (forall_mem_cons.2 ⟨he, fun x hx => ?_⟩), rfl⟩
    obtain ⟨a, ha, rfl⟩ := mem_map.1 hx
    exact (hargs a ha).1
  refine .ifEat ?_ .none
  refine (gives_parseSubscript hrules).bind fun index hindex => .expect <| .pure ?_
  rintro _ ⟨⟩
  exact ⟨.intro trivial (forall_mem_cons.2 ⟨he, hindex⟩), rfl⟩

theorem spanned_parsePower : Spanned I (parsePower src rules) := by
  refine (spanned_parsePrimary hrules).bind fun first hfirst =>
    (gives_grow (fun e he => ?_) ⟨hfirst, rfl⟩).bind fun base hbase => .ifEat ?_ (.pure hbase)
  · exact (gives_parseTrailer hrules he.1).mono fun r hr x hx =>
      ⟨(hr x hx).1, (hr x hx).2.trans he.2⟩
  · refine hrules.unary.gives.bind fun right hright => .pure ⟨?_, hbase.2⟩
    exact .intro trivial (by simp [Expr.operands, Expr.children, hbase, hright])

theorem spanned_parseUnary : Spanned I (parseUnary src rules) := by
  refine fun t => .look (.ofPosition ·.pos) (fun _ => rfl) ?_
  have hsigned (op : UnaryOp) : Placed I (· = .ofPosition t.pos)
      (return .unary (.ofPosition t.pos) op (← rules.unary)) := by
    refine .ofGives <| hrules.unary.gives.bind fun operand hoperand => .pure ⟨?_, rfl⟩
    exact .intro trivial (by simp [Expr.operands, Expr.children, hoperand])
  exact .ifEat (hsigned _) (.ifEat (hsigned _) (.ifEat (hsigned _) (spanned_parsePower hrules t)))

theorem gives_parseWhole : Gives I (parseWhole src rules) Expr.Valid :=
  (gives_skipKinds (by decide)).bind fun _ _ => (gives_parseExprList hrules).bind fun e he =>
    (gives_skipKinds (by decide)).bind fun _ _ => gives_peek.bind fun t ht =>
      .ite (fun _ => .pure he) fun _ => .fail (I.place t ht)

/-! ## What needs a token -/

theorem failsAtEnd_expr : FailsAtEnd I rules.expr := hrules.expr.failsAtEnd

theorem failsAtEnd_parseExprList : FailsAtEnd I (parseExprList rules) :=
  .spanHere fun _ => (failsAtEnd_expr hrules).bind

theorem failsAtEnd_parseTargets : FailsAtEnd I (parseTargets src rules) :=
  .peek fun _ _ _ => (spanned_parseOperand hrules).failsAtEnd.bind

end

/-- Every expression that is parsed is valid. -/
theorem rules_sound (I : Lexical src) (n : Nat) : (Rules.ofDepth n src).Sound I := by
  induction n generalizing I src with
  | zero => exact ⟨.exhausted, .exhausted, .exhausted, nofun⟩
  | succ n ih =>
    refine ⟨spanned_parseExpr (ih I), spanned_parseNegation (ih I), spanned_parseUnary (ih I),
      fun text e h => ?_⟩
    -- a field is a text of its own
    change (Source.ofText text src.filename).run _ = _ at h
    rw [Source.run] at h
    split at h
    · next hrun =>
      cases h
      exact ((gives_parseWhole (ih (.ofText text src.filename))).ok (all_isLexed ..) hrun).1
    · cases h

end BlockScript.Program.Parse
