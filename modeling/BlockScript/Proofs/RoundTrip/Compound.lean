import BlockScript.Proofs.RoundTrip.Simple

/-! Statements with blocks, apart from definitions. -/

namespace BlockScript.Program

open Token List

variable {s : List Token} {w : String}

/-- The end of the line before a block. -/
theorem Ahead.colonLine {rest : List Char} (h : Ahead 0 (":\n".toList ++ rest) s) :
    Next .control ":" (Ahead 0 ('\n' :: rest)) s :=
  Ahead.glyph (g := ":") h (by decide) fun | _, rfl => isExtended_of_not_mem (by decide) (by decide)

theorem AheadLine.word {k : Nat} {more : List Char}
    (hs : AheadLine ((Print.indentation k).toList ++ (w.toList ++ more)) s) (hw : IsWord w.toList)
    (hmore : BoundsWord more) :
    Next .indent (Print.indentation k) (Next .name w (Ahead 0 more)) s := by
  obtain ⟨pos, s1, rfl, hs1⟩ := hs.indentation (hw.starts.append more)
  exact ⟨pos, s1, rfl, hs1.word hw hmore⟩

namespace Parse

variable {src : Source} {n m b k : Nat} {rest : List Char} {s : List Token} {P : Token → Prop}
  {mid post : List Token → Prop} {word : String} {β : Type} {R : β → Prop}

theorem follow_colonLine (hP : ∀ pos, P ⟨.control, ":", pos⟩) : Follow P 0 (":\n".toList ++ rest) :=
  .of_next (bounds_append (by decide) rest) (fun _ hs => hs.colonLine) hP

theorem Takes.eatClause {pre : List Token → Prop} {f : Bool → Parsing β}
    (h : ∀ ⦃s⦄, pre s → Next .indent (Print.indentation k) (Next .name word mid) s)
    (hf : Takes m 0 mid (f true) R post) :
    Takes m 0 pre (Parse.eatClause (4 * k) word >>= f) R post := by
  refine .skip (q := fun pos s =>
    (Parse.eatClause (4 * k) word >>= f) (⟨.indent, Print.indentation k, pos⟩ :: s)) h
    (fun _ _ _ => rfl) fun pos => .skip (q := fun _ => f true) (fun _ hs => hs)
      (fun _ _ _ => ?_) fun _ => hf
  simp [Parse.eatClause]

theorem Continues.eatClause (h : Continues k rest) (hs : AheadLine rest s)
    (hword : word ∈ clauseWords) : eatClause (4 * k) word s = .ok false s := by
  simp [Parse.eatClause, h.isAtClause hs hword]

variable [View] {body orelse : List Stmt} {span : Span} {test : Expr} {stmt : Stmt}
  {f : List Stmt → Parsing β}

theorem Takes.block (hne : body ≠ []) (hbody : ∀ stmt ∈ body, StmtReadable stmt)
    (hn : 4 * m + 8 ≤ n)
    (hb : m < b) (hrest : EndsBlock (k + 1) rest) (hf : ∀ body', body'.map Stmt.viewed = body.map
      Stmt.viewed → Takes m 0 (AheadLine rest) (f body') R post) :
    Takes m 0 (Ahead 0 (":\n".toList ++ ((Print.block (k + 1) body).toList ++ rest))) (do
      Parse.expect src ":"
      f (← (Blocks.ofDepth src (.ofDepth n src) b).suite (4 * k))) R post :=
  .expect (fun _ hs => hs.colonLine) ((takes_suite src hne hbody hn hb hrest).last hf)

omit [View] in
/-- What comes after a keyword that is taken with its place. -/
theorem Takes.keyword {f : Span → Unit → Parsing β}
    (hf : ∀ span m', m = m' + 1 → Takes m' 0 mid (f span ()) R post) :
    Takes m 1 (Next .name w mid) (spanHere >>= fun span => advance >>= f span) R post :=
  .next (q := fun pos => f (.ofPosition pos) ()) (fun _ hs => hs) (fun _ _ => by simp) rfl
    fun pos => hf _

theorem StmtReadable.of_keyword (w : String) (more : Nat → List Char)
    {parse : Source → Rules → Blocks → Nat → Span → Unit → Parsing Stmt}
    (hw : w ∈ ["while", "for", "with", "try"])
    (hstmt : ∀ span test body orelse, stmt ≠ .ifElse span test body orelse)
    (hbounds : ∀ k rest, Bounds (more k ++ rest))
    (hrun : ∀ src rules blocks width pos s, parseStatement src rules blocks width
      (⟨.name, w, pos⟩ :: s) =
      (do return [← spanHere >>= fun span => advance >>= parse src rules blocks width span] :
      Parsing (List Stmt))
        (⟨.name, w, pos⟩ :: s))
    (hparse : ∀ k src n b ⦃m rest⦄ span, 4 * m + 8 ≤ n → m < b → Continues k rest →
      Takes m 0 (Ahead 0 (more k ++ rest))
      (parse src (.ofDepth n src) (.ofDepth src (.ofDepth n src) b) (4 * k) span ())
        (·.viewed = stmt.viewed)
      (AheadLine rest))
    (htext : ∀ k, (Print.stmt k stmt).toList = (Print.indentation k).toList ++
      (w.toList ++ more k)) :
    StmtReadable stmt where
  own k := by
    have hfacts : ∀ w ∈ ["while", "for", "with", "try"], IsWord w.toList ∧
        w ∉ clauseWords := by decide
    obtain ⟨hword, hclause⟩ := hfacts w hw
    have hnext (rest : List Char) ⦃s : List Token⦄ (hs : Ahead 0 ((w.toList ++ more k) ++ rest) s) :
        Next .name w (Ahead 0 (more k ++ rest)) s := by
      rw [append_assoc] at hs
      exact hs.word hword (hbounds k rest).word
    refine ⟨w.toList ++ more k, htext k, hword.starts.append _, fun rest s hs =>
      .of_next (hnext rest hs) fun _ x hx => ?_,
      fun src n b m rest hn hb hrest => .next (q := fun pos => do
        return [← parse src (.ofDepth n src) (.ofDepth src (.ofDepth n src) b) (4 * k)
          (.ofPosition pos) ()])
        (hnext rest) (fun _ _ => by rw [hrun]; simp) rfl ?_⟩
    · rw [isName_name, beq_eq_false_iff_ne]
      rintro rfl
      exact hclause hx
    · rintro pos m rfl
      exact (hparse k src n b _ (by omega) hb hrest).last fun stmt' h =>
        .pure (by rw [map_singleton, h])
  conditional := fun _ _ _ _ h => (hstmt _ _ _ _ h).elim

/-! ## Loops -/

theorem stmtReadable_whileLoop (htest : Readable test) (hbody : ∀ stmt ∈ body, StmtReadable stmt)
    (hne : body ≠ []) : StmtReadable (.whileLoop span test body) := by
  refine .of_keyword "while" (fun k => ' ' :: ((Print.expr 1 test).toList ++
      (":\n".toList ++ (Print.block (k + 1) body).toList))) (by decide) nofun
        (by rintro k rest _ ⟨⟩; rfl)
    (fun _ _ _ _ _ _ => rfl) (fun k src n b m rest span' hn hb hrest => ?_) fun k => by
      rw [Print.stmt, String.toList_append, Print.toList_line]
      simp only [String.toList_append, append_assoc]
      rfl
  simp only [cons_append, append_assoc]
  refine .of (fun s hs => hs.blank) ((htest.whole.expr src (by omega)
    (follow_colonLine fun _ => Nat.zero_lt_one)).bind fun test' htest' => ?_)
  exact .block hne hbody hn hb hrest.endsBlock fun body' hbody' => .pure (by simp [htest', hbody'])

omit [View] in
theorem endsList_colonLine : EndsList 0 (":\n".toList ++ rest) :=
  follow_colonLine fun _ => ⟨Nat.zero_lt_one, rfl⟩

theorem stmtReadable_forLoop {target source : Expr} (htarget : Readable target)
    (hsource : Readable source) (hbody : ∀ stmt ∈ body, StmtReadable stmt)
    (hassign : target.isAssignable = true) (hne : body ≠ []) :
    StmtReadable (.forLoop span target source body) := by
  refine .of_keyword "for" (fun k => ' ' :: ((Print.expr 0 target).toList ++ ' ' :: ("in".toList ++
      ' ' :: ((Print.expr 0 source).toList ++
        (":\n".toList ++ (Print.block (k + 1) body).toList)))))
    (by decide) nofun (by rintro k rest _ ⟨⟩; rfl) (fun _ _ _ _ _ _ => rfl)
    (fun k src n b m rest span' hn hb hrest => ?_) fun k => by
      rw [Print.stmt, String.toList_append, Print.toList_line]
      simp only [String.toList_append, append_assoc]
      rfl
  simp only [cons_append, append_assoc]
  refine .of (fun s hs => hs.blank) ((htarget.target hassign src (by omega)
    (follow_word (w := "in") (by decide) fun _ => ⟨Nat.le_refl 6, rfl⟩)).bind
      fun target' htarget' => ?_)
  refine .expectWord (fun _ hs => hs.spacedWord (by decide))
    ((hsource.list src (by omega) endsList_colonLine).bind fun source' hsource' => ?_)
  exact .block hne hbody hn hb hrest.endsBlock fun body' hbody' =>
    .pure (by simp [htarget', hsource', hbody'])

/-! ## Contexts -/

def contextTarget : Option Expr → List Char
  | none => []
  | some e => ' ' :: ("as".toList ++ ' ' :: (Print.expr 0 e).toList)

theorem stmtReadable_withBlock {context : Expr} {target : Option Expr} (hcontext : Readable context)
    (htarget : ∀ e ∈ target, Readable e) (hbody : ∀ stmt ∈ body, StmtReadable stmt)
    (hassign : ∀ e ∈ target, e.isAssignable = true) (hne : body ≠ []) :
    StmtReadable (.withBlock span context target body) := by
  refine .of_keyword "with" (fun k =>
    ' ' :: ((Print.expr 1 context).toList ++ (contextTarget target ++
      (":\n".toList ++ (Print.block (k + 1) body).toList)))) (by decide) nofun
        (by rintro k rest _ ⟨⟩; rfl)
    (fun _ _ _ _ _ _ => rfl) (fun k src n b m rest span' hn hb hrest => ?_) fun k => ?_
  · simp only [cons_append, append_assoc]
    refine .of (fun s hs => hs.blank) ?_
    cases target with
    | none =>
      refine (hcontext.whole.expr src (by omega) (follow_colonLine fun _ => Nat.zero_lt_one)).bind
        fun context' hc => ?_
      refine .notEatWord (follow_colonLine fun _ => rfl).head (.val ?_)
      exact .block hne hbody hn hb hrest.endsBlock fun body' hbody' => .pure (by simp [hc, hbody'])
    | some target =>
      simp only [contextTarget, cons_append, append_assoc]
      refine (hcontext.whole.expr src (by omega)
        (follow_word (w := "as") (by decide) fun _ => Nat.zero_lt_one)).bind
        fun context' hc => .eatWord (fun _ hs => hs.spacedWord (by decide)) ?_
      refine ((htarget target rfl).target (hassign target rfl) src (by omega)
        (follow_colonLine fun _ => ⟨Nat.zero_lt_succ 5, rfl⟩)).bind fun target' htarget' => .val ?_
      exact .block hne hbody hn hb hrest.endsBlock fun body' hbody' =>
        .pure (by simp [hc, htarget', hbody'])
  · cases target <;> rw [Print.stmt, String.toList_append, Print.toList_line] <;>
      simp only [contextTarget, String.toList_append, append_assoc, cons_append, nil_append] <;> rfl

/-! ## Conditions -/

section

omit [View]

/-- What follows the first block of a condition. -/
theorem endsBlock_elseBranch (hrest : Continues k rest) :
    EndsBlock (k + 1) ((Print.elseBranch k orelse).toList ++ rest) := by
  unfold Print.elseBranch
  split
  · exact hrest.endsBlock
  · rw [String.toList_append, String.toList_append, Print.toList_line]
    simp only [append_assoc]
    refine .line (Nat.lt_succ_self k) ?_
    simp only [String.toList_append, append_assoc]
    exact Starts.append (by decide) _
  · rw [String.toList_append, String.toList_append, Print.toList_line]
    simp only [append_assoc]
    exact .line (Nat.lt_succ_self k) (Starts.append (by decide) _)

theorem elseBranch_elif (span : Span) (test : Expr) (body orelse : List Stmt) :
    (Print.elseBranch k [.ifElse span test body orelse]).toList =
      (Print.indentation k).toList ++ ("elif".toList ++ conditionalText k test body orelse) := by
  rw [Print.elseBranch, String.toList_append, String.toList_append, Print.toList_line]
  simp only [String.toList_append, append_assoc]
  rfl

theorem elseBranch_else (hne : orelse ≠ [])
    (hif : ∀ span test body orelse', orelse ≠ [.ifElse span test body orelse']) :
    (Print.elseBranch k orelse).toList = (Print.indentation k).toList ++
        ("else".toList ++ (":\n".toList ++ (Print.block (k + 1) orelse).toList)) := by
  unfold Print.elseBranch
  split
  · exact absurd rfl hne
  · exact absurd rfl (hif _ _ _ _)
  · rw [String.append_assoc, ← Print.block, String.toList_append, Print.toList_line]
    simp only [append_assoc]
    rfl

end

theorem takes_conditional (span : Span) (htest : Readable test)
    (hbody : ∀ stmt ∈ body, StmtReadable stmt)
    (hne : body ≠ []) (horelse : ∀ stmt ∈ orelse, StmtReadable stmt) (src : Source)
    (hn : 4 * m + 8 ≤ n)
    (hb : m ≤ b) (hrest : Continues k rest) :
    Takes m 1 (Next .name w (Ahead 0 (conditionalText k test body orelse ++ rest)))
      (parseConditional src (.ofDepth n src) (.ofDepth src (.ofDepth n src) b) (4 * k))
      (·.viewed = (Stmt.ifElse span test body orelse).viewed) (AheadLine rest) := by
  refine .keyword fun span' m' hm => ?_
  subst hm
  simp only [conditionalText, cons_append, append_assoc]
  refine .of (fun s hs => hs.blank) ((htest.whole.expr src (by omega)
    (follow_colonLine fun _ => Nat.zero_lt_one)).bind fun test' htest' => ?_)
  refine .block hne hbody (by omega) (by omega) (endsBlock_elseBranch hrest) fun body' hbody' => ?_
  by_cases hnil : orelse = []
  · subst hnil
    rw [Print.elseBranch]
    refine .look (a := false) (fun s hs => hrest.isAtClause hs (by decide))
      (.look (a := false) (fun s hs => hrest.eatClause hs (by decide))
        (.pure (by simp [htest', hbody'])))
  by_cases hif : ∃ span test body orelse', orelse = [.ifElse span test body orelse']
  · obtain ⟨_, test1, body1, orelse1, rfl⟩ := hif
    obtain ⟨b, rfl⟩ : ∃ j, b = j + 1 := ⟨b - 1, by omega⟩
    rw [elseBranch_elif, append_assoc, append_assoc]
    refine .skip (q := fun _ => do
        return .ifElse span' test' body'
          [← (Blocks.ofDepth src (.ofDepth n src) (b + 1)).conditional (4 * k)])
      (fun _ hs => hs.word (by decide) (by rintro _ ⟨⟩; exact .inl rfl)) (fun _ s hs => ?_) fun _ =>
      ?_
    · obtain ⟨pos', s, rfl, -⟩ := hs
      simp
    · refine Takes.bind ((horelse _ mem_cons_self).conditional _ _ _ _ rfl k src n b
        (by omega) (by omega) hrest)
        fun else' helse => .pure ?_
      simpa [htest', hbody'] using helse
  · have hother : ∀ span test body orelse', orelse ≠ [.ifElse span test body orelse'] :=
      fun _ _ _ _ heq => hif ⟨_, _, _, _, heq⟩
    rw [elseBranch_else hnil hother, append_assoc, append_assoc, append_assoc]
    refine .look (a := false) (fun s hs => ?_) (.eatClause (fun _ hs =>
      hs.word (by decide) (bounds_append (by decide) _).word)
        (.block hnil horelse (by omega) (by omega)
      hrest.endsBlock fun orelse' horelse' => .pure (by simp [htest', hbody', horelse'])))
    obtain ⟨pos', _, rfl, pos'', s, rfl, -⟩ :=
      hs.word (by decide) (bounds_append (by decide) _).word
    simp

theorem stmtReadable_ifElse (htest : Readable test) (hbody : ∀ stmt ∈ body, StmtReadable stmt)
    (hne : body ≠ []) (horelse : ∀ stmt ∈ orelse, StmtReadable stmt) :
    StmtReadable (.ifElse span test body orelse) where
  own k := by
    have htext : (Print.stmt k (.ifElse span test body orelse)).toList =
        (Print.indentation k).toList ++ ("if".toList ++ conditionalText k test body orelse) := by
      rw [Print.stmt, String.toList_append, String.toList_append, Print.toList_line]
      simp only [String.toList_append, append_assoc]
      rfl
    have hnext (rest : List Char) ⦃s : List Token⦄
        (hs : Ahead 0 (("if".toList ++ conditionalText k test body orelse) ++ rest) s) :
        Next .name "if" (Ahead 0 (conditionalText k test body orelse ++ rest)) s := by
      rw [append_assoc] at hs
      exact hs.word (by decide) (by rintro _ ⟨⟩; exact .inl rfl)
    have hclause : ∀ w ∈ clauseWords, ("if" == w) = false := by decide
    refine ⟨_, htext, Starts.append (by decide) _, fun rest s hs =>
      .of_next (hnext rest hs) fun _ => hclause, fun src n b m rest hn hb hrest => ?_⟩
    refine .of (hnext rest) (.congr (q := do
      return [← parseConditional src (.ofDepth n src) (.ofDepth src (.ofDepth n src) b) (4 * k)])
        (fun s hs => ?_) ?_)
    · obtain ⟨pos, s', rfl, -⟩ := hs
      simp [parseStatement]
    · exact (takes_conditional span htest hbody hne horelse src hn hb hrest).bind fun stmt' hstmt =>
        .pure (by rw [map_singleton, hstmt])
  conditional := by
    rintro _ _ _ _ ⟨⟩ k src n b m rest hn hb hrest
    exact takes_conditional _ htest hbody hne horelse src hn hb hrest

/-! ## Handlers -/

def handlerText : Handler → List Char
  | .mk _ none _ _ => []
  | .mk _ (some kind) none _ => ' ' :: (Print.expr 1 kind).toList
  | .mk _ (some kind) (some name) _ =>
    ' ' :: ((Print.expr 1 kind).toList ++ ' ' :: ("as".toList ++ ' ' :: name.toList))

def handlerLines (k : Nat) (h : Handler) : List Char :=
  (Print.indentation k).toList ++ ("except".toList ++ (handlerText h ++ (":\n".toList ++
    (Print.block (k + 1) h.body).toList)))

omit [View] in
theorem toList_handlerList (k : Nat) (hs : List Handler) :
    (Print.handlerList k hs).toList = hs.flatMap (handlerLines k) := by
  induction hs with
  | nil => rw [Print.handlerList]; rfl
  | cons h hs ih =>
    obtain ⟨span, kind, name, body⟩ := h
    rw [Print.handlerList, String.toList_append, String.toList_append, ih, flatMap_cons,
      Print.toList_line, handlerLines]
    cases kind with
    | none =>
      simp only [handlerText, Print.handlerHead, Handler.body, append_assoc]
      rfl
    | some kind =>
      cases name with
      | none =>
        simp only [handlerText, Print.handlerHead, Handler.body, String.toList_append, append_assoc]
        rfl
      | some name =>
        simp only [handlerText, Print.handlerHead, Handler.body, String.toList_append,
          append_assoc, cons_append]
        rfl

omit [View] in
theorem endsBlock_handlerLines (h : Handler) : EndsBlock (k + 1) (handlerLines k h ++ rest) := by
  rw [handlerLines, append_assoc]
  exact .line (Nat.lt_succ_self k) ((Starts.append (by decide) _).append rest)

theorem takes_handler (src : Source) {h : Handler} (hkind : ∀ e ∈ h.kind, Readable e)
    (hbody : ∀ stmt ∈ h.body, StmtReadable stmt) (hshape : h.Shape) (hn : 4 * m + 8 ≤ n)
    (hb : m < b)
    (hrest : EndsBlock (k + 1) rest) : Takes m 1 (AheadLine (handlerLines k h ++ rest))
      (parseHandler src (.ofDepth n src) (.ofDepth src (.ofDepth n src) b) (4 * k))
      (fun r => ∃ h', r = some h' ∧ h'.viewed = h.viewed) (AheadLine rest) := by
  obtain ⟨span, kind, name, body⟩ := h
  have hbounds : Bounds (handlerText (.mk span kind name body) ++
      (":\n".toList ++ ((Print.block (k + 1) body).toList ++ rest))) := by
    unfold handlerText
    split <;> · rintro _ ⟨⟩; rfl
  simp only [handlerLines, append_assoc]
  refine .skip (q := fun _ => do
      let span ← spanHere
      advance
      let kind ← if ← isAt ":" then pure none else pure (some (← (Rules.ofDepth n src).expr))
      let name ← if ← eatWord "as" then pure (some (← identifier src)) else pure none
      expect src ":"
      return some (.mk span kind name (← (Blocks.ofDepth src (.ofDepth n src) b).suite (4 * k))))
    (fun _ hs => hs.word (by decide) hbounds.word) (fun _ s hs => ?_) fun _ =>
    .keyword fun span' m' hm => ?_
  · obtain ⟨pos, s, rfl, -⟩ := hs
    simp [parseHandler]
  subst hm
  have hblock {kind' : Option Expr} {name' : Option String} (hkind : kind'.map Expr.viewed =
      kind.map Expr.viewed)
      (hname : name' = name) : Takes m' 0
      (Ahead 0 (":\n".toList ++ ((Print.block (k + 1) body).toList ++ rest))) (do
        expect src ":"
        return some (Handler.mk span' kind' name'
          (← (Blocks.ofDepth src (.ofDepth n src) b).suite (4 * k))))
        (fun r => ∃ h', r = some h' ∧ h'.viewed = (Handler.mk span kind name body).viewed)
          (AheadLine rest) :=
    .block hshape.body hbody (by omega) (by omega) hrest fun body' hbody' => .pure ⟨_, rfl, by
      simpa [hkind, hname] using hbody'⟩
  cases kind with
  | none =>
    obtain rfl : name = none := hshape.kind rfl
    refine .isAt (follow_colonLine fun _ => rfl).head
      (.val (.notEatWord (follow_colonLine fun _ => rfl).head ?_))
    exact .val (hblock rfl rfl)
  | some kind =>
    have hopens {rest : List Char} (hrest : Bounds rest) ⦃s : List Token⦄
        (hs : Ahead 0 ((Print.expr 1 kind).toList ++ rest) s) : First (·.isControl ":" = false) s :=
      ((hkind kind rfl).whole.opens hrest hs).notAt fun _ => rfl
    cases name with
    | none =>
      refine .of (fun s hs => Ahead.blank hs) (.isAt (hopens (bounds_append (by decide) _)) ?_)
      refine ((hkind kind rfl).whole.expr src (by omega) (follow_colonLine
        fun _ => Nat.zero_lt_one)).bind
        fun kind' hkind' => .val (.notEatWord (follow_colonLine fun _ => rfl).head (.val ?_))
      exact hblock (by simp [hkind']) rfl
    | some id =>
      have hid : IsName id := hshape.name id rfl
      have has {P : Token → Prop} (hP : ∀ pos, P ⟨.name, "as", pos⟩) (more : List Char) :
          Follow P 0 (' ' :: ("as".toList ++ ' ' :: more)) := follow_word (by decide) hP
      simp only [handlerText, cons_append, append_assoc]
      refine .of (fun s hs => hs.blank)
        (.isAt (hopens (has (P := fun _ => True) (fun _ => trivial) _).bounds) ?_)
      refine ((hkind kind rfl).whole.expr src (by omega) (has (fun _ => Nat.zero_lt_one) _)).bind
        fun kind' hkind' => .val (.eatWord (fun _ hs => hs.spacedWord (by decide)) ?_)
      refine .identifier (fun _ hs => hs.word hid.1 (bounds_append (by decide) _).word)
        hid.2 (.val ?_)
      exact hblock (by simp [hkind']) rfl

/-- The lines of the last block of a `try`. -/
def finalLines (k : Nat) (body : List Stmt) : List Char :=
  if body.isEmpty then []
  else (Print.indentation k).toList ++ ("finally".toList ++ (":\n".toList ++
    (Print.block (k + 1) body).toList))

omit [View] in
theorem endsBlock_finalLines (hrest : Continues k rest) :
    EndsBlock (k + 1) (finalLines k body ++ rest) := by
  unfold finalLines
  split
  · exact hrest.endsBlock
  · rw [append_assoc]
    exact .line (Nat.lt_succ_self k) ((Starts.append (by decide) _).append rest)

omit [View] in
theorem finalLines_not_except (hrest : Continues k rest)
    (hs : AheadLine (finalLines k body ++ rest) s) :
    isAtClause (4 * k) "except" s = .ok false s := by
  unfold finalLines at hs
  split at hs
  · exact hrest.isAtClause hs (by decide)
  · simp only [append_assoc] at hs
    obtain ⟨pos, _, rfl, pos', s, rfl, -⟩ := hs.word (by decide) (bounds_append (by decide) _).word
    simp

theorem takes_final (hbody : ∀ stmt ∈ body, StmtReadable stmt) (hn : 4 * m + 8 ≤ n) (hb : m < b)
    (hrest : Continues k rest)
    (hf : ∀ body', body'.map Stmt.viewed = body.map Stmt.viewed → Takes m 0
      (AheadLine rest) (f body') R (AheadLine rest)) :
      Takes m 0 (AheadLine (finalLines k body ++ rest)) (do
      let body ← if ← eatClause (4 * k) "finally" then do
        expect src ":"
        (Blocks.ofDepth src (.ofDepth n src) b).suite (4 * k)
      else pure []
      f body) R (AheadLine rest) := by
  unfold finalLines
  split
  · next hempty =>
    obtain rfl := isEmpty_iff.1 hempty
    exact .look (a := false) (fun s hs => hrest.eatClause hs (by decide)) (.val (hf [] rfl))
  · next hempty =>
    simp only [append_assoc]
    exact .eatClause (fun _ hs => hs.word (by decide) (bounds_append (by decide) _).word)
      (.block (fun h => hempty (by rw [h]; rfl)) hbody hn hb hrest.endsBlock hf)

theorem stmtReadable_tryBlock {handlers : List Handler} {finalBody : List Stmt}
    (hbody : ∀ stmt ∈ body, StmtReadable stmt) (hkinds : ∀ h ∈ handlers, ∀ e ∈ h.kind, Readable e)
    (hhandlers : ∀ h ∈ handlers, ∀ stmt ∈ h.body, StmtReadable stmt)
    (hfinal : ∀ stmt ∈ finalBody, StmtReadable stmt) (hne : body ≠ [])
    (hsome : handlers ≠ [] ∨ finalBody ≠ []) (hshape : ∀ h ∈ handlers, h.Shape) :
    StmtReadable (.tryBlock span body handlers finalBody) := by
  refine .of_keyword "try" (fun k => ":\n".toList ++ ((Print.block (k + 1) body).toList ++
      (handlers.flatMap (handlerLines k) ++ finalLines k finalBody))) (by decide)
      nofun (by rintro k rest _ ⟨⟩; rfl)
    (fun _ _ _ _ _ _ => rfl) (fun k src n b m rest span' hn hb hrest => ?_) fun k => ?_
  · simp only [append_assoc]
    have hends : EndsBlock (k + 1)
        (handlers.flatMap (handlerLines k) ++ (finalLines k finalBody ++ rest)) := by
      cases handlers with
      | nil => exact endsBlock_finalLines hrest
      | cons h hs =>
        rw [flatMap_cons, append_assoc]
        exact endsBlock_handlerLines h
    refine .block hne hbody hn hb hends fun body' hbody' => ?_
    refine (Takes.many (EndsBlock (k + 1))
      (fun h hh rest hends => takes_handler src (hkinds h hh) (hhandlers h hh) (hshape h hh)
        hn hb hends)
      (fun h _ rest => endsBlock_handlerLines h) (endsBlock_finalLines hrest)
      fun s hs => by simp [parseHandler, finalLines_not_except hrest hs]).last
        fun handlers' hhandlers' => ?_
    refine takes_final hfinal hn hb hrest fun finalBody' hfinal' => ?_
    have hsome' : ¬ (handlers'.isEmpty && finalBody'.isEmpty) = true := by
      rw [Bool.and_eq_true, List.isEmpty_iff, List.isEmpty_iff]
      rintro ⟨rfl, rfl⟩
      exact hsome.elim (fun h => h (map_eq_nil_iff.1 hhandlers'.symm))
        fun h => h (map_eq_nil_iff.1 hfinal'.symm)
    rw [if_neg hsome']
    exact .pure (by simp [hbody', hhandlers', hfinal'])
  · rw [Print.stmt, String.toList_append, String.toList_append, String.toList_append,
      Print.toList_line, toList_handlerList, finalLines]
    split
    · simp only [append_assoc]
      rfl
    · simp only [String.toList_append, Print.toList_line, append_assoc]
      rfl

end Parse

end BlockScript.Program
