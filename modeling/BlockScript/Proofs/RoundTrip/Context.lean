import BlockScript.Proofs.RoundTrip.Levels
import BlockScript.Proofs.RoundTrip.Valid

/-! Expressions and rows in their places. The printer puts an expression in parentheses where its
place asks for a tighter one; the rule of that place reads it back either way, up to a text that may
follow there. -/

namespace BlockScript.Program

open List

/-! ## Texts as rows of the texts of their parts -/

namespace Print

theorem toList_intercalate_cons (sep x : String) (xs : List String) :
    (sep.intercalate (x :: xs)).toList =
      x.toList ++ xs.flatMap fun y => sep.toList ++ y.toList := by
  rw [String.toList_intercalate]
  induction xs generalizing x with
  | nil => simp [List.intercalate]
  | cons y ys ih =>
    rw [map_cons, map_cons, intercalate_cons_cons, ← map_cons, ih y, flatMap_cons,
      append_assoc, append_assoc]

/-! ## Precedence -/

theorem precedence_bounds (e : Expr) : 1 ≤ precedence e ∧ precedence e ≤ Precedence.atom := by
  have hop (op : BinaryOp) : 1 ≤ op.precedence ∧ op.precedence ≤ Precedence.atom := by
    cases op <;> decide
  unfold precedence
  split
  all_goals first | exact hop _ | decide

theorem expr_of_le {c : Nat} {e : Expr} (h : c ≤ precedence e) : expr c e = bare e := by
  rw [expr, parenthesizeIf, if_neg (by simpa using h)]

theorem expr_of_lt {c : Nat} {e : Expr} (h : precedence e < c) :
    expr c e = "(" ++ bare e ++ ")" := by
  rw [expr, parenthesizeIf, if_pos (by simpa using h)]

theorem expr_zero (e : Expr) : expr 0 e = expr 1 e := by
  rw [expr_of_le (Nat.zero_le _), expr_of_le (precedence_bounds e).1]

theorem precedence_of_isAssignable {e : Expr} (h : e.isAssignable = true) :
    precedence e = Precedence.atom := by
  cases e <;> first | rfl | simp [Expr.isAssignable] at h

/-! ## Rows -/

theorem exprs_eq_map (es : List Expr) : exprs es = es.map (expr Precedence.ternary) := by
  induction es with
  | nil => rw [exprs, map_nil]
  | cons e es ih => rw [exprs, ih, map_cons]

def entry : Entry → String
  | .mk key value => expr Precedence.ternary key ++ ": " ++ expr Precedence.ternary value

theorem dictEntries_eq_map (entries : List Entry) : dictEntries entries = entries.map entry := by
  induction entries with
  | nil => rw [dictEntries, map_nil]
  | cons e es ih =>
    obtain ⟨key, value⟩ := e
    rw [dictEntries, ih, map_cons, entry]

def argument : Arg → String
  | .positional e => expr Precedence.ternary e
  | .starred e => "*" ++ expr Precedence.ternary e
  | .keyword name e => name ++ "=" ++ expr Precedence.ternary e
  | .doubleStarred e => "**" ++ expr Precedence.ternary e

theorem arguments_eq_map (args : List Arg) : arguments args = args.map argument := by
  induction args with
  | nil => rw [arguments, map_nil]
  | cons a as ih => cases a <;> rw [arguments, ih, map_cons, argument]

def condition (e : Expr) : String := " if " ++ expr Precedence.or e

theorem toList_conditionList (es : List Expr) :
    (conditionList es).toList = es.flatMap fun e => (condition e).toList := by
  induction es with
  | nil => rw [conditionList]; rfl
  | cons e es ih => rw [conditionList, String.toList_append, ih, flatMap_cons, condition]

def clause : Clause → String
  | .mk target source conditions =>
    " for " ++ expr 0 target ++ " in " ++ expr Precedence.or source ++ conditionList conditions

theorem toList_comprehensionClauses (clauses : List Clause) :
    (comprehensionClauses clauses).toList = clauses.flatMap fun c => (clause c).toList := by
  induction clauses with
  | nil => rw [comprehensionClauses]; rfl
  | cons c cs ih =>
    obtain ⟨target, source, conditions⟩ := c
    rw [comprehensionClauses, String.toList_append, ih, flatMap_cons, clause]

def comparison : Comparison → String
  | .mk op right => " " ++ op.symbol ++ " " ++ expr (Precedence.compare + 1) right

theorem toList_comparisons (rest : List Comparison) :
    (comparisons rest).toList = rest.flatMap fun c => (comparison c).toList := by
  induction rest with
  | nil => rw [comparisons]; rfl
  | cons c cs ih =>
    obtain ⟨op, right⟩ := c
    rw [comparisons, String.toList_append, ih, flatMap_cons, comparison]

end Print

namespace Parse

open Token

section

variable {src : Source} {n m b c d : Nat} {e : Expr} {rest text : List Char} {s : List Token}

/-! ## What may follow -/

/-- A text that ends what is before it, and starts with a token for which `P` holds. -/
structure Follow (P : Token → Prop) (d : Nat) (rest : List Char) : Prop where
  bounds : Bounds rest
  head : ∀ ⦃s⦄, Ahead d rest s → First P s

variable {P P' : Token → Prop} {g w : String}

theorem Follow.imp (h : Follow P d rest) (hP : ∀ t, P t → P' t) : Follow P' d rest :=
  ⟨h.bounds, fun _ hs => (h.head hs).imp hP⟩

theorem Follow.mono (h : Follow (binding · < b) d rest) (hbc : b ≤ c) :
    Follow (binding · < c) d rest :=
  h.imp fun _ ht => Nat.lt_of_lt_of_le ht hbc

theorem Follow.of_next {kind : Kind} {mid : List Token → Prop} (hbounds : Bounds rest)
    (h : ∀ ⦃s⦄, Ahead d rest s → Next kind g mid s) (hP : ∀ pos, P ⟨kind, g, pos⟩) :
    Follow P d rest where
  bounds := hbounds
  head _ hs := .of_next (h hs) hP

theorem follow_comma (hP : ∀ pos, P ⟨.control, ",", pos⟩) : Follow P d (", ".toList ++ rest) :=
  .of_next (bounds_append (by decide) rest) (fun _ hs => hs.comma) hP

theorem follow_colon (hP : ∀ pos, P ⟨.control, ":", pos⟩) : Follow P d (": ".toList ++ rest) :=
  .of_next (bounds_append (by decide) rest) (fun _ hs => hs.colon) hP

theorem follow_closing (hg : g ∈ [")", "]", "\x7d"]) (hP : ∀ pos, P ⟨.control, g, pos⟩) :
    Follow P (d + 1) (g.toList ++ rest) := by
  have hbounds : ∀ g ∈ [")", "]", "\x7d"], ∃ c ∈ g.toList.head?, isBoundary c = true := by decide
  exact .of_next (bounds_append (hbounds g hg) rest) (fun _ hs => hs.closing hg) hP

theorem follow_word (hw : IsWord w.toList) (hP : ∀ pos, P ⟨.name, w, pos⟩) :
    Follow P d (' ' :: (w.toList ++ ' ' :: rest)) :=
  .of_next (by rintro _ ⟨⟩; rfl) (fun _ hs => hs.spacedWord hw) hP

theorem follow_glyph (hg : IsFlat g) (hP : ∀ pos, P ⟨.control, g, pos⟩) :
    Follow P d (' ' :: (g.toList ++ ' ' :: rest)) :=
  .of_next (by rintro _ ⟨⟩; rfl) (fun _ hs => hs.spacedGlyph hg) hP

/-! ## How an expression starts -/

/-- The state starts with a token that an expression of level `c` may start with, and that is not
the name of a keyword argument unless an equals sign comes after the expression. -/
def Opens (c d : Nat) (rest : List Char) (s : List Token) : Prop :=
  ∃ t s', s = t :: s' ∧ opens c t = true ∧ (t.kind = .name →
    (∀ ⦃s⦄, Ahead d rest s → First (·.isControl "=" = false) s) →
    (s'.headD t).isControl "=" = false)

theorem Opens.mono (hbc : b ≤ c) (h : Opens c d rest s) : Opens b d rest s := by
  obtain ⟨t, s', rfl, ht, hname⟩ := h
  exact ⟨t, s', rfl, opens_mono hbc ht, hname⟩

theorem Opens.first (h : Opens c d rest s) : First (opens c · = true) s := by
  obtain ⟨t, s', rfl, ht, -⟩ := h
  exact ⟨t, s', rfl, ht⟩

theorem Opens.notAt (h : Opens c d rest s) (hg : ∀ pos, opens c ⟨.control, g, pos⟩ = false) :
    First (·.isControl g = false) s :=
  h.first.imp fun _ ht => not_isControl_of_opens ht hg

theorem Opens.notAtWord (h : Opens c d rest s) (hw : ∀ pos, opens c ⟨.name, w, pos⟩ = false) :
    First (·.isName w = false) s :=
  h.first.imp fun _ ht => not_isName_of_opens ht hw

theorem Opens.of_left {more : List Char} (h : Opens c d more s)
    (hmore : ∀ ⦃s⦄, Ahead d more s → First (·.isControl "=" = false) s) : Opens c d rest s := by
  obtain ⟨t, s', rfl, ht, hname⟩ := h
  exact ⟨t, s', rfl, ht, fun hkind _ => hname hkind hmore⟩

theorem Opens.of_next {kind : Kind} {mid : List Token → Prop} (h : Next kind g mid s)
    (hopens : ∀ pos, opens c ⟨kind, g, pos⟩ = true) (hkind : kind ≠ .name) :
    Opens c d rest s := by
  obtain ⟨pos, s', rfl, -⟩ := h
  exact ⟨_, s', rfl, hopens pos, fun h => absurd h hkind⟩

/-! ## Contexts -/

/-- Binding below this does not keep a rule of level `c` from growing. -/
def reach (c : Nat) : Nat := if loops c then c + 1 else c

/-- What may follow the text of an expression at level `c`. Only a number is not followed by a
point. -/
def EndsBefore (c : Nat) (e : Expr) (rest : List Char) : Prop :=
  Bounds rest ∨ BoundsWord rest ∧ 14 ≤ c ∧ e.isInteger = false

theorem EndsBefore.word (h : EndsBefore c e rest) : BoundsWord rest := h.elim Bounds.word And.left

variable [View]

/-- The text is that of the expression where the grammar has the level `c`. -/
structure TextAt (c : Nat) (text : List Char) (e : Expr) : Prop where
  starts : Starts text
  opens : ∀ ⦃d rest s⦄, Bounds rest → Ahead d (text ++ rest) s → Opens c d rest s
  reads : ∀ src n ⦃m d rest⦄, 4 * m + 4 ≤ n → Follow (binding · < c) d rest →
    Reads m (Ahead d (text ++ rest)) (level src n c) e d rest

/-- The text is that of the expression at level `c`, where it can grow if the rule repeats. -/
structure GrowsAt (c : Nat) (text : List Char) (e : Expr) : Prop where
  starts : Starts text
  opens : ∀ ⦃d rest s⦄, EndsBefore c e rest → Ahead d (text ++ rest) s → Opens c d rest s
  grows : ∀ src n ⦃m d rest⦄, 4 * m + 4 ≤ n → EndsBefore c e rest → Stops d (reach c) rest →
    Grows src n m (Ahead d (text ++ rest)) c e d rest

/-- The text of the expression without parentheses is read at the level of its precedence. -/
def Readable (e : Expr) : Prop := GrowsAt (Print.precedence e) (Print.bare e).toList e

/-- Expressions with the same text that look the same are both read or none is. -/
theorem Readable.of_same {e e' : Expr} (h : Readable e) (htext : Print.bare e' = Print.bare e)
    (hprec : Print.precedence e' = Print.precedence e) (hinteger : e'.isInteger = e.isInteger)
    (hview : e'.viewed = e.viewed) : Readable e' where
  starts := htext ▸ h.starts
  opens := by simpa only [htext, hprec, hinteger, EndsBefore] using h.opens
  grows := by simpa only [htext, hprec, hinteger, EndsBefore, Grows, hview] using h.grows

theorem TextAt.expr (h : TextAt 1 text e) (src : Source) (hn : 4 * m + 5 ≤ n)
    (hfollow : Follow (binding · < 1) d rest) :
    Reads m (Ahead d (text ++ rest)) (Rules.ofDepth n src).expr e d rest := by
  obtain ⟨n, rfl⟩ : ∃ k, n = k + 1 := ⟨n - 1, by omega⟩
  exact h.reads src n (by omega) hfollow

section

variable {q : Nat} (h : GrowsAt q text e) (hq : q ≤ 15)

include h hq

theorem GrowsAt.reads (hn : 4 * m + 4 ≤ n) (hends : EndsBefore q e rest) (hc : 1 ≤ c) (hcq : c ≤ q)
    (hstops : Stops d c rest) : Reads m (Ahead d (text ++ rest)) (level src n c) e d rest := by
  have hreach : q ≤ reach q := by
    unfold reach
    split <;> omega
  have hstops' := hstops.mono hcq
  exact ((h.grows src n hn hends (hstops'.mono hreach)).reads hstops').descend (by omega) hc hcq hq
    (fun _ hs => (h.opens hends hs).first) hstops

theorem GrowsAt.textAt (hc : 1 ≤ c) (hcq : c ≤ q) : TextAt c text e where
  starts := h.starts
  opens _ _ _ hbounds hs := (h.opens (.inl hbounds) hs).mono hcq
  reads _ _ _ _ _ hn hfollow := h.reads hq hn (.inl hfollow.bounds) hc hcq hfollow.head

theorem GrowsAt.down (hc : loops c = true) (hcq : c < q) : GrowsAt c text e where
  starts := h.starts
  opens _ _ _ hends hs := (h.opens (hends.imp_right fun h => ⟨h.1, by omega, h.2.2⟩) hs).mono
    (by omega)
  grows src n _ _ _ hn hends hstops := by
    rw [reach, if_pos hc] at hstops
    exact (h.reads hq hn (hends.imp_right fun h => ⟨h.1, by omega, h.2.2⟩) (Nat.le_add_left 1 c) hcq
      hstops).grows (by omega) hc

end

theorem GrowsAt.of_reads (hstarts : Starts text) (hc : loops c = false)
    (hopens : ∀ ⦃d rest s⦄, EndsBefore c e rest → Ahead d (text ++ rest) s → Opens c d rest s)
    (hreads : ∀ src n ⦃m d rest⦄, 4 * m + 4 ≤ n → EndsBefore c e rest → Stops d c rest →
      Reads m (Ahead d (text ++ rest)) (level src n c) e d rest) : GrowsAt c text e where
  starts := hstarts
  opens := hopens
  grows src n _ _ _ hn hends hstops := by
    rw [reach, hc, if_neg Bool.false_ne_true] at hstops
    exact (hreads src n hn hends hstops).grows_of_not_loops hc

theorem growsAt_bracketed {opening inner close : String} {q : Source → Rules → Span → Parsing Expr}
    (hopening : opening ∈ ["(", "[", "\x7b"]) (hrun : ∀ src rules pos s,
      parsePrimary src rules (⟨.control, opening, pos⟩ :: s) = q src rules (.ofPosition pos) s)
    (hq : ∀ src n ⦃m d rest⦄ span, 4 * m + 5 ≤ n → Takes m 0
      (Ahead (d + 1) (inner.toList ++ (close.toList ++ rest))) (q src (.ofDepth n src) span)
      (·.viewed = e.viewed) (Ahead d rest)) :
    GrowsAt 15 (opening ++ inner ++ close).toList e := by
  have hfacts : ∀ g ∈ ["(", "[", "\x7b"], Starts g.toList ∧
      ∀ pos, Parse.opens 15 ⟨.control, g, pos⟩ = true := by
    simp only [forall_mem_cons, not_mem_nil, false_imp_iff, implies_true, and_true]
    exact ⟨⟨by decide, fun _ => rfl⟩, ⟨by decide, fun _ => rfl⟩, by decide, fun _ => rfl⟩
  obtain ⟨hstarts, hopens⟩ := hfacts opening hopening
  refine .of_reads ((hstarts.text _).text _) rfl (fun d rest s _ hs =>
    .of_next (hs.bracketed hopening) hopens (by decide)) fun src n m d rest hn _ _ =>
    .next (fun _ hs => hs.bracketed hopening) (fun pos s => hrun src _ pos s) rfl ?_
  rintro pos m rfl
  exact hq src (n - 2) _ (by omega)

theorem Readable.parenthesized (h : Readable e) :
    GrowsAt 15 ("(" ++ Print.bare e ++ ")").toList e := by
  have hprec := Print.precedence_bounds e
  have hinner := h.textAt (Nat.le_succ_of_le hprec.2) (Nat.le_refl 1) hprec.1
  refine growsAt_bracketed (q := parseParenthesized) (by decide)
    (fun _ _ _ _ => by simp [parsePrimary])
    fun src n m d rest span hn => ?_
  have hclosing {P : Token → Prop} (hP : ∀ pos, P ⟨.control, ")", pos⟩) :
      Follow P (d + 1) (")".toList ++ rest) :=
    follow_closing (by decide) hP
  refine .notEat (fun _ hs => (hinner.opens (bounds_append (by decide) rest) hs).notAt fun _ => rfl)
    ?_
  refine (hinner.expr src hn (hclosing fun _ => Nat.zero_lt_one)).bind fun e' he' => ?_
  refine .isAtWord (hclosing fun _ => rfl).head (.isAt (hclosing fun _ => rfl).head ?_)
  exact .val (.expect (fun _ hs => hs.closing (by decide)) (.pure he'))

theorem Readable.at (h : Readable e) (c : Nat) (hc : 1 ≤ c ∧ c ≤ 14) :
    TextAt c (Print.expr c e).toList e := by
  by_cases hprec : c ≤ Print.precedence e
  · rw [Print.expr_of_le hprec]
    exact h.textAt (Nat.le_succ_of_le (Print.precedence_bounds e).2) hc.1 hprec
  · rw [Print.expr_of_lt (Nat.lt_of_not_le hprec)]
    exact h.parenthesized.textAt (Nat.le_refl 15) hc.1 (Nat.le_succ_of_le hc.2)

theorem Readable.whole (h : Readable e) : TextAt 1 (Print.expr 1 e).toList e := h.at 1 (by decide)

/-- The left operand of a rule that repeats is read, and the rule looks for more. -/
theorem Readable.left (h : Readable e) (hc : loops c = true) :
    GrowsAt c (Print.expr c e).toList e := by
  rcases Nat.lt_trichotomy c (Print.precedence e) with hprec | rfl | hprec
  · rw [Print.expr_of_le (Nat.le_of_lt hprec)]
    exact h.down (Nat.le_succ_of_le (Print.precedence_bounds e).2) hc hprec
  · rw [Print.expr_of_le (Nat.le_refl _)]
    exact h
  · have hcases := loops_cases hc
    rw [Print.expr_of_lt hprec]
    exact h.parenthesized.down (Nat.le_refl 15) hc (by omega)

theorem Readable.of_primary (hprec : Print.precedence e = 14)
    (h : GrowsAt 15 (Print.bare e).toList e) : Readable e := by
  rw [Readable, hprec]
  exact h.down (Nat.le_refl 15) rfl (by decide)

/-- An expression that a rule makes of its left operand and the text after it. -/
theorem Readable.of_left {left : Expr} {more : String} (c : Nat) (hc : loops c = true)
    (hprec : Print.precedence e = c) (hleft : Readable left)
    (htext : Print.bare e = Print.expr c left ++ more)
    (hends : ∀ rest, EndsBefore c left (more.toList ++ rest))
    (hhead : ∀ d rest ⦃s⦄, Ahead d (more.toList ++ rest) s →
      First (fun t => binding t < c + 1 ∧ t.isControl "=" = false) s)
    (hstep : ∀ src n ⦃m d rest⦄ left', 4 * m + 4 ≤ n → EndsBefore c e rest → Stops d (c + 1) rest →
      left'.viewed = left.viewed → Takes m 1 (Ahead d (more.toList ++ rest)) (step src n c left')
        (fun r => ∃ e', r = some e' ∧ e'.viewed = e.viewed) (Ahead d rest)) : Readable e := by
  have hgrows := hleft.left hc
  rw [Readable, hprec, htext, String.toList_append]
  refine ⟨hgrows.starts.append _, fun d rest s hrest hs => ?_,
    fun src n m d rest hn hrest hstops => ?_⟩
  · rw [append_assoc] at hs
    exact (hgrows.opens (hends rest) hs).of_left fun _ hs =>
      (hhead d rest hs).imp fun _ => And.right
  · rw [append_assoc]
    rw [reach, if_pos hc] at hstops
    refine (hgrows.grows src n hn (hends rest) ?_).step fun left' =>
      hstep src n left' hn hrest hstops
    rw [reach, if_pos hc]
    exact fun _ hs => (hhead d rest hs).imp fun _ => And.left

end

/-! ## Rows of items with commas between them -/

variable {α β γ : Type} {m d : Nat} {rest : List Char} {P : Token → Prop} {close : String}
  {gs : List String} {t : Token}

def rowTail (text : α → List Char) (as : List α) : List Char :=
  as.flatMap fun a => ", ".toList ++ text a

theorem toList_row (f : α → String) (a : α) (as : List α) :
    (", ".intercalate ((a :: as).map f)).toList =
      (f a).toList ++ rowTail (fun a => (f a).toList) as := by
  rw [map_cons, Print.toList_intercalate_cons, flatMap_map, rowTail]

section

variable {ends : Parsing Bool} {item : Parsing β} {text : α → List Char} {f : β → γ} {g : α → γ}
  {as : List α}

theorem Takes.moreItems (follow : List Char → Prop)
    (hitem : ∀ a ∈ as, ∀ rest, follow rest → (∀ ⦃s⦄, Ahead d (text a ++ rest) s →
      ends s = .ok false s) ∧ Takes m 1 (Ahead d (text a ++ rest)) item (f · = g a) (Ahead d rest))
    (hcomma : ∀ rest, follow (", ".toList ++ rest)) (hrest : follow rest)
    (hstop : ∀ ⦃s⦄, Ahead d rest s → First (·.isControl "," = false) s) :
    Takes m 0 (Ahead d (rowTail text as ++ rest)) (moreItems ends item) (·.map f = as.map g)
      (Ahead d rest) := by
  refine .many follow (fun a ha rest hfollow => ?_) (fun a _ rest =>
    append_assoc .. ▸ hcomma _) hrest
    fun s hs => ?_
  · rw [append_assoc]
    obtain ⟨hends, hitem⟩ := hitem a ha rest hfollow
    exact .eat (fun _ hs => hs.comma) (.look hends (hitem.bind fun b hb => .pure ⟨b, rfl, hb⟩))
  · obtain ⟨t, s', rfl, ht⟩ := hstop hs
    simp [ht]

end

/-! ## Rows in brackets -/

def EndsIn (gs : List String) (t : Token) : Prop := binding t < 1 ∧ t.isControlIn gs = true

theorem EndsIn.not {g : String} (h : EndsIn gs t) (hg : g ∉ gs) : t.isControl g = false :=
  not_is_of (P := (·.isControlIn gs = true)) h.2 fun _ => by simpa [isControlIn] using hg

theorem EndsIn.mono {gs' : List String} (h : EndsIn gs t) (hgs : gs ⊆ gs') : EndsIn gs' t := by
  refine ⟨h.1, ?_⟩
  have := h.2
  simp only [isControlIn, Bool.and_eq_true, contains_iff_mem] at this ⊢
  exact ⟨this.1, hgs this.2⟩

theorem EndsIn.notName {w : String} (h : EndsIn gs t) : t.isName w = false :=
  not_is_of (P := (·.isControlIn gs = true)) h.2 fun _ => by simp [isControlIn]

structure EndsItem (close : String) (d : Nat) (rest : List Char) : Prop extends
    Follow (EndsIn [",", close]) (d + 1) rest where
  starts : Starts rest

theorem endsItem_comma : EndsItem close d (", ".toList ++ rest) where
  toFollow := follow_comma fun _ => ⟨Nat.zero_lt_one, by simp [isControlIn]⟩
  starts := .append (by decide) rest

theorem endsItem_closing (hclose : close ∈ [")", "]", "\x7d"]) :
    EndsItem close d (close.toList ++ rest) := by
  refine ⟨follow_closing hclose fun pos => ⟨?_, by simp [isControlIn]⟩, ?_⟩
  all_goals
    simp only [mem_cons, not_mem_nil, or_false] at hclose
    rcases hclose with rfl | rfl | rfl
  all_goals first | exact Nat.zero_lt_one | exact .append (by decide) rest

theorem endsItem_rowTail (hclose : close ∈ [")", "]", "\x7d"]) (text : α → List Char)
    (as : List α) : EndsItem close d (rowTail text as ++ (close.toList ++ rest)) := by
  cases as with
  | nil => exact endsItem_closing hclose
  | cons a as =>
    rw [rowTail, flatMap_cons, append_assoc, append_assoc]
    exact endsItem_comma

/-- The item is read between brackets, where it is not taken for the end. -/
def TakesItem (m d : Nat) (close : String) (text : List Char) (item : Parsing β) (Q : β → Prop) :
    Prop :=
  ∀ rest, EndsItem close d rest →
    (∀ ⦃s⦄, Ahead (d + 1) (text ++ rest) s → First (·.isControl close = false) s) ∧
    Takes m (Fin.last 1) (Ahead (d + 1) (text ++ rest)) item Q (Ahead (d + 1) rest)

section

variable {item : Parsing β} {text : α → String} {f : β → γ} {g : α → γ} {as : List α}

theorem TakesItem.more (hclose : close ∈ [")", "]", "\x7d"])
    (h : ∀ a ∈ as, TakesItem m d close (text a).toList item (f · = g a)) :
    Takes m 0 (Ahead (d + 1) (rowTail (fun a => (text a).toList) as ++ (close.toList ++ rest)))
      (moreItems (isAt close) item) (·.map f = as.map g)
        (Ahead (d + 1) (close.toList ++ rest)) := by
  refine .moreItems (EndsItem close d) (fun a ha rest hends =>
    ⟨fun s hs => ?_, (h a ha rest hends).2⟩)
    (fun _ => endsItem_comma) (endsItem_closing hclose) (follow_closing hclose fun pos => ?_).head
  · obtain ⟨t, s', rfl, ht⟩ := (h a ha rest hends).1 hs
    rw [run_isAt, ht]
  · rw [isControl_control, beq_eq_false_iff_ne]
    rintro rfl
    simp at hclose

theorem TakesItem.items (hclose : close ∈ [")", "]", "\x7d"])
    (h : ∀ a ∈ as, TakesItem m d close (text a).toList item (f · = g a)) :
    Takes m 0 (Ahead (d + 1) ((", ".intercalate (as.map text)).toList ++ (close.toList ++ rest)))
      (items close item) (·.map f = as.map g) (Ahead (d + 1) (close.toList ++ rest)) := by
  cases as with
  | nil =>
    refine .look (a := true) (fun s hs => ?_) (.pure rfl)
    obtain ⟨pos, s', rfl, -⟩ := Ahead.closing (g := close) hs hclose
    simp
  | cons a as =>
    rw [toList_row, append_assoc]
    obtain ⟨hnot, hfirst⟩ := h a mem_cons_self _ (endsItem_rowTail hclose _ as)
    refine .isAt hnot (hfirst.bind fun b hb => ?_)
    exact (TakesItem.more hclose fun a ha => h a (mem_cons_of_mem _ ha)).last fun bs hbs =>
      .pure (by simp [hb, hbs])

end

theorem TextAt.item [View] {text : List Char} {e : Expr} (h : TextAt 1 text e)
    (src : Source) {n : Nat}
    (hn : 4 * m + 5 ≤ n) (close : String)
    (hclose : ∀ pos, Parse.opens 1 ⟨.control, close, pos⟩ = false) :
    TakesItem m d close text (Rules.ofDepth n src).expr (·.viewed = e.viewed) :=
  fun _ hends => ⟨fun _ hs => (h.opens hends.bounds hs).notAt hclose,
    h.expr src hn (hends.imp fun _ => And.left)⟩

end Parse

end BlockScript.Program
