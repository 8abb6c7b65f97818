import BlockScript.Proofs.RoundTrip.Takes
import BlockScript.Proofs.RoundTrip.View

/-! The levels of the expression grammar. The rule of level `c` reads what binds at least as tightly
as `c`: it starts with the rule of the next level and goes on as long as the next token binds at
level `c`. So an expression that is read at a tight level is read at the looser ones as well, up to
a token that does not bind it. -/

namespace BlockScript.Program.Parse

open Token List

/-- How tightly a token binds the expression before it; zero if it ends the expression. -/
def binding (t : Token) : Nat :=
  match t.kind with
  | .control =>
    if ["(", "[", "."].contains t.text then Precedence.atom
    else
      match BinaryOp.all.find? fun op => op.symbol == t.text with
      | some op => op.precedence
      | none =>
        if ["==", "!=", "<", "<=", ">", ">="].contains t.text then Precedence.compare else 0
  | .name =>
    if ["in", "not", "is"].contains t.text then Precedence.compare
    else if t.text = "and" then Precedence.and
    else if t.text = "or" then Precedence.or
    else if t.text = "if" then Precedence.ternary
    else 0
  | .literal => Precedence.atom + 1
  | _ => 0

/-- Whether an expression of level `c` may start with the token. -/
def opens (c : Nat) (t : Token) : Bool :=
  match t.kind with
  | .literal => true
  | .name =>
    !isKeyword t.text || ["None", "True", "False"].contains t.text ||
    (c ≤ Precedence.not && t.text == "not")
  | .control =>
    ["(", "[", "\x7b"].contains t.text || (c ≤ Precedence.unary && ["-", "+", "~"].contains t.text)
  | _ => false

theorem opens_mono {b c : Nat} {t : Token} (hbc : b ≤ c) (h : opens c t = true) :
    opens b t = true := by
  obtain ⟨kind, text, pos⟩ := t
  cases kind with
  | name | control =>
    simp only [opens, Bool.or_eq_true, Bool.and_eq_true, decide_eq_true_eq] at h ⊢
    exact h.imp_right fun h => ⟨Nat.le_trans hbc h.1, h.2⟩
  | _ => exact h

/-- The levels whose rules repeat: operators that group to the left, and attributes, calls and
subscripts. -/
def loops (c : Nat) : Bool :=
  c == Precedence.or || c == Precedence.and || (6 ≤ c && c ≤ 11) || c == Precedence.atom

/-- The rule of level `c` with the bound `n` on recursion; level fifteen is that of a primary. -/
def level (src : Source) (n : Nat) : Nat → Parsing Expr
  | 0 | 1 => parseExpr src (.ofDepth n src)
  | 2 => parseDisjunction (.ofDepth n src)
  | 3 => parseLogical "and" .and (Rules.ofDepth n src).negation
  | 4 => parseNegation (.ofDepth (n - 1) src)
  | 5 => parseComparison (.ofDepth (n - 1) src)
  | 13 => parsePower src (.ofDepth (n - 2) src)
  | 14 => do
    grow (parseTrailer src (.ofDepth (n - 2) src)) (← parsePrimary src (.ofDepth (n - 2) src))
  | 15 => parsePrimary src (.ofDepth (n - 2) src)
  | c => parseBinary (.ofDepth (n - 1) src) (List.range' c (12 - c))

/-- One repetition of the rule of level `c` after the expression so far. -/
def step (src : Source) (n : Nat) : Nat → Expr → Parsing (Option Expr)
  | 2, left => do
    if ← eatWord "or" then return some (.logical left.span .or left (← level src n 3))
    else return none
  | 3, left => do
    if ← eatWord "and" then return some (.logical left.span .and left (← level src n 4))
    else return none
  | 14, e => parseTrailer src (.ofDepth (n - 2) src) e
  | c, left =>
    if loops c then do
      match binaryOp? c (← peek) with
      | some op =>
        advance
        let right ← level src n (c + 1)
        return some (.binary left.span op left right)
      | none => return none
    else return none

variable {src : Source} {n c d : Nat} {e : Expr} {rest : List Char} {s s' : List Token} {t : Token}

theorem loops_cases (h : loops c = true) : c = 2 ∨ c = 3 ∨ (6 ≤ c ∧ c ≤ 11) ∨ c = 14 := by
  simp only [loops, Precedence.or, Precedence.and, Precedence.atom, Bool.or_eq_true,
    Bool.and_eq_true, beq_iff_eq, decide_eq_true_eq] at h
  omega

theorem level_eq_bind (hn : 2 ≤ n) (h : loops c = true) :
    level src n c = (level src n (c + 1) >>= grow (step src n c)) := by
  obtain ⟨m, rfl⟩ : ∃ m, n = m + 2 := ⟨n - 2, by omega⟩
  rcases loops_cases h with rfl | rfl | ⟨h1, h2⟩ | rfl
  · rfl
  · rfl
  · obtain rfl | rfl | rfl | rfl | rfl | rfl : c = 6 ∨ c = 7 ∨ c = 8 ∨ c = 9 ∨ c = 10 ∨
      c = 11 := by omega
    all_goals rfl
  · rfl

variable {glyph word : String} {rules : Rules}

theorem not_is_of {kind : Kind} {text : String} {P : Token → Prop} (h : P t)
    (hP : ∀ pos, ¬P ⟨kind, text, pos⟩) : (t.kind == kind && t.text == text) = false := by
  refine Bool.eq_false_iff.2 fun heq => hP t.pos ?_
  rw [Bool.and_eq_true, beq_iff_eq, beq_iff_eq] at heq
  rwa [← heq.1, ← heq.2]

theorem binding_symbol (op : BinaryOp) (pos : Position) :
    binding ⟨.control, op.symbol, pos⟩ = op.precedence := by
  cases op <;> rfl

theorem not_isControl_of_binding (h : binding t < c)
    (hc : ∀ pos, c ≤ binding ⟨.control, glyph, pos⟩) : t.isControl glyph = false :=
  not_is_of (P := (binding · < c)) h fun pos => Nat.not_lt.2 (hc pos)

theorem not_isName_of_binding (h : binding t < c) (hc : ∀ pos, c ≤ binding ⟨.name, word, pos⟩) :
    t.isName word = false :=
  not_is_of (P := (binding · < c)) h fun pos => Nat.not_lt.2 (hc pos)

theorem binaryOp?_eq_none (h : binding t < c) : binaryOp? c t = none := by
  rw [binaryOp?, find?_eq_none]
  intro op _ hop
  simp only [Bool.and_eq_true, beq_iff_eq] at hop
  have := not_isControl_of_binding h fun pos => Nat.le_of_eq (by rw [binding_symbol, hop.1])
  simp [this] at hop

theorem parseTrailer_stops (h : binding t < 14) :
    parseTrailer src rules e (t :: s) = .ok none (t :: s) := by
  have hpoint : t.isControl "." = false := not_isControl_of_binding h fun _ => Nat.le_refl 14
  have hparen : t.isControl "(" = false := not_isControl_of_binding h fun _ => Nat.le_refl 14
  have hbracket : t.isControl "[" = false := not_isControl_of_binding h fun _ => Nat.le_refl 14
  simp [parseTrailer, hpoint, hparen, hbracket]

/-- A rule goes on with the tokens that bind at its level only. -/
theorem step_stops (h : binding t < c) : step src n c e (t :: s) = .ok none (t :: s) := by
  unfold step
  split
  · have hor : t.isName "or" = false := not_isName_of_binding h fun _ => Nat.le_refl 2
    simp [hor]
  · have hand : t.isName "and" = false := not_isName_of_binding h fun _ => Nat.le_refl 3
    simp [hand]
  · exact parseTrailer_stops h
  · split
    · simp [binaryOp?_eq_none h]
    · rfl

/-! ### The rules that do not repeat -/

theorem not_isName_of_opens (h : opens c t = true)
    (hc : ∀ pos, opens c ⟨.name, word, pos⟩ = false) : t.isName word = false :=
  not_is_of (P := (opens c · = true)) h fun pos => Bool.eq_false_iff.1 (hc pos)

theorem not_isControl_of_opens (h : opens c t = true)
    (hc : ∀ pos, opens c ⟨.control, glyph, pos⟩ = false) : t.isControl glyph = false :=
  not_is_of (P := (opens c · = true)) h fun pos => Bool.eq_false_iff.1 (hc pos)

theorem parseExpr_of_disjunction (h : parseDisjunction rules s = .ok e (t :: s'))
    (ht : binding t < 1) : parseExpr src rules s = .ok e (t :: s') := by
  have hif : t.isName "if" = false := not_isName_of_binding ht fun _ => Nat.le_refl 1
  simp [parseExpr, h, hif]

theorem parseNegation_of_comparison (ht : opens 5 t = true) :
    parseNegation rules (t :: s) = parseComparison rules (t :: s) := by
  have hnot : t.isName "not" = false := not_isName_of_opens ht fun _ => rfl
  simp [parseNegation, hnot]

theorem parseComparisonOp_stops (h : binding t < 5) :
    parseComparisonOp (t :: s) = .ok none (t :: s) := by
  have hin : t.isName "in" = false := not_isName_of_binding h fun _ => Nat.le_refl 5
  have hnot : t.isName "not" = false := not_isName_of_binding h fun _ => Nat.le_refl 5
  have his : t.isName "is" = false := not_isName_of_binding h fun _ => Nat.le_refl 5
  have hfind (hkind : t.kind = .control) :
      [CompareOp.eq, .notEq, .lt, .ltEq, .gt, .gtEq].find? (·.symbol == t.text) = none := by
    rw [find?_eq_none]
    intro op hop hsymbol
    have hbinding (pos : Position) : 5 ≤ binding ⟨.control, op.symbol, pos⟩ := by
      simp only [mem_cons, not_mem_nil, or_false] at hop
      rcases hop with rfl | rfl | rfl | rfl | rfl | rfl <;> exact Nat.le_refl 5
    have := not_isControl_of_binding h hbinding
    simp [Token.isControl, hkind, beq_iff_eq.1 hsymbol] at this
  by_cases hkind : t.kind = .control
  · simp [parseComparisonOp, hkind, hfind]
  · simp [parseComparisonOp, hkind, hin, hnot, his]

theorem parseComparison_of_operand (h : parseOperand rules s = .ok e (t :: s'))
    (ht : binding t < 5) : parseComparison rules s = .ok e (t :: s') := by
  simp [parseComparison, h, run_many, manyTo, parseComparisonOp_stops ht, run_pure]

theorem parseUnary_of_power (ht : opens 13 t = true) :
    parseUnary src rules (t :: s) = parsePower src rules (t :: s) := by
  have hminus : t.isControl "-" = false := not_isControl_of_opens ht fun _ => rfl
  have hplus : t.isControl "+" = false := not_isControl_of_opens ht fun _ => rfl
  have htilde : t.isControl "~" = false := not_isControl_of_opens ht fun _ => rfl
  simp [parseUnary, hminus, hplus, htilde]

theorem parsePower_eq (src : Source) (n : Nat) : parsePower src (.ofDepth (n - 2) src) = (do
        let base ← level src n 14
        if ← eat "**" then return .binary base.span .pow base (← (Rules.ofDepth (n - 2) src).unary)
        return base) := by
  simp [parsePower, level]

theorem parsePower_of_trailers (h : level src n 14 s = .ok e (t :: s')) (ht : binding t < 13) :
    parsePower src (.ofDepth (n - 2) src) s = .ok e (t :: s') := by
  have hpower : t.isControl "**" = false := not_isControl_of_binding ht fun _ => Nat.le_refl 13
  simp [parsePower_eq, h, hpower]

/-! ## Reading at a level -/

/-- The text after an expression starts with a token that binds looser than `c`. -/
def Stops (d c : Nat) (rest : List Char) : Prop := ∀ ⦃s⦄, Ahead d rest s → First (binding · < c) s

theorem Stops.mono {b c : Nat} (h : Stops d b rest) (hbc : b ≤ c) : Stops d c rest :=
  fun _ hs => (h hs).imp fun _ ht => Nat.lt_of_lt_of_le ht hbc

variable [View] {m : Nat} {pre : List Token → Prop}

/-- The parser `p` reads the expression and leaves the text `rest`. -/
def Reads (m : Nat) (pre : List Token → Prop) (p : Parsing Expr) (e : Expr) (d : Nat)
    (rest : List Char) : Prop :=
  Takes m 1 pre p (·.viewed = e.viewed) (Ahead d rest)

/-- The rule of level `c` reads the expression; then it looks at the text `rest` for more. -/
def Grows (src : Source) (n m : Nat) (pre : List Token → Prop) (c : Nat) (e : Expr) (d : Nat)
    (rest : List Char) : Prop :=
  ∀ ⦃s⦄, pre s → load s ≤ m → ∃ e' s' k, level src n c s = growTo (step src n c) k e' s' ∧
    e'.viewed = e.viewed ∧ Ahead d rest s' ∧ load s' < load s ∧ s'.length < s.length ∧ s'.length < k

theorem Grows.reads (h : Grows src n m pre c e d rest) (hstop : Stops d c rest) :
    Reads m pre (level src n c) e d rest := by
  intro s hs hm
  obtain ⟨e', s', k, hrun, he, hrest, hload, hlen, hk⟩ := h hs hm
  obtain ⟨k, rfl⟩ : ∃ m, k = m + 1 := ⟨k - 1, by omega⟩
  obtain ⟨t, s', rfl, ht⟩ := hstop hrest
  exact ⟨e', t :: s', by rw [hrun, growTo_none (step_stops ht)], he, hrest, hload, hlen⟩

theorem Reads.grows (hn : 2 ≤ n) (hc : loops c = true)
    (h : Reads m pre (level src n (c + 1)) e d rest) : Grows src n m pre c e d rest := by
  intro s hs hm
  obtain ⟨e', s', hrun, he, hrest, hload, hlen⟩ := h hs hm
  refine ⟨e', s', s'.length + 1, ?_, he, hrest, hload, hlen, Nat.lt_succ_self _⟩
  rw [level_eq_bind hn hc, run_bind, hrun]
  rfl

theorem Reads.grows_of_not_loops (hc : loops c = false) (h : Reads m pre (level src n c) e d rest) :
    Grows src n m pre c e d rest := by
  intro s hs hm
  obtain ⟨e', s', hrun, he, hrest, hload, hlen⟩ := h hs hm
  refine ⟨e', s', s'.length + 1, ?_, he, hrest, hload, hlen, Nat.lt_succ_self _⟩
  have hnone : step src n c e' s' = .ok none s' := by
    unfold step
    split
    · exact absurd hc (by decide)
    · exact absurd hc (by decide)
    · exact absurd hc (by decide)
    · rw [hc, if_neg Bool.false_ne_true]
      rfl
  rw [hrun, growTo_none hnone]

theorem Grows.step {left : Expr} {more : List Char} (h : Grows src n m pre c left d more)
    (hstep : ∀ left', left'.viewed = left.viewed →
    Takes m 1 (Ahead d more) (Parse.step src n c left')
      (fun r => ∃ e', r = some e' ∧ e'.viewed = e.viewed) (Ahead d rest)) :
      Grows src n m pre c e d rest := by
  intro s hs hm
  obtain ⟨left', s1, k, hrun, hleft, hs1, hload1, hlen1, hk⟩ := h hs hm
  obtain ⟨_, s2, hmore, ⟨e', rfl, he⟩, hs2, hload2, hlen2⟩ := hstep left' hleft hs1 (by omega)
  obtain ⟨k, rfl⟩ : ∃ m, k = m + 1 := ⟨k - 1, by omega⟩
  exact ⟨e', s2, k, by rw [hrun, growTo_some hmore], he, hs2, by omega, by omega, by omega⟩

/-- The rules that do not repeat: what is read at the next level is read at such a level. -/
theorem Reads.of_not_loops (hn : 2 ≤ n) (hc : c ∈ [1, 4, 5, 12, 13])
    (hopen : ∀ ⦃s⦄, pre s → First (opens (c + 1) · = true) s) (hstop : Stops d c rest)
    (h : Reads m pre (level src n (c + 1)) e d rest) : Reads m pre (level src n c) e d rest := by
  intro s hs hm
  obtain ⟨k, rfl⟩ : ∃ k, n = k + 2 := ⟨n - 2, by omega⟩
  obtain ⟨e', s', hrun, he, hrest, hload, hlen⟩ := h hs hm
  obtain ⟨t, s', rfl, ht⟩ := hstop hrest
  obtain ⟨t0, s0, rfl, hopen⟩ := hopen hs
  refine ⟨e', t :: s', ?_, he, hrest, hload, hlen⟩
  simp only [mem_cons, not_mem_nil, or_false] at hc
  rcases hc with rfl | rfl | rfl | rfl | rfl
  · exact parseExpr_of_disjunction hrun ht
  · exact (parseNegation_of_comparison hopen).trans hrun
  · exact parseComparison_of_operand hrun ht
  · exact (parseUnary_of_power hopen).trans hrun
  · exact parsePower_of_trailers hrun ht

/-- What is read at a level is read at every looser one that the next token leaves alone. -/
theorem Reads.descend {q : Nat} (hn : 2 ≤ n) (hc : 1 ≤ c) (hcq : c ≤ q) (hq : q ≤ 15)
    (hopen : ∀ ⦃s⦄, pre s → First (opens q · = true) s) (hstop : Stops d c rest)
    (h : Reads m pre (level src n q) e d rest) : Reads m pre (level src n c) e d rest := by
  induction q with
  | zero => omega
  | succ b ih =>
    by_cases hb : c = b + 1
    · exact hb ▸ h
    have hstop' : Stops d b rest := hstop.mono (by omega)
    have hread : Reads m pre (level src n b) e d rest := by
      cases hloop : loops b with
      | true => exact (h.grows hn hloop).reads hstop'
      | false =>
        refine h.of_not_loops hn ?_ hopen hstop'
        simp only [loops, Precedence.or, Precedence.and, Precedence.atom, Bool.or_eq_false_iff,
          Bool.and_eq_false_iff, beq_eq_false_iff_ne, decide_eq_false_iff_not] at hloop
        simp only [mem_cons, not_mem_nil, or_false]
        omega
    exact ih (by omega) (by omega) (fun _ hs => (hopen hs).imp fun _ =>
      opens_mono (Nat.le_succ b)) hread

end BlockScript.Program.Parse
