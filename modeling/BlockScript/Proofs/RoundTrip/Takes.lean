import BlockScript.Program.Parse.Stmt
import BlockScript.Proofs.RoundTrip.Ahead

/-! Reading a text step by step. A step succeeds on every state that has the text ahead of it, and
takes tokens off the state; steps are put together by rules that follow the parser. -/

namespace BlockScript.Program.Parse

open List

variable {α β : Type} {t : Token} {s s' : List Token} {a : α} {n : Nat} {p : α → Parsing (Option α)}

/-! ## Tokens that are known -/

@[simp] theorem isControl_control (g glyph : String) (pos : Position) :
    Token.isControl ⟨.control, g, pos⟩ glyph = (g == glyph) := rfl

@[simp] theorem isControl_name (w glyph : String) (pos : Position) :
    Token.isControl ⟨.name, w, pos⟩ glyph = false := rfl

@[simp] theorem isControl_literal (text glyph : String) (pos : Position) :
    Token.isControl ⟨.literal, text, pos⟩ glyph = false := rfl

@[simp] theorem isName_name (w word : String) (pos : Position) :
    Token.isName ⟨.name, w, pos⟩ word = (w == word) := rfl

@[simp] theorem isName_control (g word : String) (pos : Position) :
    Token.isName ⟨.control, g, pos⟩ word = false := rfl

@[simp] theorem isName_literal (text word : String) (pos : Position) :
    Token.isName ⟨.literal, text, pos⟩ word = false := rfl

@[simp] theorem isEof_mk (kind : Token.Kind) (text : String) (pos : Position) :
    Token.isEof ⟨kind, text, pos⟩ = (kind == .eof) := rfl

theorem isControlIn_eq_any (t : Token) (glyphs : List String) :
    t.isControlIn glyphs = glyphs.any (t.isControl ·) := by
  rw [Token.isControlIn, contains_eq_any_beq]
  cases hkind : t.kind == .control <;> simp [Token.isControl, hkind]

/-! ## Steps -/

@[simp] theorem run_bind (p : Parsing α) (f : α → Parsing β) (s : List Token) :
    (p >>= f) s = match p s with
      | .ok a s' => f a s'
      | .error e s' => .error e s' := by
  simp only [bind, EStateM.bind]
  cases p s <;> rfl

@[simp] theorem run_map (f : α → β) (p : Parsing α) (s : List Token) : (f <$> p) s = match p s with
      | .ok a s' => .ok (f a) s'
      | .error e s' => .error e s' := by
  simp only [Functor.map, EStateM.map]
  cases p s <;> rfl

@[simp] theorem run_pure (a : α) (s : List Token) : (pure a : Parsing α) s = .ok a s := rfl

@[simp] theorem run_peek : peek (t :: s) = .ok t (t :: s) := rfl

@[simp] theorem run_peekNext : peekNext (t :: s) = .ok (s.headD t) (t :: s) := by
  cases s <;> rfl

@[simp] theorem run_spanHere : spanHere (t :: s) = .ok (.ofPosition t.pos) (t :: s) := rfl

@[simp] theorem run_isAt (glyph : String) :
    isAt glyph (t :: s) = .ok (t.isControl glyph) (t :: s) := rfl

@[simp] theorem run_isAtWord (word : String) :
    isAtWord word (t :: s) = .ok (t.isName word) (t :: s) := rfl

@[simp] theorem run_advance : advance (t :: s) = .ok () (if t.isEof then t :: s else s) := rfl

theorem isEof_of_isControl {glyph : String} (h : t.isControl glyph = true) : t.isEof = false := by
  simp only [Token.isControl, Bool.and_eq_true, beq_iff_eq] at h
  simp [Token.isEof, h.1]

theorem isEof_of_isName {word : String} (h : t.isName word = true) : t.isEof = false := by
  simp only [Token.isName, Bool.and_eq_true, beq_iff_eq] at h
  simp [Token.isEof, h.1]

@[simp] theorem run_eat (glyph : String) :
    eat glyph (t :: s) = if t.isControl glyph then .ok true s else .ok false (t :: s) := by
  by_cases h : t.isControl glyph = true
  · simp [eat, run_bind, run_map, run_isAt, h, run_advance, isEof_of_isControl h]
  · simp [eat, run_bind, run_isAt, h, run_pure]

@[simp] theorem run_eatWord (word : String) :
    eatWord word (t :: s) = if t.isName word then .ok true s else .ok false (t :: s) := by
  by_cases h : t.isName word = true
  · simp [eatWord, run_bind, run_map, run_isAtWord, h, run_advance, isEof_of_isName h]
  · simp [eatWord, run_bind, run_isAtWord, h, run_pure]

@[simp] theorem run_expect (src : Source) (glyph : String) (pos : Position) :
    expect src glyph (⟨.control, glyph, pos⟩ :: s) = .ok () s := by
  simp [expect, run_bind, run_peek, run_advance, Token.isControl, Token.isEof]

@[simp] theorem run_expectWord (src : Source) (word : String) (pos : Position) :
    expectWord src word (⟨.name, word, pos⟩ :: s) = .ok () s := by
  simp [expectWord, run_bind, run_peek, run_advance, Token.isName, Token.isEof]

theorem run_identifier {src : Source} {id : String} {pos : Position} (h : isKeyword id = false) :
    identifier src (⟨.name, id, pos⟩ :: s) = .ok id s := by
  simp [identifier, run_bind, run_map, run_peek, h, run_advance, Token.isEof]

@[simp] theorem run_skipKinds (kinds : List Token.Kind) (s : List Token) :
    skipKinds kinds s = .ok () (s.dropWhile fun t => kinds.contains t.kind) := rfl

@[simp] theorem ofDepth_expr (n : Nat) (src : Source) :
    (Rules.ofDepth (n + 1) src).expr = parseExpr src (.ofDepth n src) := rfl

@[simp] theorem ofDepth_negation (n : Nat) (src : Source) :
    (Rules.ofDepth (n + 1) src).negation = parseNegation (.ofDepth n src) := rfl

@[simp] theorem ofDepth_unary (n : Nat) (src : Source) :
    (Rules.ofDepth (n + 1) src).unary = parseUnary src (.ofDepth n src) := rfl

/-! ## Repetition -/

theorem run_many (p : Parsing (Option α)) (s : List Token) : many p s = manyTo p (s.length + 1) s :=
  rfl

theorem run_grow (p : α → Parsing (Option α)) (a : α) (s : List Token) :
    grow p a s = growTo p (s.length + 1) a s :=
  rfl

theorem growTo_some {b : α} (h : p a s = .ok (some b) s') :
    growTo p (n + 1) a s = growTo p n b s' := by
  simp [growTo, run_bind, h]

theorem growTo_none (h : p a s = .ok none s') : growTo p (n + 1) a s = .ok a s' := by
  simp [growTo, run_bind, h, run_pure]

open Token

/-! ## Tokens that are no layout -/

/-- The size of a token. Layout has none. -/
def weight (t : Token) : Nat := if isSolid t.kind then max 1 t.text.length else 0

/-- The size of the tokens of a state. The rules recurse only after taking a token that is no
layout, or on a part of its text. -/
def load : List Token → Nat
  | [] => 0
  | t :: s => load s + weight t

variable {t : Token} {s s' : List Token}

theorem weight_pos (h : isSolid t.kind = true) : 1 ≤ weight t := by
  rw [weight, if_pos h]
  exact Nat.le_max_left ..

theorem load_linesFrom_le (d : Nat) (last : Option Kind) (ts : List Token) :
    load (linesFrom d last ts) ≤ load ts := by
  fun_induction linesFrom d last ts with
  | case1 => exact Nat.le_refl _
  | case4 | case6 | case8 => exact Nat.add_le_add_right ‹_› _
  | _ => exact Nat.le_trans ‹_› (Nat.le_add_right ..)

theorem load_tokens_le (c : Cursor) : load c.tokens ≤ c.rest.length := by
  fun_induction Cursor.tokens c with
  | case1 c h =>
    have hkind : c.scan.1.kind = .eof := by simpa [isEof] using h
    simp [load, weight, hkind, isSolid]
  | case2 c h ih =>
    have hrest : c.rest ≠ [] := by simpa [Cursor.scan_isEof] using h
    have hlexeme := lexeme_pos hrest
    have hpos := length_pos_iff.2 hrest
    have hweight : weight c.scan.1 + c.scan.2.rest.length ≤ c.rest.length := by
      simp only [weight, Cursor.scan, Cursor.upcoming, isEmpty_eq_false_iff.2 hrest,
        Bool.false_eq_true, if_false, length_drop, String.length_ofList, length_take]
      split
      · simp [isSolid]
      · split <;> omega
    rw [load]
    omega

theorem load_ofText_le (text : List Char) (filename : String) :
    load (Source.ofText text filename).tokens ≤ text.length :=
  Nat.le_trans (load_linesFrom_le ..) (load_tokens_le (.atStart text))

/-! ## What a state starts with -/

/-- The state starts with a token for which `P` holds. -/
def First (P : Token → Prop) (s : List Token) : Prop := ∃ t s', s = t :: s' ∧ P t

variable {P P' : Token → Prop} {kind : Kind} {text glyph word : String}

theorem First.imp (h : First P s) (hP : ∀ t, P t → P' t) : First P' s := by
  obtain ⟨t, s', rfl, ht⟩ := h
  exact ⟨t, s', rfl, hP t ht⟩

theorem First.of_next {post : List Token → Prop} (h : Next kind text post s)
    (hP : ∀ pos, P ⟨kind, text, pos⟩) : First P s := by
  obtain ⟨pos, s', rfl, -⟩ := h
  exact ⟨_, s', rfl, hP pos⟩

/-! ## Steps -/

/-- From every state for which `pre` holds and with a load of at most `m`, the parser `p` gives
something for which `Q` holds and leaves a state for which `post` holds; with one for `k` it takes a
token that is no layout. -/
def Takes {α : Type} (m : Nat) (k : Fin 2) (pre : List Token → Prop) (p : Parsing α) (Q : α → Prop)
    (post : List Token → Prop) : Prop :=
  ∀ ⦃s⦄, pre s → load s ≤ m → ∃ a s', p s = .ok a s' ∧ Q a ∧ post s' ∧
    load s' + k ≤ load s ∧ s'.length + k ≤ s.length

namespace Takes

variable {α β γ : Type} {m : Nat} {k : Fin 2} {pre pre' mid post : List Token → Prop}
  {p : Parsing α} {a : α}
  {f : α → Parsing β} {Q Q' : α → Prop} {R : β → Prop}

theorem of (h : ∀ ⦃s⦄, pre s → pre' s) (hp : Takes m k pre' p Q post) : Takes m k pre p Q post :=
  fun _ hs => hp (h hs)

theorem imp (hp : Takes m k pre p Q post) (hQ : ∀ a, Q a → Q' a) : Takes m k pre p Q' post := by
  intro s hs hm
  obtain ⟨a, s', hrun, ha, hs', hlen⟩ := hp hs hm
  exact ⟨a, s', hrun, hQ a ha, hs', hlen⟩

theorem le (hp : Takes m 1 pre p Q post) : Takes m k pre p Q post := by
  intro s hs hm
  obtain ⟨a, s', hrun, ha, hs', hload, hlen⟩ := hp hs hm
  exact ⟨a, s', hrun, ha, hs', by omega, by omega⟩

theorem congr {q : Parsing α} (h : ∀ ⦃s⦄, pre s → p s = q s) (hq : Takes m k pre q Q post) :
    Takes m k pre p Q post := by
  intro s hs hm
  rw [h hs]
  exact hq hs hm

theorem pure (ha : Q a) : Takes m 0 pre (Pure.pure a) Q pre :=
  fun s hs _ => ⟨a, s, rfl, ha, hs, Nat.le_refl _, Nat.le_refl _⟩

theorem val (hf : Takes m k pre (f a) R post) : Takes m k pre (Pure.pure a >>= f) R post := hf

theorem seq {i j : Fin 2} (hk : (k : Nat) ≤ i + j) (hp : Takes m i pre p Q mid)
    (hf : ∀ a, Q a → Takes m j mid (f a) R post) : Takes m k pre (p >>= f) R post := by
  intro s hs hm
  obtain ⟨a, s', hrun, ha, hs', hload, hlen⟩ := hp hs hm
  obtain ⟨b, s'', hrun', hb, hs'', hload', hlen'⟩ := hf a ha hs' (by omega)
  exact ⟨b, s'', by rw [run_bind, hrun, ← hrun'], hb, hs'', by omega, by omega⟩

theorem bind (hp : Takes m 1 pre p Q mid) (hf : ∀ a, Q a → Takes m 0 mid (f a) R post) :
    Takes m k pre (p >>= f) R post :=
  seq (by omega) hp hf

theorem last (hp : Takes m 0 pre p Q mid) (hf : ∀ a, Q a → Takes m k mid (f a) R post) :
    Takes m k pre (p >>= f) R post :=
  seq (by omega) hp hf

theorem look (h : ∀ ⦃s⦄, pre s → p s = .ok a s) (hf : Takes m k pre (f a) R post) :
    Takes m k pre (p >>= f) R post := by
  intro s hs hm
  obtain ⟨b, s', hrun, hb, hs', hlen⟩ := hf hs hm
  exact ⟨b, s', by rw [run_bind, h hs, ← hrun], hb, hs', hlen⟩

theorem here {f : Span → Parsing β} (hf : ∀ span, Takes m k pre (f span) R post) :
    Takes m k pre (spanHere >>= f) R post := fun _ hs => hf _ hs

theorem peek {f : Token → Parsing β} (hf : ∀ t, Takes m k pre (f t) R post) :
    Takes m k pre (Parse.peek >>= f) R post := fun _ hs => hf _ hs

/-- A step that depends on the first token, and takes it. -/
theorem next {q : Position → Parsing α} (h : ∀ ⦃s⦄, pre s → Next kind text mid s)
    (hrun : ∀ pos s, p (⟨kind, text, pos⟩ :: s) = q pos s)
    (hkind : isSolid kind = true) (hq : ∀ pos m', m = m' + 1 → Takes m' 0 mid (q pos) Q post) :
    Takes m 1 pre p Q post := by
  intro s hs hm
  obtain ⟨pos, s', rfl, hs'⟩ := h hs
  have hweight := weight_pos (t := ⟨kind, text, pos⟩) hkind
  rw [load] at hm ⊢
  obtain ⟨a, s'', hrun', ha, hs'', hload, hlen⟩ := hq pos (m - 1) (by omega) hs' (by omega)
  exact ⟨a, s'', by rw [hrun, hrun'], ha, hs'', by omega, Nat.succ_le_succ hlen⟩

/-- A step that depends on the first token, which may be layout. -/
theorem skip {q : Position → Parsing α} (h : ∀ ⦃s⦄, pre s → Next kind text mid s)
    (hrun : ∀ pos ⦃s⦄, mid s → p (⟨kind, text, pos⟩ :: s) = q pos s)
    (hq : ∀ pos, Takes m k mid (q pos) Q post) : Takes m k pre p Q post := by
  intro s hs hm
  obtain ⟨pos, s', rfl, hs'⟩ := h hs
  rw [load] at hm ⊢
  obtain ⟨a, s'', hrun', ha, hs'', hload, hlen⟩ := hq pos hs' (by omega)
  exact ⟨a, s'', by rw [hrun pos hs', hrun'], ha, hs'', by omega, Nat.le_succ_of_le hlen⟩

theorem token (h : ∀ ⦃s⦄, pre s → Next kind text mid s)
    (hp : ∀ pos s, p (⟨kind, text, pos⟩ :: s) = .ok a s)
    (hkind : isSolid kind = true) (hf : Takes m 0 mid (f a) R post) :
    Takes m k pre (p >>= f) R post := by
  refine (next (q := fun _ => f a) h (fun pos s => by rw [run_bind, hp]) hkind ?_).le
  rintro _ m' rfl s hs hm
  exact hf hs (Nat.le_succ_of_le hm)

section

variable {f : Bool → Parsing β} {g : Unit → Parsing β} {src : Source}

theorem eat (h : ∀ ⦃s⦄, pre s → Next .control glyph mid s) (hf : Takes m 0 mid (f true) R post) :
    Takes m k pre (Parse.eat glyph >>= f) R post :=
  token h (fun _ _ => by simp) rfl hf

theorem eatWord (h : ∀ ⦃s⦄, pre s → Next .name word mid s) (hf : Takes m 0 mid (f true) R post) :
    Takes m k pre (Parse.eatWord word >>= f) R post :=
  token h (fun _ _ => by simp) rfl hf

theorem expect (h : ∀ ⦃s⦄, pre s → Next .control glyph mid s) (hf : Takes m 0 mid (g ()) R post) :
    Takes m k pre (Parse.expect src glyph >>= g) R post :=
  token h (fun _ _ => by simp) rfl hf

theorem expectWord (h : ∀ ⦃s⦄, pre s → Next .name word mid s) (hf : Takes m 0 mid (g ()) R post) :
    Takes m k pre (Parse.expectWord src word >>= g) R post :=
  token h (fun _ _ => by simp) rfl hf

theorem identifier {g : String → Parsing β} (h : ∀ ⦃s⦄, pre s → Next .name word mid s)
    (hword : isKeyword word = false) (hf : Takes m 0 mid (g word) R post) :
    Takes m k pre (Parse.identifier src >>= g) R post :=
  token h (fun _ _ => run_identifier hword) rfl hf

theorem notEat (h : ∀ ⦃s⦄, pre s → First (·.isControl glyph = false) s)
    (hf : Takes m k pre (f false) R post) : Takes m k pre (Parse.eat glyph >>= f) R post :=
  look (fun s hs => by obtain ⟨t, s', rfl, ht⟩ := h hs; simp [ht]) hf

theorem notEatWord (h : ∀ ⦃s⦄, pre s → First (·.isName word = false) s)
    (hf : Takes m k pre (f false) R post) : Takes m k pre (Parse.eatWord word >>= f) R post :=
  look (fun s hs => by obtain ⟨t, s', rfl, ht⟩ := h hs; simp [ht]) hf

variable {b : Bool}

theorem isAt (h : ∀ ⦃s⦄, pre s → First (·.isControl glyph = b) s)
    (hf : Takes m k pre (f b) R post) : Takes m k pre (Parse.isAt glyph >>= f) R post :=
  look (fun s hs => by obtain ⟨t, s', rfl, ht⟩ := h hs; rw [run_isAt, ht]) hf

theorem isAtWord (h : ∀ ⦃s⦄, pre s → First (·.isName word = b) s)
    (hf : Takes m k pre (f b) R post) : Takes m k pre (Parse.isAtWord word >>= f) R post :=
  look (fun s hs => by obtain ⟨t, s', rfl, ht⟩ := h hs; rw [run_isAtWord, ht]) hf

end

/-! ### Repetition -/

/-- Repetition reads a row of texts, if it reads each of them before what may follow it and finds
nothing at the end of the row. -/
theorem many {p : Parsing (Option β)} {view : List Char → List Token → Prop} {text : α → List Char}
    {f : α → γ} {g : β → γ} {as : List α} {rest : List Char} (follow : List Char → Prop)
    (hitem : ∀ a ∈ as, ∀ rest, follow rest →
      Takes m 1 (view (text a ++ rest)) p (fun r => ∃ b, r = some b ∧ g b = f a) (view rest))
    (hfollow : ∀ a ∈ as, ∀ rest, follow (text a ++ rest)) (hrest : follow rest)
    (hstop : ∀ ⦃s⦄, view rest s → p s = .ok none s) :
    Takes m 0 (view (as.flatMap text ++ rest)) (Parse.many p) (·.map g = as.map f) (view rest) := by
  intro s h hm
  rw [run_many]
  have hn : s.length < s.length + 1 := Nat.lt_succ_self _
  generalize s.length + 1 = n at hn
  induction as generalizing s n with
  | nil =>
    obtain ⟨n, rfl⟩ : ∃ m, n = m + 1 := ⟨n - 1, by omega⟩
    exact ⟨[], s, by simp [manyTo, hstop h], rfl, h, Nat.le_refl _, Nat.le_refl _⟩
  | cons a as ih =>
    obtain ⟨n, rfl⟩ : ∃ m, n = m + 1 := ⟨n - 1, by omega⟩
    have hnext : follow (as.flatMap text ++ rest) := by
      cases as with
      | nil => exact hrest
      | cons b as =>
        rw [flatMap_cons, append_assoc]
        exact hfollow b (by simp) _
    rw [flatMap_cons, append_assoc] at h
    obtain ⟨_, s1, hp, ⟨b, rfl, hb⟩, h1, hload1, hlen1⟩ := hitem a mem_cons_self _ hnext h hm
    obtain ⟨bs, s2, hrun, hbs, hs2, hload2, hlen2⟩ :=
      ih (fun a ha => hitem a (mem_cons_of_mem _ ha))
      (fun a ha => hfollow a (mem_cons_of_mem _ ha)) h1 (by omega) n (by omega)
    exact ⟨b :: bs, s2, by simp [manyTo, hp, hrun], by simp [hb, hbs], hs2, by omega, by omega⟩

end Takes

end BlockScript.Program.Parse
