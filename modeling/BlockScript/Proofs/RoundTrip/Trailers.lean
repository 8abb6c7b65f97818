import BlockScript.Proofs.RoundTrip.Primaries

/-! Attributes, calls and subscripts, which follow the expression that they belong to. -/

namespace BlockScript.Program.Parse

open Token List

variable {n m d : Nat} {e : Expr} {rest : List Char}
variable [View] {span : Span} {object index : Expr}

/-! ## Attributes -/

theorem readable_attribute {id : String} (hobject : Readable object)
    (hid : IsName id) (hint : object.isInteger = false) : Readable (.attribute span object id) := by
  have hpoint ⦃d : Nat⦄ ⦃rest : List Char⦄ ⦃s : List Token⦄
      (hs : Ahead d (("." ++ id).toList ++ rest) s) :
      Next .control "." (Ahead d (id.toList ++ rest)) s := by
    rw [String.toList_append, append_assoc] at hs
    exact hs.point hid.1
  refine .of_left 14 rfl rfl hobject (by rw [Print.bare, String.append_assoc]; rfl)
    (fun rest => .inr ⟨?_, Nat.le_refl 14, hint⟩) (fun d rest s hs => ?_)
    fun src n m d rest object' _ hends _ hobject' => ?_
  · rw [String.toList_append, append_assoc]
    rintro _ ⟨⟩
    exact .inr rfl
  · exact .of_next (hpoint hs) fun _ => ⟨Nat.lt_succ_self 14, rfl⟩
  · refine .eat (@hpoint d rest) (.identifier (fun _ hs => hs.word hid.1 hends.word) hid.2 ?_)
    exact .pure ⟨_, rfl, by simp [Expr.attr, hobject']⟩

/-! ## Calls -/

theorem Readable.of_bracket {opening inner close : String} {q : Source → Rules → Expr →
      Parsing (Option Expr)}
    (hopening : opening ∈ ["(", "["]) (hobject : Readable object) (hprec : Print.precedence e = 14)
    (htext : Print.bare e = Print.expr 14 object ++ (opening ++ inner ++ close))
    (hrun : ∀ src rules object' pos s,
      parseTrailer src rules object' (⟨.control, opening, pos⟩ :: s) = q src rules object' s)
    (hq : ∀ src n ⦃m d rest⦄ object', 4 * m + 5 ≤ n → object'.viewed = object.viewed → Takes m 0
      (Ahead (d + 1) (inner.toList ++ (close.toList ++ rest))) (q src (.ofDepth n src) object')
      (fun r => ∃ e', r = some e' ∧ e'.viewed = e.viewed) (Ahead d rest)) :
    Readable e := by
  have hfacts : ∀ g ∈ ["(", "["], g ∈ ["(", "[", "\x7b"] ∧ ∃ c ∈ g.toList.head?,
      isBoundary c = true := by decide
  have hbinding : ∀ g ∈ ["(", "["], ∀ pos, binding ⟨.control, g, pos⟩ < 15 ∧
      Token.isControl ⟨.control, g, pos⟩ "=" = false := by
    simp only [forall_mem_cons, not_mem_nil, false_imp_iff, implies_true, and_true]
    exact ⟨fun _ => ⟨Nat.lt_succ_self 14, rfl⟩, fun _ => ⟨Nat.lt_succ_self 14, rfl⟩⟩
  obtain ⟨hglyph, hboundary⟩ := hfacts _ hopening
  refine .of_left 14 rfl hprec hobject htext (fun rest => .inl ?_) (fun d rest s hs => ?_)
    fun src n m d rest object' hn _ _ hobject' => ?_
  · simp only [String.toList_append, append_assoc]
    exact bounds_append hboundary _
  · exact .of_next (hs.bracketed hglyph) (hbinding _ hopening)
  · refine .next (q := fun _ => _) (fun _ hs => hs.bracketed hglyph)
      (hrun src (.ofDepth (n - 2) src) object') rfl ?_
    rintro _ m rfl
    exact hq src (n - 2) object' (by omega) hobject'

theorem takes_positional (src : Source) (isFirst : Bool) (h : Readable e) (hn : 4 * m + 5 ≤ n) :
    TakesItem m d ")" (Print.expr 1 e).toList (parseArg src (.ofDepth n src) isFirst)
      (·.viewed = (Arg.positional e).viewed) := by
  intro rest hends
  have hopens ⦃s : List Token⦄ := h.whole.opens (d := d + 1) (s := s) hends.bounds
  refine ⟨fun s hs => (hopens hs).notAt fun _ => rfl, .notEat (fun s hs =>
    (hopens hs).notAt fun _ => rfl) (.notEat (fun s hs => (hopens hs).notAt fun _ => rfl) ?_)⟩
  refine .congr (q := do
    let value ← (Rules.ofDepth n src).expr
    if isFirst && (← isAtWord "for") then
      return .positional (← parseComprehension src (.ofDepth n src) value)
    return .positional value) (fun s hs => ?_) ?_
  · obtain ⟨t, s, rfl, -, hname⟩ := hopens hs
    have hkeyword : ¬ (t.kind = .name ∧ (s.head?.getD t).isControl "=" = true) :=
      fun ⟨hkind, heq⟩ => by
      have := hname hkind fun _ hs => (hends.head hs).imp fun _ ht => ht.not (by decide)
      rw [headD_eq_head?_getD, heq] at this
      contradiction
    simp [hkeyword]
  · refine (h.whole.expr src hn (hends.imp fun _ => And.left)).bind fun e' he' => ?_
    refine .isAtWord (fun _ hs => (hends.head hs).imp fun _ => EndsIn.notName) ?_
    rw [Bool.and_false]
    exact .pure (by simp [he'])

/-- An argument whose value comes after a glyph. -/
theorem takes_valued {g : String} {item : Parsing Arg} {make : Expr → Arg} (h : Readable e)
    (src : Source)
    (hn : 4 * m + 5 ≤ n) (hglyph : g ∈ ["*", "**", "="]) (hends : EndsItem ")" d rest)
    (hrun : ∀ pos s, item (⟨.control, g, pos⟩ :: s) =
      (do return make (← (Rules.ofDepth n src).expr)) s)
    (hmake : ∀ e', e'.viewed = e.viewed → (make e').viewed = (make e).viewed) :
    (∀ ⦃s⦄, Ahead (d + 1) (g.toList ++ ((Print.expr 1 e).toList ++ rest)) s →
      First (·.isControl ")" = false) s) ∧
    Takes m 1 (Ahead (d + 1) (g.toList ++ ((Print.expr 1 e).toList ++ rest))) item
      (·.viewed = (make e).viewed)
      (Ahead (d + 1) rest) := by
  have hfacts : ∀ g ∈ ["*", "**", "="], IsFlat g ∧ g ≠ ")" := by decide
  obtain ⟨hflat, hclose⟩ := hfacts g hglyph
  have hnext ⦃s : List Token⦄
      (hs : Ahead (d + 1) (g.toList ++ ((Print.expr 1 e).toList ++ rest)) s) :=
    hs.glyphBefore hflat (h.whole.starts.append rest)
  refine ⟨fun s hs => .of_next (hnext hs) fun _ => by simpa using hclose,
    .next (q := fun _ => _) hnext hrun rfl ?_⟩
  rintro _ m rfl
  exact (h.whole.expr src (by omega) (hends.imp fun _ => And.left)).bind fun e' he' =>
    .pure (hmake e' he')

theorem takes_argument (src : Source) (isFirst : Bool) {a : Arg} (h : Readable a.value)
    (hname : ∀ id ∈ a.name?, IsName id) (hn : 4 * m + 5 ≤ n) :
    TakesItem m d ")" (Print.argument a).toList (parseArg src (.ofDepth n src) isFirst)
      (·.viewed = a.viewed) := by
  cases a with
  | positional e => exact takes_positional src isFirst h hn
  | starred e | doubleStarred e =>
    intro rest hends
    rw [Print.argument, String.toList_append, append_assoc]
    exact takes_valued h src hn (by decide) hends (fun _ _ => by simp [parseArg])
      fun _ he => by simp [he]
  | keyword id e =>
    have hid : IsName id := hname id rfl
    intro rest hends
    rw [Print.argument, String.toList_append, String.toList_append, append_assoc, append_assoc]
    have hnext ⦃s : List Token⦄
        (hs : Ahead (d + 1) (id.toList ++ ("=".toList ++ ((Print.expr 1 e).toList ++ rest))) s) :=
      hs.word hid.1 (bounds_append (by decide) _).word
    refine ⟨fun s hs => .of_next (hnext hs) fun _ => rfl,
      .next (q := fun pos s => parseArg src (.ofDepth n src) isFirst (⟨.name, id, pos⟩ :: s)) hnext
        (fun _ _ => rfl) rfl ?_⟩
    rintro pos m rfl
    exact (takes_valued (n := n) h src (by omega) (by decide) hends
      (fun _ _ => by simp [parseArg, run_identifier hid.2]) fun _ he => by simp [he]).2.le

theorem readable_call {callee : Expr} {args : List Arg} (hcallee : Readable callee)
    (hargs : ∀ a ∈ args, Readable a.value) (hnames : ∀ a ∈ args, ∀ id ∈ a.name?, IsName id) :
    Readable (.call span callee args) := by
  have htext : Print.bare (.call span callee args) =
      Print.expr 14 callee ++ ("(" ++ ", ".intercalate (args.map Print.argument) ++ ")") := by
    rw [Print.bare, Print.arguments_eq_map, String.append_assoc, String.append_assoc,
      String.append_assoc]
    rfl
  refine .of_bracket (q := fun src rules callee' => do
      return some (.call callee'.span callee' (← parseArgs src rules))) (by decide)
        hcallee rfl htext
    (fun _ _ _ _ _ => by simp [parseTrailer]) fun src n m d rest callee' hn hcallee' => ?_
  suffices hread : Takes _ 0 _ (parseArgs src (.ofDepth n src)) (·.map Arg.viewed =
      args.map Arg.viewed)
      (Ahead d rest) from
    hread.last fun args' hargs' => .pure ⟨_, rfl, by simp [hcallee', hargs']⟩
  have hitem (isFirst : Bool) (a : Arg) (ha : a ∈ args) :=
    takes_argument (d := d) src isFirst (hargs a ha) (hnames a ha) hn
  cases args with
  | nil =>
    have hclosing ⦃s : List Token⦄ (hs : Ahead (d + 1) (")".toList ++ rest) s) :=
      hs.closing (by decide)
    exact .isAt (fun s hs => .of_next (hclosing hs) fun _ => rfl)
      (.val (.expect hclosing (.pure rfl)))
  | cons a as =>
    rw [toList_row, append_assoc]
    obtain ⟨hnot, hfirst⟩ := hitem true a mem_cons_self _ (endsItem_rowTail (by decide) _ as)
    refine .isAt hnot (hfirst.bind fun a' ha' => ?_)
    refine (TakesItem.more (by decide) fun a ha => hitem false a (mem_cons_of_mem _ ha)).last
      fun as' has' => ?_
    exact .val (.expect (fun _ hs => hs.closing (by decide)) (.pure (by simp [ha', has'])))

theorem readable_numberless {f : Float} (name : String)
    (hview : View.literals = true → Literal.number (Number.literal f) = .ok (.float f))
    (hname : name ∈ ["nan", "inf"]) (hf : Number.literal f = "float('" ++ name ++ "')") :
    Readable (.constant span (.float f)) := by
  have hnumber : ∀ name ∈ ["nan", "inf"], (Literal.number ("float('" ++ name ++ "')")).toBool =
      false := by
    with_unfolding_all decide
  have hliterals : View.literals = false := by
    refine Bool.eq_false_iff.2 fun hliterals => ?_
    have := hnumber name hname
    rw [← hf, hview hliterals] at this
    cases this
  have hcall : Readable (.call default (.name default "float")
      [.positional (.constant default (.str name))]) := by
    have htext : Readable (.constant default (.str name)) := readable_constant trivial (by simp)
    exact readable_call (readable_name (by decide)) (by simpa [Arg.value] using htext)
      (by simp [Arg.name?])
  refine hcall.of_same ?_ rfl rfl ?_
  · rw [Print.bare, Print.constant, hf]
    simp only [mem_cons, not_mem_nil, or_false] at hname
    rcases hname with rfl | rfl <;> cbv
  · simp [Constant.viewed, isNumberCall, hliterals]

omit [View] in
theorem isNegative_eq (f : Float) : match Number.Binary.ofFloat f with
    | .nan => True
    | .infinite negative | .finite negative _ _ => Number.isNegative f = negative := by
  rw [Number.Binary.ofFloat, Number.Binary.ofBits]
  by_cases hspecial : f.toBits.toNat / Number.Binary.hiddenBit % 2048 = 2047
  · by_cases hfraction : f.toBits.toNat % Number.Binary.hiddenBit = 0
    · simp only [if_pos hspecial, if_pos hfraction]
      rfl
    · simp only [if_pos hspecial, if_neg hfraction]
  · by_cases hsubnormal : f.toBits.toNat / Number.Binary.hiddenBit % 2048 = 0
    · simp only [if_neg hspecial, if_pos hsubnormal]
      rfl
    · simp only [if_neg hspecial, if_neg hsubnormal]
      rfl

/-- A number that is not negative is read as some number, or as a call of `float`. -/
theorem readable_number {f : Float}
    (hview : View.literals = true → Literal.number (Number.literal f) = .ok (.float f))
    (hf : Number.isNegative f = false) : Readable (.constant span (.float f)) := by
  have hsign := isNegative_eq f
  cases hparts : Number.Binary.ofFloat f with
  | nan => exact readable_numberless "nan" hview (by decide) (by rw [Number.literal, hparts]; rfl)
  | infinite negative =>
    simp only [hparts, hf] at hsign
    subst hsign
    exact readable_numberless "inf" hview (by decide) (by rw [Number.literal, hparts]; rfl)
  | finite negative m k =>
    simp only [hparts, hf] at hsign
    subst hsign
    exact readable_float hview hparts

/-! ## Subscripts -/

variable {o lower upper step : Option Expr}

theorem starts_optional (h : ∀ x ∈ o, Readable x) (hrest : Starts rest) :
    Starts ((Print.optional 1 o).toList ++ rest) := by
  cases o with
  | none => rwa [Print.optional]
  | some e =>
    rw [Print.optional]
    exact (h e rfl).whole.starts.append rest

theorem takes_bound (src : Source) (h : ∀ x ∈ o, Readable x) (hn : 4 * m + 5 ≤ n)
    (hends : Follow (EndsIn [":", "]", ","]) d rest) :
    Takes m 0 (Ahead d ((Print.optional 1 o).toList ++ rest)) (parseBound (.ofDepth n src))
      (·.map Expr.viewed = o.map Expr.viewed) (Ahead d rest) := by
  cases o with
  | none =>
    rw [Print.optional]
    refine .look (a := true) (fun s hs => ?_) (.pure rfl)
    obtain ⟨t, s', rfl, ht⟩ := hends.head hs
    simp [endsBound, ht.2]
  | some e =>
    rw [Print.optional]
    have he := (h e rfl).whole
    refine .look (a := false) (fun s hs => ?_)
      ((he.expr src hn (hends.imp fun _ => And.left)).bind fun e' he' => .pure (by simp [he']))
    obtain ⟨t, s', rfl, ht⟩ := (he.opens hends.bounds hs).first
    have hcolon : t.isControl ":" = false := not_isControl_of_opens ht fun _ => rfl
    have hclose : t.isControl "]" = false := not_isControl_of_opens ht fun _ => rfl
    have hcomma : t.isControl "," = false := not_isControl_of_opens ht fun _ => rfl
    simp [endsBound, isControlIn_eq_any, hcolon, hclose, hcomma]

/-- The text of a slice after its lower bound and the colon. -/
def sliceTail (upper step : Option Expr) : String :=
  Print.optional 1 upper ++ (if step.isSome then ":" ++ Print.optional 1 step else "")

omit [View] in
theorem expr_slice (span : Span) (lower upper step : Option Expr) (rest : List Char) :
    (Print.expr 1 (.slice span lower upper step)).toList ++ rest =
      (Print.optional 1 lower).toList ++
      (":".toList ++ ((sliceTail upper step).toList ++ rest)) := by
  rw [Print.expr_of_le (Print.precedence_bounds _).1, Print.bare, sliceTail]
  simp only [String.toList_append, append_assoc]
  rfl

theorem starts_sliceTail (hupper : ∀ x ∈ upper, Readable x) (hrest : Starts rest) :
    Starts ((sliceTail upper step).toList ++ rest) := by
  rw [sliceTail, String.toList_append, append_assoc]
  refine starts_optional hupper ?_
  split
  · rw [String.toList_append, append_assoc]
    exact Starts.append (by decide) _
  · exact hrest

theorem takes_sliceTail (src : Source) (hupper : ∀ x ∈ upper, Readable x)
    (hstep : ∀ x ∈ step, Readable x)
    (hn : 4 * m + 5 ≤ n) (hends : EndsItem "]" d rest) {lower' : Option Expr}
    (hlower : lower'.map Expr.viewed = lower.map Expr.viewed) (span' : Span) :
    Takes m 1 (Ahead (d + 1) (":".toList ++ ((sliceTail upper step).toList ++ rest))) (do
        expect src ":"
        let upper ← parseBound (.ofDepth n src)
        let step ← if ← eat ":" then parseBound (.ofDepth n src) else pure none
        return Expr.slice span' lower' upper step)
      (·.viewed = (Expr.slice span lower upper step).viewed) (Ahead (d + 1) rest) := by
  have hends' : Follow (EndsIn [":", "]", ","]) (d + 1) rest :=
    hends.imp fun _ ht => ht.mono (by decide)
  refine .expect (fun _ hs => hs.glyphBefore (by decide) (starts_sliceTail hupper hends.starts)) ?_
  rw [sliceTail, String.toList_append, append_assoc]
  cases step with
  | none =>
    refine (takes_bound src hupper hn hends').last fun upper' hupper' => ?_
    refine .notEat (fun _ hs => (hends.head hs).imp fun _ ht => ht.not (by decide)) (.val ?_)
    exact .pure (by simp [hlower, hupper'])
  | some e =>
    have hcolon ⦃s : List Token⦄
        (hs : Ahead (d + 1) (":".toList ++ ((Print.optional 1 (some e)).toList ++ rest)) s) :=
      hs.glyphBefore (by decide) (starts_optional hstep hends.starts)
    rw [if_pos Option.isSome_some, String.toList_append, append_assoc]
    refine (takes_bound src hupper hn (.of_next (bounds_append (by decide) _)
      hcolon fun _ => ?_)).last
      fun upper' hupper' => ?_
    · exact ⟨Nat.zero_lt_one, by simp [isControlIn]⟩
    refine .eat hcolon ((takes_bound src hstep hn hends').last fun step' hstep' => ?_)
    exact .pure (by simp [hlower, hupper', hstep'])

theorem takes_slice (src : Source) (hlower : ∀ x ∈ lower, Readable x)
    (hupper : ∀ x ∈ upper, Readable x) (hstep : ∀ x ∈ step, Readable x) (hn : 4 * m + 5 ≤ n) :
    TakesItem m d "]" (Print.expr 1 (.slice span lower upper step)).toList
      (parseIndex src (.ofDepth n src))
      (·.viewed = (Expr.slice span lower upper step).viewed) := by
  intro rest hends
  rw [expr_slice]
  have hcolon ⦃s : List Token⦄
      (hs : Ahead (d + 1) (":".toList ++ ((sliceTail upper step).toList ++ rest)) s) :=
    hs.glyphBefore (by decide) (starts_sliceTail hupper hends.starts)
  have hat ⦃s : List Token⦄
      (hs : Ahead (d + 1) (":".toList ++ ((sliceTail upper step).toList ++ rest)) s) :
      First (·.isControl ":" = true) s := .of_next (hcolon hs) fun _ => rfl
  cases lower with
  | none =>
    rw [Print.optional]
    exact ⟨fun s hs => .of_next (hcolon hs) fun _ => rfl, .here fun span' =>
      .isAt hat (.val (.isAt hat (takes_sliceTail src hupper hstep hn hends rfl span')))⟩
  | some e =>
    rw [Print.optional]
    have he := (hlower e rfl).whole
    have hopens ⦃s : List Token⦄ := he.opens (d := d + 1) (s := s)
      (bounds_append (g := ":") (by decide) ((sliceTail upper step).toList ++ rest))
    refine ⟨fun s hs => (hopens hs).notAt fun _ => rfl, .here fun span' => .isAt
      (fun s hs => (hopens hs).notAt fun _ => rfl) ?_⟩
    refine (he.expr src hn (.of_next (bounds_append (by decide) _) hcolon
      fun _ => Nat.zero_lt_one)).bind
      fun e' he' => ?_
    exact .val (.isAt hat (takes_sliceTail src hupper hstep hn hends (by simp [he']) span').le)

/-- What stands between the brackets of a subscript, or in a row there. -/
theorem takes_index (src : Source) (h : ∀ x ∈ index.bounds, Readable x) (hn : 4 * m + 5 ≤ n) :
    TakesItem m d "]" (Print.expr 1 index).toList (parseIndex src (.ofDepth n src))
      (·.viewed = index.viewed) := by
  by_cases hslice : ∃ span lower upper step, index = .slice span lower upper step
  · obtain ⟨span, lower, upper, step, rfl⟩ := hslice
    simp only [Expr.bounds, Expr.children, forall_mem_append, Option.mem_toList] at h
    exact takes_slice src h.1 h.2.1 h.2.2 hn
  · have hreadable : Readable index := by
      refine h index ?_
      unfold Expr.bounds
      split
      · exact absurd ⟨_, _, _, _, rfl⟩ hslice
      · exact mem_singleton_self _
    intro rest hends
    have hopens ⦃s : List Token⦄ := hreadable.whole.opens (d := d + 1) (s := s) hends.bounds
    refine ⟨fun s hs => (hopens hs).notAt fun _ => rfl, .here fun span' => .isAt
      (fun s hs => (hopens hs).notAt fun _ => rfl) ?_⟩
    refine (hreadable.whole.expr src hn (hends.imp fun _ => And.left)).bind fun e' he' => .val ?_
    exact .isAt (fun _ hs => (hends.head hs).imp fun _ ht => ht.not (by decide)) (.pure he')

theorem takes_subscript (src : Source) (h : ∀ x ∈ index.indexOperands, Readable x)
    (hkept : ∀ span s l u t, index ≠ .tuple span [.slice s l u t]) (hn : 4 * m + 5 ≤ n) :
    Takes m 1 (Ahead (d + 1) ((Print.subscriptIndex index).toList ++ ("]".toList ++ rest)))
      (parseSubscript src (.ofDepth n src)) (·.viewed = index.viewed)
        (Ahead (d + 1) ("]".toList ++ rest)) := by
  by_cases hrow : ∃ span first second more, index = .tuple span (first :: second :: more)
  · obtain ⟨span, first, second, more, rfl⟩ := hrow
    have hitem (i : Expr) (hi : i ∈ first :: second :: more) :=
      takes_index (d := d) src (fun x hx => h x (mem_flatMap.2 ⟨i, hi, hx⟩)) hn
    rw [Print.subscriptIndex, Print.exprs_eq_map, ← map_cons, ← map_cons, toList_row, append_assoc]
    refine .here fun span' =>
      (hitem first mem_cons_self _ (endsItem_rowTail (by decide) _ _)).2.bind fun e' he' => ?_
    refine .isAt (b := true) (fun s hs => ?_) ?_
    · rw [rowTail, flatMap_cons, append_assoc, append_assoc] at hs
      exact .of_next hs.comma fun _ => rfl
    refine (TakesItem.more (by decide) fun i hi => hitem i (mem_cons_of_mem _ hi)).last
      fun es' hes' => ?_
    exact .pure (by simpa [he'] using hes')
  · have htext : Print.subscriptIndex index = Print.expr 1 index := by
      rw [← Print.expr_zero]
      unfold Print.subscriptIndex
      split
      · exact absurd ⟨_, _, _, _, rfl⟩ hrow
      · rfl
    have hbounds : ∀ x ∈ index.bounds, Readable x := by
      by_cases htuple : ∃ span items, index = .tuple span items
      · obtain ⟨span, items, rfl⟩ := htuple
        intro x hx
        rw [mem_singleton.1 hx]
        refine readable_tuple fun e he => h e (mem_flatMap.2 ⟨e, he, ?_⟩)
        unfold Expr.bounds
        split
        · rcases items with _ | ⟨first, _ | ⟨second, more⟩⟩
          · cases he
          · obtain rfl := mem_singleton.1 he
            exact (hkept _ _ _ _ _ rfl).elim
          · exact absurd ⟨_, _, _, _, rfl⟩ hrow
        · exact mem_singleton_self _
      · intro x hx
        refine h x ?_
        unfold Expr.indexOperands
        split
        · exact absurd ⟨_, _, rfl⟩ htuple
        · exact hx
    rw [htext]
    refine .here fun span' =>
      (takes_index src hbounds hn _ (endsItem_closing (by decide))).2.bind fun e' he' => ?_
    exact .isAt (fun _ hs => .of_next (hs.closing (by decide)) fun _ => rfl) (.pure he')

theorem readable_subscript (hobject : Readable object)
    (hindex : ∀ x ∈ index.indexOperands, Readable x)
    (hslice : ∀ s t lower upper step, index ≠ .tuple s [.slice t lower upper step]) :
    Readable (.subscript span object index) := by
  have htext : Print.bare (.subscript span object index) =
      Print.expr 14 object ++ ("[" ++ Print.subscriptIndex index ++ "]") := by
    rw [Print.bare, String.append_assoc, String.append_assoc, String.append_assoc]
    rfl
  refine .of_bracket (q := fun src rules object' => do
      let index ← parseSubscript src rules
      expect src "]"
      return some (object'.item index)) (by decide) hobject rfl htext
    (fun _ _ _ _ _ => by simp [parseTrailer]) fun src n m d rest object' hn hobject' => ?_
  refine (takes_subscript src hindex hslice hn).bind fun index' hindex' =>
    .expect (fun _ hs => hs.closing (by decide)) ?_
  exact .pure ⟨_, rfl, by simp [Expr.item, hobject', hindex']⟩

end BlockScript.Program.Parse
