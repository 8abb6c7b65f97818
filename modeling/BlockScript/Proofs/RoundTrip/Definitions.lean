import BlockScript.Proofs.RoundTrip.Compound

/-! Functions and classes, with their parameters, bases and decorators. -/

namespace BlockScript.Program

open Token List

/-! ## Parameters -/

/-- What stands between two commas of a parameter list. -/
inductive ParamItem where
  | arg (p : Param)
  | rest (name : String)
  | keywords (name : String)

namespace ParamItem

def text : ParamItem → String
  | arg p => Print.param p
  | rest name => "*" ++ name
  | keywords name => "**" ++ name

def name : ParamItem → String
  | arg p => p.name
  | rest name | keywords name => name

def default? : ParamItem → Option Expr
  | arg p => p.default
  | _ => none

end ParamItem

variable {p : Params} {name : String}

namespace Params

def items (p : Params) : List ParamItem :=
  p.args.map .arg ++ (p.rest.toList.map .rest ++ p.keywords.toList.map .keywords)

def add (p : Params) : ParamItem → Params
  | .arg a => { p with args := p.args ++ [a] }
  | .rest name => { p with rest := some name }
  | .keywords name => { p with keywords := some name }

def Admits (p : Params) : ParamItem → Prop
  | .arg a => a.name ∉ p.names ∧
    (a.default = none → p.args.getLast?.any (·.default.isSome) = false)
  | _ => True

def AdmitsAll (p : Params) : List ParamItem → Prop
  | [] => True
  | i :: is => p.Admits i ∧ (p.add i).AdmitsAll is

theorem params_eq (p : Params) :
    Print.params p = ", ".intercalate (p.items.map ParamItem.text) := by
  rw [Print.params, items, map_append, map_append, map_map, map_map, map_map, append_assoc]
  rfl

theorem foldl_add_args (args before : List Param) :
    (args.map ParamItem.arg).foldl add { args := before } = { args := before ++ args } := by
  induction args generalizing before with
  | nil => simp
  | cons a args ih => rw [map_cons, foldl_cons, add, ih, append_assoc]; rfl

theorem foldl_add_items (p : Params) : p.items.foldl add {} = p := by
  obtain ⟨args, rest, keywords⟩ := p
  rw [items, foldl_append, foldl_add_args]
  cases rest <;> cases keywords <;> rfl

theorem admitsAll_args {args : List Param} (before : List Param) {tail : List ParamItem}
    (hdistinct : ((before ++ args).map Param.name).Nodup)
    (hdefaults : (before ++ args).Pairwise fun a b => a.default.isSome = true →
    b.default.isSome = true)
    (htail : ∀ p : Params, p.AdmitsAll tail) :
    AdmitsAll { args := before } (args.map .arg ++ tail) := by
  induction args generalizing before with
  | nil => exact htail _
  | cons a args ih =>
    refine ⟨⟨?_, fun hnone => ?_⟩, ?_⟩
    · rw [map_append, map_cons, nodup_append] at hdistinct
      intro hmem
      simp only [names, Option.toList_none, append_nil] at hmem
      exact hdistinct.2.2 a.name hmem a.name mem_cons_self rfl
    · cases hlast : before.getLast? with
      | none => rfl
      | some b =>
        have hb : b ∈ before := mem_of_getLast? hlast
        have := (pairwise_append.1 hdefaults).2.2 b hb a mem_cons_self
        rw [hnone] at this
        simpa using this
    · rw [add]
      refine ih (before ++ [a]) ?_ ?_ <;> rwa [append_assoc]

theorem Valid.admitsAll (h : p.Valid) : AdmitsAll {} p.items := by
  refine admitsAll_args [] h.distinct h.defaults fun q => ?_
  cases p.rest <;> cases p.keywords <;> simp [AdmitsAll, Admits]

variable [View]

theorem names_viewed (p : Params) : p.viewed.names = p.names := by
  simp [viewed, mapDefaults, names, Function.comp_def]

theorem getLast?_viewed (p : Params) :
    p.viewed.args.getLast?.any (·.default.isSome) = p.args.getLast?.any (·.default.isSome) := by
  rw [viewed, mapDefaults, getLast?_map]
  cases p.args.getLast? <;> simp

theorem add_viewed {q : Params} {a b : Option Expr}
    (h : p.viewed = q.viewed) (hab : a.map Expr.viewed = b.map Expr.viewed) :
    (p.add (.arg ⟨name, a⟩)).viewed = (q.add (.arg ⟨name, b⟩)).viewed := by
  simp only [viewed, mapDefaults, Params.mk.injEq] at h
  simp [viewed, mapDefaults, add, h, hab]

end Params

namespace Parse

variable {src : Source} {n m b d k : Nat} {rest : List Char} {s : List Token} [View]
  {acc acc' : Params}

theorem takes_param (src : Source) {item : ParamItem} (hdefault : ∀ e ∈ item.default?, Readable e)
    (hname : IsName item.name) (hadmits : acc.Admits item) (hacc : acc'.viewed = acc.viewed)
    (hn : 4 * m + 5 ≤ n) :
    TakesItem m d ")" item.text.toList (parseParam src (.ofDepth n src) acc')
      (·.viewed = (acc.add item).viewed) := by
  intro rest hends
  have hkeyword : isKeyword item.name = false := hname.2
  have hid ⦃s : List Token⦄ (hs : Ahead (d + 1) (item.name.toList ++ rest) s) :
      Next .name item.name (Ahead (d + 1) rest) s := hs.word hname.1 hends.bounds.word
  cases item with
  | rest name =>
    simp only [ParamItem.text, String.toList_append, append_assoc]
    have hstar ⦃s : List Token⦄ (hs : Ahead (d + 1) ("*".toList ++ (name.toList ++ rest)) s) :
        Next .control "*" (Ahead (d + 1) (name.toList ++ rest)) s :=
          hs.glyphBefore (by decide) (hname.1.starts.append rest)
    refine ⟨fun _ hs => .of_next (hstar hs) fun _ => rfl, .notEat (fun _ hs =>
      .of_next (hstar hs) fun _ => rfl) (.eat hstar (.identifier hid hkeyword (.pure ?_)))⟩
    simp only [Params.viewed, Params.mapDefaults, Params.mk.injEq] at hacc
    simp [Params.viewed, Params.mapDefaults, Params.add, ParamItem.name, hacc]
  | keywords name =>
    simp only [ParamItem.text, String.toList_append, append_assoc]
    have hstars ⦃s : List Token⦄ (hs : Ahead (d + 1) ("**".toList ++ (name.toList ++ rest)) s) :
        Next .control "**" (Ahead (d + 1) (name.toList ++ rest)) s :=
          hs.glyphBefore (by decide) (hname.1.starts.append rest)
    refine ⟨fun _ hs => .of_next (hstars hs) fun _ => rfl,
      .eat hstars (.identifier hid hkeyword (.pure ?_))⟩
    simp only [Params.viewed, Params.mapDefaults, Params.mk.injEq] at hacc
    simp [Params.viewed, Params.mapDefaults, Params.add, ParamItem.name, hacc]
  | arg p =>
    obtain ⟨name, default⟩ := p
    have hnew : name ∉ acc'.names := by
      rw [← acc'.names_viewed, hacc, acc.names_viewed]
      exact hadmits.1
    have hlast (h : default = none) : acc'.args.getLast?.any (·.default.isSome) = false := by
      rw [← acc'.getLast?_viewed, hacc, acc.getLast?_viewed]
      exact hadmits.2 h
    cases default with
    | none =>
      refine ⟨fun _ hs => .of_next (hid hs) fun _ => rfl, .notEat (fun _ hs =>
        .of_next (hid hs) fun _ => rfl)
        (.notEat (fun _ hs => .of_next (hid hs) fun _ => rfl) (.peek fun t =>
          .identifier hid hkeyword ?_))⟩
      refine .notEat (fun _ hs => (hends.head hs).imp fun _ h => h.not (by decide))
        (.notEat (fun _ hs => (hends.head hs).imp fun _ h => h.not (by decide)) (.val ?_))
      exact .congr (q := pure (acc'.add (.arg ⟨name, none⟩)))
        (fun _ _ => by simp [hlast rfl, hnew, Params.add, ParamItem.name])
        (.pure (Params.add_viewed hacc rfl))
    | some e =>
      have he : TextAt 1 _ e := (hdefault e rfl).whole
      simp only [ParamItem.text, Print.param, Precedence.ternary,
        String.toList_append, append_assoc]
      have hword ⦃s : List Token⦄
          (hs : Ahead (d + 1) (name.toList ++
            ("=".toList ++ ((Print.expr 1 e).toList ++ rest))) s) :
          Next .name name (Ahead (d + 1) ("=".toList ++ ((Print.expr 1 e).toList ++ rest))) s :=
        hs.word hname.1 (bounds_append (by decide) _).word
      have hequals ⦃s : List Token⦄
          (hs : Ahead (d + 1) ("=".toList ++ ((Print.expr 1 e).toList ++ rest)) s) :
          Next .control "=" (Ahead (d + 1) ((Print.expr 1 e).toList ++ rest)) s :=
            hs.glyphBefore (by decide) (he.starts.append rest)
      refine ⟨fun _ hs => .of_next (hword hs) fun _ => rfl, .notEat (fun _ hs =>
        .of_next (hword hs) fun _ => rfl)
        (.notEat (fun _ hs => .of_next (hword hs) fun _ => rfl) (.peek fun t =>
          .identifier hword hkeyword ?_))⟩
      refine .notEat (fun _ hs => .of_next (hequals hs) fun _ => rfl) (.eat hequals
        ((he.expr src hn (hends.imp fun _ => And.left)).bind fun e' he' => .val ?_))
      exact .congr (q := pure (acc'.add (.arg ⟨name, some e'⟩)))
        (fun _ _ => by simp [hnew, Params.add])
        (.pure (Params.add_viewed hacc (by simp [he'])))

/-- One more parameter after a comma. -/
def parseNextParam (src : Source) (rules : Rules) (params : Params) : Parsing (Option Params) := do
  if ← eat "," then
    if ← isAt ")" then return none
    return some (← parseParam src rules params)
  else return none

theorem takes_moreParams (src : Source) {items : List ParamItem}
    (hitems : ∀ i ∈ items, (∀ e ∈ i.default?, Readable e) ∧ IsName i.name)
    (hadmits : acc.AdmitsAll items)
    (hacc : acc'.viewed = acc.viewed) (hn : 4 * m + 5 ≤ n) :
    Takes m 0 (Ahead (d + 1) (rowTail (fun i => i.text.toList) items ++ (")".toList ++ rest)))
      (grow (parseNextParam src (.ofDepth n src)) acc') (·.viewed =
        (items.foldl Params.add acc).viewed)
      (Ahead (d + 1) (")".toList ++ rest)) := by
  intro s hs hm
  rw [run_grow]
  have hj : s.length < s.length + 1 := Nat.lt_succ_self _
  generalize s.length + 1 = j at hj
  induction items generalizing acc acc' s j with
  | nil =>
    obtain ⟨j, rfl⟩ : ∃ i, j = i + 1 := ⟨j - 1, by omega⟩
    obtain ⟨pos, s', rfl, -⟩ := Ahead.closing (g := ")") hs (by decide)
    exact ⟨acc', _, growTo_none (by simp [parseNextParam]), hacc, hs, Nat.le_refl _, Nat.le_refl _⟩
  | cons i items ih =>
    obtain ⟨j, rfl⟩ : ∃ i, j = i + 1 := ⟨j - 1, by omega⟩
    rw [rowTail, flatMap_cons, append_assoc, append_assoc] at hs
    obtain ⟨hdefault, hname⟩ := hitems i mem_cons_self
    obtain ⟨hnot, hparam⟩ := takes_param src hdefault hname hadmits.1 hacc hn _
      (endsItem_rowTail (by decide) (fun i => i.text.toList) items)
    have hnext : Takes m 1 _ (parseNextParam src (.ofDepth n src) acc')
        (fun r => ∃ acc1, r = some acc1 ∧ acc1.viewed = (acc.add i).viewed) _ :=
      .eat (fun _ hs => Ahead.comma hs) (.isAt hnot (hparam.bind fun acc1 h =>
        .pure ⟨acc1, rfl, h⟩))
    obtain ⟨_, s1, hrun, ⟨acc1, rfl, hacc1⟩, hs1, hload1, hlen1⟩ := hnext hs hm
    obtain ⟨params, s2, hgrow, hparams, hs2, hload2, hlen2⟩ :=
      ih (fun j hj => hitems j (mem_cons_of_mem _ hj)) hadmits.2 hacc1 hs1 (by omega) j (by omega)
    exact ⟨params, s2, by rw [growTo_some hrun, hgrow], hparams, hs2, by omega, by omega⟩

theorem takes_params (src : Source) (hp : p.Valid) (hdefaults : ∀ e ∈ p.defaults, Readable e)
    (hn : 4 * m + 5 ≤ n) :
    Takes m 0 (Ahead (d + 1) ((Print.params p).toList ++ (")".toList ++ rest)))
      (parseParams src (.ofDepth n src))
      (·.viewed = p.viewed) (Ahead (d + 1) (")".toList ++ rest)) := by
  have hitem (i : ParamItem) (hi : i ∈ p.items) :
      (∀ e ∈ i.default?, Readable e) ∧ IsName i.name := by
    simp only [Params.items, mem_append, mem_map] at hi
    refine ⟨fun e he => ?_, hp.names i.name ?_⟩ <;>
      rcases hi with ⟨a, ha, rfl⟩ | ⟨x, hx, rfl⟩ | ⟨x, hx, rfl⟩
    · exact hdefaults e (mem_filterMap.2 ⟨a, ha, he⟩)
    · cases he
    · cases he
    · simp [Params.names, ParamItem.name, mem_map_of_mem ha]
    · simp [Params.names, ParamItem.name, Option.mem_toList.1 hx]
    · simp [Params.names, ParamItem.name, Option.mem_toList.1 hx]
  have hadmits := hp.admitsAll
  have hfold := p.foldl_add_items
  rw [Params.params_eq]
  cases hitems : p.items with
  | nil =>
    rw [hitems] at hfold
    refine .isAt (fun s hs => .of_next (Ahead.closing (g := ")") hs (by decide)) fun _ => rfl)
      (.pure ?_)
    exact congrArg Params.viewed hfold
  | cons i items =>
    rw [hitems] at hfold hadmits hitem
    obtain ⟨hdefault, hname⟩ := hitem i mem_cons_self
    obtain ⟨hnot, hfirst⟩ := takes_param src hdefault hname hadmits.1 rfl hn _
      (endsItem_rowTail (by decide) (fun i => i.text.toList) items)
    rw [toList_row, append_assoc]
    refine .isAt hnot (hfirst.bind fun first h => ?_)
    exact (takes_moreParams src (fun j hj => hitem j (mem_cons_of_mem _ hj)) hadmits.2 h hn).imp
      fun p' hp' => hp'.trans (congrArg Params.viewed hfold)

/-! ## Decorators -/

/-- The text of a decorator after the indentation, up to that of the next line. -/
def decoratorText (k : Nat) (e : Expr) : List Char :=
  "@".toList ++ ((Print.expr 1 e).toList ++ '\n' :: (Print.indentation k).toList)

omit [View] in
theorem decorators_eq (k : Nat) (es : List Expr) (more : List Char) :
    (Print.decorators k es).toList ++ ((Print.indentation k).toList ++ more) =
      (Print.indentation k).toList ++ (es.flatMap (decoratorText k) ++ more) := by
  induction es with
  | nil => rfl
  | cons e es ih =>
    have hcons : Print.decorators k (e :: es) =
        Print.line k ("@" ++ Print.expr 0 e) ++ Print.decorators k es := by
      rw [Print.decorators, map_cons, String.join_cons]
      rfl
    rw [hcons, String.toList_append, append_assoc, ih, Print.toList_line, flatMap_cons,
      decoratorText, Print.expr_zero, String.toList_append]
    simp only [append_assoc, cons_append, nil_append]

variable {es decorators : List Expr}

theorem takes_decorators (src : Source) (hes : ∀ e ∈ es, Readable e) (hn : 4 * m + 5 ≤ n)
    (hrest : Starts rest) (hstop : ∀ ⦃s⦄, Ahead 0 rest s → First (·.isControl "@" = false) s) :
    Takes m 0 (Ahead 0 (es.flatMap (decoratorText k) ++ rest))
      (many (parseDecorator src (.ofDepth n src) (4 * k)))
      (·.map Expr.viewed = es.map Expr.viewed) (Ahead 0 rest) := by
  refine .many Starts (fun e he rest hstarts => ?_)
    (fun e _ rest => (Starts.append (by decide) _).append rest) hrest
    fun s hs => ?_
  · simp only [decoratorText, append_assoc, cons_append]
    refine .eat (fun _ hs => hs.glyphBefore (by decide) ((hes e he).whole.starts.append _))
      (((hes e he).whole.expr src hn
      (follow_newline fun _ => Nat.zero_lt_one)).bind fun e' he' => ?_)
    refine .skip (q := fun _ => do
        advance
        return some e') (fun _ hs => hs.lineEnd) (fun _ s hs => ?_) fun _ =>
      .skip (q := fun _ => pure (some e')) (fun _ hs => hs.indentation hstarts)
        (fun _ _ _ => by simp)
        fun _ => .pure ⟨e', rfl, he'⟩
    obtain ⟨pos, s, rfl, -⟩ := hs.indentation hstarts
    simp [width, Print.utf8ByteSize_indentation]
  · obtain ⟨t, s', rfl, ht⟩ := hstop hs
    simp [parseDecorator, ht]

theorem StmtReadable.of_definition {stmt : Stmt} (w : String) (more : Nat → List Char)
    {parse : Source → Rules → Blocks → Nat → List Expr → Parsing Stmt}
    (hw : w = "def" ∧ parse = parseDef ∨ w = "class" ∧ parse = parseClass)
    (hstmt : ∀ span test body orelse, stmt ≠ .ifElse span test body orelse)
    (hbounds : ∀ k rest, Bounds (more k ++ rest)) (hes : ∀ e ∈ es, Readable e)
    (hparse : ∀ k src n b ⦃m rest⦄ es', 4 * m + 8 ≤ n → m ≤ b → Continues k rest →
      es'.map Expr.viewed = es.map Expr.viewed → Takes m 1 (Next .name w (Ahead 0 (more k ++ rest)))
        (parse src (.ofDepth n src) (.ofDepth src (.ofDepth n src) b) (4 * k) es')
          (·.viewed = stmt.viewed)
        (AheadLine rest))
    (htext : ∀ k, (Print.stmt k stmt).toList =
      (Print.decorators k es).toList ++ ((Print.indentation k).toList ++ (w.toList ++ more k))) :
    StmtReadable stmt where
  own k := by
    have hword : IsWord w.toList := by rcases hw with ⟨rfl, -⟩ | ⟨rfl, -⟩ <;> decide
    have hclause : ∀ x ∈ clauseWords, (w == x) = false := by rcases hw with ⟨rfl, -⟩ | ⟨rfl, -⟩ <;>
      decide
    have hstarts (rest : List Char) : Starts ((w.toList ++ more k) ++ rest) :=
      (hword.starts.append _).append rest
    have hnext (rest : List Char) ⦃s : List Token⦄ (hs : Ahead 0 ((w.toList ++ more k) ++ rest) s) :
        Next .name w (Ahead 0 (more k ++ rest)) s := by
      rw [append_assoc] at hs
      exact hs.word hword (hbounds k rest).word
    have hat (e : Expr) (he : e ∈ es) (rest : List Char) (s : List Token)
        (hs : Ahead 0 (decoratorText k e ++ rest) s) : ∃ mid, Next .control "@" mid s := by
      simp only [decoratorText, append_assoc] at hs
      exact ⟨_, hs.glyphBefore (by decide) ((hes e he).whole.starts.append _)⟩
    refine ⟨es.flatMap (decoratorText k) ++ (w.toList ++ more k), by rw [htext, decorators_eq], ?_,
      fun rest s hs => ?_, fun src n b m rest hn hb hrest => ?_⟩
    · cases es with
      | nil => simpa using hstarts []
      | cons e es => exact (((Starts.append (by decide) _).append _).append _)
    · cases es with
      | nil => exact .of_next (hnext rest hs) fun _ => hclause
      | cons e es =>
        rw [flatMap_cons, append_assoc, append_assoc] at hs
        obtain ⟨mid, hs⟩ := hat e mem_cons_self _ _ hs
        exact .of_next hs fun _ _ _ => rfl
    · rw [append_assoc]
      have hdecorated : Takes m 1 _
          (parseDecorated src (.ofDepth n src) (.ofDepth src (.ofDepth n src) b) (4 * k))
          (·.viewed = stmt.viewed) (AheadLine rest) :=
        (takes_decorators src hes (by omega) (hstarts rest) fun s hs =>
        .of_next (hnext rest hs) fun _ =>
          rfl).last
          fun es' hes' => .of (hnext rest) (.congr (fun s hs => by
            obtain ⟨pos, s, rfl, -⟩ := hs
            rcases hw with ⟨rfl, rfl⟩ | ⟨rfl, rfl⟩ <;> simp)
              (hparse k src n b es' hn hb hrest hes'))
      refine .congr (q := do
          return [← parseDecorated src (.ofDepth n src) (.ofDepth src (.ofDepth n src) b) (4 * k)])
        (fun s hs => ?_) (hdecorated.bind fun stmt' h => .pure (by rw [map_singleton, h]))
      cases es with
      | nil =>
        obtain ⟨pos, s, rfl, -⟩ := hnext rest hs
        rcases hw with ⟨rfl, -⟩ | ⟨rfl, -⟩ <;>
          simp [parseStatement, parseDecorated, run_many, manyTo, parseDecorator]
      | cons e es =>
        rw [flatMap_cons, append_assoc] at hs
        obtain ⟨_, pos, s, rfl, -⟩ := hat e mem_cons_self _ _ hs
        simp [parseStatement]
  conditional := fun _ _ _ _ h => (hstmt _ _ _ _ h).elim

/-! ## Functions and classes -/

variable {span : Span} {body : List Stmt}

theorem stmtReadable_functionDef {params : Params} (hname : IsName name) (hparams : params.Valid)
    (hdefaults : ∀ e ∈ params.defaults, Readable e) (hbody : ∀ stmt ∈ body, StmtReadable stmt)
    (hne : body ≠ []) (hdecorators : ∀ e ∈ decorators, Readable e) :
    StmtReadable (.functionDef span name params body decorators) := by
  refine .of_definition "def" (fun k =>
    ' ' :: (name.toList ++ ("(".toList ++ ((Print.params params).toList ++
      (")".toList ++ (":\n".toList ++ (Print.block (k + 1) body).toList))))))
        (.inl ⟨rfl, rfl⟩) nofun
    (by rintro k rest _ ⟨⟩; rfl) hdecorators
    (fun k src n b m rest es' hn hb hrest hes' => .keyword fun span' m' hm => ?_) fun k => ?_
  · subst hm
    simp only [cons_append, append_assoc]
    refine .of (fun _ hs => hs.blank)
      (.identifier (fun _ hs => hs.word hname.1 (bounds_append (by decide) _).word) hname.2 ?_)
    refine .expect (fun _ hs => hs.opening (by decide))
      ((takes_params src hparams hdefaults (by omega)).last fun params' hparams' => ?_)
    refine .expect (fun _ hs => Ahead.closing (g := ")") hs (by decide))
      (.notEat (follow_colonLine fun _ => rfl).head ?_)
    exact .block hne hbody (by omega) hb hrest.endsBlock fun body' hbody' =>
      .pure (by simp [hparams', hbody', hes'])
  · rw [Print.stmt, String.toList_append, String.toList_append, Print.toList_line]
    simp only [String.toList_append, append_assoc]
    rfl

def basesText : List Expr → List Char
  | [] => []
  | e :: es =>
    "(".toList ++ ((", ".intercalate ((e :: es).map (Print.expr 1))).toList ++ ")".toList)

theorem stmtReadable_classDef {bases : List Expr} (hname : IsName name)
    (hbases : ∀ e ∈ bases, Readable e) (hbody : ∀ stmt ∈ body, StmtReadable stmt)
    (hne : body ≠ []) (hdecorators : ∀ e ∈ decorators, Readable e) :
    StmtReadable (.classDef span name bases body decorators) := by
  have hbounds (rest : List Char) : Bounds (basesText bases ++ (":\n".toList ++ rest)) := by
    cases bases <;> · rintro _ ⟨⟩; rfl
  refine .of_definition "class" (fun k => ' ' :: (name.toList ++ (basesText bases ++
      (":\n".toList ++ (Print.block (k + 1) body).toList)))) (.inr ⟨rfl, rfl⟩) nofun
    (by rintro k rest _ ⟨⟩; rfl) hdecorators
    (fun k src n b m rest es' hn hb hrest hes' => .keyword fun span' m' hm => ?_) fun k => ?_
  · subst hm
    simp only [cons_append, append_assoc]
    refine .of (fun _ hs => hs.blank) (.identifier (fun _ hs =>
      hs.word hname.1 (hbounds _).word) hname.2 ?_)
    cases bases with
    | nil =>
      refine .notEat (follow_colonLine fun _ => rfl).head (.val ?_)
      exact .block hne hbody (by omega) hb hrest.endsBlock fun body' hbody' =>
        .pure (by simp [hbody', hes'])
    | cons base bases =>
      simp only [basesText, append_assoc]
      refine .eat (fun _ hs => hs.opening (by decide)) ((TakesItem.items (by decide) fun e he =>
        (hbases e he).whole.item src (by omega) ")" fun _ => rfl).last fun bases' hbases' => ?_)
      refine .expect (fun _ hs => Ahead.closing (g := ")") hs (by decide)) (.val ?_)
      exact .block hne hbody (by omega) hb hrest.endsBlock fun body' hbody' =>
        .pure (by simp [hbases', hbody', hes'])
  · cases bases <;> rw [Print.stmt, String.toList_append, String.toList_append,
      Print.toList_line] <;>
      simp only [basesText, isEmpty_nil, isEmpty_cons, Bool.false_eq_true, if_true, if_false,
        String.toList_append,
        append_assoc, nil_append] <;> rfl

end Parse

end BlockScript.Program
