import BlockScript.Eval.Attribute
import BlockScript.Format.Percent
import BlockScript.Proofs.Alike.Equality

/-! Alike values have the same text. -/

namespace BlockScript

variable {S : Setting} {w : World} {v v' : Value}

/-! ## Values as text -/

inductive Piece.Alike (S : Setting) (w : World) : Piece → Piece → Prop
  | text (s : String) : Piece.Alike S w (.text s) (.text s)
  | value {v v' : Value} : v.Alike S w v' → Piece.Alike S w (.value v) (.value v')

theorem Value.Alike.showBy_eq {leaf leaf' : Bool → Value → String}
    (hleaf : ∀ quoted v v', Value.Alike S w v v' → leaf' quoted v' = leaf quoted v)
    (hv : v.Alike S w v')
    (quoted : Bool) : v'.showBy leaf' quoted = v.showBy leaf quoted := by
  have h : Hereditary S w fun v v' => ∀ quoted, v'.showBy leaf' quoted = v.showBy leaf quoted := by
    refine ⟨fun {_ _ items items'} _ hvs hs quoted => ?_, fun hv hnot quoted => ?_⟩
    · have hall : showAllBy leaf' items' = showAllBy leaf items := by
        clear hvs
        induction hs with
        | nil => rfl
        | cons hv _ ih => rw [showAllBy, showAllBy, hv, ih]
      cases hs with
      | nil => rfl
      | cons hv hs =>
        cases hs with
        | nil => rw [showBy, showBy, hv]
        | cons => rw [showBy.eq_2 _ _ _ _ (by simp), showBy.eq_2 _ _ _ _ (by simp), hall]
    · have hother := hleaf quoted _ _ hv
      cases hv <;> first
        | exact hother
        | exact (hnot _ _ rfl).elim
  exact h.all hv quoted

theorem Function.Alike.name_eq {f f' : Function} (h : f.Alike S w f') : f'.name = f.name := by
  cases h
  rfl

theorem Method.Alike.name_eq {m m' : Method} (h : m.Alike S w m') : m'.name = m.name := by
  cases h with
  | function hf => exact hf.name_eq
  | _ => rfl

variable {α β : Type} {R : α → β → Prop} {as : List α} {bs : List β}

theorem map_eq_of_forall₂ {γ : Type} {f : α → γ} {g : β → γ} (hfg : ∀ a b, R a b → g b = f a)
    (h : List.Forall₂ R as bs) : bs.map g = as.map f := by
  induction h with
  | nil => rfl
  | cons hab _ ih => rw [List.map_cons, List.map_cons, hfg _ _ hab, ih]

theorem Heap.Alike.showTo_eq {h h' : Heap} (hh : h.Alike S w h')
    {pieces pieces' : ObjectRef → List Piece}
    (hp : ∀ o, S.Shows o → List.Forall₂ (Piece.Alike S w) (pieces o) (pieces' o)) (n : Nat)
    (active : List Container) (quoted : Bool) (hv : v.Alike S w v') :
    h'.showTo pieces' n active quoted v' = h.showTo pieces n active quoted v := by
  induction n generalizing active quoted v v' with
  | zero => rfl
  | succ n ih =>
    rw [Heap.showTo, Heap.showTo]
    refine Value.Alike.showBy_eq (fun quoted v v' hv => ?_) hv quoted
    cases hv with
    | bool b => cases b <;> rfl
    | list r =>
      dsimp only
      rw [map_eq_of_forall₂ (fun _ _ hv => ih (.list r :: active) true hv) (hh.list r)]
    | dict r =>
      dsimp only
      rw [map_eq_of_forall₂ (fun e e' he => ?_) (hh.dict r)]
      obtain ⟨k, v⟩ := e
      obtain ⟨k', v'⟩ := e'
      obtain ⟨rfl, hv⟩ := he
      exact congrArg _ (ih (.dict r :: active) true hv)
    | space r =>
      dsimp only
      rw [map_eq_of_forall₂ (fun e e' he => ?_) (hh.space r)]
      obtain ⟨k, v⟩ := e
      obtain ⟨k', v'⟩ := e'
      obtain ⟨rfl, hv⟩ := he
      exact congrArg _ (ih (.space r :: active) true hv)
    | function hf =>
      dsimp only
      rw [hf.name_eq]
    | closure hf =>
      dsimp only
      rw [hf.name_eq]
    | method _ hv hm =>
      dsimp only
      rw [hv.typeName_eq, hm.name_eq]
    | inst r c =>
      have hmessage := (hh.inst r).get? "message"
      have hexception := hh.classAttr? c "__exception__"
      dsimp only
      generalize (h.inst r).get? "message" = found, (h'.inst r).get? "message" = found',
        h.classAttr? c "__exception__" = mark, h'.classAttr? c "__exception__" = mark'
        at hmessage hexception
      cases hmessage with
      | none => rfl
      | some hm =>
        cases hexception with
        | none => rfl
        | some _ => exact ih active false hm
    | @object o ho =>
      dsimp only
      rw [map_eq_of_forall₂ (fun piece piece' he => ?_) (hp o ho)]
      cases he with
      | text s => rfl
      | value hv => exact ih active true hv
    | _ => rfl

theorem isEmpty_eq_of_forall₂ (h : List.Forall₂ R as bs) : bs.isEmpty = as.isEmpty := by
  cases h <;> rfl

theorem rel_getElem? (h : List.Forall₂ R as bs) (i : Nat) : Option.Rel R as[i]? bs[i]? := by
  induction h generalizing i with
  | nil => exact .none
  | cons hab _ ih =>
    cases i with
    | zero => exact .some hab
    | succ i => exact ih i

structure View.Alike (S : Setting) (w : World) (view view' : View) : Prop where
  heap : view.heap.Alike S w view'.heap
  pieces : ∀ o, S.Shows o → List.Forall₂ (Piece.Alike S w) (view.pieces o) (view'.pieces o)

namespace View.Alike

variable {view view' : View} {v v' : Value}

theorem display_eq (hview : view.Alike S w view') (hv : v.Alike S w v') :
    view'.display v' = view.display v := by
  rw [View.display, View.display, Heap.display, Heap.display, Heap.chainLimit, Heap.chainLimit,
    hview.heap.size_eq]
  exact hview.heap.showTo_eq hview.pieces _ _ _ hv

theorem repr_eq (hview : view.Alike S w view') (hv : v.Alike S w v') :
    view'.repr v' = view.repr v := by
  rw [View.repr, View.repr, Heap.repr, Heap.repr, Heap.chainLimit, Heap.chainLimit,
    hview.heap.size_eq]
  exact hview.heap.showTo_eq hview.pieces _ _ _ hv

theorem truthy_eq (hview : view.Alike S w view') (hv : v.Alike S w v') :
    view'.truthy v' = view.truthy v := by
  cases hv with
  | list r => exact congrArg (!·) (isEmpty_eq_of_forall₂ (hview.heap.list r))
  | tuple _ hitems => exact congrArg (!·) (isEmpty_eq_of_forall₂ hitems)
  | dict r => exact congrArg (!·) (OrderedMap.AlikeBy.isEmpty_eq (hview.heap.dict r))
  | _ => rfl

end View.Alike

/-! ## Arguments -/

structure Args.Alike (S : Setting) (w : World) (a a' : Args) : Prop where
  positional : List.Forall₂ (Value.Alike S w) a.positional a'.positional
  keywords : MapAlike.Entries S w a.keywords a'.keywords

namespace Args.Alike

variable {w' : World} {a a' : Args}

theorem mono (hw : w ≤ w') (h : a.Alike S w a') : a.Alike S w' a' :=
  ⟨Value.Alike.mono_all hw h.positional, h.keywords.imp fun _ _ he => ⟨he.1, he.2.mono hw⟩⟩

theorem get? (h : a.Alike S w a') (i : Nat) :
    Option.Rel (Value.Alike S w) (a.get? i) (a'.get? i) := rel_getElem? h.positional i

theorem get (h : a.Alike S w a') (i : Nat) : (a.get i).Alike S w (a'.get i) := by
  rw [Args.get, Args.get]
  match a.get? i, a'.get? i, h.get? i with
  | _, _, .none => exact .none
  | _, _, .some hv => exact hv

theorem keyword? (h : a.Alike S w a') (name : String) :
    Option.Rel (Value.Alike S w) (a.keyword? name) (a'.keyword? name) := by
  have hk := h.keywords
  rw [Args.keyword?, Args.keyword?]
  generalize a.keywords = entries, a'.keywords = entries' at hk
  induction hk with
  | nil => exact .none
  | @cons e e' es es' he _ ih =>
    obtain ⟨k, v⟩ := e
    obtain ⟨k', v'⟩ := e'
    obtain ⟨rfl, hv⟩ := he
    rw [List.find?_cons, List.find?_cons]
    dsimp only
    cases k' == name with
    | true => exact .some hv
    | false => exact ih

theorem dropKeyword (h : a.Alike S w a') (name : String) :
    (a.dropKeyword name).Alike S w (a'.dropKeyword name) := by
  refine ⟨h.positional, ?_⟩
  have hk := h.keywords
  rw [Args.dropKeyword, Args.dropKeyword]
  dsimp only
  generalize a.keywords = entries, a'.keywords = entries' at hk
  induction hk with
  | nil => exact .nil
  | @cons e e' es es' he hes ih =>
    obtain ⟨k, v⟩ := e
    obtain ⟨k', v'⟩ := e'
    obtain ⟨rfl, hv⟩ := he
    rw [List.eraseP_cons, List.eraseP_cons]
    dsimp only
    cases k' == name with
    | true => exact hes
    | false => exact .cons ⟨rfl, hv⟩ ih

theorem cons (hv : v.Alike S w v') (h : a.Alike S w a') :
    (a.cons v).Alike S w (a'.cons v') := ⟨.cons hv h.positional, h.keywords⟩

theorem of_positional {vs vs' : List Value} (h : Values.Alike S w vs vs') :
    Args.Alike S w { positional := vs } { positional := vs' } := ⟨h, .nil⟩

theorem isEmpty_eq (h : a.Alike S w a') : a'.isEmpty = a.isEmpty := by
  obtain ⟨vs, es⟩ := a
  obtain ⟨vs', es'⟩ := a'
  obtain ⟨hp, hk⟩ := h
  cases hp <;> cases hk <;> rfl

/-- A check of the number of arguments stops both runs or neither. -/
theorem checked {S : Pairing} {β : Type} {Q : World → α → β → Prop} {p : Run α} {q : Run β}
    {function : String} {least greatest : Nat} (h : a.Alike S w a') (hpq : Run.Alike S w Q p q) :
    Run.Alike S w Q (do a.check function least greatest; p)
      (do a'.check function least greatest; q) := by
  obtain ⟨vs, es⟩ := a
  obtain ⟨vs', es'⟩ := a'
  obtain ⟨hp, hk⟩ := h
  refine .read_bind_eq ?_ fun _ => hpq
  unfold Args.check
  dsimp only at hp hk ⊢
  rw [← hp.length_eq]
  cases hk with
  | nil =>
    dsimp only
    split
    · exact .fail rfl
    · exact .pure rfl
  | @cons e e' _ _ he _ =>
    obtain ⟨k, v⟩ := e
    obtain ⟨k', v'⟩ := e'
    obtain ⟨rfl, -⟩ := he
    exact fun _ _ _ => ⟨.error _, .error _, rfl, rfl, .error (.same rfl)⟩

end Args.Alike

/-! ## Formatting -/

/-- A result, or an error that carries no value. -/
inductive Except.IsPlain {α : Type} : Except RuntimeError α → Prop
  | ok (a : α) : IsPlain (.ok a)
  | error {e : RuntimeError} : e.isRaised = false → IsPlain (.error e)

theorem ExceptAlike.of_eq {x y : Except RuntimeError α} (h : y = x) (hx : Except.IsPlain x) :
    ExceptAlike S w Eq x y := by
  cases h
  cases hx with
  | ok a => exact .ok rfl
  | error he => exact .error (.same he)

namespace Format

variable {view view' : View} {v v' : Value}

theorem body_plain (view : View) (s : Spec) (v : Value) : Except.IsPlain (body view s v) := by
  unfold body
  dsimp only
  repeat' split
  all_goals first
    | exact .ok _
    | exact .error rfl

variable (hview : view.Alike S w view')

include hview

theorem value_alike (hv : v.Alike S w v') (spec : List Char) :
    ExceptAlike S w Eq (value view v spec) (value view' v' spec) := by
  have hbody (s : Spec) : body view' s v' = body view s v := by
    unfold body
    rw [hv.asFloat?_eq, hv.asInt?_eq, hv.typeName_eq, hview.display_eq hv]
    cases hv <;> rfl
  unfold value
  rw [hview.display_eq hv, hv.isNumber_eq]
  split
  · exact .ok rfl
  · split
    · exact .error (.same rfl)
    · next s _ =>
      exact (ExceptAlike.of_eq (hbody s) (body_plain view s v)).map fun _ _ h => congrArg _ h

variable {args args' : Args} {rest rest' : List Value}

omit hview in
theorem Field.value?_alike (ha : args.Alike S w args') (f : Field) (auto : Nat) :
    Option.Rel (Value.Alike S w) (f.value? args auto) (f.value? args' auto) := by
  unfold Field.value?
  split
  · exact ha.get? auto
  · split
    · exact ha.get? _
    · exact ha.keyword? _

theorem Field.format_alike (ha : args.Alike S w args') (f : Field) (auto : Nat) :
    ExceptAlike S w Eq (f.format view args auto) (f.format view' args' auto) := by
  unfold Field.format
  match f.value? args auto, f.value? args' auto, f.value?_alike ha auto with
  | _, _, .none => exact .error (.same rfl)
  | _, _, .some hv =>
    dsimp only
    split
    · rw [hview.repr_eq hv]
      exact value_alike hview (.str _) _
    · exact value_alike hview hv _

omit hview in
theorem templateFrom_field (view : View) (args : Args) (auto : Nat) {cs : List Char} {c : Char}
    {rest : List Char} (hopen : ∀ cs', cs = '{' :: cs' → False)
    (hclose : cs.dropWhile (· != '}') = c :: rest) :
    templateFrom view args auto ('{' :: cs) = (do
      let field := Field.ofText (cs.takeWhile (· != '}'))
      let text ← field.format view args auto
      return text ++ (← templateFrom view args
        (if field.name.isEmpty then auto + 1 else auto) rest)) := by
  rw [templateFrom]
  · split
    · next h => cases hclose.symm.trans h
    · next h =>
      cases hclose.symm.trans h
      rfl
  · exact hopen

theorem templateFrom_alike (ha : args.Alike S w args') (auto : Nat) (cs : List Char) :
    ExceptAlike S w Eq (templateFrom view args auto cs) (templateFrom view' args' auto cs) := by
  fun_induction templateFrom view args auto cs with
  | case1 =>
    rw [templateFrom]
    exact .ok rfl
  | case2 auto cs ih | case3 auto cs ih =>
    rw [templateFrom]
    exact ih.bind fun _ _ h => .ok (congrArg _ h)
  | case4 auto cs hopen hclose =>
    rw [templateFrom]
    · split
      · exact .error (.same rfl)
      · next h => cases hclose.symm.trans h
    · exact hopen
  | case5 auto cs hopen c rest hclose field ih =>
    rw [templateFrom_field view' args' auto hopen hclose]
    refine (field.format_alike hview ha auto).bind fun text _ htext => ?_
    cases htext
    exact ih.bind fun _ _ h => .ok (congrArg _ h)
  | case6 auto cs hclose =>
    rw [templateFrom]
    · exact .error (.same rfl)
    · exact hclose
  | case7 auto c cs h1 h2 h3 h4 ih =>
    rw [templateFrom]
    · exact ih.bind fun _ _ h => .ok (congrArg _ h)
    all_goals assumption

theorem template_alike (ha : args.Alike S w args') (cs : List Char) :
    ExceptAlike S w Eq (template view cs args) (template view' cs args') :=
  templateFrom_alike hview ha 0 cs

omit hview in
theorem orOverflow_plain (w : Option Int64) : Except.IsPlain (Number.orOverflow w) := by
  cases w with
  | some w => exact .ok w
  | none => exact .error rfl

omit hview in
theorem truncate_plain (f : Float) (text : String) : Except.IsPlain (Number.truncate f text) := by
  unfold Number.truncate
  split
  · exact orOverflow_plain _
  · exact .error rfl

theorem Directive.format_alike (hv : v.Alike S w v') (d : Directive) :
    ExceptAlike S w Eq (d.format view v) (d.format view' v') := by
  unfold Directive.format
  rw [hview.display_eq hv, hview.repr_eq hv]
  split
  · exact value_alike hview (.str _) _
  · exact value_alike hview (.str _) _
  iterate 3
    · cases hv
      case float f =>
        exact ((ExceptAlike.of_eq rfl (truncate_plain f _)).map fun _ _ h => h ▸ .int _).bind
          fun _ _ hv => value_alike hview hv _
      all_goals
        refine value_alike hview ?_ _
        constructor <;> assumption
  · split
    · exact value_alike hview hv _
    · exact .error (.same rfl)

theorem Directive.pick_alike (hv : v.Alike S w v') (hrest : Values.Alike S w rest rest')
    (d : Directive) : ExceptAlike S w (fun p p' => p.1.Alike S w p'.1 ∧ Values.Alike S w p.2 p'.2)
      (d.pick view v rest) (d.pick view' v' rest') := by
  unfold Directive.pick
  split
  · next name _ =>
    cases hv with
    | dict r =>
      dsimp only
      match (view.heap.dict r).get? (.str (String.ofList name)),
        (view'.heap.dict r).get? (.str (String.ofList name)),
          (hview.heap.dict r).get? (.str (String.ofList name)) with
      | _, _, .none => exact .error (.same rfl)
      | _, _, .some hv => exact .ok ⟨hv, hrest⟩
    | _ => exact .error (.same rfl)
  · cases hrest with
    | nil => exact .error (.same rfl)
    | cons hv hrest => exact .ok ⟨hv, hrest⟩

theorem percentFrom_alike (hv : v.Alike S w v') (hrest : Values.Alike S w rest rest')
    (template : List Char) :
    ExceptAlike S w Eq (percentFrom view v rest template)
      (percentFrom view' v' rest' template) := by
  fun_induction percentFrom view v rest template generalizing rest' with
  | case1 rest hempty =>
    rw [percentFrom, isEmpty_eq_of_forall₂ hrest, if_pos hempty]
    exact .ok rfl
  | case2 rest hempty =>
    rw [percentFrom, isEmpty_eq_of_forall₂ hrest, if_neg hempty]
    exact .error (.same rfl)
  | case3 rest cs ih =>
    rw [percentFrom]
    exact (ih hrest).bind fun _ _ h => .ok (congrArg _ h)
  | case4 rest cs hopen hread =>
    rw [percentFrom]
    · split
      · exact .error (.same rfl)
      · next h => cases hread.symm.trans h
    · exact hopen
  | case5 rest cs hopen d after hread ih =>
    rw [percentFrom]
    · split
      · next h => cases hread.symm.trans h
      · next h =>
        cases hread.symm.trans h
        refine (d.pick_alike hview hv hrest).bind fun p p' hp => ?_
        refine (d.format_alike hview hp.1).bind fun text _ htext => ?_
        cases htext
        exact (ih _ hp.2).bind fun _ _ h => .ok (congrArg _ h)
    · exact hopen
  | case6 rest c cs h1 h2 ih =>
    rw [percentFrom]
    · exact (ih hrest).bind fun _ _ h => .ok (congrArg _ h)
    all_goals assumption

theorem percent_alike (hv : v.Alike S w v') (template : List Char) :
    ExceptAlike S w Eq (percent view template v) (percent view' template v') := by
  have hall := hv
  unfold percent
  cases hv with
  | tuple _ hitems => exact percentFrom_alike hview hall hitems template
  | dict => exact percentFrom_alike hview hall .nil template
  | _ => exact percentFrom_alike hview hall (.cons hall .nil) template

end Format

end BlockScript
