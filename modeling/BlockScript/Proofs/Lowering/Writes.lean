import BlockScript.Proofs.Outline.Order
import BlockScript.Proofs.Alike.Interpreter
import BlockScript.Proofs.Balance.Run

/-! Code that refers to no block: lowering leaves it as it is, but for assignments to one attribute.
A lowered one makes a method of the runtime object, and then evaluates the object before the
value. -/

namespace BlockScript

open Program List

namespace Program

/-! ## Changes that change nothing -/

section

variable {c : Change Unit} {ok : String → Prop}

/-- Expressions whose names are all good stay as they are. -/
def Change.Keeps (c : Change Unit) (ok : String → Prop) : Prop :=
  ∀ e : Expr, (∀ name ∈ e.names, ok name) → c.leave () e = e

theorem Expr.change_eq_self (hc : c.Keeps ok) (e : Expr) (h : ∀ name ∈ e.names, ok name) :
    e.change c () = e := by
  rw [change_eq, inside_eq_self fun x hx => ?_]
  · exact hc e h
  · have := sizeOf_lt_of_mem_children hx
    refine x.change_eq_self hc fun name hname => h name ?_
    rcases e.name_or_ne with ⟨s, y, rfl⟩ | hne
    · cases hx
    · exact (mem_names_iff hne).2 ⟨x, hx, hname⟩
termination_by sizeOf e

end

variable {f : Expr → Expr} {s : Stmt}

theorem Handler.map_mapKind_eq_self {hs : List Handler}
    (h : ∀ e ∈ hs.filterMap Handler.kind, f e = e) : hs.map (Handler.mapKind f) = hs := by
  induction hs with
  | nil => rfl
  | cons handler hs ih =>
    obtain ⟨span, kind, name, body⟩ := handler
    cases kind with
    | none => rw [map_cons, ih h, Handler.mapKind, Option.map_none]
    | some e =>
      obtain ⟨he, hrest⟩ := forall_mem_cons.1 h
      rw [map_cons, ih hrest, Handler.mapKind, Option.map_some, he]

theorem Params.mapDefaults_eq_self {p : Params} (h : ∀ e ∈ p.defaults, f e = e) :
    p.mapDefaults f = p := by
  obtain ⟨args, rest, keywords⟩ := p
  suffices args.map (fun a => { a with default := a.default.map f }) = args by
    rw [mapDefaults, this]
  replace h : ∀ e ∈ args.filterMap Param.default, f e = e := h
  induction args with
  | nil => rfl
  | cons arg args ih =>
    obtain ⟨name, default⟩ := arg
    cases default with
    | none => rw [map_cons, ih h, Option.map_none]
    | some e =>
      obtain ⟨he, hrest⟩ := forall_mem_cons.1 h
      rw [map_cons, ih hrest, Option.map_some, he]

theorem Stmt.mapExprs_eq_self (h : ∀ e ∈ s.exprs, f e = e) : s.mapExprs f = s := by
  have hone : ∀ {e : Option Expr}, (∀ a ∈ e.toList, f a = a) → e.map f = e := by
    rintro (_ | e) he
    · rfl
    · exact congrArg some (he e (mem_singleton_self e))
  have hall : ∀ {es : List Expr}, (∀ a ∈ es, f a = a) → es.map f = es :=
    fun hes => (map_congr_left hes).trans (map_id' _)
  cases s with
  | expr _ e | yieldsFrom _ e | ifElse _ e _ _ | whileLoop _ e _ =>
    rw [mapExprs, h e (mem_singleton_self e)]
  | assign _ targets value =>
    have hparts := forall_mem_append.1 h
    rw [mapExprs, hall hparts.1, hparts.2 value (mem_singleton_self value)]
  | augAssign _ left _ right | forLoop _ left right _ =>
    obtain ⟨hleft, hrest⟩ := forall_mem_cons.1 h
    rw [mapExprs, hleft, hrest right (mem_singleton_self right)]
  | returns _ e | raises _ e | yields _ e => rw [mapExprs, hone h]
  | asserts _ e more | withBlock _ e more _ =>
    obtain ⟨he, hmore⟩ := forall_mem_cons.1 h
    rw [mapExprs, he, hone hmore]
  | tryBlock _ body handlers finalBody => rw [mapExprs, Handler.map_mapKind_eq_self h]
  | functionDef _ name params body decorators =>
    have hparts := forall_mem_append.1 h
    rw [mapExprs, Params.mapDefaults_eq_self hparts.2, hall hparts.1]
  | classDef _ name bases body decorators =>
    have hparts := forall_mem_append.1 h
    rw [mapExprs, hall hparts.1, hall hparts.2]
  | _ => rfl

theorem Stmt.Rebuilt.alike {S : Setting} {t : Stmt} (h : s.Rebuilt (Stmt.AllAlike S) t)
    (hs : s.AllowedBy S) : s.Alike S t := by
  cases h with
  | ifElse hbody horelse => exact .ifElse hs hbody horelse
  | whileLoop hbody => exact .whileLoop hs hbody
  | forLoop hbody => exact .forLoop hs hbody
  | withBlock hbody => exact .withBlock hs hbody
  | functionDef hbody => exact .functionDef hs hbody
  | classDef hbody => exact .classDef hs hbody
  | tryBlock hbody hhandlers hfinal =>
    refine .tryBlock hs hbody ?_ hfinal
    clear hs
    induction hhandlers with
    | nil => exact .nil
    | cons hh _ ih =>
      cases hh with
      | mk hinner => exact .cons hinner ih
  | plain hblocks =>
    have hplain : s.isPlain = true := by
      cases s <;> first | rfl | cases hblocks
    exact .plain hplain hs

end Program

namespace Compile

/-! ## Lowering plain code -/

/-- A statement that refers to no block and does not name the runtime object. Not to bind its name
would not do: code that has the object can put another value in its place through it. -/
structure IsPlain (rt : String) (closures : ClosureRegistry) (s : Stmt) : Prop where
  closures : ∀ e ∈ s.exprs, ∀ name ∈ e.names, closures.get? name = none
  runtime : ∀ e ∈ s.exprs, rt ∉ e.names
  declares : rt ∉ s.declares

def isPropertyWrite : Stmt → Bool
  | .assign _ [.attribute ..] _ => true
  | _ => false

open Classical in
/-- One run has plain code and the other has it lowered. The assignments to attributes satisfy
`P`. -/
noncomputable def loweringOf (rt : String) (o : ObjectRef) (P : Stmt → Prop) : Setting where
  hidden? := some (rt, o)
  special? s := if isPropertyWrite s ∧ P s then some (lowerAssign rt s) else none

variable {rt : String} {closures : ClosureRegistry} {o : ObjectRef} {P : Stmt → Prop} {s : Stmt}

theorem allows_iff {name : String} : (loweringOf rt o P).Allows name ↔ name ≠ rt := by
  simp [Setting.Allows, loweringOf]

theorem lowering_keeps : (lowering rt closures).Keeps (closures.get? · = none) := by
  intro e he
  change lowerCall rt closures e = e
  unfold lowerCall
  split
  · next span target _ id =>
    have hid : closures.get? id = none := he id (by simp [Expr.names, namesInArgs, Arg.names])
    rw [hid]
    rfl
  · rfl

/-- What lowering does to a statement, after its blocks. -/
def lowerStmt (rt : String) (closures : ClosureRegistry) (s : Stmt) : Stmt :=
  lowerAssign rt (s.mapExprs (Expr.change (lowering rt closures) ()))

theorem lowerStmt_eq (h : ∀ e ∈ s.exprs, ∀ name ∈ e.names, closures.get? name = none) :
    lowerStmt rt closures s = lowerAssign rt s := by
  rw [lowerStmt, Stmt.mapExprs_eq_self fun e he => Expr.change_eq_self lowering_keeps e (h e he)]

theorem IsPlain.exprs (h : IsPlain rt closures s) : ∀ e ∈ s.exprs, (loweringOf rt o P).AllowsIn e :=
  fun e he _ hname => allows_iff.2 fun heq => h.runtime e he (heq ▸ hname)

theorem IsPlain.allowedBy (h : IsPlain rt closures s) (hs : isPropertyWrite s = false) :
    s.AllowedBy (loweringOf rt o P) where
  kept := by simp [loweringOf, hs]
  exprs := h.exprs
  declares _ hname := allows_iff.2 fun heq => h.declares (heq ▸ hname)

theorem lowerAssign_eq_self (hs : isPropertyWrite s = false) : lowerAssign rt s = s := by
  unfold lowerAssign
  split
  · cases hs
  · rfl

theorem alike_lowerStmt {t : Stmt} (ht : s.Rebuilt (Stmt.AllAlike (loweringOf rt o P)) t)
    (h : IsPlain rt closures s) (hP : isPropertyWrite s = true → P s) :
    s.Alike (loweringOf rt o P) (lowerStmt rt closures t) := by
  rw [lowerStmt_eq (ht.exprs_eq ▸ h.closures)]
  cases hs : isPropertyWrite s with
  | false =>
    have hwrite : isPropertyWrite t = false := by
      cases ht <;> first | rfl | exact hs
    rw [lowerAssign_eq_self hwrite]
    exact ht.alike (h.allowedBy hs)
  | true =>
    have hself : t = s := by
      cases ht <;> first | rfl | cases hs
    rw [hself]
    have hspecial : (loweringOf rt o P).special? s = some (lowerAssign rt s) :=
      if_pos ⟨hs, hP hs⟩
    refine .special hspecial h.exprs ?_ ?_
    all_goals
      unfold isPropertyWrite at hs
      split at hs
      · rfl
      · cases hs

theorem allAlike_of_changeWith {S : Setting} {f : Stmt → Stmt} {ss : List Stmt}
    (h : ∀ s ∈ ss, s.Alike S (s.changeWith f)) : Stmt.AllAlike S ss (changeBlock f ss) := by
  induction ss with
  | nil => exact .nil
  | cons s ss ih =>
    rw [forall_mem_cons] at h
    exact .cons h.1 (ih h.2)

theorem alike_changeWith (s : Stmt)
    (h : ∀ t ∈ s.within, IsPlain rt closures t ∧ (isPropertyWrite t = true → P t)) :
    s.Alike (loweringOf rt o P) (s.changeWith (lowerStmt rt closures)) := by
  induction s using Stmt.blocks_induction with
  | _ s ih =>
    rw [Stmt.within_eq, forall_mem_cons] at h
    obtain ⟨t, ht, hrebuilt⟩ := Stmt.exists_of_changeWith
      (R := Stmt.AllAlike (loweringOf rt o P)) (lowerStmt rt closures) fun b hb =>
        allAlike_of_changeWith fun u hu => ih b hb u hu fun x hx =>
          h.2 x (mem_flatMap.2 ⟨b, hb, Stmt.within_subset hu hx⟩)
    rw [ht]
    exact alike_lowerStmt hrebuilt h.1.1 h.1.2

/-- Lowering plain code changes assignments to attributes and nothing else. -/
theorem allAlike_lower {module : Module}
    (h : ∀ s ∈ Stmt.withinAll module, IsPlain rt closures s ∧ (isPropertyWrite s = true → P s)) :
    Stmt.AllAlike (loweringOf rt o P) module (lower rt closures module) :=
  allAlike_of_changeWith fun s hs => alike_changeWith s fun t ht => h t (Stmt.within_subset hs ht)

end Compile

variable {S : Setting} {w : World}

/-! ## The hidden name -/

namespace Machine.Alike

variable {m m' : Machine} {marks : Marks} {name : String} {o : ObjectRef}

theorem var?_hidden (hm : m.Alike S w m' marks) (ho : S.hidden? = some (name, o)) {r : FrameRef}
    {v : Value} (hv : m'.heap.var? r name = some v) : v = .object o := by
  have hfound := hm.heap.var?_all r name
  rw [hv] at hfound
  generalize m.heap.var? r name = found at hfound
  cases hfound with
  | some hv =>
    rcases hv with ⟨hallows, -⟩ | ⟨-, o', ho', -, rfl⟩
    · exact absurd rfl (hallows _ ho)
    · rw [ho] at ho'
      cases ho'
      rfl

theorem outerVar?_hidden (hm : m.Alike S w m' marks) (ho : S.hidden? = some (name, o)) {env : Env}
    (henv : w.globals ∈ env) : m'.heap.outerVar? name env = some (.object o) := by
  induction env with
  | nil => cases henv
  | cons r rest ih =>
    rw [Heap.outerVar?]
    cases henv with
    | head =>
      rw [if_neg (by rw [w.kind_globals]; decide), (hm.heap.hidden _ _ ho).2]
      rfl
    | tail _ hrest =>
      split
      · exact ih hrest
      · cases hv : m'.heap.var? r name with
        | none => exact ih hrest
        | some v => rw [hm.var?_hidden ho hv]; rfl

theorem name?_hidden (hm : m.Alike S w m' marks) (ho : S.hidden? = some (name, o)) :
    m'.name? name = some (.object o) := by
  have hglobal : m'.global? name = some (.object o) := by
    rw [Machine.global?, hm.globals']
    exact (hm.heap.hidden _ _ ho).2
  unfold Machine.name?
  split
  · rw [hglobal]
    rfl
  · cases hv : m'.heap.var? m'.frame name with
    | some v =>
      rw [hm.var?_hidden ho hv]
      rfl
    | none =>
      -- The running frame is not the module, so the module is among those around it.
      have henv := hm.env.module
      rw [← hm.env_eq] at henv
      unfold Machine.frame at hv
      generalize m'.env = env at henv hv ⊢
      cases henv with
      | head =>
        have := (hm.heap.hidden _ _ ho).2
        rw [headD_cons, this] at hv
        cases hv
      | tail _ hrest =>
        rw [Option.orElse_none, tail_cons, hm.outerVar?_hidden ho hrest]
        rfl

end Machine.Alike

/-! ## Writing -/

theorem Run.bind_congr {α β : Type} {p q : Run α} {f : α → Run β} {m : Machine} (h : p m = q m) :
    (p >>= f) m = (q >>= f) m := by
  change EStateM.bind p f m = EStateM.bind q f m
  rw [EStateM.bind, EStateM.bind, h]

namespace Evaluator

/-- Assign to an attribute from left to right: the object is evaluated before the value. -/
def writeProperty (ev : Evaluator) (object : Expr) (name : String) (value : Expr) : Run Flow := do
  let target ← ev.eval object
  let v ← ev.eval value
  ev.setProperty target name v
  return .normal

/-- Execute statements as usual but for assignments to one attribute, from left to right. -/
def execObjectFirst (ev : Evaluator) : Stmt → Run Flow
  | .assign _ [.attribute _ object name] value => ev.writeProperty object name value
  | stmt => ev.execStmt stmt

theorem execObjectFirst_of_not_write {ev : Evaluator} {s : Stmt}
    (hs : Compile.isPropertyWrite s = false) : ev.execObjectFirst s = ev.execStmt s := by
  unfold execObjectFirst
  split
  · cases hs
  · rfl

/-- Only the objects of the application have a say in a property. -/
theorem setProperty_congr {ev ev' : Evaluator} (h : ev.host = ev'.host) :
    ev.setProperty = ev'.setProperty := by
  funext target name v
  unfold setProperty setAttr
  rw [h]

section

variable {host : Host} {n : Nat} {m : Machine} {rt : String} {o : ObjectRef}

theorem eval_setObjectProperty (hname : m.name? rt = some (.object o)) (ho : o.kind = .runtime)
    (span : Span) :
    (ofDepth host (n + 2)).eval ((Expr.name span rt).attr "set_object_property") m =
      (do return .method (← Run.fresh) (.object o) (.named "set_object_property") : Run Value)
        m := by
  have hload : loadName rt m = .ok (.object o) m := by
    rw [loadName, Run.get_bind]
    simp only [hname]
    rfl
  change ((ofDepth host (n + 1)).eval (.name span rt) >>= fun v =>
    (ofDepth host (n + 1)).getAttr v "set_object_property") m = _
  have heval : (ofDepth host (n + 1)).eval (.name span rt) m = (pure (.object o) : Run Value) m :=
    hload
  rw [Run.bind_congr heval, pure_bind]
  obtain ⟨index, kind⟩ := o
  cases ho
  rfl

theorem call_setObjectProperty (ho : o.kind = .runtime) (id : Nat) (target v : Value)
    (name : String) :
    (ofDepth host (n + 1)).call (.method id (.object o) (.named "set_object_property"))
        { positional := [target, .str name, v] } =
      (do (ofDepth host n).setProperty target name v; return .none : Run Value) := by
  obtain ⟨index, kind⟩ := o
  cases ho
  rfl

theorem execStmt_lowerAssign (hname : m.name? rt = some (.object o)) (ho : o.kind = .runtime)
    (s span : Span) (object : Expr) (name : String) (value : Expr) :
    (ofDepth host (n + 3)).execStmt
        (Compile.lowerAssign rt (.assign s [.attribute span object name] value)) m =
      (do let _ ← Run.fresh; (ofDepth host (n + 2)).writeProperty object name value : Run Flow)
        m := by
  have hargs : ([object, .str span name, value].map Arg.positional).foldlM
        (ofDepth host (n + 2)).addArg {} = (do
      let target ← (ofDepth host (n + 2)).eval object
      let v ← (ofDepth host (n + 2)).eval value
      return { positional := [target, .str name, v] } : Run Args) := by
    have hconst : (ofDepth host (n + 2)).eval (.str span name) = pure (.str name) := rfl
    simp only [map_cons, map_nil, foldlM_cons, foldlM_nil, addArg, hconst,
      bind_assoc, pure_bind, nil_append, cons_append, bind_pure]
  have hproperty : (ofDepth host (n + 1)).setProperty = (ofDepth host (n + 2)).setProperty :=
    setProperty_congr rfl
  change (((ofDepth host (n + 2)).eval ((Expr.name span rt).attr "set_object_property") >>=
    fun callee => ([object, .str span name, value].map Arg.positional).foldlM
        (ofDepth host (n + 2)).addArg {} >>= fun args =>
      (ofDepth host (n + 2)).call callee args) >>= fun _ => pure Flow.normal) m = _
  rw [bind_assoc, Run.bind_congr (eval_setObjectProperty hname ho span), hargs]
  simp only [bind_assoc, pure_bind, call_setObjectProperty ho, hproperty, writeProperty]

/-- It needs three levels of recursion to get to the operands. -/
theorem execStmt_lowerAssign_exhausted (hn : n < 3) (s span : Span) (object : Expr) (name : String)
    (value : Expr) : (ofDepth host n).execStmt
        (Compile.lowerAssign rt (.assign s [.attribute span object name] value)) m =
      .error .exhausted m := by
  match n, hn with
  | 0, _ | 1, _ | 2, _ => rfl

end

end Evaluator

/-! ## Alike writes -/

section

variable {S : Pairing}

/-- The second run gives out an identity that the first has no use for. -/
theorem Run.Alike.fresh_right {α β : Type} {Q : World → α → β → Prop} {p : Run α} {q : Run β}
    (h : Run.Alike S w.skip Q p q) : Run.Alike S w Q p (Run.fresh >>= fun _ => q) := by
  intro m m' hm
  have hlater : m.heap.Alike S w.skip { m'.heap with fresh := m'.heap.fresh + 1 } := by
    have hlater := hm.heap.later w.le_skip rfl
    change Heap.Alike S w.skip { m.heap with fresh := w.first } _ at hlater
    rw [← hm.heap.fresh] at hlater
    rw [hm.heap.fresh']
    exact hlater
  exact (h m _ (hm.withHeap w.le_skip hlater)).le w.le_skip

namespace Evaluator.Alike

variable {ev ev' : Evaluator} {object value : Expr}

theorem writeProperty (he : ev.Alike S ev') (hobject : S.AllowsIn object)
    (hvalue : S.AllowsIn value) (name : String) :
    Run.Alike S w (Flow.Alike S) (ev.writeProperty object name value)
      (ev'.writeProperty object name value) := by
  refine .bind (he.eval w hobject) fun w1 _ target target' htarget => ?_
  refine .bind (he.eval w1 hvalue) fun w2 hw v v' hv => ?_
  exact .andThen (he.setProperty (htarget.mono hw) name hv) fun _ _ => .pure .normal

theorem lowerAssign {host : Host} {n : Nat} {rt : String} {o : ObjectRef}
    (he : ev.Alike S (ofDepth host (n + 2))) (hhidden : S.hidden? = some (rt, o))
    (ho : o.kind = .runtime) (s span : Span) (hobject : S.AllowsIn object)
    (hvalue : S.AllowsIn value) (name : String) :
    Run.Alike S w (Flow.Alike S) (ev.writeProperty object name value)
      ((ofDepth host (n + 3)).execStmt
        (Compile.lowerAssign rt (.assign s [.attribute span object name] value))) := by
  intro m m' hm
  rw [execStmt_lowerAssign (hm.name?_hidden hhidden) ho]
  exact Run.Alike.fresh_right (he.writeProperty hobject hvalue name) m m' hm

end Evaluator.Alike

end

end BlockScript
