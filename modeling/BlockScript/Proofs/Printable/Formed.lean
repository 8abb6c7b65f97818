import BlockScript.Proofs.Outline.Order
import BlockScript.Proofs.Visibility.Names

/-! The form of programs apart from their names. A program is formed if it can be written as soon as
its names can; a change of expressions that turns names into names or subscripts, and calls into
calls, keeps that. -/

namespace BlockScript.Program

open List

/-! ## Expressions -/

variable {e x : Expr}

namespace Expr

/-- An expression that can be written, if the names in it can. -/
inductive Formed : Expr → Prop where
  | name (s : Span) (id : String) : Formed (name s id)
  | intro {e : Expr} (shape : e.Shape) (operands : ∀ x ∈ e.operands, Formed x) : Formed e

theorem Valid.formed (h : e.Valid) : e.Formed := by
  induction h with
  | intro shape _ ih => exact .intro shape ih

theorem Formed.operand (h : e.Formed) (hx : x ∈ e.operands) : x.Formed := by
  cases h with
  | name => cases hx
  | intro _ operands => exact operands x hx

/-- Where literals are not seen, an expression is read back only if its names are names. -/
theorem Formed.valid [View] (hview : View.literals = false) (h : e.Formed) (hkept : e.Kept) :
    e.Valid := by
  induction h with
  | name s id =>
    have hname : IsName id := by
      simpa [IsRead, hview, isMisprinted] using hkept.isRead
    exact .intro hname fun x hx => by cases hx
  | intro shape _ ih => exact .intro shape fun x hx => ih x hx (hkept.operand hx)

/-- Slices and tuples, which have a form of their own between the brackets of a subscript. -/
def isRow : Expr → Bool
  | tuple .. | slice .. => true
  | _ => false

theorem bounds_of_not_isRow (h : e.isRow = false) : e.bounds = [e] := by
  cases e <;> first | rfl | cases h

theorem indexOperands_of_not_isRow (h : e.isRow = false) : e.indexOperands = [e] := by
  cases e <;> first | rfl | cases h

end Expr

/-! ## Changes -/

/-- A change whose last step keeps the form of an expression, and what may be done with it. -/
structure Change.KeepsForm {σ : Type} (c : Change σ) : Prop where
  formed : ∀ env e, e.Formed → (c.leave env e).Formed
  assignable : ∀ env e, (c.leave env e).isAssignable = e.isAssignable
  place : ∀ env e, Stmt.isPlace (c.leave env e) = Stmt.isPlace e
  row : ∀ env e, e.isRow = true → c.leave env e = e
  notRow : ∀ env e, e.isRow = false → (c.leave env e).isRow = false

/-- An expression is kept, or something takes its place that is like it and no row. -/
theorem Change.KeepsForm.of_cases {σ : Type} {c : Change σ}
    (h : ∀ env e, c.leave env e = e ∨ ∃ e', c.leave env e = e' ∧ (e.Formed → e'.Formed) ∧
      e'.isAssignable = e.isAssignable ∧ Stmt.isPlace e' = Stmt.isPlace e ∧
        e.isRow = false ∧ e'.isRow = false) :
    c.KeepsForm := by
  constructor <;> intro env e <;>
    rcases h env e with heq | ⟨e', heq, hformed, hassign, hplace, hrow, hrow'⟩ <;> rw [heq]
  · exact id
  · exact hformed
  · exact hassign
  · exact hplace
  · exact fun _ => rfl
  · simp [hrow]
  · exact id
  · exact fun _ => hrow'

section

variable {σ : Type} {c : Change σ} {env : σ}

namespace Expr

theorem isRow_inside (e : Expr) : (e.inside c env).isRow = e.isRow := by
  cases e <;> rfl

theorem isRow_change (hc : c.KeepsForm) (h : e.isRow = false) : (e.change c env).isRow = false := by
  rw [change_eq]
  exact hc.notRow _ _ (by rw [isRow_inside, h])

mutual

theorem isAssignable_change (hc : c.KeepsForm) (env : σ) : ∀ e : Expr,
    (e.change c env).isAssignable = e.isAssignable
  | .tuple s items | .list s items => by
    rw [change_eq, hc.assignable, isAssignable]
    exact areAssignable_changeAll hc _ items
  | .constant .. | .fstring .. | .name .. | .dict .. | .comprehension .. | .attribute ..
  | .subscript .. | .slice .. | .call .. | .unary .. | .binary .. | .compare .. | .logical ..
  | .ternary .. => by
    rw [change_eq, hc.assignable]
    rfl

theorem areAssignable_changeAll (hc : c.KeepsForm) (env : σ) : ∀ es : List Expr,
    areAssignable (changeAll c env es) = areAssignable es
  | [] => rfl
  | e :: es => by
    rw [changeAll, areAssignable, areAssignable, isAssignable_change hc env e,
      areAssignable_changeAll hc env es]

end

theorem isPlace_change (hc : c.KeepsForm) (e : Expr) :
    Stmt.isPlace (e.change c env) = Stmt.isPlace e := by
  rw [change_eq, hc.place]
  cases e <;> rfl

theorem exists_of_mem_bounds_change (hc : c.KeepsForm) (hx : x ∈ (e.change c env).bounds) :
    ∃ y ∈ e.bounds, ∃ env', x = y.change c env' := by
  cases e with
  | slice s lower upper step =>
    rw [change_eq, hc.row _ _ rfl] at hx
    change x ∈ ((slice s lower upper step).inside c env).children at hx
    rw [children_inside] at hx
    obtain ⟨y, hy, rfl⟩ := mem_map.1 hx
    exact ⟨y, hy, _, rfl⟩
  | tuple s items =>
    rw [change_eq, hc.row _ _ rfl] at hx
    refine ⟨_, mem_singleton_self _, env, ?_⟩
    rw [change_eq, hc.row _ _ rfl]
    exact mem_singleton.1 hx
  | _ =>
    rw [bounds_of_not_isRow (isRow_change hc rfl)] at hx
    exact ⟨_, mem_singleton_self _, env, mem_singleton.1 hx⟩

theorem exists_of_mem_indexOperands_change (hc : c.KeepsForm)
    (hx : x ∈ (e.change c env).indexOperands) :
    ∃ y ∈ e.indexOperands, ∃ env', x = y.change c env' := by
  cases e with
  | slice s lower upper step =>
    have hbounds : ((slice s lower upper step).change c env).indexOperands =
        ((slice s lower upper step).change c env).bounds := by
      rw [change_eq, hc.row _ _ rfl]
      rfl
    exact exists_of_mem_bounds_change hc (hbounds ▸ hx)
  | tuple s items =>
    rw [change_eq, hc.row _ _ rfl] at hx
    change x ∈ (changeAll c _ items).flatMap bounds at hx
    rw [changeAll_eq_map, flatMap_map] at hx
    obtain ⟨item, hitem, hx⟩ := mem_flatMap.1 hx
    obtain ⟨y, hy, env', rfl⟩ := exists_of_mem_bounds_change hc hx
    exact ⟨y, mem_flatMap.2 ⟨item, hitem, hy⟩, env', rfl⟩
  | _ =>
    rw [indexOperands_of_not_isRow (isRow_change hc rfl)] at hx
    exact ⟨_, mem_singleton_self _, env, mem_singleton.1 hx⟩

theorem exists_of_mem_operands_inside (hc : c.KeepsForm)
    (hx : x ∈ (e.inside c env).operands) : ∃ y ∈ e.operands, ∃ env', x = y.change c env' := by
  have hchildren (hinside : (e.inside c env).operands = (e.inside c env).children)
      (hself : e.operands = e.children) : ∃ y ∈ e.operands, ∃ env', x = y.change c env' := by
    rw [hinside, children_inside] at hx
    obtain ⟨y, hy, rfl⟩ := mem_map.1 hx
    exact ⟨y, hself ▸ hy, _, rfl⟩
  cases e with
  | subscript s object index =>
    rcases mem_cons.1 hx with rfl | hx
    · exact ⟨object, mem_cons_self, _, rfl⟩
    · obtain ⟨y, hy, env', rfl⟩ := exists_of_mem_indexOperands_change hc hx
      exact ⟨y, mem_cons_of_mem _ hy, env', rfl⟩
  | _ => exact hchildren rfl rfl

theorem name?_changeArgs (args : List Arg) : (changeArgs c env args).map Arg.name? =
    args.map Arg.name? := by
  induction args with
  | nil => rfl
  | cons a args ih => cases a <;> simp only [changeArgs, map_cons, Arg.name?, ih]

theorem plainText?_changeParts (parts : List FStringPart) :
    Parse.plainText? (changeParts c env parts) = Parse.plainText? parts := by
  induction parts with
  | nil => rfl
  | cons part parts ih => cases part <;> simp [changeParts, Parse.plainText?, ih]

theorem shape_inside (hc : c.KeepsForm) (h : e.Shape) : (e.inside c env).Shape := by
  cases e with
  | comprehension s element clauses =>
    refine ⟨?_, fun clause hclause => ?_⟩
    · obtain ⟨⟨target, source, conditions⟩, clauses, rfl⟩ := exists_cons_of_ne_nil h.1
      exact cons_ne_nil _ _
    · have htarget := mem_map_of_mem (f := Clause.target) hclause
      rw [target_changeClauses, map_map] at htarget
      obtain ⟨clause', hclause', heq⟩ := mem_map.1 htarget
      rw [← heq, Function.comp_apply, isAssignable_change hc]
      exact h.2 clause' hclause'
  | call s callee args =>
    intro a ha n hn
    have hname := mem_map_of_mem (f := Arg.name?) ha
    rw [name?_changeArgs] at hname
    obtain ⟨a', ha', heq⟩ := mem_map.1 hname
    exact h a' ha' n (heq ▸ hn)
  | compare s first rest =>
    obtain ⟨⟨op, right⟩, rest, rfl⟩ := exists_cons_of_ne_nil h
    exact cons_ne_nil _ _
  | fstring s parts => exact (plainText?_changeParts parts).trans h
  | slice => exact h.elim
  | _ => exact h

theorem Formed.change (hc : c.KeepsForm) (h : e.Formed) (env : σ) : (e.change c env).Formed := by
  induction h generalizing env with
  | name s id => exact hc.formed env _ (.name s id)
  | @intro e shape _ ih =>
    rw [change_eq]
    refine hc.formed env _ (.intro (shape_inside hc shape) fun x hx => ?_)
    obtain ⟨y, hy, env', rfl⟩ := exists_of_mem_operands_inside hc hx
    exact ih y hy env'

end Expr

end

/-! ## Statements -/

/-- A map of expressions that keeps their form, and what may be done with them. -/
structure Expr.KeepsForm (f : Expr → Expr) : Prop where
  formed : ∀ e, e.Formed → (f e).Formed
  assignable : ∀ e, (f e).isAssignable = e.isAssignable
  place : ∀ e, Stmt.isPlace (f e) = Stmt.isPlace e

theorem Change.KeepsForm.map {σ : Type} {c : Change σ} (hc : c.KeepsForm) (env : σ) :
    Expr.KeepsForm (Expr.change c env) where
  formed _ he := Expr.Formed.change hc he env
  assignable := Expr.isAssignable_change hc env
  place := Expr.isPlace_change hc

theorem Params.Valid.mapDefaults {p : Params} (h : p.Valid) (f : Expr → Expr) :
    (p.mapDefaults f).Valid where
  names := by
    have hnames : (p.mapDefaults f).names = p.names := by
      simp [Params.mapDefaults, Params.names, Function.comp_def]
    rw [hnames]
    exact h.names
  distinct := by simpa [Params.mapDefaults, Function.comp_def] using h.distinct
  defaults := by simpa [Params.mapDefaults, pairwise_map] using h.defaults

theorem Handler.Shape.mapKind {h : Handler} (hshape : h.Shape) (f : Expr → Expr) :
    (h.mapKind f).Shape := by
  obtain ⟨s, kind, name, body⟩ := h
  exact ⟨hshape.body, fun hnone => hshape.kind (Option.map_eq_none_iff.1 hnone), hshape.name⟩

namespace Stmt

/-- A statement that can be written, if the names in it can. -/
inductive Formed : Stmt → Prop where
  | intro {s : Stmt} (shape : s.Shape) (exprs : ∀ e ∈ s.exprs, e.Formed)
    (nested : ∀ t ∈ s.nested, Formed t) : Formed s

theorem Valid.formed {s : Stmt} (h : s.Valid) : s.Formed := by
  induction h with
  | intro shape exprs _ ih => exact .intro shape (fun e he => (exprs e he).formed) ih

theorem Formed.valid [View] (hview : View.literals = false) {s : Stmt} (h : s.Formed)
    (hkept : s.Kept) : s.Valid := by
  induction h with
  | intro shape exprs _ ih =>
    exact .intro shape (fun e he => (exprs e he).valid hview (hkept.expr he))
      fun t ht => ih t ht (hkept.nested ht)

theorem nested_mapExprs (f : Expr → Expr) (s : Stmt) : (s.mapExprs f).nested = s.nested := by
  rw [nested_eq, nested_eq, blocks_mapExprs]

theorem Formed.mapExprs {f : Expr → Expr} (hf : Expr.KeepsForm f) {s : Stmt} (h : s.Formed) :
    (s.mapExprs f).Formed := by
  obtain ⟨shape, exprs, nested⟩ := h
  refine .intro ?_ (fun e he => ?_) (by rwa [nested_mapExprs])
  · cases s with
    | assign s targets value =>
      refine ⟨by simpa using shape.1, fun t ht => ?_⟩
      obtain ⟨target, htarget, rfl⟩ := mem_map.1 ht
      rw [hf.assignable]
      exact shape.2 target htarget
    | augAssign s target op value => exact (hf.place target).trans shape
    | forLoop s target source body => exact ⟨(hf.assignable target).trans shape.1, shape.2⟩
    | withBlock s context target body =>
      refine ⟨fun t ht => ?_, shape.2⟩
      obtain ⟨target, htarget, rfl⟩ := Option.map_eq_some_iff.1 ht
      rw [hf.assignable]
      exact shape.1 target htarget
    | tryBlock s body handlers finalBody =>
      refine ⟨shape.1, shape.2.1.imp_left (by simpa using ·), fun h hh => ?_⟩
      obtain ⟨handler, hhandler, rfl⟩ := mem_map.1 hh
      exact (shape.2.2 handler hhandler).mapKind f
    | functionDef s name params body decorators =>
      exact ⟨shape.1, shape.2.1.mapDefaults f, shape.2.2⟩
    | _ => exact shape
  · rw [exprs_mapExprs] at he
    obtain ⟨x, hx, rfl⟩ := mem_map.1 he
    exact hf.formed x (exprs x hx)

end Stmt

end BlockScript.Program
