import BlockScript.Proofs.Children
import BlockScript.Proofs.Outline.Trace

/-! Occurrences of names that lowering and routing keep. -/

namespace BlockScript.Program

open List

/-- The change keeps the occurrences of a name, in environments that satisfy `Ok`. -/
structure Change.KeepsName {σ : Type} (c : Change σ) (Ok : σ → Prop) (id : String) : Prop where
  enter : ∀ env e, Ok env → Ok (c.enter env e)
  leave : ∀ env e, Ok env → id ∈ e.names → id ∈ (c.leave env e).names

variable {id : String}

theorem Expr.mem_names_change {σ : Type} {c : Change σ} {Ok : σ → Prop}
    (hc : c.KeepsName Ok id) (e : Expr)
    {env : σ} (henv : Ok env) (h : id ∈ e.names) : id ∈ (e.change c env).names := by
  rw [change_eq]
  refine hc.leave env _ henv ?_
  rcases e.name_or_ne with ⟨s, x, rfl⟩ | hname
  · exact h
  · obtain ⟨x, hx, hid⟩ := (mem_names_iff hname).1 h
    have := sizeOf_lt_of_mem_children hx
    refine (mem_names_iff (inside_ne_name hname)).2 ⟨_, ?_,
      x.mem_names_change hc (hc.enter env e henv) hid⟩
    exact e.children_inside ▸ mem_map_of_mem hx
termination_by sizeOf e

def Stmt.names (s : Stmt) : List String := s.exprs.flatMap Expr.names

theorem Stmt.mem_names_of_map {f : Expr → Expr} (hf : ∀ e, id ∈ e.names → id ∈ (f e).names)
    {s t : Stmt} (hst : t.exprs = s.exprs.map f) (h : id ∈ s.names) : id ∈ t.names := by
  obtain ⟨e, he, hid⟩ := mem_flatMap.1 h
  rw [names, hst]
  exact mem_flatMap.2 ⟨f e, mem_map_of_mem he, hf e hid⟩

theorem Params.defaults_mapDefaults (f : Expr → Expr) (p : Params) :
    (p.mapDefaults f).defaults = p.defaults.map f := by
  simp only [mapDefaults, defaults, filterMap_map, map_filterMap]
  rfl

theorem Handler.filterMap_kind_mapKind (f : Expr → Expr) (hs : List Handler) :
    (hs.map (mapKind f)).filterMap kind = (hs.filterMap kind).map f := by
  rw [filterMap_map, map_filterMap]
  congr 1
  funext h
  cases h
  rfl

theorem Stmt.exprs_mapExprs (f : Expr → Expr) (s : Stmt) :
    (s.mapExprs f).exprs = s.exprs.map f := by
  cases s with
  | functionDef s name params body decorators =>
    simp only [mapExprs, exprs, map_append, Params.defaults_mapDefaults]
  | tryBlock s body handlers finalBody =>
    exact Handler.filterMap_kind_mapKind f handlers
  | returns s e | raises s e | yields s e => cases e <;> rfl
  | asserts s e e' | withBlock s e e' => cases e' <;> rfl
  | _ => simp [mapExprs, exprs]

end BlockScript.Program

namespace BlockScript.Compile

open Program List

theorem lowering_keepsName (runtimeName : String) (closures : ClosureRegistry) (id : String) :
    (lowering runtimeName closures).KeepsName (fun _ => True) id where
  enter _ _ _ := trivial
  leave _ e _ h := by
    change id ∈ (lowerCall runtimeName closures e).names
    unfold lowerCall
    split
    · split
      · refine mem_append_right _ ?_
        simpa [Expr.names, namesInArgs, Arg.names] using h
      · exact h
    · exact h

variable {id : String} {s : Stmt} {bound : List String}

theorem mem_names_lowerAssign (runtimeName : String) (h : id ∈ s.names) :
    id ∈ (lowerAssign runtimeName s).names := by
  unfold lowerAssign
  split
  · next s span object name value =>
    have hid : id ∈ object.names ∨ id ∈ value.names := by
      simpa [Stmt.names, Stmt.exprs, Expr.names] using h
    simpa [Stmt.names, Stmt.exprs, Expr.names, Expr.apply, Expr.attr, namesInArgs, Arg.names,
      Expr.str] using .inr hid
  · exact h

theorem routing_keepsName (options : Options) (id : String) :
    (routing options).KeepsName (id ∈ ·) id where
  enter bound e h := by
    change id ∈ boundInside bound e
    unfold boundInside
    split
    · exact mem_append_right _ h
    · exact h
  leave bound e hbound h := by
    change id ∈ (routeName options bound e).names
    unfold routeName
    split
    · next span name =>
      have hid : id = name := mem_singleton.1 h
      have hnative : isNative options bound name = true := by simp [isNative, ← hid, hbound]
      rw [if_pos hnative]
      exact h
    · exact h

theorem mem_names_routeExpr (options : Options) (hbound : id ∈ bound) (e : Expr)
    (h : id ∈ e.names) : id ∈ (routeExpr options bound e).names :=
  e.mem_names_change (routing_keepsName options id) hbound h

mutual

theorem mem_bound_routeStmt (options : Options) {id : String} :
    ∀ (s : Stmt) {bound : List String}, id ∈ bound → id ∈ (routeStmt options bound s).2
  | .assign s targets value, bound, h => by
    rcases routeStmt_assign options bound s targets value with ⟨_, _, name, -, -, hroute⟩ | hroute
    · rw [hroute]
      exact mem_cons_of_mem name h
    · rw [hroute]
      exact h
  | .functionDef .., _, h | .classDef .., _, h => mem_cons_of_mem _ h
  | .imports .., _, h | .importsFrom .., _, h | .globals .., _, h | .nonlocals .., _, h =>
    mem_append_right _ h
  | .tryBlock _ body handlers finalBody, _, h =>
    mem_bound_routeBlock options finalBody <| mem_bound_routeHandlers options _ handlers <|
      mem_bound_routeBlock options body <| mem_append_right _ h
  | .ifElse _ _ body orelse, _, h =>
    mem_bound_routeBlock options orelse <| mem_bound_routeBlock options body h
  | .whileLoop _ _ body, _, h | .withBlock _ _ _ body, _, h => mem_bound_routeBlock options body h
  | .forLoop .., _, h | .expr .., _, h | .augAssign .., _, h | .pass .., _, h | .breakLoop .., _, h
  | .continueLoop .., _, h | .returns .., _, h | .asserts .., _, h | .raises .., _, h
  | .yields .., _, h | .yieldsFrom .., _, h => h

theorem mem_bound_routeBlock (options : Options) {id : String} :
    ∀ (ss : List Stmt) {bound : List String}, id ∈ bound → id ∈ (routeBlock options bound ss).2
  | [], _, h => h
  | s :: ss, _, h => mem_bound_routeBlock options ss (mem_bound_routeStmt options s h)

theorem mem_bound_routeHandlers (options : Options) {id : String} (outer : List String) :
    ∀ (hs : List Handler) {bound : List String}, id ∈ bound →
      id ∈ (routeHandlers options outer bound hs).2
  | [], _, h => h
  | .mk _ _ _ body :: hs, _, h =>
    mem_bound_routeHandlers options outer hs (mem_bound_routeBlock options body h)

end

theorem mem_names_routeStmt (options : Options) (hlocal : localName? options id = none)
    (hbound : id ∈ bound) (h : id ∈ s.names) : id ∈ (routeStmt options bound s).1.names := by
  rcases routeStmt_eq (s := s) (R := fun _ _ => True) options (fun _ _ _ => trivial) bound with
    ⟨span, place, name, name', value, rfl, hname, hroute⟩ | ⟨t, hrebuilt, hroute⟩
  · -- The target of a local definition is another name, so the value holds the use.
    rw [hroute]
    have hvalue : id ∈ value.names := by
      have hid : id = name ∨ id ∈ value.names := by
        simpa [Stmt.names, Stmt.exprs, Expr.names] using h
      rcases hid with rfl | hid
      · rw [hlocal] at hname
        cases hname
      · exact hid
    have hkept := mem_names_routeExpr options (mem_cons_of_mem name' hbound) value hvalue
    rw [Stmt.names, Stmt.exprs_mapExprs]
    exact mem_flatMap.2 ⟨_, mem_map_of_mem (mem_append_right _ (by simp)), hkept⟩
  · rw [hroute]
    have hbound' : id ∈ introduced s ++ bound := mem_append_right _ hbound
    refine Stmt.mem_names_of_map (mem_names_routeExpr options hbound') ?_ h
    rw [Stmt.exprs_mapExprs, hrebuilt.exprs_eq]

end BlockScript.Compile
