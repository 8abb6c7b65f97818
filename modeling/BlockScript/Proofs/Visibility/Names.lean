import BlockScript.Proofs.Outline.Names
import BlockScript.Proofs.RoundTrip.Valid

/-! The names that routing leaves in an expression: those that are bound where it stands or inside
it. -/

namespace BlockScript.Program

open List

namespace Expr

/-- The names that the comprehensions in an expression bind, in the frame of the running code. -/
def comprehended (e : Expr) : List String :=
  e.subexprs.flatMap fun
    | .comprehension _ _ clauses => clauses.flatMap (·.target.boundNames)
    | _ => []

theorem comprehended_child {e x : Expr} (hx : x ∈ e.children) :
    x.comprehended ⊆ e.comprehended := by
  intro name hname
  obtain ⟨y, hy, hname⟩ := mem_flatMap.1 hname
  exact mem_flatMap.2 ⟨y, mem_subexprs_of_child hx hy, hname⟩

theorem comprehended_clauses {s : Span} {element : Expr} {clauses : List Clause} :
    clauses.flatMap (·.target.boundNames) ⊆ (comprehension s element clauses).comprehended :=
  fun _ hname => mem_flatMap.2 ⟨_, self_mem_subexprs _, hname⟩

end Expr

end BlockScript.Program

namespace BlockScript.Compile

open Program List

variable {options : Options} {bound : List String}

theorem routeExpr_name (span : Span) (id : String) : routeExpr options bound (.name span id) =
      if isNative options bound id then .name span id
      else (Expr.name span options.runtimeName).item (.str span id) := rfl

theorem isNative_mono {bound' : List String} {id : String} (hsub : bound ⊆ bound')
    (h : isNative options bound id = true) : isNative options bound' id = true := by
  simp only [isNative, Bool.or_eq_true, contains_iff_mem] at h ⊢
  exact h.imp_right (hsub ·)

theorem children_routeExpr {e : Expr} (hname : ∀ s x, e ≠ .name s x) :
    (routeExpr options bound e).children =
      e.children.map (routeExpr options (boundInside bound e)) ∧
      ∀ s x, routeExpr options bound e ≠ .name s x := by
  have hroute : routeExpr options bound e = e.inside (routing options) bound := by
    cases e with
    | name s x => exact absurd rfl (hname s x)
    | _ => rfl
  rw [hroute]
  exact ⟨e.children_inside, Expr.inside_ne_name hname⟩

mutual

theorem boundNames_routeExpr : ∀ e : Expr, e.boundNames ⊆ bound →
    (routeExpr options bound e).boundNames = e.boundNames
  | .name span id, hsub => by
    have hnative : isNative options bound id = true := by
      simp [isNative, hsub (mem_singleton_self id)]
    rw [routeExpr_name, if_pos hnative]
  | .tuple s items, hsub | .list s items, hsub => by
    have hitems := boundNamesAll_changeAll items hsub
    exact hitems
  | .constant .., _ | .fstring .., _ | .dict .., _ | .comprehension .., _ | .attribute .., _
  | .subscript .., _ | .slice .., _ | .call .., _ | .unary .., _ | .binary .., _ | .compare .., _
  | .logical .., _ | .ternary .., _ => rfl

theorem boundNamesAll_changeAll : ∀ es : List Expr, Expr.boundNamesAll es ⊆ bound →
    Expr.boundNamesAll (changeAll (routing options) bound es) = Expr.boundNamesAll es
  | [], _ => rfl
  | e :: es, hsub => by
    have he := boundNames_routeExpr e (append_subset.1 hsub).1
    have hes := boundNamesAll_changeAll es (append_subset.1 hsub).2
    rw [changeAll, Expr.boundNamesAll, Expr.boundNamesAll, hes]
    exact congrArg (· ++ _) he

end

theorem flatMap_boundNames_routeExpr {es : List Expr} (hsub : es.flatMap Expr.boundNames ⊆ bound) :
    (es.map (routeExpr options bound)).flatMap Expr.boundNames = es.flatMap Expr.boundNames := by
  induction es with
  | nil => rfl
  | cons e es ih =>
    obtain ⟨he, hes⟩ := append_subset.1 hsub
    rw [map_cons, flatMap_cons, flatMap_cons, boundNames_routeExpr e he, ih hes]

theorem boundInside_subset (e : Expr) :
    boundInside bound e ⊆ (routeExpr options bound e).comprehended ++ bound := by
  cases e with
  | comprehension s element clauses =>
    let inner := clauses.flatMap (·.target.boundNames) ++ bound
    have htargets : (changeClauses (routing options) inner clauses).flatMap (·.target.boundNames) =
        clauses.flatMap (·.target.boundNames) := by
      have hsub : (clauses.map Clause.target).flatMap Expr.boundNames ⊆ inner := by
        rw [flatMap_map]
        exact subset_append_left ..
      calc (changeClauses (routing options) inner clauses).flatMap (·.target.boundNames)
        _ = ((changeClauses (routing options) inner clauses).map Clause.target).flatMap
              Expr.boundNames := by rw [flatMap_map]
        _ = ((clauses.map Clause.target).map (routeExpr options inner)).flatMap
              Expr.boundNames := by rw [target_changeClauses]; rfl
        _ = (clauses.map Clause.target).flatMap Expr.boundNames := flatMap_boundNames_routeExpr hsub
        _ = clauses.flatMap (·.target.boundNames) := by rw [flatMap_map]
    intro name hname
    rcases mem_append.1 hname with hname | hname
    · refine mem_append_left _ (Expr.comprehended_clauses ?_)
      exact htargets.symm ▸ hname
    · exact mem_append_right _ hname
  | constant | fstring | name | list | tuple | dict | «attribute» | subscript | slice | call | unary
  | binary | compare | logical | ternary => exact subset_append_right ..

theorem isNative_of_mem_names {bound : List String} {e : Expr} {id : String}
    (h : id ∈ (routeExpr options bound e).names) :
    isNative options ((routeExpr options bound e).comprehended ++ bound) id = true := by
  rcases e.name_or_ne with ⟨s, x, rfl⟩ | hname
  · rw [routeExpr_name] at h
    split at h
    · next hnative =>
      rw [mem_singleton.1 h]
      exact isNative_mono (subset_append_right ..) hnative
    · have hid : id = options.runtimeName := by
        simpa [Expr.item, Expr.names, Expr.str] using h
      simp [isNative, hid]
  · obtain ⟨hchildren, hne⟩ : _ ∧ ∀ s x, routeExpr options bound e ≠ .name s x :=
      children_routeExpr hname
    obtain ⟨x, hx, hid⟩ := (Expr.mem_names_iff hne).1 h
    have hsub := Expr.comprehended_child hx
    rw [hchildren] at hx
    obtain ⟨y, hy, rfl⟩ := mem_map.1 hx
    have := Expr.sizeOf_lt_of_mem_children hy
    refine isNative_mono ?_ (isNative_of_mem_names hid)
    exact append_subset.2 ⟨List.Subset.trans hsub (subset_append_left ..), boundInside_subset e⟩
termination_by sizeOf e

end BlockScript.Compile
