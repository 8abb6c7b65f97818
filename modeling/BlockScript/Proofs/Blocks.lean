import Mathlib.Data.List.Forall2
import BlockScript.Compile

/-! The blocks of statements. Each pass of the compiler makes a statement anew from what it makes of
the blocks. -/

namespace BlockScript.Program

open List

variable {R : List Stmt → List Stmt → Prop}

theorem exists_of_forall₂ {α β : Type} {R : α → β → Prop} {as : List α} {bs : List β} {a : α}
    (h : List.Forall₂ R as bs) (ha : a ∈ as) : ∃ b ∈ bs, R a b := by
  induction h with
  | nil => cases ha
  | cons hab _ ih =>
    rcases mem_cons.1 ha with rfl | ha
    · exact ⟨_, mem_cons_self, hab⟩
    · obtain ⟨b, hb, hrel⟩ := ih ha
      exact ⟨b, mem_cons_of_mem _ hb, hrel⟩

inductive Handler.Rebuilt (R : List Stmt → List Stmt → Prop) : Handler → Handler → Prop
  | mk {s : Span} {kind : Option Expr} {name : Option String} {body body' : List Stmt} :
    R body body' → Rebuilt R (.mk s kind name body) (.mk s kind name body')

namespace Stmt

def blocks : Stmt → List (List Stmt)
  | ifElse _ _ body orelse => [body, orelse]
  | whileLoop _ _ body | forLoop _ _ _ body | withBlock _ _ _ body | functionDef _ _ _ body _
  | classDef _ _ _ body _ => [body]
  | tryBlock _ body handlers finalBody => body :: (handlers.map Handler.body ++ [finalBody])
  | _ => []

inductive Rebuilt (R : List Stmt → List Stmt → Prop) : Stmt → Stmt → Prop
  | ifElse {s : Span} {test : Expr} {body body' orelse orelse' : List Stmt} :
    R body body' → R orelse orelse' →
    Rebuilt R (.ifElse s test body orelse) (.ifElse s test body' orelse')
  | whileLoop {s : Span} {test : Expr} {body body' : List Stmt} : R body body' →
    Rebuilt R (.whileLoop s test body) (.whileLoop s test body')
  | forLoop {s : Span} {target source : Expr} {body body' : List Stmt} : R body body' →
    Rebuilt R (.forLoop s target source body) (.forLoop s target source body')
  | withBlock {s : Span} {context : Expr} {target : Option Expr} {body body' : List Stmt} :
    R body body' → Rebuilt R (.withBlock s context target body) (.withBlock s context target body')
  | functionDef {s : Span} {name : String} {params : Params} {body body' : List Stmt}
      {decorators : List Expr} : R body body' →
    Rebuilt R (.functionDef s name params body decorators)
      (.functionDef s name params body' decorators)
  | classDef {s : Span} {name : String} {bases decorators : List Expr} {body body' : List Stmt} :
    R body body' →
    Rebuilt R (.classDef s name bases body decorators) (.classDef s name bases body' decorators)
  | tryBlock {s : Span} {body body' : List Stmt} {handlers handlers' : List Handler}
      {finalBody finalBody' : List Stmt} :
    R body body' → List.Forall₂ (Handler.Rebuilt R) handlers handlers' → R finalBody finalBody' →
    Rebuilt R (.tryBlock s body handlers finalBody) (.tryBlock s body' handlers' finalBody')
  | plain {s : Stmt} : s.blocks = [] → Rebuilt R s s

variable {b : List Stmt} {s : Stmt}

theorem sizeOf_lt_of_mem_blocks {t : Stmt} (hb : b ∈ s.blocks) (ht : t ∈ b) :
    sizeOf t < sizeOf s := by
  have := sizeOf_lt_of_mem ht
  cases s with
  | ifElse =>
    rw [blocks, mem_pair] at hb
    rw [ifElse.sizeOf_spec]
    rcases hb with rfl | rfl <;> omega
  | tryBlock s body handlers finalBody =>
    simp only [blocks, mem_cons, mem_append, mem_map, not_mem_nil, or_false] at hb
    rw [tryBlock.sizeOf_spec]
    rcases hb with rfl | ⟨⟨span, kind, name, inner⟩, hh, rfl⟩ | rfl
    · omega
    · have := sizeOf_lt_of_mem hh
      simp only [Handler.body, Handler.mk.sizeOf_spec] at *
      omega
    · omega
  | whileLoop | forLoop | withBlock | functionDef | classDef =>
    cases mem_singleton.1 hb
    simp only [whileLoop.sizeOf_spec, forLoop.sizeOf_spec, withBlock.sizeOf_spec,
      functionDef.sizeOf_spec, classDef.sizeOf_spec]
    omega
  | _ => cases hb

/-- What holds of a statement as soon as it holds of those in its blocks, holds of all
statements. -/
@[elab_as_elim]
theorem blocks_induction {P : Stmt → Prop} (h : ∀ s, (∀ b ∈ s.blocks, ∀ t ∈ b, P t) → P s)
    (s : Stmt) : P s :=
  h s fun _ hb t ht =>
    have := sizeOf_lt_of_mem_blocks hb ht
    blocks_induction h t
termination_by sizeOf s

namespace Rebuilt

variable {s t : Stmt}

theorem exprs_eq (h : Rebuilt R s t) : t.exprs = s.exprs := by
  cases h with
  | tryBlock _ hhandlers _ =>
    rw [exprs, exprs]
    induction hhandlers with
    | nil => rfl
    | cons hh _ ih =>
      cases hh
      simp only [filterMap_cons, Handler.kind, ih]
  | _ => rfl

theorem blocks_related (h : Rebuilt R s t) : List.Forall₂ R s.blocks t.blocks := by
  cases h with
  | ifElse hbody horelse => exact .cons hbody (.cons horelse .nil)
  | whileLoop hbody | forLoop hbody | withBlock hbody | functionDef hbody | classDef hbody =>
    exact .cons hbody .nil
  | tryBlock hbody hhandlers hfinal =>
    refine .cons hbody ?_
    induction hhandlers with
    | nil => exact .cons hfinal .nil
    | cons hh _ ih =>
      cases hh with
      | mk hinner => exact .cons hinner ih
  | plain hs =>
    rw [hs]
    exact .nil

theorem exists_of_mem_blocks (h : Rebuilt R s t) (hb : b ∈ s.blocks) : ∃ b' ∈ t.blocks, R b b' :=
  exists_of_forall₂ h.blocks_related hb

end Rebuilt

theorem blocks_mapExprs (f : Expr → Expr) (s : Stmt) : (s.mapExprs f).blocks = s.blocks := by
  cases s with
  | tryBlock s body handlers finalBody =>
    simp only [mapExprs, blocks, map_map]
    congr 3
    funext h
    cases h
    rfl
  | _ => rfl

/-! ## Changes -/

theorem changeBlock_eq_map (f : Stmt → Stmt) (ss : List Stmt) :
    changeBlock f ss = ss.map (changeWith f) := by
  induction ss with
  | nil => rfl
  | cons s ss ih => rw [changeBlock, ih, map_cons]

theorem exists_of_changeWith (f : Stmt → Stmt) (hR : ∀ b ∈ s.blocks, R b (changeBlock f b)) :
    ∃ t, s.changeWith f = f t ∧ Rebuilt R s t := by
  cases s with
  | ifElse => exact ⟨_, rfl, .ifElse (hR _ (by simp [blocks])) (hR _ (by simp [blocks]))⟩
  | whileLoop | forLoop | withBlock | functionDef | classDef =>
    refine ⟨_, rfl, ?_⟩
    constructor
    exact hR _ (mem_singleton_self _)
  | tryBlock s body handlers finalBody =>
    rw [blocks, forall_mem_cons, forall_mem_append, forall_mem_singleton] at hR
    obtain ⟨hbody, hhandlers, hfinal⟩ := hR
    refine ⟨_, rfl, .tryBlock hbody ?_ hfinal⟩
    induction handlers with
    | nil => exact .nil
    | cons h hs ih =>
      obtain ⟨span, kind, name, inner⟩ := h
      rw [map_cons, forall_mem_cons] at hhandlers
      exact .cons (.mk hhandlers.1) (ih hhandlers.2)
  | _ => exact ⟨_, rfl, .plain rfl⟩

end Stmt

end BlockScript.Program

namespace BlockScript.Compile

open Program Stmt List

variable {R : List Stmt → List Stmt → Prop} {s : Stmt} {α β ε : Type} {f : α → Except ε β}
  {hs : List Handler}

theorem except_bind_ok {x : Except ε α} {b : β} (h : x >>= f = .ok b) :
    ∃ a, x = .ok a ∧ f a = .ok b := by
  cases x with
  | error e => cases h
  | ok a => exact ⟨a, rfl, h⟩

theorem forall₂_of_mapM_ok {as : List α} {bs : List β} (h : as.mapM f = .ok bs) :
    List.Forall₂ (fun a b => f a = .ok b) as bs := by
  induction as generalizing bs with
  | nil =>
    cases h
    exact .nil
  | cons a as ih =>
    rw [mapM_cons] at h
    obtain ⟨b, hb, h⟩ := except_bind_ok h
    obtain ⟨rest, hrest, h⟩ := except_bind_ok h
    cases h
    exact .cons hb (ih hrest)

/-! ## Insertion of definitions -/

section

variable {closures : ClosureRegistry} {define : String → Except SyntaxError Stmt} {out : List Stmt}

theorem exists_parts {ss : List Stmt} (h : blockWithClosures closures define ss = .ok out) :
    ∃ parts, out = parts.flatten ∧
      List.Forall₂ (fun s part => withClosures closures define s = .ok part) ss parts := by
  induction ss generalizing out with
  | nil =>
    cases h
    exact ⟨[], rfl, .nil⟩
  | cons s ss ih =>
    rw [blockWithClosures] at h
    obtain ⟨first, hfirst, h⟩ := except_bind_ok h
    obtain ⟨rest, hrest, h⟩ := except_bind_ok h
    cases h
    obtain ⟨parts, rfl, hparts⟩ := ih hrest
    exact ⟨first :: parts, rfl, .cons hfirst hparts⟩

theorem rebuilt_handlersWithClosures {out : List Handler}
    (hR : ∀ b ∈ hs.map Handler.body, ∀ b', blockWithClosures closures define b = .ok b' → R b b')
    (h : handlersWithClosures closures define hs = .ok out) :
    List.Forall₂ (Handler.Rebuilt R) hs out := by
  induction hs generalizing out with
  | nil =>
    cases h
    exact .nil
  | cons handler hs ih =>
    obtain ⟨span, kind, name, body⟩ := handler
    rw [handlersWithClosures] at h
    obtain ⟨body', hbody, h⟩ := except_bind_ok h
    obtain ⟨rest, hrest, h⟩ := except_bind_ok h
    cases h
    rw [map_cons, forall_mem_cons] at hR
    exact .cons (.mk (hR.1 body' hbody)) (ih hR.2 hrest)

/-- A statement comes after the definitions of the closures that it mentions. -/
theorem exists_of_withClosures
    (hR : ∀ b ∈ s.blocks, ∀ b', blockWithClosures closures define b = .ok b' → R b b')
    (h : withClosures closures define s = .ok out) :
    ∃ definitions t, List.Forall₂ (fun id d => define id = .ok d)
      (mentioned closures s) definitions ∧ out = definitions ++ [t] ∧ Rebuilt R s t := by
  have hlast {t : Stmt} (ht : Rebuilt R s t)
      (h : (do return (← (mentioned closures s).mapM define) ++ [t]) = (.ok out : Except _ _)) :
      ∃ definitions t, List.Forall₂ (fun id d => define id = .ok d)
        (mentioned closures s) definitions ∧ out = definitions ++ [t] ∧ Rebuilt R s t := by
    obtain ⟨definitions, hdefinitions, h⟩ := except_bind_ok h
    cases h
    exact ⟨definitions, t, forall₂_of_mapM_ok hdefinitions, rfl, ht⟩
  cases s with
  | ifElse s test body orelse =>
    rw [withClosures] at h
    obtain ⟨body', hbody, h⟩ := except_bind_ok h
    obtain ⟨orelse', horelse, h⟩ := except_bind_ok h
    exact hlast (.ifElse (hR _ (by simp [blocks]) _ hbody) (hR _ (by simp [blocks]) _ horelse)) h
  | whileLoop s test body | forLoop s target source body | withBlock s context target body
  | functionDef s name params body decorators | classDef s name bases body decorators =>
    rw [withClosures] at h
    obtain ⟨body', hbody, h⟩ := except_bind_ok h
    refine hlast ?_ h
    constructor
    exact hR body (mem_singleton_self _) body' hbody
  | tryBlock s body handlers finalBody =>
    rw [withClosures] at h
    obtain ⟨body', hbody, h⟩ := except_bind_ok h
    obtain ⟨handlers', hhandlers, h⟩ := except_bind_ok h
    obtain ⟨final', hfinal, h⟩ := except_bind_ok h
    rw [blocks, forall_mem_cons, forall_mem_append, forall_mem_singleton] at hR
    exact hlast (.tryBlock (hR.1 _ hbody) (rebuilt_handlersWithClosures hR.2.1 hhandlers)
      (hR.2.2 _ hfinal)) h
  | _ => exact hlast (.plain rfl) h

end

/-! ## Routing -/

section

variable (options : Options)

theorem routeStmt_assign (bound : List String) (s : Span) (targets : List Expr) (value : Expr) :
    (∃ span name name', targets = [.name span name] ∧ localName? options name = some name' ∧
      routeStmt options bound (.assign s targets value) =
        ((Stmt.assign s [.name span name'] value).mapExprs (routeExpr options (name' :: bound)),
          name' :: bound)) ∨ routeStmt options bound (.assign s targets value) =
      ((Stmt.assign s targets value).mapExprs (routeExpr options bound), bound) := by
  rcases targets with _ | ⟨target, _ | ⟨other, more⟩⟩
  · exact .inr rfl
  · cases target with
    | name span name =>
      rw [routeStmt]
      split
      · next name' hname => exact .inl ⟨span, name, name', rfl, hname, rfl⟩
      · exact .inr rfl
    | _ => exact .inr rfl
  · cases target <;> exact .inr rfl

def introduced : Stmt → List String
  | .forLoop _ target _ _ => target.boundNames
  | .functionDef _ name _ _ _ | .classDef _ name _ _ _ => [name]
  | .tryBlock _ _ handlers _ => handlers.filterMap Handler.name
  | _ => []

theorem rebuilt_routeHandlers (hR : ∀ b ∈ hs.map Handler.body, ∀ bound,
      R b (routeBlock options bound b).1)
    (outer bound : List String) : ∃ hs', (routeHandlers options outer bound hs).1 =
        hs'.map (Handler.mapKind (routeExpr options outer)) ∧
        List.Forall₂ (Handler.Rebuilt R) hs hs' := by
  induction hs generalizing bound with
  | nil => exact ⟨[], rfl, .nil⟩
  | cons h hs ih =>
    obtain ⟨span, kind, name, body⟩ := h
    rw [map_cons, forall_mem_cons] at hR
    obtain ⟨hs', heq, hrebuilt⟩ := ih hR.2 (routeBlock options bound body).2
    refine ⟨.mk span kind name (routeBlock options bound body).1 :: hs', ?_,
      .cons (.mk (hR.1 bound)) hrebuilt⟩
    simp only [routeHandlers, heq, map_cons, Handler.mapKind]

/-- A local definition gets another target. The expressions of any other statement are routed where
also the names that it introduces are bound. -/
theorem routeStmt_eq (hR : ∀ b ∈ s.blocks, ∀ bound, R b (routeBlock options bound b).1)
    (bound : List String) : (∃ span place name name' value,
      s = .assign span [.name place name] value ∧
      localName? options name = some name' ∧ (routeStmt options bound s).1 =
        (Stmt.assign span [.name place name'] value).mapExprs
          (routeExpr options (name' :: bound))) ∨
    ∃ t, Rebuilt R s t ∧
      (routeStmt options bound s).1 = t.mapExprs (routeExpr options (introduced s ++ bound)) := by
  cases s with
  | assign span targets value =>
    rcases routeStmt_assign options bound span targets value with
      ⟨place, name, name', rfl, hname, h⟩ | h
    · exact .inl ⟨span, place, name, name', value, rfl, hname, by rw [h]⟩
    · exact .inr ⟨_, .plain rfl, by rw [h]; rfl⟩
  | ifElse =>
    exact .inr ⟨_, .ifElse (hR _ (by simp [blocks]) _) (hR _ (by simp [blocks]) _), rfl⟩
  | whileLoop => exact .inr ⟨_, .whileLoop (hR _ (by simp [blocks]) _), rfl⟩
  | withBlock => exact .inr ⟨_, .withBlock (hR _ (by simp [blocks]) _), rfl⟩
  | forLoop => exact .inr ⟨_, .forLoop (hR _ (by simp [blocks]) _), rfl⟩
  | functionDef => exact .inr ⟨_, .functionDef (hR _ (by simp [blocks]) _), rfl⟩
  | classDef => exact .inr ⟨_, .classDef (hR _ (by simp [blocks]) _), rfl⟩
  | tryBlock s body handlers finalBody =>
    rw [blocks, forall_mem_cons, forall_mem_append, forall_mem_singleton] at hR
    let outer := handlers.filterMap Handler.name ++ bound
    obtain ⟨handlers', heq, hrebuilt⟩ := rebuilt_routeHandlers options hR.2.1 outer
      (routeBlock options outer body).2
    exact .inr ⟨_, .tryBlock (hR.1 outer) hrebuilt (hR.2.2 _), congrArg (Stmt.tryBlock s _ · _) heq⟩
  | _ => exact .inr ⟨_, .plain rfl, rfl⟩

end

end BlockScript.Compile
