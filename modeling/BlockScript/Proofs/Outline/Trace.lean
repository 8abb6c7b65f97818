import BlockScript.Proofs.Blocks

/-! The outline of a program: what stands where, in the order of the text. Lowering and routing
change the expressions of a program and keep its outline. -/

namespace BlockScript.Program

open List

structure Head where
  span : Span
  function? : Option String
  /-- The place of the first decorator of a function. -/
  mark? : Option Span
  deriving DecidableEq, Repr

namespace Stmt

def head : Stmt → Head
  | functionDef s name _ _ decorators => ⟨s, some name, decorators.head?.map Expr.span⟩
  | stmt => ⟨stmt.span, none, none⟩

@[simp] theorem span_head (s : Stmt) : s.head.span = s.span := by
  cases s <;> rfl

mutual

/-- A statement and those in its blocks, in the order of the text. -/
def within : Stmt → List Stmt
  | stmt@(ifElse _ _ body orelse) => stmt :: (withinAll body ++ withinAll orelse)
  | stmt@(whileLoop _ _ body) | stmt@(forLoop _ _ _ body) | stmt@(withBlock _ _ _ body)
  | stmt@(functionDef _ _ _ body _) | stmt@(classDef _ _ _ body _) => stmt :: withinAll body
  | stmt@(tryBlock _ body handlers finalBody) =>
    stmt :: (withinAll body ++ withinHandlers handlers ++ withinAll finalBody)
  | stmt => [stmt]

def withinAll : List Stmt → List Stmt
  | [] => []
  | s :: ss => within s ++ withinAll ss

def withinHandlers : List Handler → List Stmt
  | [] => []
  | .mk _ _ _ body :: hs => withinAll body ++ withinHandlers hs

end

theorem withinAll_eq (ss : List Stmt) : withinAll ss = ss.flatMap within := by
  induction ss with
  | nil => rfl
  | cons s ss ih => rw [withinAll, ih, flatMap_cons]

theorem withinHandlers_eq (hs : List Handler) :
    withinHandlers hs = (hs.map Handler.body).flatMap withinAll := by
  induction hs with
  | nil => rfl
  | cons h hs ih =>
    obtain ⟨s, kind, name, body⟩ := h
    rw [withinHandlers, ih, map_cons, flatMap_cons]
    rfl

theorem within_eq (s : Stmt) : s.within = s :: s.blocks.flatMap withinAll := by
  cases s with
  | tryBlock s body handlers finalBody =>
    simp [within, blocks, withinHandlers_eq]
  | _ => simp [within, blocks]

def outline (s : Stmt) : List Head := s.within.map head

def outlineAll (ss : List Stmt) : List Head := (withinAll ss).map head

theorem outlineAll_eq (ss : List Stmt) : outlineAll ss = ss.flatMap outline := by
  rw [outlineAll, withinAll_eq, map_flatMap]
  rfl

@[simp] theorem outlineAll_nil : outlineAll [] = [] := rfl

@[simp] theorem outlineAll_cons (s : Stmt) (ss : List Stmt) :
    outlineAll (s :: ss) = s.outline ++ outlineAll ss :=
  map_append

@[simp] theorem outlineAll_append (ss ts : List Stmt) :
    outlineAll (ss ++ ts) = outlineAll ss ++ outlineAll ts := by
  simp only [outlineAll_eq, flatMap_append]

theorem outline_eq (s : Stmt) : s.outline = s.head :: s.blocks.flatMap outlineAll := by
  rw [outline, within_eq, map_cons, map_flatMap]
  rfl

theorem outline_functionDef (s : Span) (name : String) (params : Params) (body : List Stmt)
    (decorators : List Expr) : (functionDef s name params body decorators).outline =
      ⟨s, some name, decorators.head?.map Expr.span⟩ :: outlineAll body := rfl

end Stmt

/-! ## Changes that keep the outline -/

def Change.KeepsSpan {σ : Type} (c : Change σ) : Prop := ∀ env e, (c.leave env e).span = e.span

theorem Expr.span_change {σ : Type} {c : Change σ} (hc : c.KeepsSpan) (env : σ) (e : Expr) :
    (e.change c env).span = e.span := by
  cases e <;> simp only [Expr.change, hc env] <;> rfl

namespace Stmt

theorem head_mapExprs {f : Expr → Expr} (hf : ∀ e, (f e).span = e.span) (s : Stmt) :
    (s.mapExprs f).head = s.head := by
  cases s with
  | functionDef s name params body decorators =>
    cases decorators with
    | nil => rfl
    | cons e es => simp [mapExprs, head, hf]
  | _ => rfl

theorem outline_mapExprs {f : Expr → Expr} (hf : ∀ e, (f e).span = e.span) (s : Stmt) :
    (s.mapExprs f).outline = s.outline := by
  rw [outline_eq, outline_eq, head_mapExprs hf, blocks_mapExprs]

theorem Rebuilt.outline_eq {g : List Stmt → List Head} {s t : Stmt}
    (h : Rebuilt (fun b b' => outlineAll b' = g b) s t) :
    t.outline = s.head :: s.blocks.flatMap g := by
  have hhead : t.head = s.head := by
    cases h <;> rfl
  have hblocks := h.blocks_related
  rw [Stmt.outline_eq, hhead]
  generalize s.blocks = bs, t.blocks = bs' at hblocks
  congr 1
  induction hblocks with
  | nil => rfl
  | cons hb _ ih => rw [flatMap_cons, flatMap_cons, hb, ih]

theorem outlineAll_map {f : Stmt → Stmt} {ss : List Stmt}
    (h : ∀ s ∈ ss, (f s).outline = s.outline) : outlineAll (ss.map f) = outlineAll ss := by
  rw [outlineAll_eq, outlineAll_eq, flatMap_map]
  exact flatMap_congr h

theorem outlineAll_changeBlock {f : Stmt → Stmt} (hf : ∀ s, (f s).outline = s.outline)
    (ss : List Stmt) : outlineAll (changeBlock f ss) = outlineAll ss := by
  rw [changeBlock_eq_map]
  refine outlineAll_map fun s _ => blocks_induction (fun s ih => ?_) s
  obtain ⟨t, ht, hrebuilt⟩ := exists_of_changeWith (R := fun b b' => outlineAll b' = outlineAll b) f
    fun b hb => by rw [changeBlock_eq_map, outlineAll_map (ih b hb)]
  rw [ht, hf, hrebuilt.outline_eq, s.outline_eq]

end Stmt

end BlockScript.Program

namespace BlockScript.Compile

open Program Stmt List

theorem lowering_keepsSpan (runtimeName : String) (closures : ClosureRegistry) :
    (lowering runtimeName closures).KeepsSpan := by
  intro _ e
  change (lowerCall runtimeName closures e).span = e.span
  unfold lowerCall
  split
  · split <;> rfl
  · rfl

theorem outline_lowerAssign (runtimeName : String) (s : Stmt) :
    (lowerAssign runtimeName s).outline = s.outline := by
  unfold lowerAssign
  split <;> rfl

theorem outlineAll_lower (runtimeName : String) (closures : ClosureRegistry) (m : Module) :
    outlineAll (lower runtimeName closures m) = outlineAll m := by
  refine outlineAll_changeBlock (fun s => ?_) m
  rw [outline_lowerAssign]
  exact outline_mapExprs (fun e => e.span_change (lowering_keepsSpan runtimeName closures) ()) s

theorem routing_keepsSpan (options : Options) : (routing options).KeepsSpan := by
  intro bound e
  change (routeName options bound e).span = e.span
  unfold routeName
  split
  · split <;> rfl
  · rfl

theorem span_routeExpr (options : Options) (bound : List String) (e : Expr) :
    (routeExpr options bound e).span = e.span :=
  e.span_change (routing_keepsSpan options) bound

theorem outlineAll_of_routeStmt {options : Options} {ss : List Stmt}
    (h : ∀ s ∈ ss, ∀ bound, (routeStmt options bound s).1.outline = s.outline)
    (bound : List String) : outlineAll (routeBlock options bound ss).1 = outlineAll ss := by
  induction ss generalizing bound with
  | nil => rfl
  | cons s ss ih =>
    rw [forall_mem_cons] at h
    rw [routeBlock, outlineAll_cons, outlineAll_cons, h.1, ih h.2]

theorem outlineAll_route (options : Options) (m : Module) :
    outlineAll (route options m) = outlineAll m := by
  refine outlineAll_of_routeStmt (fun s _ => blocks_induction (fun s ih bound => ?_) s) []
  rcases routeStmt_eq (R := fun b b' => outlineAll b' = outlineAll b) options
    (fun b hb => outlineAll_of_routeStmt (ih b hb)) bound with
    ⟨span, place, name, name', value, rfl, -, h⟩ | ⟨t, hrebuilt, h⟩
  · rw [h]
    rfl
  · rw [h, outline_mapExprs (span_routeExpr options _), hrebuilt.outline_eq, s.outline_eq]

/-! ## Where the statements of a compiled program come from -/

open Program Stmt List

/-- Where a statement of a compiled program comes from. -/
inductive Origin where
  | definition (id : String)
  /-- It stands in the code of the script, or in the text of a closure. -/
  | statement (closure? : Option String)
  deriving DecidableEq, Repr

/-- A statement with its origin. -/
abbrev Traced := Origin × Head

def definition? (filename : String) (closures : ClosureRegistry) (id : String) :
    Option (Span × List Stmt) :=
  match closures.get? id with
  | none => none
  | some c =>
    match Module.parse (definitionText c) filename with
    | .ok [.functionDef s _ _ body _] => some (s, body)
    | _ => none

/-- The statements that become of those of a text: definitions come before the statements that
mention their closures. -/
def traceText (closures : ClosureRegistry) (closure? : Option String)
    (definitions : String → List Traced) (ss : List Stmt) : List Traced :=
  (withinAll ss).flatMap fun s =>
    (mentioned closures s).flatMap definitions ++ [(.statement closure?, s.head)]

def traceDefinition (filename : String) (closures : ClosureRegistry) : Nat → String → List Traced
  | 0, _ => []
  | n + 1, id =>
    match definition? filename closures id with
    | none => []
    | some (s, body) =>
      (.definition id, ⟨s, some id, some s⟩) ::
        traceText closures (some id) (traceDefinition filename closures n) body

def trace (filename : String) (closures : ClosureRegistry) (code : Module) : List Traced :=
  traceText closures none (traceDefinition filename closures (closures.size + 1)) code

section

variable {closures : ClosureRegistry} {closure? : Option String}
  {define : String → Except SyntaxError Stmt} {definitions : String → List Traced}

theorem traceText_cons (s : Stmt) (ss : List Stmt) :
    traceText closures closure? definitions (s :: ss) =
      traceText closures closure? definitions [s] ++
      traceText closures closure? definitions ss := by
  simp [traceText, withinAll]

/-- A statement after the definitions for it, then what stands in its blocks. -/
theorem traceText_singleton (s : Stmt) : traceText closures closure? definitions [s] =
      (mentioned closures s).flatMap definitions ++ (.statement closure?, s.head) ::
        s.blocks.flatMap (traceText closures closure? definitions) := by
  simp only [traceText, withinAll, within_eq, append_nil, flatMap_cons, flatMap_assoc,
    append_assoc, singleton_append]
  rfl

section

variable {P : Traced → Prop} {filename : String}

theorem forall_mem_traceText {ss : List Stmt} (hdefinitions : ∀ id, ∀ x ∈ definitions id, P x)
    (hss : ∀ x ∈ outlineAll ss, P (.statement closure?, x)) :
    ∀ x ∈ traceText closures closure? definitions ss, P x := by
  intro x hx
  obtain ⟨s, hs, hx⟩ := mem_flatMap.1 hx
  rcases mem_append.1 hx with hx | hx
  · obtain ⟨id, -, hx⟩ := mem_flatMap.1 hx
    exact hdefinitions id x hx
  · rw [mem_singleton.1 hx]
    exact hss _ (mem_map_of_mem hs)

theorem forall_mem_trace {code : Module} (hcode : ∀ x ∈ outlineAll code, P (.statement none, x))
    (hbodies : ∀ id s body, definition? filename closures id = some (s, body) →
      P (.definition id, ⟨s, some id, some s⟩) ∧ ∀ x ∈ outlineAll body,
        P (.statement (some id), x)) :
    ∀ x ∈ trace filename closures code, P x := by
  refine forall_mem_traceText (fun id => ?_) hcode
  generalize closures.size + 1 = n
  induction n generalizing id with
  | zero => exact nofun
  | succ n ih =>
    rw [traceDefinition]
    split
    · exact nofun
    · next s body hdefinition =>
      obtain ⟨hhead, hbody⟩ := hbodies id s body hdefinition
      exact forall_mem_cons.2 ⟨hhead, forall_mem_traceText ih hbody⟩

end

/-- What is defined for an id has the statements `definitions` gives. -/
def Traces (define : String → Except SyntaxError Stmt) (definitions : String → List Traced) :
    Prop :=
  ∀ id s, define id = .ok s → s.outline = (definitions id).map Prod.snd

variable (hdefine : Traces define definitions) {ss out : List Stmt}

include hdefine

theorem outlineAll_definitions {ids : List String}
    (h : Forall₂ (fun id d => define id = .ok d) ids ss) :
    outlineAll ss = (ids.flatMap definitions).map Prod.snd := by
  induction h with
  | nil => rfl
  | cons hs _ ih => rw [outlineAll_cons, hdefine _ _ hs, ih, flatMap_cons, map_append]

omit hdefine in
theorem outlineAll_of_withClosures (hss : ∀ s ∈ ss, ∀ out,
      withClosures closures define s = .ok out →
      outlineAll out = (traceText closures closure? definitions [s]).map Prod.snd)
    (h : blockWithClosures closures define ss = .ok out) :
    outlineAll out = (traceText closures closure? definitions ss).map Prod.snd := by
  obtain ⟨parts, rfl, hparts⟩ := exists_parts h
  clear h
  induction hparts with
  | nil => rfl
  | @cons s _ ss _ hfirst _ ih =>
    rw [forall_mem_cons] at hss
    rw [flatten_cons, outlineAll_append, hss.1 _ hfirst, ih hss.2, traceText_cons s ss, map_append]

theorem outlineAll_blockWithClosures (ss : List Stmt)
    (h : blockWithClosures closures define ss = .ok out) :
    outlineAll out = (traceText closures closure? definitions ss).map Prod.snd := by
  refine outlineAll_of_withClosures (fun s _ => blocks_induction (fun s ih out h => ?_) s) h
  obtain ⟨ds, t, hds, rfl, hrebuilt⟩ := exists_of_withClosures
    (fun b hb _ h => outlineAll_of_withClosures (ih b hb) h) h
  rw [outlineAll_append, outlineAll_definitions hdefine hds, outlineAll_cons, outlineAll_nil,
    append_nil, hrebuilt.outline_eq, traceText_singleton, map_append, map_cons,
    map_flatMap (l := s.blocks)]

end

end BlockScript.Compile
