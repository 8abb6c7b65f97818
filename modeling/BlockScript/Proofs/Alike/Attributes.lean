import BlockScript.Proofs.Alike.Text
import BlockScript.Eval.Resolve

/-! Evaluators, and the objects of embedding applications, that do alike things in alike
machines. -/

namespace BlockScript

open Program

variable {S : Pairing} {w : World}

inductive Flow.Alike (S : Setting) (w : World) : Flow → Flow → Prop
  | normal : Flow.Alike S w .normal .normal
  | breakLoop : Flow.Alike S w .breakLoop .breakLoop
  | continueLoop : Flow.Alike S w .continueLoop .continueLoop
  | returns {v v' : Value} : v.Alike S w v' → Flow.Alike S w (.returns v) (.returns v')

inductive Member.Alike (S : Setting) (w : World) : Member → Member → Prop
  | value {v v' : Value} : v.Alike S w v' → Member.Alike S w (.value v) (.value v')
  | items {vs vs' : List Value} : List.Forall₂ (Value.Alike S w) vs vs' →
    Member.Alike S w (.items vs) (.items vs')
  | unset : Member.Alike S w .unset .unset
  | absent : Member.Alike S w .absent .absent

theorem Member.Alike.isAbsent_eq {m m' : Member} (h : m.Alike S w m') :
    m'.isAbsent = m.isAbsent := by
  cases h <;> rfl

structure Calls.Alike (S : Pairing) (c c' : Calls) : Prop where
  call : ∀ w {v v' : Value} {args args' : Args}, v.Alike S w v' → args.Alike S w args' →
    Run.Alike S w (Value.Alike S) (c.call v args) (c'.call v' args')
  iterate : ∀ w {v v' : Value}, v.Alike S w v' → Run.Alike S w (Values.Alike S) (c.iterate v)
    (c'.iterate v')

/-- The objects of an application do not look at identities or code, and get hold only of objects
that are shown to them. -/
structure Host.Uniform (host : Host) : Prop where
  attr {S : Setting} {w : World} {h h' : Heap} (hh : h.Alike S w h') (o : ObjectRef)
    (name : String) : Member.Alike S w (host.attr h o name) (host.attr h' o name)
  setAttr {S : Pairing} {w : World} (o : ObjectRef) (name : String) {v v' : Value}
    (hv : v.Alike S w v') :
    Run.Alike S w (fun _ => Eq) (host.setAttr o name v) (host.setAttr o name v')
  callMethod {S : Pairing} {w : World} {c c' : Calls} (hc : c.Alike S c') (o : ObjectRef)
    (ho : S.Shows o) (name : String) {args args' : Args} (ha : args.Alike S w args') :
    Run.Alike S w (Value.Alike S) (host.callMethod c o name args) (host.callMethod c' o name args')
  call {S : Pairing} {w : World} {c c' : Calls} (hc : c.Alike S c') (o : ObjectRef)
    {args args' : Args} (ha : args.Alike S w args') :
    Run.Alike S w (Value.Alike S) (host.call c o args) (host.call c' o args')
  pieces {S : Setting} {w : World} {h h' : Heap} (hh : h.Alike S w h') (o : ObjectRef) :
    List.Forall₂ (Piece.Alike S w) (host.pieces h o) (host.pieces h' o)
  configure {S : Pairing} {c c' : Calls} (hc : c.Alike S c') (o : ObjectRef) :
    Option.Rel (fun f f' => ∀ w {v v' : Value}, v.Alike S w v' →
      Run.Alike S w (Value.Alike S) (f v) (f' v')) (host.configure? c o) (host.configure? c' o)
  setProperty {S : Pairing} {w : World} {o : ObjectRef} {set : String → Value → Run Bool}
    (hset : host.setProperty? o = some set) (name : String) {v v' : Value}
    (hv : v.Alike S w v') : Run.Alike S w (fun _ => Eq) (set name v) (set name v')
  nameValue {S : Setting} {w : World} {h h' : Heap} (hh : h.Alike S w h') (o : ObjectRef)
    (name : String) :
    Option.Rel (Value.Alike S w) (host.nameValue? h o name) (host.nameValue? h' o name)

theorem Host.uniform_none : Host.none.Uniform where
  attr _ _ _ := .absent
  setAttr _ _ _ _ _ := .fail_same rfl
  callMethod _ _ _ _ _ _ _ := .fail_same rfl
  call _ _ _ _ _ := .typeError _
  pieces _ _ := .cons (.text _) .nil
  configure _ _ := .none
  setProperty hset := nomatch hset
  nameValue _ _ _ := .none

/-- Evaluators that do alike things with alike code. -/
structure Evaluator.Alike (S : Pairing) (ev ev' : Evaluator) : Prop where
  host_eq : ev'.host = ev.host
  uniform : ev.host.Uniform
  calls : ev.toCalls.Alike S ev'.toCalls
  eval : ∀ w {e : Expr}, S.AllowsIn e → Run.Alike S w (Value.Alike S) (ev.eval e) (ev'.eval e)
  block : ∀ w {ss ss' : List Stmt}, Stmt.AllAlike S ss ss' →
    Run.Alike S w (Flow.Alike S) (ev.block ss) (ev'.block ss')
  loop : ∀ w {e : Expr} {ss ss' : List Stmt}, S.AllowsIn e → Stmt.AllAlike S ss ss' →
    Run.Alike S w (Flow.Alike S) (ev.loop e ss) (ev'.loop e ss')

namespace Evaluator.Alike

variable {ev ev' : Evaluator} {v v' : Value} {args args' : Args}

variable (he : ev.Alike S ev')

include he

theorem call (hv : v.Alike S w v') (ha : args.Alike S w args') :
    Run.ValueAlike S w (ev.call v args) (ev'.call v' args') := he.calls.call w hv ha

theorem iterate (hv : v.Alike S w v') :
    Run.Alike S w (Values.Alike S) (ev.iterate v) (ev'.iterate v') := he.calls.iterate w hv

theorem hostView {h h' : Heap} (hh : h.Alike S w h') :
    (ev.host.view h).Alike S w (ev'.host.view h') := by
  refine ⟨hh, fun o _ => ?_⟩
  rw [he.host_eq]
  change List.Forall₂ _ (ev.host.objectPieces h o) (ev.host.objectPieces h' o)
  unfold Host.objectPieces
  split
  · exact .cons (.text _) .nil
  · exact he.uniform.pieces hh o

theorem view_read : Run.ReadAlike S w (View.Alike S w) ev.view ev'.view :=
  fun _ _ hm => ⟨.ok _, .ok _, rfl, rfl, .ok (he.hostView hm.heap)⟩

theorem truthy_read (hv : v.Alike S w v') : Run.ReadAlike S w Eq (ev.truthy v) (ev'.truthy v') :=
  fun _ _ hm => ⟨.ok _, .ok _, rfl, rfl, .ok ((he.hostView hm.heap).truthy_eq hv).symm⟩

theorem display_read (hv : v.Alike S w v') : Run.ReadAlike S w Eq (ev.display v) (ev'.display v') :=
  fun _ _ hm => ⟨.ok _, .ok _, rfl, rfl, .ok ((he.hostView hm.heap).display_eq hv).symm⟩

theorem repr_read (hv : v.Alike S w v') : Run.ReadAlike S w Eq (ev.repr v) (ev'.repr v') :=
  fun _ _ hm => ⟨.ok _, .ok _, rfl, rfl, .ok ((he.hostView hm.heap).repr_eq hv).symm⟩

end Evaluator.Alike

namespace Value.Alike

variable {v v' : Value}

theorem hasBuiltinMethod_eq (h : v.Alike S w v') (name : String) :
    v'.hasBuiltinMethod name = v.hasBuiltinMethod name := by
  cases h <;> rfl

end Value.Alike

/-! ## Attributes and names -/

open Program List

variable {S : Pairing} {w : World} {α β : Type}

theorem RuntimeError.Alike.isAttribute_eq {e e' : RuntimeError} (h : e.Alike S w e') :
    e'.isAttribute = e.isAttribute := by
  cases h <;> rfl

namespace Run.Alike

variable {v v' : Value}

theorem bindAttr (hv : v.Alike S w v') {attr attr' : Value} (ha : attr.Alike S w attr') :
    Run.ValueAlike S w (BlockScript.bind v attr) (BlockScript.bind v' attr') := by
  have hattr := ha
  unfold BlockScript.bind
  cases ha with
  | function hf =>
    exact bind fresh fun _ hw _ _ hids => pure (.method hids (hv.mono hw) (.function (hf.mono hw)))
  | native fn hi =>
    exact bind fresh fun _ hw _ _ hids => pure (.method hids (hv.mono hw) (.native fn (hw.ids hi)))
  | _ => exact pure hattr

theorem namedMethod (hv : v.Alike S w v') (name : String) :
    Run.ValueAlike S w (namedMethod v name) (BlockScript.namedMethod v' name) :=
  bind fresh fun _ hw _ _ hids => pure (.method hids (hv.mono hw) (.named name))

theorem missing {Q : World → α → β → Prop} (typeName name : String) :
    Run.Alike S w Q (BlockScript.missing typeName name) (BlockScript.missing typeName name) :=
  fail_same rfl

end Run.Alike

namespace Evaluator.Alike

variable {ev ev' : Evaluator} {v v' u u' : Value} {h h' : Heap}

variable (he : ev.Alike S ev')

include he

theorem objectAttr (hh : h.Alike S w h') (o : ObjectRef) (name : String) :
    Member.Alike S w (ev.host.objectAttr h o name) (ev'.host.objectAttr h' o name) := by
  rw [he.host_eq]
  unfold Host.objectAttr
  split
  · exact .absent
  · exact he.uniform.attr hh o name

theorem getObjectAttr {o : ObjectRef} (ho : S.Shows o) (name : String) :
    Run.ValueAlike S w (ev.getObjectAttr o name) (ev'.getObjectAttr o name) := by
  refine .heap_bind fun h h' hh => ?_
  have hmember := he.objectAttr hh o name
  generalize ev.host.objectAttr h o name = member, ev'.host.objectAttr h' o name =
    member' at hmember
  rw [he.host_eq]
  cases hmember with
  | value hv => exact .pure hv
  | items hvs => exact .newList hvs
  | unset => exact .fail_same rfl
  | absent =>
    exact .ite (fun _ => .namedMethod (.object ho) name) fun _ => .missing _ _

theorem getAttr (hv : v.Alike S w v') (name : String) :
    Run.ValueAlike S w (ev.getAttr v name) (ev'.getAttr v' name) := by
  have hv' := hv
  refine .heap_bind fun h h' hh => ?_
  cases hv with
  | inst r c =>
    have hown := (hh.inst r).get? name
    have hclass := hh.classAttr? c name
    dsimp only
    generalize (h.inst r).get? name = found, (h'.inst r).get? name = found',
      h.classAttr? c name = inherited, h'.classAttr? c name = inherited' at hown hclass
    cases hown with
    | some hv => exact .pure hv
    | none =>
      cases hclass with
      | some hattr => exact .bindAttr hv' hattr
      | none => exact .missing _ _
  | cls c =>
    refine .ite (fun _ => .pure (.str _)) fun _ => ?_
    match h.classAttr? c name, h'.classAttr? c name, hh.classAttr? c name with
    | _, _, .some hattr => exact .pure hattr
    | _, _, .none => exact .fail_same rfl
  | space r =>
    dsimp only
    match (h.space r).get? name, (h'.space r).get? name, (hh.space r).get? name with
    | _, _, .some hv => exact .pure hv
    | _, _, .none => exact .missing _ _
  | object ho => exact he.getObjectAttr ho name
  | function hf =>
    dsimp only
    rw [hf.name_eq]
    exact .ite (fun _ => .pure (.str _)) fun _ => .missing _ _
  | closure hf =>
    dsimp only
    rw [hf.name_eq]
    exact .ite (fun _ => .pure (.str _)) fun _ => .missing _ _
  | native fn _ => exact .ite (fun _ => .pure (.str _)) fun _ => .missing _ _
  | _ =>
    dsimp only
    rw [hv'.hasBuiltinMethod_eq, hv'.typeName_eq]
    exact .ite (fun _ => .namedMethod hv' name) fun _ => .missing _ _

omit he in
theorem toOption {R : α → β → Prop} {x : Except RuntimeError α} {y : Except RuntimeError β}
    (h : ExceptAlike S w R x y) : Option.Rel R x.toOption y.toOption := by
  cases h with
  | ok h => exact .some h
  | error _ => exact .none

theorem getAttr? (hv : v.Alike S w v') (name : String) :
    Run.Alike S w (fun w => Option.Rel (Value.Alike S w)) (ev.getAttr? v name)
      (ev'.getAttr? v' name) :=
  .bind (.attempt (he.getAttr hv name)) fun _ _ _ _ hr => .pure (toOption hr)

theorem setAttr (hv : v.Alike S w v') (name : String) (hu : u.Alike S w u') :
    Run.EqAlike S w (ev.setAttr v name u) (ev'.setAttr v' name u') := by
  cases hv with
  | inst r c => exact .modifyHeap rfl fun _ _ hh => hh.setInst r ((hh.inst r).insert name hu)
  | cls c =>
    exact .modifyHeap rfl fun _ _ hh => hh.setClassAttrs c.id ((hh.classAttrs c.id).insert name hu)
  | space r => exact .modifyHeap rfl fun _ _ hh => hh.setSpace r ((hh.space r).insert name hu)
  | @object o _ =>
    unfold Evaluator.setAttr
    dsimp only
    rw [he.host_eq]
    unfold Host.objectSetAttr
    split
    · exact .fail_same rfl
    · exact he.uniform.setAttr o name hu
  | method _ _ _ | tuple _ _ => exact .fail_same rfl
  | _ => exact .fail_same rfl

theorem hasMethod_eq (hh : h.Alike S w h') (hv : v.Alike S w v') (name : String) :
    ev'.hasMethod h' v' name = ev.hasMethod h v name := by
  unfold Evaluator.hasMethod
  rw [he.host_eq]
  cases hv with
  | inst r c =>
    have hclass := hh.classAttr? c name
    dsimp only
    generalize h.classAttr? c name = found, h'.classAttr? c name = found' at hclass
    cases hclass <;> rfl
  | _ => rfl

theorem isCallable_eq (hh : h.Alike S w h') (hv : v.Alike S w v') :
    ev'.isCallable h' v' = ev.isCallable h v := by
  unfold Evaluator.isCallable
  rw [he.host_eq]
  cases hv with
  | inst r c =>
    have hclass := hh.classAttr? c "__call__"
    dsimp only
    generalize h.classAttr? c "__call__" = found, h'.classAttr? c "__call__" = found' at hclass
    cases hclass <;> rfl
  | _ => rfl

theorem setProperty (hv : v.Alike S w v') (name : String) (hu : u.Alike S w u') :
    Run.EqAlike S w (ev.setProperty v name u) (ev'.setProperty v' name u') := by
  have hv' := hv
  unfold Evaluator.setProperty
  cases hv with
  | dict r =>
    simp only [pure_bind]
    exact .modifyHeap rfl fun _ _ hh => hh.setDict r ((hh.dict r).insert (.str name) hu)
  | @object o ho =>
    have hset := he.setAttr (.object ho) name hu
    dsimp only
    rw [he.host_eq]
    cases hown : ev.host.objectSetProperty? o with
    | none =>
      simp only [pure_bind]
      exact hset
    | some set =>
      have hown : ev.host.setProperty? o = some set := by
        unfold Host.objectSetProperty? at hown
        split at hown
        · cases hown
        · exact hown
      refine .bind (.attempt (he.uniform.setProperty hown name hu)) fun w' hw r r' hr => ?_
      replace hset := he.setAttr (.object ho) name (hu.mono hw)
      cases hr with
      | @ok done _ h =>
        cases h
        simp only [pure_bind]
        exact .ite (fun _ => .pure rfl) fun _ => hset
      | error h =>
        dsimp only
        rw [h.isAttribute_eq]
        simp only [pure_bind]
        exact .ite (fun _ => hset) fun _ => .fail_bind h
  | _ =>
    simp only [pure_bind]
    exact he.setAttr hv' name hu

end Evaluator.Alike

/-! ## Names of plain code -/

variable {name : String}

theorem Machine.Alike.name? {m m' : Machine} (hm : m.Alike S w m' S.marks) (hname : S.Allows name) :
    Option.Rel (Value.Alike S w) (m.name? name) (m'.name? name) := by
  have hbuiltin := hm.builtins.get? name
  have hglobal := hm.heap.var? w.globals hname
  have hlocal := hm.heap.var? m.frame hname
  have houter := hm.heap.outerVar? hname m.env.tail
  rw [Machine.name?, Machine.name?, Machine.global?, Machine.global?, hm.frame_eq, hm.env_eq,
    hm.globals, hm.globals', (hm.heap.frame m.frame).globals_eq]
  split
  · exact hglobal.orElse hbuiltin
  · exact (hlocal.orElse houter).orElse hbuiltin

namespace Run.Alike

theorem loadName (hname : S.Allows name) :
    Run.ValueAlike S w (loadName name) (BlockScript.loadName name) := by
  refine .get_bind fun m m' hm => ?_
  match m.name? name, m'.name? name, hm.name? hname with
  | _, _, .some hv => exact .pure hv
  | _, _, .none => exact .fail_same rfl

variable {r : FrameRef}

theorem enclosing_mem {h : Heap} {env : Env} (hr : h.enclosing? name env = some r) : r ∈ env := by
  induction env with
  | nil => cases hr
  | cons s rest ih =>
    unfold Heap.enclosing? at hr
    split at hr
    · cases hr
    · exact mem_cons_of_mem _ (ih hr)
    all_goals
      split at hr
      · cases hr
        exact mem_cons_self
      · exact mem_cons_of_mem _ (ih hr)

theorem storeName (hname : S.Allows name) {v v' : Value} (hv : v.Alike S w v') :
    Run.EqAlike S w (storeName name v) (BlockScript.storeName name v') := by
  refine .get_bind fun m m' hm => ?_
  dsimp only
  rw [hm.frame_eq, hm.env_eq, hm.globals, hm.globals', (hm.heap.frame m.frame).globals_eq,
    (hm.heap.frame m.frame).nonlocals_eq, hm.heap.enclosing?_eq]
  refine .ite (fun _ => ?_) fun _ => .ite (fun _ => ?_) fun _ => ?_
  · exact .modifyHeap rfl fun _ _ hh => hh.setVar hm.heap.module hname hv
  · split
    · next r hr =>
      have hmem : r ∈ m.env := mem_of_mem_tail (enclosing_mem hr)
      exact .modifyHeap rfl fun _ _ hh => hh.setVar (hm.env.frames r hmem) hname hv
    · exact .fail_same rfl
  · exact .modifyHeap rfl fun _ _ hh => hh.setVar hm.frame hname hv

theorem declare (hr : w.HasFrame r) {f : Frame → Frame}
    (hvars : ∀ frame, (f frame).vars = frame.vars)
    (hglobals : ∀ a b : Frame, b.globals = a.globals → (f b).globals = (f a).globals)
    (hnonlocals : ∀ a b : Frame, b.nonlocals = a.nonlocals → (f b).nonlocals = (f a).nonlocals) :
    Run.EqAlike S w (Run.modifyHeap fun h => h.setFrame r (f (h.frame r)))
      (Run.modifyHeap fun h => h.setFrame r (f (h.frame r))) := by
  refine .modifyHeap rfl fun h h' hh => hh.setFrame hr ⟨?_, ?_, ?_⟩ ?_
  · rw [hvars, hvars]
    exact (hh.frame r).vars
  · exact hglobals _ _ (hh.frame r).globals_eq
  · exact hnonlocals _ _ (hh.frame r).nonlocals_eq
  · intro name o ho hindex
    rw [hvars, hvars]
    have hkept := hh.hidden name o ho
    unfold Heap.var? Heap.frame at hkept
    unfold Heap.frame
    rw [hindex]
    exact hkept

theorem declareGlobals (names : List String) :
    Run.EqAlike S w (declareGlobals names) (BlockScript.declareGlobals names) := by
  refine .get_bind fun m m' hm => ?_
  dsimp only
  rw [hm.frame_eq]
  exact declare hm.frame (f := fun frame => { frame with globals := frame.globals ++ names })
    (fun _ => rfl) (fun _ _ h => congrArg (· ++ names) h) fun _ _ h => h

theorem declareNonlocals (names : List String) :
    Run.EqAlike S w (declareNonlocals names) (BlockScript.declareNonlocals names) := by
  refine .get_bind fun m m' hm => ?_
  dsimp only
  rw [hm.frame_eq, hm.env_eq]
  simp only [hm.heap.enclosing?_eq]
  split
  · exact .fail_same rfl
  · exact declare hm.frame (f := fun frame => { frame with nonlocals := frame.nonlocals ++ names })
      (fun _ => rfl) (fun _ _ h => h) fun _ _ h => congrArg (· ++ names) h

end Run.Alike

end BlockScript
