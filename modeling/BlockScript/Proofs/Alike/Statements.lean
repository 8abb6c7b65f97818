import BlockScript.Proofs.Alike.Expressions
import BlockScript.Proofs.Pending

/-! Statements executed in machines that are alike. -/

namespace BlockScript

open Program List

variable {S : Pairing} {w w' : World} {v v' : Value}

/-! ## Errors -/

variable {e e' : RuntimeError} {vs vs' : List Value}

theorem Machine.Alike.namedClass?_eq {m m' : Machine} (hm : m.Alike S w m' S.marks)
    (name : String) :
    (match (m'.builtins.get? name).orElse fun _ => m'.builtins.get? "Exception" with
      | some (.cls c) => some c
      | _ => none) =
    (match (m.builtins.get? name).orElse fun _ => m.builtins.get? "Exception" with
      | some (.cls c) => some c
      | _ => none) := by
  have hfound := (hm.builtins.get? name).orElse (hm.builtins.get? "Exception")
  generalize (m.builtins.get? name).orElse _ = found, (m'.builtins.get? name).orElse _ =
    found' at hfound
  cases hfound with
  | none => rfl
  | some hv => cases hv <;> rfl

theorem Machine.Alike.errorClass?_eq {m m' : Machine} (hm : m.Alike S w m' S.marks)
    (h : e.Alike S w e') : m'.errorClass? e' = m.errorClass? e := by
  cases h with
  | raised hv =>
    cases hv with
    | inst => rfl
    | _ => exact hm.namedClass?_eq _
  | @same e he =>
    cases e with
    | raised => cases he
    | _ => exact hm.namedClass?_eq _

theorem exceptionOf_alike (h : e.Alike S w e') :
    Run.ValueAlike S w (exceptionOf e) (exceptionOf e') := by
  let make (found : Option Class) (message : String) : Run Value :=
    match found with
    | none => pure (.str message)
    | some c => do
      let args ← Run.newTuple [.str message]
      let attrs : Attrs := .ofList [("args", args), ("message", .str message)]
      return .inst (← Run.alloc (·.newInst attrs)) c
  have hmade (found : Option Class) (message : String) :
      Run.ValueAlike S w (make found message) (make found message) := by
    cases found with
    | none => exact .pure (.str message)
    | some c =>
      refine .bind (.newTuple (.cons (.str message) .nil)) fun w1 _ args args' hargs => ?_
      have hattrs : MapAlike S w1 (.ofList [("args", args), ("message", .str message)])
          (.ofList [("args", args'), ("message", .str message)]) :=
        .ofList (.cons ⟨rfl, hargs⟩ (.cons ⟨rfl, .str message⟩ .nil))
      refine .bind_eq (.alloc fun _ _ hh => (hh.newInst hattrs).imp Eq.symm id) fun _ _ r => ?_
      exact .pure (.inst r c)
  refine .get_bind fun m m' hm => ?_
  rw [hm.errorClass?_eq h]
  generalize m.errorClass? e = found
  have hmade := hmade found e.message
  cases h with
  | raised hv =>
    cases hv with
    | inst r c => exact .pure (.inst r c)
    | _ => cases found <;> exact hmade
  | @same e he =>
    cases e with
    | raised => cases he
    | _ => cases found <;> exact hmade

namespace Flow.Alike

theorem mono (hw : w ≤ w') {flow flow' : Flow} (h : flow.Alike S w flow') :
    flow.Alike S w' flow' := by
  cases h with
  | normal => exact .normal
  | breakLoop => exact .breakLoop
  | continueLoop => exact .continueLoop
  | returns hv => exact .returns (hv.mono hw)

end Flow.Alike

theorem ExceptAlike.mono {α β : Type} {R : World → α → β → Prop} (hR : World.Mono R) (hw : w ≤ w')
    {x : Except RuntimeError α} {y : Except RuntimeError β} (h : ExceptAlike S w (R w) x y) :
    ExceptAlike S w' (R w') x y := by
  cases h with
  | ok h => exact .ok (hR hw h)
  | error h => exact .error (h.mono hw)

/-! ## Lines -/

/-- The lines that two markings leave stay related. The relation `R pending` is the one that holds
while the first run decides on an error with the line `pending`. -/
structure Marking.Follows (k k' : Marking) (R : Option Nat → Marks) : Prop where
  held {pending a b : Option Nat} : (R pending).Rel a b → (R a).Rel (k.held a) (k'.held b)
  failed {pending a b c d : Option Nat} : (R pending).Rel a b → (R a).Rel c d →
    (R pending).Rel (k.failed a c) (k'.failed b d)
  resumed {pending a b c d : Option Nat} : (R pending).Rel a b → (R a).Rel c d →
    (R pending).Rel (k.resumed a c) (k'.resumed b d)

theorem Marking.shared_follows (marks : Marks) : shared.Follows shared fun _ => marks where
  held h := h
  failed _ h := h
  resumed _ h := h

namespace Run.Alike

variable {α β : Type} {Q : World → α → β → Prop} {p : Run α} {q : Run β}

theorem atLine (line : Nat) (h : Run.Alike S w Q p q) :
    Run.Alike S w Q (Run.atLine line p) (Run.atLine line q) := by
  intro m m' hm
  unfold Run.atLine
  generalize p m = r, q m' = r', h m m' hm = hr
  cases hr with
  | ok hw hm hq => exact .ok hw hm hq
  | error hw hm he =>
    exact .error hw (hm.withLine (S.marks.atLine line hm.errorLine)) he
  | cut => exact .cut
  | firstCut h => exact .firstCut h
  | secondCut h => exact .secondCut h

theorem setErrorLine {line line' : Option Nat} (h : S.marks.Rel line line') :
    Run.EqAlike S w (Run.setErrorLine line) (Run.setErrorLine line') :=
  .modify rfl fun _ _ hm => hm.withLine h

theorem handling {e e' : RuntimeError} (he : e.Alike S w e') (h : Run.Alike S w Q p q) :
    Run.Alike S w Q (Run.handling e p) (Run.handling e' q) := by
  intro m m' hm
  refine (ensuring h fun _ _ _ _ hm => ?_) _ _ { hm with handling := .cons he hm.handling }
  exact { hm with handling := rel_tail hm.handling }

theorem yields (hvs : Values.Alike S w vs vs') :
    Run.EqAlike S w (Run.yields vs) (Run.yields vs') := by
  refine .get_bind fun m m' hm => ?_
  match m.yields, m'.yields, hm.yields with
  | _, _, .nil => exact .fail_same rfl
  | _, _, .cons hfirst hrest =>
    refine .modify rfl fun _ _ hm => { hm with yields := .cons ?_ hrest }
    exact rel_append (rel_reverse hvs) hfirst

theorem importModule (name : String) :
    Run.ValueAlike S w (importModule name) (BlockScript.importModule name) := by
  refine .get_bind fun m m' hm => ?_
  match m.modules.get? name, m'.modules.get? name, hm.modules.get? name with
  | _, _, .none => exact .fail_same rfl
  | _, _, .some hv => exact .pure hv

theorem deciding {k k' : Marking} {R : Option Nat → Marks} (hk : k.Follows k' R)
    {p : Run (Option α)} {q : Run (Option β)} {pending : Option Nat}
    (h : ∀ line, Run.Alike { S with marks := R line } w (fun w => Option.Rel (Q w)) p q) :
    Run.Alike { S with marks := R pending } w (fun w => Option.Rel (Q w)) (Run.deciding k p)
      (Run.deciding k' q) := by
  intro m m' hm
  have hend := h m.errorLine _ _ (hm.withLine (hk.held hm.errorLine))
  change EndAlike _ _ _ (Run.decided k m.errorLine _) (Run.decided k' m'.errorLine _)
  generalize p _ = r, q _ = r' at hend ⊢
  cases hend with
  | ok hw hm' ha =>
    cases ha with
    | none => exact .ok hw (hm'.withLine (hk.resumed hm.errorLine hm'.errorLine)) .none
    | some ha => exact .ok hw (hm'.withLine (R pending).unset) (.some ha)
  | error hw hm' he => exact .error hw (hm'.withLine (hk.failed hm.errorLine hm'.errorLine)) he
  | cut => exact .cut
  | firstCut h => exact .firstCut h
  | secondCut h => exact .secondCut h

end Run.Alike

namespace Evaluator.Alike

variable {ev ev' : Evaluator}

variable (he : ev.Alike S ev')

include he

theorem evalOr (hv : v.Alike S w v') {e : Option Expr} (hallow : ∀ d ∈ e, S.AllowsIn d) :
    Run.ValueAlike S w (ev.evalOr v e) (ev'.evalOr v' e) := by
  cases e with
  | none => exact .pure hv
  | some e => exact he.eval w (hallow e rfl)

theorem augAssign {target value : Expr} (htarget : S.AllowsIn target) (op : BinaryOp)
    (hvalue : S.AllowsIn value) :
    Run.EqAlike S w (ev.augAssign target op value) (ev'.augAssign target op value) := by
  cases target with
  | name _ id =>
    have hname := htarget id (mem_singleton_self id)
    refine .bind (.loadName hname) fun w1 _ _ _ hcurrent => ?_
    refine .bind (he.eval w1 hvalue) fun w2 hw2 _ _ hv => ?_
    refine .bind (he.binaryInPlace op (hcurrent.mono hw2) hv) fun _ _ _ _ hresult => ?_
    exact .storeName hname hresult
  | «attribute» _ object name =>
    refine .bind (he.eval w htarget) fun w1 _ _ _ hobject => ?_
    refine .bind (he.getAttr hobject name) fun w2 hw2 _ _ hcurrent => ?_
    refine .bind (he.eval w2 hvalue) fun w3 hw3 _ _ hv => ?_
    refine .bind (he.binaryInPlace op (hcurrent.mono hw3) hv) fun w4 hw4 _ _ hresult => ?_
    exact he.setProperty (hobject.mono (World.le_trans hw2 (World.le_trans hw3 hw4))) name hresult
  | subscript _ object index =>
    obtain ⟨hobject, hindex⟩ := forall_mem_append.1 htarget
    refine .bind (he.eval w hobject) fun w1 _ _ _ hobject => ?_
    refine .bind (he.eval w1 hindex) fun w2 hw2 _ _ hindex => ?_
    have hobject := hobject.mono hw2
    refine .bind (he.getItem hobject hindex) fun w3 hw3 _ _ hcurrent => ?_
    refine .bind (he.eval w3 hvalue) fun w4 hw4 _ _ hv => ?_
    refine .bind (he.binaryInPlace op (hcurrent.mono hw4) hv) fun w5 hw5 _ _ hresult => ?_
    have hw := World.le_trans hw3 (World.le_trans hw4 hw5)
    exact he.setItem (hobject.mono hw) (hindex.mono hw) hresult
  | _ => exact .typeError _

variable {condition context : Expr} {names : List Alias}

theorem assertThat (hcondition : S.AllowsIn condition) {message : Option Expr}
    (hmessage : ∀ e ∈ message, S.AllowsIn e) : Run.EqAlike S w (ev.assertThat condition message)
      (ev'.assertThat condition message) := by
  refine .bind_eq (he.test hcondition) fun w1 _ holds => ?_
  refine .ite (fun _ => ?_) fun _ => .pure rfl
  cases message with
  | none => exact .bind_eq (.pure rfl) fun _ _ _ => .fail_same rfl
  | some e =>
    refine .bind (he.eval w1 (hmessage e rfl)) fun _ _ _ _ hv => ?_
    exact .bind_eq (he.toStr hv) fun _ _ _ => .fail_same rfl

theorem raised (hv : v.Alike S w v') :
    Run.Alike S w (RuntimeError.Alike S) (ev.raised v) (ev'.raised v') := by
  have hinst : ∀ w r c, Run.Alike S w (RuntimeError.Alike S) (ev.raised (.inst r c))
      (ev'.raised (.inst r c)) := by
    intro w r c
    unfold Evaluator.raised
    simp only [pure_bind]
    refine .heap_bind fun h h' hh => ?_
    rw [(hh.classAttr? c "__exception__").isNone_eq]
    refine .ite (fun _ => .fail_bind (.same rfl)) fun _ => ?_
    match (h.inst r).get? "message", (h'.inst r).get? "message", (hh.inst r).get? "message" with
    | _, _, .none => exact .pure (.raised (.inst r c))
    | _, _, .some hv =>
      exact .read_bind_eq (he.display_read hv) fun _ => .pure (.raised (.inst r c))
  cases hv with
  | cls c =>
    refine .bind (he.instantiate c (.of_positional .nil)) fun w' _ v v' hv => ?_
    cases hv with
    | inst r c => exact hinst w' r c
    | _ => exact .typeError _
  | inst r c => exact hinst w r c
  | _ => exact .typeError _

theorem raise {value : Option Expr} (hallow : ∀ e ∈ value, S.AllowsIn e) :
    Run.Alike S w (Flow.Alike S) (ev.raise value) (ev'.raise value) := by
  cases value with
  | some e =>
    exact .bind (he.eval w (hallow e rfl)) fun _ _ _ _ hv =>
      .bind (he.raised hv) fun _ _ _ _ herror => .fail herror
  | none =>
    refine .get_bind fun m m' hm => ?_
    match m.handling, m'.handling, hm.handling with
    | _, _, .nil => exact .fail_same rfl
    | _, _, .cons herror _ => exact .fail herror

omit he in
theorem importNames (hallow : ∀ a ∈ names, S.Allows a.binding) :
    Run.EqAlike S w (importNames names) (Evaluator.importNames names) :=
  .forM (fun _ => rfl) fun _ _ a ha => .bind (.importModule _) fun _ _ _ _ hv =>
  .storeName (hallow a ha) hv

theorem importFrom (module : String) (hallow : ∀ a ∈ names, S.Allows a.binding) :
    Run.EqAlike S w (ev.importFrom module names) (ev'.importFrom module names) := by
  refine .bind (.importModule _) fun w1 _ _ _ hv => ?_
  refine .forM (fun _ => rfl) fun w2 hw2 a ha => ?_
  refine .bind (he.getAttr? (hv.mono hw2) a.name) fun _ _ found found' hfound => ?_
  cases hfound with
  | none => exact .fail_same rfl
  | some hv => exact .storeName (hallow a ha) hv

/-! ## Definitions -/

variable {e e' : RuntimeError} {name : String} {body body' : List Stmt} {hs hs' : List Handler}

theorem define (hname : S.Allows name) {decorators decorators' : List Value}
    (hd : Values.Alike S w decorators decorators') (hv : v.Alike S w v') :
    Run.EqAlike S w (ev.define name decorators v) (ev'.define name decorators' v') := by
  refine .bind (.foldlM World.mono_value hv (rel_reverse hd) fun _ _ _ _ hv _ _ hd => ?_)
    fun _ _ _ _ hv => .storeName hname hv
  exact he.call hd (.of_positional (.cons hv .nil))

theorem evalAll {es : List Expr} (hallow : ∀ e ∈ es, S.AllowsIn e) :
    Run.Alike S w (Values.Alike S) (es.mapM ev.eval) (es.mapM ev'.eval) :=
  .mapM_mem World.mono_value fun w' _ e hmem => he.eval w' (hallow e hmem)

variable {decorators : List Expr} {span : Span}

theorem defineFunction {params : Params}
    (hallow : Stmt.AllowedBy S (.functionDef span name params body decorators))
    (hbody : Stmt.AllAlike S body body') :
    Run.EqAlike S w (ev.defineFunction name params body decorators)
      (ev'.defineFunction name params body' decorators) := by
  refine .bind (he.evalAll fun e hmem => hallow.exprs e (mem_append_left _ hmem))
    fun w1 _ ds ds' hds => ?_
  refine .bind (he.evalAll fun e hmem => hallow.exprs e (mem_append_right _ hmem))
    fun w2 hw2 defaults defaults' hdefaults => ?_
  refine .bind .fresh fun w3 hw3 i j hids => .get_bind fun m m' hm => ?_
  rw [hm.env_eq]
  refine he.define (hallow.declares name mem_cons_self)
    (Value.Alike.mono_all (World.le_trans hw2 hw3) hds) (.function (.mk hids ?_ hbody hm.env ?_))
  · exact fun p hp => hallow.declares p (mem_cons_of_mem name hp)
  · exact Value.Alike.mono_all hw3 hdefaults

theorem evalBase {e : Expr} (hallow : S.AllowsIn e) :
    Run.EqAlike S w (ev.evalBase e) (ev'.evalBase e) := by
  refine .bind (he.eval w hallow) fun _ _ _ _ hv => ?_
  cases hv with
  | cls c => exact .pure rfl
  | _ => exact .typeError _

theorem defineClass {bases : List Expr}
    (hallow : Stmt.AllowedBy S (.classDef span name bases body decorators))
    (hbody : Stmt.AllAlike S body body') :
    Run.EqAlike S w (ev.defineClass name bases body decorators)
      (ev'.defineClass name bases body' decorators) := by
  refine .bind (he.evalAll fun e hmem => hallow.exprs e (mem_append_left _ hmem))
    fun w1 _ ds ds' hds => ?_
  refine .bind (.mapM_mem World.mono_const fun _ _ e hmem => he.evalBase
    (hallow.exprs e (mem_append_right _ hmem))) fun w2 hw2 bs bs' hbs => ?_
  rw [forall₂_eq_eq_eq] at hbs
  subst hbs
  have hempty : Frame.Alike S w2 False {} {} := ⟨.nil, rfl, rfl⟩
  refine .newFrame_get_bind .classBody hempty fun w3 hw3 frame m m' hm henv hlt => ?_
  have hcall : Activation.Alike S w3 { env := frame :: m.env } { env := frame :: m'.env } :=
    ⟨congrArg (frame :: ·) hm.env_eq, henv, .none⟩
  refine .bind (.withFrame hcall (he.block w3 hbody)) fun w4 hw4 _ _ _ => ?_
  have hne : frame.index ≠ w4.globals.index := by
    rw [hw4.globals]
    exact Nat.ne_of_gt hlt
  refine .bind_eq (.alloc fun h h' hh => (hh.newClass name bs ?_).imp Eq.symm id) fun w5 hw5 c => ?_
  · exact (hh.frame frame).vars.imp fun _ _ _ hv => hv.elim And.right fun hv => absurd hv.1 hne
  · refine he.define (hallow.declares name (mem_singleton_self name)) ?_ (.cls c)
    refine Value.Alike.mono_all ?_ hds
    exact World.le_trans hw2 (World.le_trans hw3 (World.le_trans hw4 hw5))

/-! ## Blocks -/

omit he in
theorem exitArgs {result result' : Except RuntimeError Flow}
    (hr : ExceptAlike S w (Flow.Alike S w) result result') :
    Run.Alike S w (Args.Alike S) (exitArgs result) (Evaluator.exitArgs result') := by
  cases hr with
  | ok _ => exact .pure (.of_positional (.cons .none (.cons .none (.cons .none .nil))))
  | error herror =>
    refine .bind (exceptionOf_alike herror) fun _ hw _ _ hexception => .get_bind fun m m' hm => ?_
    rw [hm.errorClass?_eq (herror.mono hw)]
    refine .pure (.of_positional (.cons ?_ (.cons hexception (.cons .none .nil))))
    cases m.errorClass? _ with
    | none => exact .none
    | some c => exact .cls c

variable {target : Option Expr}

theorem store (htarget : ∀ e ∈ target, S.AllowsIn e) (hv : v.Alike S w v') :
    Run.EqAlike S w (ev.store target v) (ev'.store target v') := by
  cases target with
  | none => exact .pure rfl
  | some target => exact he.assign target (htarget target rfl) hv

theorem enterContext (hcontext : S.AllowsIn context) (htarget : ∀ e ∈ target, S.AllowsIn e) :
    Run.ValueAlike S w (ev.enterContext context target) (ev'.enterContext context target) := by
  refine .bind (he.eval w hcontext) fun w1 _ manager manager' hmanager => ?_
  refine .bind (he.getAttr? hmanager "__enter__") fun w2 hw2 enter enter' henter => ?_
  have hstored : ∀ w', w2 ≤ w' → ∀ v v', v.Alike S w' v' → Run.ValueAlike S w'
      (ev.store target v >>= fun _ => pure manager)
      (ev'.store target v' >>= fun _ => pure manager') := fun w' hw' v v' hv =>
    .andThen (he.store htarget hv) fun w'' hw'' =>
      .pure (hmanager.mono (World.le_trans hw2 (World.le_trans hw' hw'')))
  cases henter with
  | none => exact .bind (.pure (hmanager.mono hw2)) hstored
  | some henter => exact .bind (he.call henter (.of_positional .nil)) hstored

variable {result result' : Except RuntimeError Flow}

theorem leaveContext (hv : v.Alike S w v') (hr : ExceptAlike S w (Flow.Alike S w) result result') :
    Run.Alike S w (fun _ => Option.Rel Eq) (ev.leaveContext v result)
      (ev'.leaveContext v' result') := by
  refine .bind (he.getAttr? hv "__exit__") fun w1 hw1 exit exit' hexit => ?_
  cases hexit with
  | none => exact .pure .none
  | some hexit =>
    have hr := hr.mono (R := Flow.Alike S) (fun _ _ hw _ _ => Flow.Alike.mono hw) hw1
    refine .bind (exitArgs hr) fun w2 hw2 args args' hargs => ?_
    refine .bind (he.call (hexit.mono hw2) hargs) fun w3 hw3 _ _ hv => ?_
    refine .read_bind_eq (he.truthy_read hv) fun suppress => ?_
    exact .ite (fun _ => .pure (.some rfl)) fun _ => .pure .none

omit he in
theorem matchesAny (c : Class) (hvs : Values.Alike S w vs vs') :
    Run.EqAlike S w (matchesAny c vs) (Evaluator.matchesAny c vs') := by
  induction hvs with
  | nil => exact .pure rfl
  | cons hv _ ih =>
    cases hv with
    | cls kind =>
      refine .heap_bind fun h h' hh => ?_
      rw [hh.isSubclass_eq]
      exact .ite (fun _ => .pure rfl) fun _ => ih
    | _ => exact .typeError _

omit he in
/-- Handlers for the same errors, with bodies that are alike. -/
structure HandlerAlike (S : Setting) (h h' : Handler) : Prop where
  kind_eq : h'.kind = h.kind
  kind : ∀ e ∈ h.kind, S.AllowsIn e
  name_eq : h'.name = h.name
  name : ∀ n ∈ h.name, S.Allows n
  body : Stmt.AllAlike S h.body h'.body

variable {h h' : Handler}

theorem handles (herror : e.Alike S w e') (hh : HandlerAlike S h h') :
    Run.EqAlike S w (ev.handles e h) (ev'.handles e' h') := by
  refine .get_bind fun m m' hm => ?_
  rw [hm.errorClass?_eq herror, hh.kind_eq]
  split
  · exact .pure rfl
  · exact .pure rfl
  · next kind c hkind _ =>
    refine .bind (he.eval w (hh.kind kind hkind)) fun _ _ _ _ hv => ?_
    cases hv with
    | tuple _ hitems => exact matchesAny c hitems
    | _ => exact matchesAny c (.cons (by constructor <;> assumption) .nil)

theorem findHandler (herror : e.Alike S w e') (hhs : List.Forall₂ (HandlerAlike S) hs hs') :
    Run.Alike S w (fun _ => Option.Rel (HandlerAlike S)) (ev.findHandler e hs)
      (ev'.findHandler e' hs') := by
  induction hhs generalizing w with
  | nil => exact .pure .none
  | cons hh _ ih =>
    unfold Evaluator.findHandler
    refine .bind_eq (he.handles herror hh) fun w1 hw1 b => ?_
    exact .ite (fun _ => .pure (.some hh)) fun _ => ih (herror.mono hw1)

theorem runHandler (herror : e.Alike S w e') (hh : HandlerAlike S h h') :
    Run.Alike S w (fun w => ExceptAlike S w (Flow.Alike S w)) (do
        if let some name := h.name then storeName name (← exceptionOf e)
        Run.attempt (Run.handling e (ev.block h.body)))
      (do
        if let some name := h'.name then storeName name (← exceptionOf e')
        Run.attempt (Run.handling e' (ev'.block h'.body))) := by
  have hrun : ∀ w', w ≤ w' → Run.Alike S w' (fun w => ExceptAlike S w (Flow.Alike S w))
      (Run.attempt (Run.handling e (ev.block h.body)))
      (Run.attempt (Run.handling e' (ev'.block h'.body))) :=
    fun w' hw => .attempt (.handling (herror.mono hw) (he.block w' hh.body))
  rw [hh.name_eq]
  cases hname : h.name with
  | none => exact hrun w w.le_refl
  | some name =>
    refine .bind (exceptionOf_alike herror) fun w1 hw1 _ _ hexception => ?_
    exact .andThen (.storeName (hh.name name hname) hexception) fun w2 hw2 =>
      hrun w2 (World.le_trans hw1 hw2)

theorem finish (hr : ExceptAlike S w (Flow.Alike S w) result result')
    (hbody : Stmt.AllAlike S body body') :
    Run.Alike S w (Flow.Alike S) (ev.finish result body) (ev'.finish result' body') := by
  have hmono : World.Mono (Flow.Alike S) := fun _ _ hw _ _ => Flow.Alike.mono hw
  unfold Evaluator.finish
  have hempty : body'.isEmpty = body.isEmpty := by cases hbody <;> rfl
  rw [hempty]
  refine .ite (fun _ => .ofExcept hr) fun _ => .get_bind fun m m' hm => ?_
  refine .andThen (.setErrorLine S.marks.unset) fun w1 hw1 => ?_
  refine .bind (he.block w1 hbody) fun w2 hw2 flow flow' hflow => ?_
  cases hflow with
  | normal =>
    refine .andThen (.setErrorLine hm.errorLine) fun w3 hw3 => .ofExcept (hr.mono hmono ?_)
    exact World.le_trans hw1 (World.le_trans hw2 hw3)
  | breakLoop => exact .pure .breakLoop
  | continueLoop => exact .pure .continueLoop
  | returns hv => exact .pure (.returns hv)

/-! ### Pending errors -/

section

variable {k k' : Marking} {R : Option Nat → Marks} (pending : Option Nat)

variable (hk : k.Follows k' R) (hes : ∀ line, ev.Alike { S with marks := R line } ev')

include hk hes
omit he

theorem managedBy (hv : v.Alike S w v') (hbody : Stmt.AllAlike S body body') :
    Run.Alike { S with marks := R pending } w (Flow.Alike S) (ev.managedBy k v body)
      (ev'.managedBy k' v' body') := by
  refine .bind (.attempt ((hes pending).block w hbody)) fun w1 hw1 result result' hresult => ?_
  have hv := hv.mono hw1
  cases hresult with
  | ok hflow =>
    refine .bind ((hes pending).leaveContext hv (.ok hflow)) fun _ hw2 _ _ _ => ?_
    exact .pure (hflow.mono hw2)
  | error herror =>
    have hleave := fun line => (hes line).leaveContext hv (.error herror)
    refine .bind (.deciding hk hleave) fun _ hw2 _ _ hdecided => ?_
    cases hdecided with
    | none => exact .fail (herror.mono hw2)
    | some => exact .pure .normal

theorem execWithBy (hcontext : S.AllowsIn context)
    (htarget : ∀ e ∈ target, S.AllowsIn e) (hbody : Stmt.AllAlike S body body') :
    Run.Alike { S with marks := R pending } w (Flow.Alike S) (ev.execWithBy k context target body)
      (ev'.execWithBy k' context target body') :=
  .bind ((hes pending).enterContext hcontext htarget) fun _ _ _ _ hv =>
  managedBy pending hk hes hv hbody

theorem recoverBy (herror : e.Alike S w e') (hhs : List.Forall₂ (HandlerAlike S) hs hs') :
    Run.Alike { S with marks := R pending } w (fun w => ExceptAlike S w (Flow.Alike S w))
      (ev.recoverBy k e hs) (ev'.recoverBy k' e' hs') := by
  have hfind := fun line => (hes line).findHandler herror hhs
  refine .bind (.deciding (Q := fun _ => HandlerAlike S) hk hfind) fun w1 hw1 found found' hfound =>
    ?_
  have herror := herror.mono hw1
  cases hfound with
  | none => exact .pure (.error herror)
  | some hh => exact (hes pending).runHandler herror hh

theorem execTryBy (hbody : Stmt.AllAlike S body body')
    (hhs : List.Forall₂ (HandlerAlike S) hs hs') {last last' : List Stmt}
    (hlast : Stmt.AllAlike S last last') :
    Run.Alike { S with marks := R pending } w (Flow.Alike S) (ev.execTryBy k body hs last)
      (ev'.execTryBy k' body' hs' last') := by
  refine .bind (.attempt ((hes pending).block w hbody)) fun _ _ result result' hresult => ?_
  cases hresult with
  | ok hflow => exact (hes pending).finish (.ok hflow) hlast
  | error herror =>
    exact .bind (recoverBy pending hk hes herror hhs) fun _ _ _ _ hr =>
      (hes pending).finish hr hlast

end

theorem execFor {target : Expr} (htarget : S.AllowsIn target) (hbody : Stmt.AllAlike S body body')
    {items items' : List Value} (hitems : Values.Alike S w items items') :
    Run.Alike S w (Flow.Alike S) (ev.execFor target body items)
      (ev'.execFor target body' items') := by
  induction items generalizing w items' with
  | nil =>
    cases hitems
    exact .pure .normal
  | cons item items ih =>
    obtain ⟨item', items', hitem, hrest, rfl⟩ := forall₂_cons_left_iff.1 hitems
    unfold Evaluator.execFor
    refine .andThen (he.assign target htarget hitem) fun w1 hw1 => ?_
    refine .bind (he.block w1 hbody) fun w2 hw2 flow flow' hflow => ?_
    have hrest := Value.Alike.mono_all (World.le_trans hw1 hw2) hrest
    cases hflow with
    | breakLoop => exact .pure .normal
    | normal | continueLoop => exact ih hrest
    | returns hv => exact .pure (.returns hv)

theorem execWhile (hcondition : S.AllowsIn condition) (hbody : Stmt.AllAlike S body body') :
    Run.Alike S w (Flow.Alike S) (ev.execWhile condition body) (ev'.execWhile condition body') := by
  refine .bind_eq (he.test hcondition) fun w1 _ holds => ?_
  refine .ite (fun _ => ?_) fun _ => .pure .normal
  refine .bind (he.block w1 hbody) fun w2 _ flow flow' hflow => ?_
  cases hflow with
  | breakLoop => exact .pure .normal
  | normal | continueLoop => exact he.loop w2 hcondition hbody
  | returns hv => exact .pure (.returns hv)

omit he in
theorem handlers_alike : ∀ {hs hs' : List Handler}, Handler.AllAlike S hs hs' →
    (∀ e ∈ hs.filterMap Handler.kind, S.AllowsIn e) →
    (∀ n ∈ hs.filterMap Handler.name, S.Allows n) → List.Forall₂ (HandlerAlike S) hs hs'
  | _, _, .nil, _, _ => .nil
  | .mk span kind name body :: hs, _, .cons hbody hhs, hkinds, hnames => by
    refine .cons ⟨rfl, fun e he => ?_, rfl, fun n hn => ?_, hbody⟩ (handlers_alike hhs ?_ ?_)
    · exact hkinds e (mem_filterMap.2 ⟨_, mem_cons_self, he⟩)
    · exact hnames n (mem_filterMap.2 ⟨_, mem_cons_self, hn⟩)
    · intro e he
      obtain ⟨h, hmem, hkind⟩ := mem_filterMap.1 he
      exact hkinds e (mem_filterMap.2 ⟨h, mem_cons_of_mem _ hmem, hkind⟩)
    · intro n hn
      obtain ⟨h, hmem, hname⟩ := mem_filterMap.1 hn
      exact hnames n (mem_filterMap.2 ⟨h, mem_cons_of_mem _ hmem, hname⟩)

variable {s : Stmt}

theorem execStmt_plain (hplain : s.isPlain = true) (hallow : s.AllowedBy S) :
    Run.Alike S w (Flow.Alike S) (ev.execStmt s) (ev'.execStmt s) := by
  have hexprs := hallow.exprs
  have hdeclares := hallow.declares
  cases s with
  | expr _ e =>
    exact .bind (he.eval w (hexprs e (mem_singleton_self e))) fun _ _ _ _ _ => .pure .normal
  | assign _ targets value =>
    have hvalue := hexprs value (mem_append_right _ (mem_singleton_self value))
    refine .bind (he.eval w hvalue) fun w1 _ _ _ hv => ?_
    refine .andThen (.forM (fun _ => rfl) fun w2 hw2 target hmem => ?_) fun _ _ => .pure .normal
    exact he.assign target (hexprs target (mem_append_left _ hmem)) (hv.mono hw2)
  | augAssign _ target op value =>
    refine .andThen (he.augAssign (hexprs target mem_cons_self) op ?_) fun _ _ => .pure .normal
    exact hexprs value (mem_cons_of_mem _ (mem_singleton_self value))
  | pass => exact .pure .normal
  | breakLoop => exact .pure .breakLoop
  | continueLoop => exact .pure .continueLoop
  | returns _ value =>
    refine .bind (he.evalOr .none fun e hmem => ?_) fun _ _ _ _ hv => .pure (.returns hv)
    exact hexprs e (Option.mem_toList.2 hmem)
  | asserts _ condition message =>
    refine .andThen (he.assertThat (hexprs condition mem_cons_self) fun e hmem => ?_) fun _ _ =>
      .pure .normal
    exact hexprs e (mem_cons_of_mem _ (Option.mem_toList.2 hmem))
  | raises _ value => exact he.raise fun e hmem => hexprs e (Option.mem_toList.2 hmem)
  | yields _ value =>
    refine .bind (he.evalOr .none fun e hmem => ?_) fun _ _ _ _ hv => ?_
    · exact hexprs e (Option.mem_toList.2 hmem)
    · exact .andThen (.yields (.cons hv .nil)) fun _ _ => .pure .normal
  | yieldsFrom _ source =>
    refine .bind (he.eval w (hexprs source (mem_singleton_self source))) fun _ _ _ _ hv => ?_
    refine .bind (he.iterate hv) fun _ _ _ _ hitems => ?_
    exact .andThen (.yields hitems) fun _ _ => .pure .normal
  | imports _ names =>
    refine .andThen (importNames fun a hmem => ?_) fun _ _ => .pure .normal
    exact hdeclares _ (mem_map_of_mem hmem)
  | importsFrom _ module names =>
    refine .andThen (he.importFrom module fun a hmem => ?_) fun _ _ => .pure .normal
    exact hdeclares _ (mem_map_of_mem hmem)
  | globals _ names => exact .andThen (.declareGlobals names) fun _ _ => .pure .normal
  | nonlocals _ names => exact .andThen (.declareNonlocals names) fun _ _ => .pure .normal
  | _ => cases hplain

theorem execStmt {s' : Stmt} (hs : s.Alike S s') (hkept : S.special? s = none) :
    Run.Alike S w (Flow.Alike S) (ev.execStmt s) (ev'.execStmt s') := by
  cases hs with
  | special hspecial =>
    rw [hkept] at hspecial
    cases hspecial
  | plain hplain hallow => exact he.execStmt_plain hplain hallow
  | @ifElse _ test _ _ _ _ hallow hbody horelse =>
    have htest := hallow.exprs test (mem_singleton_self test)
    refine .bind_eq (he.test htest) fun w1 _ holds => ?_
    exact .ite (fun _ => he.block w1 hbody) fun _ => he.block w1 horelse
  | @whileLoop _ test _ _ hallow hbody =>
    exact he.loop w (hallow.exprs test (mem_singleton_self test)) hbody
  | @forLoop _ target source _ _ hallow hbody =>
    have hsource := hallow.exprs source (mem_cons_of_mem _ (mem_singleton_self source))
    refine .bind (he.eval w hsource) fun _ _ _ _ hv => ?_
    refine .bind (he.iterate hv) fun _ _ _ _ hitems => ?_
    exact he.execFor (hallow.exprs target mem_cons_self) hbody hitems
  | @withBlock _ context target _ _ hallow hbody =>
    have hshared := Marking.shared_follows S.marks
    rw [Evaluator.execStmt, Evaluator.execStmt, ← execWithBy_shared, ← execWithBy_shared]
    refine execWithBy none hshared (fun _ => he) (hallow.exprs context mem_cons_self)
      (fun e hmem => ?_) hbody
    exact hallow.exprs e (mem_cons_of_mem _ (Option.mem_toList.2 hmem))
  | tryBlock hallow hbody hhandlers hlast =>
    have hhs := handlers_alike hhandlers hallow.exprs hallow.declares
    rw [Evaluator.execStmt, Evaluator.execStmt, ← execTryBy_shared, ← execTryBy_shared]
    exact execTryBy none (Marking.shared_follows S.marks) (fun _ => he) hbody hhs hlast
  | functionDef hallow hbody =>
    exact .andThen (he.defineFunction hallow hbody) fun _ _ => .pure .normal
  | classDef hallow hbody =>
    exact .andThen (he.defineClass hallow hbody) fun _ _ => .pure .normal

end Evaluator.Alike

end BlockScript
