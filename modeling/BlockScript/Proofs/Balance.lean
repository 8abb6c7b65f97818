import BlockScript.Proofs.Alike.Interpreter
import BlockScript.Proofs.Alike.Project
import BlockScript.Proofs.Alike.Start
import BlockScript.Proofs.Balance.Evaluation

/-! The interpreter is balanced: whatever is executed, from whatever state and however it ends, the
frames, the errors being handled, the call depth and the scope stack are afterwards exactly what
they were, and so are the collectors of generators but for the values yielded to the innermost. -/

namespace BlockScript

open Run Program

namespace Evaluator

section

variable {quiet : Prop} {host : Host} {exec : Executor}

theorem balanced_exhausted (h : host.Embedded) : (Evaluator.exhausted host).Balanced quiet where
  call _ _ := follows_throw _
  iterate _ := follows_throw _
  eval _ := follows_throw _
  block _ := follows_throw _
  loop _ _ := follows_throw _
  generator _ := follows_throw _
  host := h

theorem balanced_execBlockBy {ev : Evaluator}
    (hexec : ∀ s, (quiet → s.isYielding = false) → Run.Balanced quiet (exec ev s))
    (stmts : List Stmt)
    (h : quiet → Stmt.areYielding stmts = false) :
    Run.Balanced quiet (ev.execBlockBy exec stmts) := by
  induction stmts with
  | nil => exact follows_pure Flow.normal
  | cons stmt rest ih =>
    have := hexec stmt fun hq => (Bool.or_eq_false_iff.1 (h hq)).1
    have := ih fun hq => (Bool.or_eq_false_iff.1 (h hq)).2
    unfold execBlockBy
    refine .andThen fun flow => ?_
    split
    all_goals infer_instance

/-- Each level of an interpreter is balanced since the one below it is. It is quiet where the
statements are. -/
theorem balanced_ofDepthBy (h : host.Embedded) (hushed : Prop)
    (hexec : ∀ (quiet : Prop) (ev : Evaluator) [ev.Balanced quiet] s, (quiet → hushed) →
      (quiet → s.isYielding = false) → Run.Balanced quiet (exec ev s))
      (hquiet : quiet → hushed) (n : Nat) :
    (ofDepthBy exec host n).Balanced quiet := by
  have hboth : (ofDepthBy exec host n).Balanced False ∧ (ofDepthBy exec host n).Balanced quiet := by
    induction n with
    | zero => exact ⟨balanced_exhausted h, balanced_exhausted h⟩
    | succ n ih =>
      obtain ⟨_, _⟩ := ih
      have hgenerator (stmts : List Stmt) :
          Run.Balanced False ((ofDepthBy exec host n).execBlockBy exec stmts) :=
        balanced_execBlockBy (hexec _ _ · False.elim) stmts False.elim
      have hblock (stmts : List Stmt) :=
        balanced_execBlockBy (hexec _ (ofDepthBy exec host n) · hquiet) stmts
      have hsucc {quiet : Prop} [(ofDepthBy exec host n).Balanced quiet]
          (hblock : ∀ stmts, (quiet → Stmt.areYielding stmts = false) →
            Run.Balanced quiet ((ofDepthBy exec host n).execBlockBy exec stmts)) :
          (ofDepthBy exec host (n + 1)).Balanced quiet := {
        call := fun callee args => balanced_callValue _ callee args
        iterate := fun v => balanced_items _ v
        eval := fun e => balanced_evalExpr _ e
        block := fun stmts _ => hblock stmts Stmt.Unyielding.eq_false
        loop := fun condition body => balanced_execWhile _ condition body
        generator := hgenerator
        host := h }
      exact ⟨hsucc fun stmts _ => hgenerator stmts, hsucc hblock⟩
  exact hboth.2

theorem balanced_ofDepth (h : host.Embedded) (n : Nat) : (ofDepth host n).Balanced False := by
  rw [← ofDepthBy_execStmt]
  exact balanced_ofDepthBy h False (fun _ ev _ s hq hs =>
    balanced_execStmt ev s hs fun h => (hq h).elim) id n

/-- The executor that passes over classes whose bodies yield. -/
def passOver : Executor := fun ev s => if s.isYieldingClass then return .normal else ev.execStmt s

theorem balanced_passOver (h : host.Embedded) (n : Nat) :
    (ofDepthBy passOver host n).Balanced True := by
  refine balanced_ofDepthBy h True (fun quiet ev _ s _ hs => ?_) id n
  unfold passOver
  split
  · infer_instance
  · next hclass => exact balanced_execStmt ev s hs fun _ => Bool.eq_false_iff.2 hclass

end

/-- Code in which no body of a class yields: a class whose body does would have to be another
statement. -/
def quietClasses : Setting where
  special? s := if s.isYieldingClass then some (.pass s.span) else none

theorem not_isYieldingClass {s : Stmt} (hs : s.Alike quietClasses s) :
    s.isYieldingClass = false := by
  cases s with
  | classDef span name bases body decorators =>
    cases hs with
    | special hs =>
      dsimp only [quietClasses] at hs
      split at hs <;> cases hs
    | plain h => cases h
    | classDef hallow =>
      have hkept := hallow.kept
      dsimp only [quietClasses] at hkept
      split at hkept
      · cases hkept
      · next h => exact Bool.eq_false_iff.2 h
  | _ => rfl

theorem alike_passOver {host : Host} (huniform : host.Uniform) (n : Nat) :
    (ofDepthBy passOver host n).Alike { quietClasses with } (ofDepth host n) := by
  induction n with
  | zero => exact .exhausted_both huniform
  | succ n ih =>
    refine .succ huniform ih (fun ev s hs => ?_) fun w s s' hs _ => ?_
    · exact if_neg fun h => by simp [quietClasses, h] at hs
    · unfold passOver
      dsimp only [quietClasses] at hs
      split at hs
      · next h =>
        cases hs
        rw [if_pos h]
        exact .pure .normal
      · cases hs

theorem yields_of_alike {α β : Type} {p : Run α} {q : Run β} {Q : World → α → β → Prop} {w : World}
    {m : Machine} (hp : Run.Balanced True p) (hq : Run.Balanced False q)
    (h : Run.Alike { quietClasses with } w Q p q) (hm : m.Alike quietClasses w m)
    (hcut : isCut (q m) = false) : (q.after m).yields = m.yields := by
  have hlengths {m₁ m₂ : Machine} {w' : World} (h : m₁.Alike quietClasses w' m₂) :
      m₂.yields.map List.length = m₁.yields.map List.length := by
    have hyields := h.yields
    generalize m₁.yields = ys, m₂.yields = zs at hyields
    induction hyields with
    | nil => rfl
    | cons hvs _ ih => rw [List.map_cons, List.map_cons, ih, hvs.length_eq]
  have hlength : (q.after m).yields.map List.length = m.yields.map List.length := by
    rw [← hp.holds.silent trivial m]
    have hend := h m m hm
    unfold after
    generalize p m = r, q m = r' at hend hcut
    cases hend with
    | ok _ hm => exact hlengths hm
    | error _ hm => exact hlengths hm
    | cut => cases hcut
    | firstCut h | secondCut h => exact h.elim
  rw [(hq.keeps False m).yields] at hlength ⊢
  cases hy : m.yields with
  | nil => rfl
  | cons y ys =>
    rw [hy] at hlength
    have hnew : (q.yielded m).length = 0 := by simpa [Collected] using hlength
    rw [List.eq_nil_of_length_eq_zero hnew]
    rfl

/-! ## Operations -/

/-- An expression, a statement, a call, a module, a script, a closure that configures an object and
a call with a block; and when such an operation brings no code that yields, apart from the bodies of
functions. -/
inductive Operation (ev : Evaluator) : {α : Type} → (World → Prop) → Run α → Prop
  | expr (e : Expr) : Operation ev (fun _ => True) (ev.evalExpr e)
  | stmt (s : Stmt) : Operation ev (fun _ => s.Alike quietClasses s ∧ s.isYielding = false)
      (ev.execStmt s)
  | call (callee : Value) (args : Args) :
    Operation ev (fun w => callee.Alike quietClasses w callee ∧ args.Alike quietClasses w args)
      (ev.callValue callee args)
  | module (module : Module) :
    Operation ev (fun _ => Stmt.AllAlike quietClasses module module ∧
      Stmt.areYielding module = false)
      (ev.execModule module)
  | script (runtimeName : String) (context : Value) (module : Module) :
    Operation ev (fun w => context.Alike quietClasses w context ∧
      Stmt.AllAlike quietClasses module module ∧ Stmt.areYielding module = false)
      (ev.execScript runtimeName context module)
  | configure (target closure : Value) :
    Operation ev (fun w => target.Alike quietClasses w target ∧
      closure.Alike quietClasses w closure)
      (ev.configureObject target closure)
  | block (target closure : Value) :
    Operation ev (fun w => target.Alike quietClasses w target ∧
      closure.Alike quietClasses w closure)
      (ev.callBlock target closure)

variable {ev ev' : Evaluator} {quiet : Prop}

instance balanced_setGlobal (name : String) (v : Value) :
    Run.Balanced quiet (modify (·.setGlobal name v) : Run Unit) :=
  .modify (fun _ _ => rfl) fun _ => ⟨rfl, rfl, rfl, rfl⟩

instance balanced_execModule [ev.Balanced quiet] (module : Module) [Stmt.Unyielding quiet module] :
    Run.Balanced quiet (ev.execModule module) := by
  unfold execModule
  infer_instance

instance balanced_execScript [ev.Balanced quiet] (runtimeName : String) (context : Value)
    (module : Module)
    [Stmt.Unyielding quiet module] :
    Run.Balanced quiet (ev.execScript runtimeName context module) := by
  unfold execScript installRuntime
  infer_instance

theorem Operation.balanced [ev.Balanced False] {α : Type} {plain : World → Prop} {p : Run α}
    (h : ev.Operation plain p) : Run.Balanced False p := by
  cases h with
  | stmt s => exact balanced_execStmt ev s False.elim False.elim
  | expr | call | module | script | configure | block => infer_instance

theorem Alike.setGlobal {S : Pairing} {w : World} (hS : S.hidden? = none) (name : String)
    {v v' : Value} (hv : v.Alike S w v') :
    Run.EqAlike S w (modify (·.setGlobal name v)) (modify (·.setGlobal name v')) := by
  refine .modify rfl fun m m' hm => ?_
  have hallow : S.Allows name := by
    intro _ hh
    rw [hS] at hh
    cases hh
  have hheap : (m.heap.setVar m.globals name v).Alike S w (m'.heap.setVar m'.globals name v') := by
    rw [hm.globals, hm.globals']
    exact hm.heap.setVar hm.heap.module hallow hv
  exact hm.withHeap w.le_refl hheap

theorem Alike.execScript {S : Pairing} {w : World} (he : ev.Alike S ev') (hS : S.hidden? = none)
    (runtimeName : String) {context : Value} (hcontext : context.Alike S w context)
    {module : Module}
    (h : Stmt.AllAlike S module module) : Run.EqAlike S w (ev.execScript runtimeName context module)
      (ev'.execScript runtimeName context module) := by
  have hruntime : Run.Alike S w (fun _ o o' => o' = o) (Run.alloc (·.newObject .runtime .empty))
      (Run.alloc (·.newObject .runtime .empty)) := .alloc fun _ _ hh => hh.newObject .runtime .nil
  have hinstall : Run.EqAlike S w (installRuntime runtimeName) (installRuntime runtimeName) := by
    refine .bind hruntime fun w1 _ o o' ho =>
      ho ▸ Alike.setGlobal hS runtimeName (.object fun h => ?_)
    rw [hS] at h
    cases h
  refine .andThen hinstall fun w1 hw1 => .andThen (Alike.setGlobal hS "self" (hcontext.mono hw1))
    fun w2 hw2 => ?_
  exact .withScope (.object (hcontext.mono (World.le_trans hw1 hw2))) (he.execModule h)

theorem Operation.yields_eq {host : Host} (h : host.Embedded) (huniform : host.Uniform) {n : Nat}
    {w : World} {m : Machine} {α : Type} {plain : World → Prop} {p : Run α}
    (hm : m.Alike quietClasses w m)
    (hp : (ofDepth host n).Operation plain p) (hplain : plain w) (hcut : isCut (p m) = false) :
    (p.after m).yields = m.yields := by
  have := balanced_ofDepth h n
  have := balanced_passOver h n
  have he := alike_passOver huniform n
  have hbalanced := hp.balanced
  cases hp with
  | expr e =>
    exact yields_of_alike (balanced_evalExpr _ e) hbalanced (he.evalExpr fun _ _ _ h => by cases h)
      hm hcut
  | stmt s =>
    obtain ⟨hs, hyield⟩ := hplain
    have hkept := not_isYieldingClass hs
    exact yields_of_alike (balanced_execStmt _ s (fun _ => hyield) fun _ => hkept) hbalanced
      (he.execStmt hs (if_neg (Bool.eq_false_iff.1 hkept))) hm hcut
  | call callee args =>
    exact yields_of_alike (balanced_callValue _ callee args) hbalanced
      (he.callValue hplain.1 hplain.2) hm hcut
  | module module =>
    have : Stmt.Unyielding True module := ⟨fun _ => hplain.2⟩
    exact yields_of_alike (balanced_execModule module) hbalanced (he.execModule hplain.1) hm hcut
  | script runtimeName context module =>
    have : Stmt.Unyielding True module := ⟨fun _ => hplain.2.2⟩
    exact yields_of_alike (balanced_execScript runtimeName context module) hbalanced
      (he.execScript rfl runtimeName hplain.1 hplain.2.1) hm hcut
  | configure target closure =>
    exact yields_of_alike (balanced_configureObject _ target closure) hbalanced
      (he.configureObject hplain.1 hplain.2) hm hcut
  | block target closure =>
    exact yields_of_alike (balanced_callBlock _ target closure) hbalanced
      (he.callBlock hplain.1 hplain.2) hm hcut

/-- From any machine, with a result, a jump or an error: an operation of the interpreter leaves the
stacks as they were, but that the innermost collector also has what the operation yields, in order.
Collectors are not changed at all by a generator, nor by an operation that brings no code that
yields, as long as none of the code of the machine yields in the body of a class. -/
theorem stacks_kept {host : Host} (h : host.Embedded) (n : Nat) (m : Machine) :
    (∀ α plain (p : Run α), (ofDepth host n).Operation plain p →
      m.Balanced (p.yielded m) (p.after m) ∧
      ∀ w, host.Uniform → m.Alike quietClasses w m → plain w → isCut (p m) = false →
        (p.after m).yields = m.yields) ∧
    ∀ f args kind delegate, f.isGenerator = true →
      (((ofDepth host n).callFunction f args kind delegate).after m).yields = m.yields := by
  have := balanced_ofDepth h n
  refine ⟨fun α plain p hp => ⟨?_, fun w huniform hm hplain hcut => ?_⟩,
    fun f args kind delegate hf => ?_⟩
  · have := hp.balanced
    exact Balanced.keeps False m
  · exact hp.yields_eq h huniform hm hplain hcut
  · have hquiet : Run.Balanced True ((ofDepth host n).callFunction f args kind delegate) :=
      balanced_callFunction_of _ args f kind delegate inferInstance
        fun h => by rw [hf] at h; cases h
    exact hquiet.holds.silent trivial m

/-- A function that is no generator, since its only `yield` stands in the body of a class. -/
def classYielding : Function :=
  .mk 0 "f" {} [.classDef default "C" [] [.yields default (some (.constant default (.int 1)))] []]
    [] []

def emptyClass : Stmt := .classDef default "C" [] [.pass default] []

def collectingMachine : Machine := Machine.new.withYields [[.int 7]]

/-- Calling the function and defining the class there, in an application with projects. -/
theorem stacks_kept_classYielding : Project.host.Embedded ∧
    collectingMachine.Balanced [.int 1]
      (((ofDepth Project.host 4).callValue (.function classYielding) {}).after collectingMachine) ∧
    (((ofDepth Project.host 4).execStmt emptyClass).after collectingMachine).yields =
      [[.int 7]] := by
  obtain ⟨w, hnew⟩ := Machine.new_alike (S := quietClasses) rfl
  have hm : collectingMachine.Alike quietClasses w collectingMachine :=
    { hnew with yields := .cons (.cons (.int 7) .nil) .nil }
  have hkept := (stacks_kept Project.embedded_host 4 collectingMachine).1
  have hclass : emptyClass.Alike quietClasses emptyClass :=
    .classDef ⟨rfl, nofun, nofun⟩ (.cons (.plain rfl ⟨rfl, nofun, nofun⟩) .nil)
  exact ⟨Project.embedded_host, (hkept _ _ _ (.call (.function classYielding) {})).1,
    (hkept _ _ _ (.stmt emptyClass)).2 w Project.uniform_host hm ⟨hclass, rfl⟩ rfl⟩

/-- The collectors are not always the same after the call of a function that is no generator: that
call yields to the generator around it. -/
theorem collector_not_kept : ¬ ∀ (m : Machine) (f : Function) (args : Args), f.isGenerator = false →
      (((ofDepth Project.host 4).callValue (.function f) args).after m).yields = m.yields := by
  intro h
  have hm := h collectingMachine classYielding {} rfl
  have hlen := congrArg (fun collectors => (collectors.headD []).length) hm
  revert hlen
  decide

end Evaluator

end BlockScript
