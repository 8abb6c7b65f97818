import BlockScript.Proofs.Alike.Statements

/-! Interpreters that do alike things in alike machines.

The first one may execute statements in a way of its own; what it does with those that the second
one has in another form is for the user of these results to relate. -/

namespace BlockScript

open Program

variable {S : Pairing} {w : World}

abbrev Executor := Evaluator → Stmt → Run Flow

namespace Evaluator

def execBlockBy (exec : Executor) (ev : Evaluator) : List Stmt → Run Flow
  | [] => return .normal
  | stmt :: rest => do
    match ← Run.atLine stmt.span.line (exec ev stmt) with
    | .normal => execBlockBy exec ev rest
    | flow => return flow

def ofDepthBy (exec : Executor) (host : Host) : Nat → Evaluator
  | 0 => .exhausted host
  | depth + 1 =>
    { host
      call := fun callee args => (ofDepthBy exec host depth).callValue callee args
      iterate := fun v => (ofDepthBy exec host depth).items v
      eval := fun e => (ofDepthBy exec host depth).evalExpr e
      block := fun stmts => (ofDepthBy exec host depth).execBlockBy exec stmts
      loop := fun condition body => (ofDepthBy exec host depth).execWhile condition body }

theorem execBlockBy_execStmt (ev : Evaluator) : ev.execBlockBy execStmt = ev.execBlock := by
  funext ss
  induction ss with
  | nil => rfl
  | cons s ss ih =>
    rw [execBlockBy, execBlock]
    congr
    funext flow
    cases flow <;> first | exact ih | rfl

theorem ofDepthBy_execStmt (host : Host) (n : Nat) :
    ofDepthBy execStmt host n = ofDepth host n := by
  induction n with
  | zero => rfl
  | succ n ih => rw [ofDepthBy, ofDepth, ih, execBlockBy_execStmt]

theorem host_ofDepth (host : Host) (n : Nat) : (ofDepth host n).host = host := by
  cases n <;> rfl

namespace Alike

variable {exec exec' : Executor} {host : Host} {ev ev' : Evaluator}

theorem execBlockBy (hexec : ∀ w {s s'}, Stmt.Alike S s s' →
      Run.Alike S w (Flow.Alike S) (exec ev s) (exec' ev' s'))
    {ss ss' : List Stmt} (h : Stmt.AllAlike S ss ss') :
    Run.Alike S w (Flow.Alike S) (ev.execBlockBy exec ss) (ev'.execBlockBy exec' ss') := by
  induction ss generalizing w ss' with
  | nil =>
    cases h
    exact .pure .normal
  | cons s ss ih =>
    cases h with
    | cons hs hss =>
      unfold Evaluator.execBlockBy
      rw [hs.span_eq]
      refine .bind (.atLine _ (hexec w hs)) fun w1 _ flow flow' hflow => ?_
      cases hflow with
      | normal => exact ih hss
      | breakLoop => exact .pure .breakLoop
      | continueLoop => exact .pure .continueLoop
      | returns hv => exact .pure (.returns hv)

/-- Interpreters built on alike ones are alike, if alike statements do alike things in these. -/
theorem succBy {n n' : Nat} (huniform : host.Uniform)
    (he : (ofDepthBy exec host n).Alike S (ofDepthBy exec' host n'))
    (hexec : ∀ w {s s'}, Stmt.Alike S s s' → Run.Alike S w (Flow.Alike S)
      (exec (ofDepthBy exec host n) s) (exec' (ofDepthBy exec' host n') s')) :
    (ofDepthBy exec host (n + 1)).Alike S (ofDepthBy exec' host (n' + 1)) := by
  rw [ofDepthBy, ofDepthBy]
  exact {
    host_eq := rfl
    uniform := huniform
    calls := ⟨fun _ _ _ _ _ => he.callValue, fun _ _ _ => he.items⟩
    eval := fun _ _ => he.evalExpr
    block := fun _ _ _ h => execBlockBy hexec h
    loop := fun _ _ _ _ hcondition hbody => he.execWhile hcondition hbody }

theorem succ {n n' : Nat} (huniform : host.Uniform)
    (he : (ofDepthBy exec host n).Alike S (ofDepth host n'))
    (hkept : ∀ ev s, S.special? s = none → exec ev s = ev.execStmt s)
    (hspecial : ∀ w {s s'}, S.special? s = some s' → (∀ e ∈ s.exprs, S.AllowsIn e) →
      Run.Alike S w (Flow.Alike S) (exec (ofDepthBy exec host n) s)
        ((ofDepth host n').execStmt s')) :
    (ofDepthBy exec host (n + 1)).Alike S (ofDepth host (n' + 1)) := by
  rw [← ofDepthBy_execStmt] at he hspecial ⊢
  refine succBy huniform he fun w s s' hs => ?_
  cases hkind : S.special? s with
  | none =>
    rw [hkept _ s hkind]
    exact he.execStmt hs hkind
  | some t =>
    cases hs with
    | special ht hallow =>
      rw [hkind] at ht
      cases ht
      exact hspecial w hkind hallow
    | plain _ hallow | ifElse hallow | whileLoop hallow | forLoop hallow | withBlock hallow
    | tryBlock hallow | functionDef hallow | classDef hallow =>
      have := hallow.kept
      rw [hkind] at this
      cases this

/-- An interpreter that is cut off at once is alike to any, if the first run may be cut off. -/
theorem exhausted_left (hcut : S.firstCut) (huniform : host.Uniform) (hhost : ev'.host = host) :
    (exhausted host).Alike S ev' where
  host_eq := hhost
  uniform := huniform
  calls := ⟨fun _ _ _ _ _ _ _ _ _ _ => .firstCut hcut, fun _ _ _ _ _ _ _ => .firstCut hcut⟩
  eval _ _ _ _ _ _ := .firstCut hcut
  block _ _ _ _ _ _ _ := .firstCut hcut
  loop _ _ _ _ _ _ _ _ _ := .firstCut hcut

theorem exhausted_right (hcut : S.secondCut) (huniform : ev.host.Uniform) :
    ev.Alike S (exhausted ev.host) where
  host_eq := rfl
  uniform := huniform
  calls := ⟨fun _ _ _ _ _ _ _ _ _ _ => .secondCut hcut, fun _ _ _ _ _ _ _ => .secondCut hcut⟩
  eval _ _ _ _ _ _ := .secondCut hcut
  block _ _ _ _ _ _ _ := .secondCut hcut
  loop _ _ _ _ _ _ _ _ _ := .secondCut hcut

theorem exhausted_both (huniform : host.Uniform) : (exhausted host).Alike S (exhausted host) where
  host_eq := rfl
  uniform := huniform
  calls := ⟨fun _ _ _ _ _ _ _ _ _ _ => .cut, fun _ _ _ _ _ _ _ => .cut⟩
  eval _ _ _ _ _ _ := .cut
  block _ _ _ _ _ _ _ := .cut
  loop _ _ _ _ _ _ _ _ _ := .cut

theorem execModule (he : ev.Alike S ev') {module module' : Module}
    (h : Stmt.AllAlike S module module') :
    Run.EqAlike S w (ev.execModule module) (ev'.execModule module') :=
  .andThen (.setErrorLine S.marks.unset) fun w1 _ =>
  .bind (he.block w1 h) fun _ _ _ _ _ => .pure rfl

end Alike

end Evaluator

end BlockScript
