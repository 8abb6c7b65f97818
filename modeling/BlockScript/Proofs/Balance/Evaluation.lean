import BlockScript.Project
import BlockScript.Proofs.Balance.Run
import BlockScript.Proofs.Pending

/-! One step of the interpreter keeps the stacks, if the operations it recurses through do: an
instance for each operation of evaluation that several others use, that is itself a loop, or whose
result another goes on with. The rest are opened where they are used. Where an operation looks at a
value, its cases are split until each is put together from balanced runs.

The objects of an embedding application reach the interpreter only through the operations they are
given, so what they run is balanced if these are. -/

namespace BlockScript

namespace Run

/-- Runs made of computation, errors, the heap, output, layers of the scope stack that are taken
away again, and the operations `calls` of the interpreter. -/
inductive Embedded (calls : Calls) : {α : Type} → Run α → Prop
  | pure {α : Type} (a : α) : Embedded calls (pure a : Run α)
  | fail {α : Type} (e : RuntimeError) : Embedded calls (fail e : Run α)
  | bind {α β : Type} {p : Run α} {f : α → Run β} :
    Embedded calls p → (∀ a, Embedded calls (f a)) → Embedded calls (p >>= f)
  | attempt {α : Type} {p : Run α} : Embedded calls p → Embedded calls (attempt p)
  | read {α : Type} (f : Machine → α) : (∀ m ys, f (m.withYields ys) = f m) →
    Embedded calls (f <$> get : Run α)
  | alloc {α : Type} (f : Heap → α × Heap) : Embedded calls (alloc f)
  | modifyHeap (f : Heap → Heap) : Embedded calls (modifyHeap f)
  | print (text : String) : Embedded calls (print text)
  | withScope {α : Type} {p : Run α} (e : ScopeEntry) :
    Embedded calls p → Embedded calls (withScope e p)
  | call (callee : Value) (args : Args) : Embedded calls (calls.call callee args)
  | iterate (v : Value) : Embedded calls (calls.iterate v)

variable {calls : Calls} {α : Type} {quiet : Prop}

theorem Embedded.balanced {p : Run α} (h : Embedded calls p)
    (hc : ∀ callee args, Balanced quiet (calls.call callee args))
    (hi : ∀ v, Balanced quiet (calls.iterate v)) : Balanced quiet p := by
  induction h with
  | pure a => infer_instance
  | fail e => infer_instance
  | bind _ _ ihp ihf => infer_instance
  | attempt _ ih => infer_instance
  | read f hf =>
    exact .read (fun m ys => congrArg (Pure.pure (f := Run)) (hf m ys)) fun m => follows_pure _
  | alloc f => infer_instance
  | modifyHeap f => infer_instance
  | print text => infer_instance
  | withScope e _ ih => infer_instance
  | call callee args => exact hc callee args
  | iterate v => exact hi v

theorem Embedded.heap : Embedded calls heap := .read Machine.heap fun _ _ => rfl

theorem Embedded.newList (items : List Value) : Embedded calls (newList items) :=
  .bind (.alloc _) fun _ => .pure _

theorem Embedded.newTuple (items : List Value) : Embedded calls (newTuple items) :=
  .bind (.alloc _) fun _ => .pure _

theorem Embedded.newSpace (attrs : Attrs) : Embedded calls (newSpace attrs) :=
  .bind (.alloc _) fun _ => .pure _

theorem Embedded.ofExcept (r : Except RuntimeError α) : Embedded calls (Run.ofExcept r) := by
  cases r with
  | ok a => exact .pure a
  | error e => exact .fail e

end Run

open Run

/-- The objects of the application reach the interpreter only through its operations. -/
structure Host.Embedded (host : Host) : Prop where
  setAttr : ∀ calls o name v, Run.Embedded calls (host.setAttr o name v)
  callMethod : ∀ calls o name args, Run.Embedded calls (host.callMethod calls o name args)
  call : ∀ calls o args, Run.Embedded calls (host.call calls o args)
  configure : ∀ calls o run, host.configure? calls o = some run →
    ∀ closure, Run.Embedded calls (run closure)
  setProperty : ∀ calls o set, host.setProperty? o = some set →
    ∀ name v, Run.Embedded calls (set name v)

namespace Project

variable {calls : Calls}

theorem embedded_addTask (o : ObjectRef) (name : String) : Run.Embedded calls (addTask o name) :=
  .bind (.newSpace _) fun _ => .bind (.alloc _) fun _ => .bind .heap fun _ =>
    .bind (.newTuple _) fun _ => .bind (.modifyHeap _) fun _ => .pure _

theorem embedded_newBag (items : List Value) : Run.Embedded calls (newBag items) :=
  .bind (.newList _) fun _ => .bind (.alloc _) fun _ => .pure _

theorem embedded_projectMethod (o : ObjectRef) (name : String) (args : Args) :
    Run.Embedded calls (projectMethod calls o name args) := by
  unfold projectMethod
  split
  · exact embedded_addTask o _
  · exact embedded_newBag _
  · exact .call _ _
  · exact .fail _

theorem embedded_bagMethod (o : ObjectRef) (name : String) (args : Args) :
    Run.Embedded calls (bagMethod o name args) := by
  unfold bagMethod
  refine .bind .heap fun h => ?_
  split
  · exact .bind (.ofExcept _) fun _ => .pure _
  · refine .bind ?_ fun _ => .pure _
    exact .bind .heap fun _ => .bind (.ofExcept _) fun _ => .modifyHeap _
  · exact .pure _
  · exact .pure _
  · exact .fail _

theorem embedded_call (o : ObjectRef) (args : Args) : Run.Embedded calls (call o args) := by
  unfold call
  split
  · exact .bind .heap fun _ => .bind (.modifyHeap _) fun _ => .pure _
  · exact .fail _

theorem embedded_setProjectProperty (o : ObjectRef) (name : String) (v : Value) :
    Run.Embedded calls (setProjectProperty o name v) := by
  unfold setProjectProperty
  split
  · exact .bind (.modifyHeap _) fun _ => .pure _
  · exact .fail _
  · exact .fail _
  · exact .pure _

/-- Projects, tasks and bags reach the interpreter only through its operations. -/
theorem embedded_host : host.Embedded where
  setAttr calls o name v := by
    change Run.Embedded calls (setAttr o name v)
    unfold setAttr
    split
    · exact .fail _
    · exact .fail _
  callMethod calls o name args := by
    change Run.Embedded calls (callMethod calls o name args)
    unfold callMethod
    split
    · exact embedded_projectMethod o name args
    · exact embedded_bagMethod o name args
    · exact .fail _
  call calls o args := embedded_call o args
  configure calls o run h closure := by
    change configure? calls o = some run at h
    unfold configure? at h
    split at h
    · cases h
      exact .bind .heap fun _ => .call _ _
    · cases h
  setProperty calls o set h name v := by
    change setProperty? o = some set at h
    unfold setProperty? at h
    split at h
    · cases h
      exact embedded_setProjectProperty o name v
    · cases h

end Project

/-! ## Steps of the interpreter -/

variable {quiet : Prop}

/-- A class whose body yields. -/
def Program.Stmt.isYieldingClass : Stmt → Bool
  | .classDef _ _ _ body _ => areYielding body
  | _ => false

/-- The statements do not yield where there must be quiet. -/
class Program.Stmt.Unyielding (quiet : Prop) (stmts : List Stmt) : Prop where
  eq_false : quiet → areYielding stmts = false

open Program.Stmt

instance (stmts : List Program.Stmt) : Unyielding False stmts := ⟨False.elim⟩

/-- The operations through which evaluation is recursive are balanced, and the objects of the
application reach them only as operations. Only statements that yield have not to be quiet. -/
class Evaluator.Balanced (quiet : Prop) (ev : Evaluator) : Prop where
  call : ∀ callee args, Run.Balanced quiet (ev.call callee args)
  iterate : ∀ v, Run.Balanced quiet (ev.iterate v)
  eval : ∀ e, Run.Balanced quiet (ev.eval e)
  block : ∀ stmts [Unyielding quiet stmts], Run.Balanced quiet (ev.block stmts)
  loop : ∀ condition body [Unyielding quiet body], Run.Balanced quiet (ev.loop condition body)
  generator : ∀ stmts, Run.Balanced False (ev.block stmts)
  host : ev.host.Embedded

attribute [instance] Evaluator.Balanced.call Evaluator.Balanced.iterate Evaluator.Balanced.eval
  Evaluator.Balanced.block Evaluator.Balanced.loop

instance Args.follows_check {P : (α : Type) → Run α → Prop} [Run.Lasting P] (a : Args)
    (function : String)
    (least greatest : Nat) : Run.Follows P (a.check function least greatest) := by
  unfold Args.check
  dsimp only
  split
  · infer_instance
  · infer_instance

/-! ## Attributes -/

instance balanced_method (receiver attr : Value) : Run.Balanced quiet (bind receiver attr) := by
  unfold bind
  split
  · infer_instance
  · infer_instance
  · infer_instance

instance balanced_namedMethod (receiver : Value) (name : String) :
    Run.Balanced quiet (namedMethod receiver name) := by
  unfold namedMethod
  infer_instance

instance balanced_missing {α : Type} (typeName name : String) :
    Run.Balanced quiet (missing typeName name : Run α) :=
  follows_fail _

namespace Evaluator

-- an instance for a run has one node for each step of the run
set_option synthInstance.maxSize 512

variable (ev : Evaluator) (v : Value) (name : String)

section

variable {P : (α : Type) → Run α → Prop} [Run.Lasting P]

instance follows_view : Run.Follows P ev.view := by
  unfold view
  infer_instance

instance follows_truthy : Run.Follows P (ev.truthy v) := by
  unfold truthy
  infer_instance

instance follows_display : Run.Follows P (ev.display v) := by
  unfold display
  infer_instance

instance follows_repr : Run.Follows P (ev.repr v) := by
  unfold Evaluator.repr
  infer_instance

/-! ## Operators of built-in values -/

variable {p : Run Value}

theorem follows_repeatValue {count : Int} (h : repeatValue? v count = some p) :
    Run.Follows P p := by
  unfold repeatValue? at h
  split at h <;> cases h <;> infer_instance

variable {op : Program.BinaryOp} {left right : Value}

theorem follows_joinValues (h : joinValues? op left right = some p) : Run.Follows P p := by
  unfold joinValues? at h
  split at h <;> cases h <;> infer_instance

theorem follows_repetition (h : repetition? op left right = some p) : Run.Follows P p := by
  unfold repetition? at h
  split at h
  · exact follows_repeatValue _ h
  · exact follows_repeatValue _ h
  · cases h

instance follows_plainBinary (op : Program.BinaryOp) (left right : Value) :
    Run.Follows P (ev.plainBinary op left right) := by
  unfold plainBinary
  dsimp only
  split
  · infer_instance
  · infer_instance
  · split
    · infer_instance
    · split
      · next run heq =>
        cases hj : joinValues? op left right with
        | some joined =>
          rw [hj] at heq
          cases heq
          exact follows_joinValues hj
        | none =>
          rw [hj] at heq
          exact follows_repetition heq
      · infer_instance

end

instance balanced_getObjectAttr (o : ObjectRef) : Run.Balanced quiet (ev.getObjectAttr o name) := by
  unfold getObjectAttr
  refine .andThen fun h => ?_
  split
  all_goals infer_instance

instance balanced_getAttr : Run.Balanced quiet (ev.getAttr v name) := by
  unfold getAttr
  repeat' first | infer_instance | split | refine .andThen fun _ => ?_

instance balanced_getAttr? : Run.Balanced quiet (ev.getAttr? v name) := by
  unfold getAttr?
  infer_instance

/-! ## Objects of the application -/

section
variable [hev : ev.Balanced quiet]

theorem balanced_embedded {α : Type} {p : Run α} (h : Run.Embedded ev.toCalls p) :
    Run.Balanced quiet p :=
  h.balanced hev.call hev.iterate

variable (o : ObjectRef) (what function : String) (target closure index key item left right : Value)
  (args : Args) (r : ListRef) (s : List Char) (items : List Value) (f : Function)
  (op : Program.BinaryOp) (e : RuntimeError) (body : List Program.Stmt)
  (handlers : List Program.Handler)

instance balanced_objectSetAttr : Run.Balanced quiet (ev.host.objectSetAttr o name v) := by
  unfold Host.objectSetAttr
  split
  · infer_instance
  · exact ev.balanced_embedded (hev.host.setAttr _ o name v)

instance balanced_objectCall : Run.Balanced quiet (ev.host.objectCall ev.toCalls o args) := by
  unfold Host.objectCall
  split
  · infer_instance
  · exact ev.balanced_embedded (hev.host.call _ o args)

theorem balanced_objectConfigure {o : ObjectRef} {run : Value → Run Value}
    (h : ev.host.objectConfigure? ev.toCalls o = some run) (closure : Value) :
    Run.Balanced quiet (run closure) := by
  unfold Host.objectConfigure? at h
  split at h
  · cases h
  · exact ev.balanced_embedded (hev.host.configure _ o run h closure)

theorem balanced_objectSetProperty {o : ObjectRef} {set : String → Value → Run Bool}
    (h : ev.host.objectSetProperty? o = some set) (name : String) (v : Value) :
    Run.Balanced quiet (set name v) := by
  unfold Host.objectSetProperty? at h
  split at h
  · cases h
  · exact ev.balanced_embedded (hev.host.setProperty _ o set h name v)

instance balanced_setAttr : Run.Balanced quiet (ev.setAttr target name v) := by
  unfold setAttr
  split
  all_goals infer_instance

/-! ## Free names -/

instance balanced_lookupMember : Run.Balanced quiet (ev.lookupMember target name) := by
  unfold lookupMember
  repeat' first | infer_instance | split | refine .andThen fun _ => ?_

instance balanced_lookupIn (entries : List ScopeEntry) :
    Run.Balanced quiet (ev.lookupIn name entries) := by
  induction entries with
  | nil => exact follows_pure _
  | cons entry rest ih =>
    cases entry with
    | object target =>
      refine .andThen fun found => ?_
      split
      all_goals infer_instance
    | locals frame =>
      refine .andThen fun h => ?_
      split
      all_goals infer_instance

instance balanced_lookup : Run.Balanced quiet (ev.lookup name) := by
  unfold lookup
  repeat' first | infer_instance | split | refine .andThen fun _ => ?_ |
    refine .read (fun _ _ => rfl) fun _ => ?_

instance balanced_setProperty : Run.Balanced quiet (ev.setProperty target name v) := by
  unfold setProperty
  cases target with
  | object o =>
    dsimp only
    split
    · next set heq =>
      have (n : String) (u : Value) : Run.Balanced quiet (set n u) :=
        ev.balanced_objectSetProperty heq n u
      refine .andThen fun r => ?_
      cases r with
      | ok done => infer_instance
      | error e => infer_instance
    · infer_instance
  | _ =>
    dsimp only
    infer_instance

instance balanced_set : Run.Balanced quiet (ev.set name v) := by
  dsimp only [Evaluator.set, setNew]
  repeat' first | infer_instance | split | refine .andThen fun _ => ?_ |
    refine .read (fun _ _ => rfl) fun _ => ?_

/-! ## Configuration -/

instance balanced_withLocals {α : Type} (p : Run α) [Run.Balanced quiet p] :
    Run.Balanced quiet (withLocals p) := by
  unfold withLocals
  exact .read (fun _ _ => rfl) fun _ => inferInstance

instance balanced_configureDict (r : DictRef) :
    Run.Balanced quiet (ev.configureDict r closure) := by
  unfold configureDict
  infer_instance

instance balanced_configure : Run.Balanced quiet (ev.configure target closure) := by
  unfold configure
  dsimp only
  split
  · split
    · next run heq => exact ev.balanced_objectConfigure heq closure
    · infer_instance
  · refine .andThen fun h => ?_
    split
    all_goals infer_instance
  · infer_instance
  · infer_instance

instance balanced_configureObject : Run.Balanced quiet (ev.configureObject target closure) := by
  unfold configureObject
  infer_instance

instance balanced_callBlock : Run.Balanced quiet (ev.callBlock target closure) := by
  unfold callBlock
  infer_instance

/-! ## Methods -/

instance balanced_expectStr : Run.Balanced quiet (expectStr v what) := by
  unfold expectStr
  split
  all_goals infer_instance

instance balanced_expectTexts (index : Nat) (vs : List Value) :
    Run.Balanced quiet (expectTexts index vs) := by
  induction vs generalizing index with
  | nil => exact follows_pure _
  | cons v vs ih =>
    cases v with
    | str s => exact .andThen fun texts => follows_pure _
    | _ => exact follows_typeError _

instance balanced_anyAffix (p : List Char → Bool) (vs : List Value) :
    Run.Balanced quiet (anyAffix what p vs) := by
  induction vs with
  | nil => exact follows_pure _
  | cons v vs ih =>
    unfold anyAffix
    infer_instance

instance balanced_strMethod : Run.Balanced quiet (ev.strMethod s name args) := by
  dsimp only [strMethod, strStrip, strSplit, strAffix, strReplace]
  repeat' first | infer_instance | split

instance balanced_keyOf : Run.Balanced quiet (ev.keyOf key item) := by
  unfold keyOf
  infer_instance

instance balanced_sorted (reverse : Bool) : Run.Balanced quiet (ev.sorted items key reverse) := by
  unfold sorted
  infer_instance

instance balanced_extremumFrom (keep : Ordering) (best : Option (Value × Value)) :
    Run.Balanced quiet (ev.extremumFrom key keep best items) := by
  induction items generalizing best with
  | nil =>
    unfold extremumFrom
    infer_instance
  | cons item items ih =>
    cases best with
    | none => exact .andThen fun k => ih _
    | some best =>
      unfold extremumFrom
      infer_instance

instance balanced_modifyList (f : List Value → List Value) : Run.Balanced quiet (modifyList r f) :=
  balanced_modifyHeap _

instance balanced_listMethod : Run.Balanced quiet (ev.listMethod r name args) := by
  dsimp only [listMethod, listPop, listInsert]
  repeat' first | infer_instance | split | refine .andThen fun _ => ?_

instance balanced_modifyDict (r : DictRef) (f : Dict → Dict) :
    Run.Balanced quiet (modifyDict r f) :=
  balanced_modifyHeap _

instance balanced_pairOf : Run.Balanced quiet (ev.pairOf item) := by
  unfold pairOf
  refine .andThen fun items => ?_
  split
  all_goals infer_instance

instance balanced_pairsOfArgs : Run.Balanced quiet (ev.pairsOfArgs function args) := by
  dsimp only [pairsOfArgs, pairsOf]
  repeat' first | infer_instance | split

instance balanced_dictMethod (r : DictRef) : Run.Balanced quiet (ev.dictMethod r name args) := by
  unfold dictMethod
  repeat' first | infer_instance | split | refine .andThen fun _ => ?_

instance balanced_objectMethod : Run.Balanced quiet (ev.objectMethod o name args) := by
  unfold objectMethod
  split
  · dsimp only [runtimeMethod, nameArg]
    repeat' first | infer_instance | split
  · exact ev.balanced_embedded (hev.host.callMethod _ o name args)

instance balanced_callMethod (receiver : Value) :
    Run.Balanced quiet (ev.callMethod receiver name args) := by
  unfold callMethod
  split
  all_goals infer_instance

/-! ## Items -/

instance balanced_getItem : Run.Balanced quiet (ev.getItem v index) := by
  dsimp only [getItem, itemAt]
  repeat' first | infer_instance | split | refine .andThen fun _ => ?_

instance balanced_setItem : Run.Balanced quiet (ev.setItem target index v) := by
  dsimp only [setItem, setListItem]
  repeat' first | infer_instance | split

instance balanced_items : Run.Balanced quiet (ev.items v) := by
  unfold Evaluator.items
  split
  all_goals infer_instance

instance balanced_toStr : Run.Balanced quiet (ev.toStr v) := by
  unfold toStr
  repeat' first | infer_instance | split | refine .andThen fun _ => ?_

/-! ## Operators -/

instance balanced_binary : Run.Balanced quiet (ev.binary op left right) := by
  unfold binary
  repeat' first | infer_instance | split | refine .andThen fun _ => ?_

instance balanced_binaryInPlace : Run.Balanced quiet (ev.binaryInPlace op left right) := by
  unfold binaryInPlace
  split
  all_goals infer_instance

instance balanced_compareOne (op : Program.CompareOp) :
    Run.Balanced quiet (ev.compareOne op left right) := by
  dsimp only [compareOne, ordered, Evaluator.contains, hasEqual]
  repeat' first | infer_instance | split

/-! ## Built-in functions -/

instance balanced_intArg : Run.Balanced quiet (intArg function v) := by
  unfold intArg
  split
  all_goals infer_instance

instance balanced_callNative (fn : Native) : Run.Balanced quiet (ev.callNative fn args) := by
  cases fn
  all_goals
    dsimp only [callNative, builtinPrint, printMark, builtinStr, builtinRepr, builtinInt, radixArg,
      builtinFloat, builtinBool, builtinList, builtinTuple, builtinDict, builtinSpace, builtinLen,
      builtinRange, builtinEnumerate, builtinZip, builtinSorted, builtinReversed,
      builtinExtremum, builtinSum, builtinAny, builtinAll, builtinAbs, builtinType,
      builtinIsInstance, builtinGetAttr, builtinSetAttr, builtinHasAttr, attributeName,
      exceptionInit, makeClosure]
    repeat' first | infer_instance | split | refine .andThen fun _ => ?_

/-! ## Calls -/

instance balanced_bindParams : Run.Balanced quiet (f.bindParams args) := by
  unfold Function.bindParams
  extract_lets given vars finish named
  have (vars : Attrs) : Run.Balanced quiet (finish vars) := follows_ofExcept _
  have (vars : Attrs) : Run.Balanced quiet (named vars) := by
    refine .andThen fun bound => ?_
    dsimp only
    split
    all_goals infer_instance
  split
  all_goals infer_instance

omit hev in
theorem balanced_callFunction_of (kind : FrameKind) (delegate : Option Value)
    (hgenerator : Run.Balanced False (ev.block f.body))
    (hbody : f.isGenerator = false → Run.Balanced quiet (ev.block f.body)) :
    Run.Balanced quiet (ev.callFunction f args kind delegate) := by
  unfold callFunction
  dsimp only
  have (vars : Attrs) : Run.Balanced quiet (do
      let frame ← alloc (·.newFrame kind { vars })
      let body := deeper (withFrame { env := frame :: f.env, delegate } (ev.block f.body))
      if f.isGenerator then newList (← collecting body) else return (← body).result) := by
    cases h : f.isGenerator with
    | true =>
      simp only [if_true]
      infer_instance
    | false =>
      have := hbody h
      infer_instance
  exact .read (fun _ _ => rfl) fun _ => inferInstance

instance balanced_callFunction (kind : FrameKind) (delegate : Option Value) :
    Run.Balanced quiet (ev.callFunction f args kind delegate) := by
  refine ev.balanced_callFunction_of args f kind delegate (hev.generator f.body) fun h => ?_
  have : Unyielding quiet f.body := ⟨fun _ => h⟩
  infer_instance

instance balanced_callClosure : Run.Balanced quiet (ev.callClosure f args) := by
  unfold callClosure
  split
  · infer_instance
  · exact .read (fun _ _ => rfl) fun _ => inferInstance

instance balanced_instantiate (c : Class) : Run.Balanced quiet (ev.instantiate c args) := by
  unfold instantiate
  refine .andThen fun r => .andThen fun h => ?_
  split
  all_goals infer_instance

instance balanced_callValue (callee : Value) (args : Args) :
    Run.Balanced quiet (ev.callValue callee args) := by
  unfold callValue
  repeat' first | infer_instance | split | refine .andThen fun _ => ?_

/-! ## Expressions -/

instance balanced_loadName : Run.Balanced quiet (loadName name) := by
  unfold loadName
  refine .read (fun _ _ => rfl) fun m => ?_
  split
  all_goals infer_instance

instance balanced_storeName : Run.Balanced quiet (storeName name v) := by
  unfold storeName
  repeat' first | infer_instance | split | refine .andThen fun _ => ?_ |
    refine .read (fun _ _ => rfl) fun _ => ?_

instance balanced_test (e : Program.Expr) : Run.Balanced quiet (ev.test e) := by
  unfold test
  infer_instance

set_option linter.unusedSectionVars false in
mutual

theorem balanced_assign (target : Program.Expr) (v : Value) :
    Run.Balanced quiet (ev.assign target v) := by
  unfold assign
  split
  · infer_instance
  · infer_instance
  · infer_instance
  · next span targets =>
    have := balanced_assignAll targets
    infer_instance
  · next span targets =>
    have := balanced_assignAll targets
    infer_instance
  · infer_instance

theorem balanced_assignAll (targets : List Program.Expr) (vs : List Value) :
    Run.Balanced quiet (ev.assignAll targets vs) := by
  unfold assignAll
  split
  · next target targets v vs =>
    have := balanced_assign target v
    have := balanced_assignAll targets vs
    infer_instance
  · infer_instance

end

attribute [instance] balanced_assign

instance balanced_partText (part : Program.FStringPart) :
    Run.Balanced quiet (ev.partText part) := by
  dsimp only [partText, fieldText]
  repeat' first | infer_instance | split

instance balanced_dictEntry (entry : Program.Entry) : Run.Balanced quiet (ev.dictEntry entry) := by
  cases entry with
  | mk key value =>
    unfold dictEntry
    infer_instance

instance balanced_elements (element : Program.Expr) (clauses : List Program.Clause) :
    Run.Balanced quiet (ev.elements element clauses) := by
  induction clauses with
  | nil =>
    unfold elements
    infer_instance
  | cons clause rest ih =>
    cases clause with
    | mk target source conditions =>
      unfold elements
      infer_instance

instance balanced_keywordsOf : Run.Balanced quiet (keywordsOf v) := by
  unfold keywordsOf
  split
  · refine .andThen fun h => ?_
    have (entry : Key × Value) : Run.Balanced quiet (match entry with
        | (.str name, v) => return (name, v)
        | _ => typeError .keywordNotStr) := by
      split
      all_goals infer_instance
    infer_instance
  · infer_instance
  · infer_instance

instance balanced_addArg (arg : Program.Arg) : Run.Balanced quiet (ev.addArg args arg) := by
  unfold addArg
  split
  all_goals infer_instance

instance balanced_compareChain (rest : List Program.Comparison) :
    Run.Balanced quiet (ev.compareChain left rest) := by
  induction rest generalizing left with
  | nil => exact follows_pure true
  | cons comparison rest ih =>
    cases comparison with
    | mk op right =>
      unfold compareChain
      infer_instance

instance balanced_evalBound (e : Option Program.Expr) : Run.Balanced quiet (ev.evalBound e) := by
  dsimp only [evalBound, sliceBound]
  repeat' first | infer_instance | split | refine .andThen fun _ => ?_

instance balanced_evalExpr (e : Program.Expr) : Run.Balanced quiet (ev.evalExpr e) := by
  dsimp only [evalExpr, unary, slice, selected]
  repeat' first | infer_instance | split | refine .andThen fun _ => ?_

/-! ## Statements -/

instance balanced_exceptionOf : Run.Balanced quiet (exceptionOf e) := by
  unfold exceptionOf
  refine .read (fun _ _ => rfl) fun m => ?_
  split
  all_goals infer_instance

instance balanced_importModule : Run.Balanced quiet (importModule name) := by
  unfold importModule
  refine .read (fun _ _ => rfl) fun m => ?_
  split
  all_goals infer_instance

instance balanced_raised : Run.Balanced quiet (ev.raised v) := by
  dsimp only [raised]
  repeat' first | infer_instance | split | refine .andThen fun _ => ?_

instance balanced_importFrom (module : String) (names : List Program.Alias) :
    Run.Balanced quiet (ev.importFrom module names) := by
  have (v : Value) (a : Program.Alias) : Run.Balanced quiet (do
      match ← ev.getAttr? v a.name with
      | some member => storeName a.binding member
      | none => Run.fail (.cannotImport a.name module)) := by
    refine .andThen fun found => ?_
    split
    all_goals infer_instance
  unfold importFrom
  infer_instance

instance balanced_evalBase (e : Program.Expr) : Run.Balanced quiet (ev.evalBase e) := by
  unfold evalBase
  refine .andThen fun v => ?_
  split
  all_goals infer_instance

instance balanced_matchesAny (c : Class) (kinds : List Value) :
    Run.Balanced quiet (matchesAny c kinds) := by
  induction kinds with
  | nil => exact follows_pure false
  | cons kind rest ih =>
    cases kind with
    | cls kind =>
      unfold matchesAny
      infer_instance
    | _ => exact follows_typeError _

instance balanced_handles (handler : Program.Handler) :
    Run.Balanced quiet (ev.handles e handler) := by
  unfold handles
  repeat' first | infer_instance | split | refine .andThen fun _ => ?_ |
    refine .read (fun _ _ => rfl) fun _ => ?_

instance balanced_findHandler : Run.Balanced quiet (ev.findHandler e handlers) := by
  induction handlers with
  | nil => exact follows_pure none
  | cons handler rest ih =>
    unfold findHandler
    infer_instance

instance balanced_execFor (target : Program.Expr) [Unyielding quiet body] :
    Run.Balanced quiet (ev.execFor target body items) := by
  induction items with
  | nil => exact follows_pure Flow.normal
  | cons item rest ih =>
    unfold execFor
    refine .andThen fun _ => .andThen fun flow => ?_
    split
    all_goals infer_instance

instance balanced_execWhile (condition : Program.Expr) (body : List Program.Stmt)
    [Unyielding quiet body] : Run.Balanced quiet (ev.execWhile condition body) := by
  have next (flow : Flow) : Run.Balanced quiet (match flow with
      | .breakLoop => return Flow.normal
      | .normal | .continueLoop => ev.loop condition body
      | .returns v => return .returns v) := by
    split
    all_goals infer_instance
  unfold execWhile
  infer_instance

instance balanced_declareNonlocals (names : List String) :
    Run.Balanced quiet (declareNonlocals names) := by
  unfold declareNonlocals
  repeat' first | infer_instance | split | refine .andThen fun _ => ?_ |
    refine .read (fun _ _ => rfl) fun _ => ?_

theorem mem_of_findHandler {handler : Program.Handler} {m m' : Machine}
    (h : ev.findHandler e handlers m = .ok (some handler) m') : handler ∈ handlers := by
  induction handlers generalizing m with
  | nil => cases h
  | cons first rest ih =>
    unfold findHandler at h
    cases hfirst : ev.handles e first m with
    | error => rw [bind_of_error hfirst] at h; cases h
    | ok found m1 =>
      rw [bind_of_ok hfirst] at h
      cases found with
      | true =>
        cases h
        exact List.mem_cons_self
      | false => exact List.mem_cons_of_mem _ (ih h)

theorem areYielding_of_mem {handler : Program.Handler} (h : areYieldingHandlers handlers = false)
    (hmem : handler ∈ handlers) : areYielding handler.body = false := by
  induction handlers with
  | nil => cases hmem
  | cons first rest ih =>
    obtain ⟨span, kind, name, body⟩ := first
    obtain ⟨hfirst, hrest⟩ := Bool.or_eq_false_iff.1 h
    rcases List.mem_cons.1 hmem with rfl | hmem
    · exact hfirst
    · exact ih hrest hmem

theorem balanced_recover (hs : quiet → areYieldingHandlers handlers = false) :
    Run.Balanced quiet (ev.recover e handlers) := by
  unfold recover
  refine .andThenOf fun found m m' hfound => ?_
  split
  · infer_instance
  · next handler =>
    have : Unyielding quiet handler.body :=
      ⟨fun hq => areYielding_of_mem _ (hs hq) (ev.mem_of_findHandler _ _ hfound)⟩
    repeat' first | infer_instance | split

instance balanced_exitArgs {α : Type} (r : Except RuntimeError α) :
    Run.Balanced quiet (exitArgs r) := by
  unfold exitArgs
  repeat' first | infer_instance | split | refine .andThen fun _ => ?_ |
    refine .read (fun _ _ => rfl) fun _ => ?_

instance balanced_enterContext (context : Program.Expr) (target : Option Program.Expr) :
    Run.Balanced quiet (ev.enterContext context target) := by
  dsimp only [enterContext, store]
  repeat' first | infer_instance | split | refine .andThen fun _ => ?_

instance balanced_finish (r : Except RuntimeError Flow) [Unyielding quiet body] :
    Run.Balanced quiet (ev.finish r body) := by
  unfold finish
  repeat' first | infer_instance | split | refine .andThen fun _ => ?_ |
    refine .read (fun _ _ => rfl) fun _ => ?_

instance balanced_declareGlobals (names : List String) :
    Run.Balanced quiet (declareGlobals names) :=
  .read (fun _ _ => rfl) fun _ => inferInstance

instance balanced_define (decorators : List Value) :
    Run.Balanced quiet (ev.define name decorators v) := by
  unfold define
  infer_instance

instance balanced_defineFunction (params : Program.Params) (decorators : List Program.Expr) :
    Run.Balanced quiet (ev.defineFunction name params body decorators) := by
  unfold defineFunction
  exact .andThen fun _ => .andThen fun _ => .andThen fun _ => .read (fun _ _ => rfl) fun _ =>
    inferInstance

instance balanced_defineClass (bases decorators : List Program.Expr) [Unyielding quiet body] :
    Run.Balanced quiet (ev.defineClass name bases body decorators) := by
  unfold defineClass
  exact .andThen fun _ => .andThen fun _ => .andThen fun _ => .read (fun _ _ => rfl) fun _ =>
    inferInstance

/-- A statement yields only if it is meant to, or defines a class whose body does. -/
theorem balanced_execStmt (stmt : Program.Stmt) (hs : quiet → stmt.isYielding = false)
    (hclass : quiet → stmt.isYieldingClass = false) : Run.Balanced quiet (ev.execStmt stmt) := by
  cases stmt with
  | yields | yieldsFrom =>
    have (vs : List Value) : Run.Balanced quiet (Run.yields vs) :=
      balanced_yields vs fun hq => Bool.noConfusion (hs hq)
    dsimp only [execStmt, evalOr]
    repeat' first | infer_instance | split
  | ifElse span condition body orelse =>
    have : Unyielding quiet body := ⟨fun hq => (Bool.or_eq_false_iff.1 (hs hq)).1⟩
    have : Unyielding quiet orelse := ⟨fun hq => (Bool.or_eq_false_iff.1 (hs hq)).2⟩
    unfold execStmt
    infer_instance
  | whileLoop span condition body =>
    have : Unyielding quiet body := ⟨hs⟩
    unfold execStmt
    infer_instance
  | forLoop span target source body =>
    have : Unyielding quiet body := ⟨hs⟩
    unfold execStmt
    infer_instance
  | withBlock span context target body =>
    have : Unyielding quiet body := ⟨hs⟩
    dsimp only [execStmt, execWith, managed]
    repeat' first | infer_instance | split | refine .andThen fun _ => ?_
  | tryBlock span body handlers finalBody =>
    have hparts (hq : quiet) := Bool.or_eq_false_iff.1 (hs hq)
    have : Unyielding quiet finalBody := ⟨fun hq => (hparts hq).2⟩
    have : Unyielding quiet body := ⟨fun hq => (Bool.or_eq_false_iff.1 (hparts hq).1).1⟩
    have (e : RuntimeError) := ev.balanced_recover e handlers fun hq =>
      (Bool.or_eq_false_iff.1 (hparts hq).1).2
    dsimp only [execStmt, execTry]
    repeat' first | infer_instance | split | refine .andThen fun _ => ?_
  | classDef span name bases body decorators =>
    have : Unyielding quiet body := ⟨hclass⟩
    unfold execStmt
    infer_instance
  | _ =>
    dsimp only [execStmt, evalOr, augAssign, assertThat, raise, importNames]
    repeat' first | infer_instance | split | refine .andThen fun _ => ?_ |
      refine .read (fun _ _ => rfl) fun _ => ?_

end

end Evaluator

end BlockScript
