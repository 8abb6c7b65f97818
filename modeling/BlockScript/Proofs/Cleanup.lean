import BlockScript.Proofs.Names.ReadBack

/-! Clean-up: the `finally` block of a `try` statement, and leaving the context of a `with`
statement.

Either statement is cut into the part that comes before the clean-up and the clean-up itself. The
first part does not know the clean-up, and what comes after the clean-up only picks the end of the
statement. So where the statement gets to its clean-up it runs it once; each theorem says exactly
when it does not get there. -/

namespace BlockScript

open Program

namespace Run

variable {α β : Type} {m m' : Machine}

variable {p : Run α}

theorem attempt_of_ok {a : α} (hp : p m = .ok a m') : attempt p m = .ok (.ok a) m' := by
  rw [attempt, hp]

theorem attempt_of_error {e : RuntimeError} (hp : p m = .error (.error e) m') :
    attempt p m = .ok (.error e) m' := by
  rw [attempt, hp]

theorem attempt_of_exhausted (hp : p m = .error .exhausted m') :
    attempt p m = .error .exhausted m' := by
  rw [attempt, hp]

variable {e : Halt RuntimeError}

/-- An attempt fails only if it is cut short. -/
theorem eq_exhausted_of_attempt (hp : attempt p m = .error e m') : e = .exhausted := by
  unfold attempt at hp
  split at hp
  · cases hp
  · cases hp
  · cases hp
    rfl

theorem error_of_not_cut {f : α → Run β} (hp : p m = .error e m')
    (hcut : isCut ((p >>= f) m) = false) : ∃ e', e = .error e' := by
  rw [bind_of_error hp] at hcut
  cases e with
  | error e' => exact ⟨e', rfl⟩
  | exhausted => cases hcut

end Run

namespace Evaluator

variable (ev : Evaluator)

/-! ## `finally` -/

def bindException (e : RuntimeError) (handler : Handler) : Run Unit := do
  Run.setErrorLine none
  if let some name := handler.name then storeName name (← exceptionOf e)

/-- What comes before the `finally` block of a `try` statement: the body and, after an error, a
handler for it. -/
def guarded (body : List Stmt) (handlers : List Handler) : Run (Except RuntimeError Flow) := do
  match ← Run.attempt (ev.block body) with
  | .ok flow => return .ok flow
  | .error e => ev.recover e handlers

theorem recover_eq (e : RuntimeError) (handlers : List Handler) : ev.recover e handlers = (do
      match ← ev.findHandler e handlers with
      | none => return .error e
      | some handler =>
        bindException e handler
        Run.attempt (Run.handling e (ev.block handler.body))) := by
  unfold recover
  congr 1
  funext found
  cases found with
  | none => rfl
  | some handler =>
    obtain ⟨span, kind, name, body⟩ := handler
    cases name with
    | none => rfl
    | some name =>
      simp only [bindException, Handler.name, bind_assoc]

theorem execTry_eq (body : List Stmt) (handlers : List Handler) (finalBody : List Stmt) :
    ev.execTry body handlers finalBody =
      ev.guarded body handlers >>= fun result => ev.finish result finalBody := by
  unfold execTry guarded
  rw [bind_assoc]
  congr 1
  funext result
  cases result with
  | ok flow => rw [pure_bind]
  | error e => rfl

/-- The part before the `finally` block ends with a result that is pending while the block runs: a
jump or an error of the body, an error that has no handler, or the end of its handler. -/
inductive Guards (body : List Stmt) (handlers : List Handler) (m : Machine) :
    Except RuntimeError Flow → Machine → Prop
  | body {flow : Flow} {m₁ : Machine} :
    ev.block body m = .ok flow m₁ → Guards body handlers m (.ok flow) m₁
  | unhandled {e : RuntimeError} {m₁ m₂ : Machine} :
    ev.block body m = .error (.error e) m₁ → ev.findHandler e handlers m₁ = .ok none m₂ →
    Guards body handlers m (.error e) m₂
  | handled {e : RuntimeError} {handler : Handler} {result : Except RuntimeError Flow}
      {m₁ m₂ m₃ m₄ : Machine} :
    ev.block body m = .error (.error e) m₁ →
    ev.findHandler e handlers m₁ = .ok (some handler) m₂ →
    bindException e handler m₂ = .ok () m₃ →
    Run.attempt (Run.handling e (ev.block handler.body)) m₃ = .ok result m₄ →
    Guards body handlers m result m₄

/-- After an error of the body another one comes up before a handler runs: what an `except` clause
names cannot be evaluated or is no class, or its name cannot be bound. -/
inductive Escapes (body : List Stmt) (handlers : List Handler) (m : Machine) :
    RuntimeError → Machine → Prop
  | search {e e' : RuntimeError} {m₁ m₂ : Machine} :
    ev.block body m = .error (.error e) m₁ →
    ev.findHandler e handlers m₁ = .error (.error e') m₂ → Escapes body handlers m e' m₂
  | binding {e e' : RuntimeError} {handler : Handler} {m₁ m₂ m₃ : Machine} :
    ev.block body m = .error (.error e) m₁ →
    ev.findHandler e handlers m₁ = .ok (some handler) m₂ →
    bindException e handler m₂ = .error (.error e') m₃ → Escapes body handlers m e' m₃

variable {ev} {body : List Stmt} {handlers : List Handler} {m : Machine}

variable {result : Except RuntimeError Flow}

theorem guarded_of_guards {m' : Machine}
    (h : ev.Guards body handlers m result m') : ev.guarded body handlers m = .ok result m' := by
  unfold guarded
  cases h with
  | body hbody =>
    rw [Run.bind_of_ok (Run.attempt_of_ok hbody)]
    rfl
  | unhandled hbody hfind =>
    rw [Run.bind_of_ok (Run.attempt_of_error hbody)]
    dsimp only
    rw [recover_eq, Run.bind_of_ok hfind]
    rfl
  | handled hbody hfind hbind hrun =>
    rw [Run.bind_of_ok (Run.attempt_of_error hbody)]
    dsimp only
    rw [recover_eq, Run.bind_of_ok hfind]
    dsimp only
    rw [Run.bind_of_ok hbind, hrun]

theorem guarded_of_escapes {e : RuntimeError} {m' : Machine} (h : ev.Escapes body handlers m e m') :
    ev.guarded body handlers m = .error (.error e) m' := by
  unfold guarded
  cases h with
  | search hbody hfind =>
    rw [Run.bind_of_ok (Run.attempt_of_error hbody)]
    dsimp only
    rw [recover_eq, Run.bind_of_error hfind]
  | binding hbody hfind hbind =>
    rw [Run.bind_of_ok (Run.attempt_of_error hbody)]
    dsimp only
    rw [recover_eq, Run.bind_of_ok hfind]
    dsimp only
    rw [Run.bind_of_error hbind]

/-- Unless it is cut short, the part before the `finally` block ends in one of the two ways. -/
theorem guards_or_escapes (hcut : Run.isCut (ev.guarded body handlers m) = false) :
    (∃ result m', ev.Guards body handlers m result m') ∨
    ∃ e m', ev.Escapes body handlers m e m' := by
  unfold guarded at hcut
  cases hbody : ev.block body m with
  | ok flow m1 => exact .inl ⟨_, _, .body hbody⟩
  | error e m1 =>
    cases e with
    | exhausted =>
      rw [Run.bind_of_error (Run.attempt_of_exhausted hbody)] at hcut
      cases hcut
    | error e =>
      rw [Run.bind_of_ok (Run.attempt_of_error hbody)] at hcut
      dsimp only at hcut
      rw [recover_eq] at hcut
      cases hfind : ev.findHandler e handlers m1 with
      | error e' m2 =>
        obtain ⟨e', rfl⟩ := Run.error_of_not_cut hfind hcut
        exact .inr ⟨_, _, .search hbody hfind⟩
      | ok found m2 =>
        rw [Run.bind_of_ok hfind] at hcut
        cases found with
        | none => exact .inl ⟨_, _, .unhandled hbody hfind⟩
        | some handler =>
          dsimp only at hcut
          cases hbind : bindException e handler m2 with
          | error e' m3 =>
            obtain ⟨e', rfl⟩ := Run.error_of_not_cut hbind hcut
            exact .inr ⟨_, _, .binding hbody hfind hbind⟩
          | ok _ m3 =>
            rw [Run.bind_of_ok hbind] at hcut
            cases hrun : Run.attempt (Run.handling e (ev.block handler.body)) m3 with
            | ok result m4 => exact .inl ⟨_, _, .handled hbody hfind hbind hrun⟩
            | error e' m4 =>
              rw [hrun, Run.eq_exhausted_of_attempt hrun] at hcut
              cases hcut

/-- The end of a `try` statement with a pending result, given how its `finally` block ended on its
own. Unless that jumps or fails, the pending result stands, with the line it was marked with. -/
def settle (result : Except RuntimeError Flow) (line : Option Nat) :
    Run.Result Flow → Run.Result Flow
  | .ok .normal m => Run.ofExcept result { m with errorLine := line }
  | ended => ended

theorem finish_eq {finalBody : List Stmt} (hfinal : finalBody ≠ [])
    (result : Except RuntimeError Flow) (m : Machine) : ev.finish result finalBody m =
      settle result m.errorLine (ev.block finalBody { m with errorLine := none }) := by
  unfold finish
  rw [if_neg (by simpa using hfinal)]
  rw [Run.get_bind]
  rw [Run.bind_of_ok (show Run.setErrorLine none m = .ok () { m with errorLine := none } from rfl)]
  cases hblock : ev.block finalBody { m with errorLine := none } with
  | error e m' =>
    rw [Run.bind_of_error hblock]
    rfl
  | ok flow m' =>
    rw [Run.bind_of_ok hblock]
    cases flow with
    | normal => rfl
    | breakLoop | continueLoop | returns => rfl

/-- A `try` statement that is not cut short runs its `finally` block, once and as the last thing it
does, unless an error comes up between the body and a handler; with that error it ends at once. -/
theorem finally_once_iff {finalBody : List Stmt} (hfinal : finalBody ≠ []) (span : Span)
    (hcut : Run.isCut (ev.execStmt (.tryBlock span body handlers finalBody) m) = false) :
    ((∃ result m₁, ev.Guards body handlers m result m₁ ∧
        ev.execStmt (.tryBlock span body handlers finalBody) m =
          settle result m₁.errorLine (ev.block finalBody { m₁ with errorLine := none })) ↔
      ¬ ∃ e m₁, ev.Escapes body handlers m e m₁) ∧
    ∀ e m₁, ev.Escapes body handlers m e m₁ →
      ev.execStmt (.tryBlock span body handlers finalBody) m = .error (.error e) m₁ := by
  have heq : ev.execStmt (.tryBlock span body handlers finalBody) m =
      (ev.guarded body handlers >>= fun result => ev.finish result finalBody) m :=
    congrFun (ev.execTry_eq body handlers finalBody) m
  refine ⟨⟨?_, fun hescapes => ?_⟩, fun e m₁ hescapes => ?_⟩
  · rintro ⟨result, m₁, hguards, -⟩ ⟨e, m₂, hescapes⟩
    cases (guarded_of_guards hguards).symm.trans (guarded_of_escapes hescapes)
  · have hguarded : Run.isCut (ev.guarded body handlers m) = false := by
      cases hrun : ev.guarded body handlers m with
      | ok => rfl
      | error e m₁ =>
        rw [heq] at hcut
        obtain ⟨e, rfl⟩ := Run.error_of_not_cut hrun hcut
        rfl
    obtain ⟨result, m₁, hguards⟩ | hescapes' := guards_or_escapes hguarded
    · refine ⟨result, m₁, hguards, ?_⟩
      rw [heq, Run.bind_of_ok (guarded_of_guards hguards), finish_eq hfinal]
    · exact absurd hescapes' hescapes
  · rw [heq, Run.bind_of_error (guarded_of_escapes hescapes)]

/-- `assert False` -/
def failing : List Stmt := [.asserts default (.constant default (.bool false)) none]

/-- `print('done')` -/
def announcing : List Stmt :=
  [.expr default ((Expr.name default "print").apply [.str default "done"])]

def failingHandlers : List Handler := [.mk default none none failing]

theorem finally_once_iff_failingHandlers :
    Run.isCut ((ofDepth .none 6).execStmt (.tryBlock default failing failingHandlers announcing)
      .new) = false ∧
    ∃ e m₁, (ofDepth .none 6).Guards failing failingHandlers .new (.error e) m₁ ∧
      (ofDepth .none 6).execStmt (.tryBlock default failing failingHandlers announcing) .new =
        settle (.error e) m₁.errorLine
          ((ofDepth .none 6).block announcing { m₁ with errorLine := none }) := by
  have hcut : Run.isCut ((ofDepth .none 6).execStmt
      (.tryBlock default failing failingHandlers announcing) .new) = false := by decide
  have hguarded : ∃ e m₁, (ofDepth .none 6).guarded failing failingHandlers .new =
      .ok (.error e) m₁ := ⟨_, _, rfl⟩
  obtain ⟨e, m₁, hrun⟩ := hguarded
  obtain ⟨result, m₂, hguards, hend⟩ := (finally_once_iff (by decide) default hcut).1.2 fun h => by
    obtain ⟨e', m₂, hescapes⟩ := h
    cases hrun.symm.trans (guarded_of_escapes hescapes)
  cases hrun.symm.trans (guarded_of_guards hguards)
  exact ⟨hcut, e, m₁, hguards, hend⟩

/-- An `except` clause that names what is not defined. -/
def undefinedHandlers : List Handler :=
  [.mk default (some (.name default "missing")) none [.pass default]]

/-- A `finally` block is not always run: the error in the `except` clause ends the statement, and
nothing is printed. -/
theorem finally_skipped_undefinedHandlers :
    (∃ e m₁, (ofDepth .none 6).Escapes failing undefinedHandlers .new e m₁ ∧
      (ofDepth .none 6).execStmt (.tryBlock default failing undefinedHandlers announcing) .new =
        .error (.error e) m₁ ∧ m₁.printed = "") ∧
    ¬ ∃ result m₁, (ofDepth .none 6).Guards failing undefinedHandlers .new result m₁ := by
  have hescapes : ∃ e m₁, (ofDepth .none 6).Escapes failing undefinedHandlers .new e m₁ ∧
      (ofDepth .none 6).execStmt (.tryBlock default failing undefinedHandlers announcing) .new =
        .error (.error e) m₁ ∧ m₁.printed = "" := ⟨_, _, .search rfl rfl, rfl, rfl⟩
  refine ⟨hescapes, ?_⟩
  obtain ⟨e, m₁, hescapes, -⟩ := hescapes
  rintro ⟨result, m₂, hguards⟩
  cases (guarded_of_escapes hescapes).symm.trans (guarded_of_guards hguards)

/-! ## `with` -/

section

variable (ev) {context : Expr} {target : Option Expr} {manager entered : Value} {m1 : Machine}

/-- The context of a `with` statement is entered: it is evaluated, and gives the value for the
target by its `__enter__`, or is that value itself. -/
inductive Entered (context : Expr) (m : Machine) : Value → Value → Machine → Prop
  | called {manager enter entered : Value} {m₁ m₂ m₃ : Machine} :
    ev.eval context m = .ok manager m₁ →
    ev.getAttr? manager "__enter__" m₁ = .ok (some enter) m₂ →
    ev.call enter {} m₂ = .ok entered m₃ → Entered context m manager entered m₃
  | itself {manager : Value} {m₁ m₂ : Machine} :
    ev.eval context m = .ok manager m₁ → ev.getAttr? manager "__enter__" m₁ = .ok none m₂ →
    Entered context m manager manager m₂

theorem execWith_of_entered (h : ev.Entered context m manager entered m1) :
    ev.execWith context target body m =
      (ev.store target entered >>= fun _ => ev.managed manager body) m1 := by
  unfold execWith enterContext
  cases h with
  | called heval hattr hcall =>
    simp only [bind_assoc, Run.bind_of_ok heval, Run.bind_of_ok hattr,
      Run.bind_of_ok hcall, pure_bind]
  | itself heval hattr =>
    simp only [bind_assoc, Run.bind_of_ok heval, Run.bind_of_ok hattr, pure_bind]

/-- The end of a `with` statement whose body ended with a result, given how the call of `__exit__`
ended. If that gives a value that counts as true, an error of the body is forgotten. -/
def leave (result : Except RuntimeError Flow) :
    Run.Result Value → Run.Result Flow
  | .error e m => .error e m
  | .ok v m =>
    match result with
    | .ok flow => .ok flow m
    | .error e =>
      if (ev.host.view m.heap).truthy v then .ok .normal { m with errorLine := none }
      else .error (.error e) m

theorem managed_of_exit {exit : Value} {args : Args}
    {m2 m3 m4 : Machine} (hbody : Run.attempt (ev.block body) m1 = .ok result m2)
    (hexit : ev.getAttr? manager "__exit__" m2 = .ok (some exit) m3)
    (hargs : exitArgs result m3 = .ok args m4) :
    ev.managed manager body m1 = ev.leave result (ev.call exit args m4) := by
  unfold managed
  rw [Run.bind_of_ok hbody, Run.bind_of_ok hexit]
  dsimp only
  rw [Run.bind_of_ok hargs]
  cases hcall : ev.call exit args m4 with
  | error e m5 =>
    rw [Run.bind_of_error hcall]
    rfl
  | ok v m5 =>
    have htruthy : ev.truthy v m5 = .ok ((ev.host.view m5.heap).truthy v) m5 := rfl
    rw [Run.bind_of_ok hcall, Run.bind_of_ok htruthy]
    cases result with
    | ok flow => rfl
    | error e =>
      change (if _ then _ else _ : Run Flow) m5 = if _ then _ else _
      split
      · rfl
      · rfl

theorem exists_exitArgs (result : Except RuntimeError Flow) (m : Machine) :
    ∃ args m', exitArgs result m = .ok args m' := by
  cases result with
  | ok flow => exact ⟨_, _, rfl⟩
  | error e =>
    have hexception : ∃ v m', exceptionOf e m = .ok v m' := by
      unfold exceptionOf
      rw [Run.get_bind]
      generalize m.errorClass? e = found
      split
      · exact ⟨_, _, rfl⟩
      · exact ⟨_, _, rfl⟩
      · exact ⟨_, _, rfl⟩
    obtain ⟨v, m', hv⟩ := hexception
    exact ⟨_, m', by rw [exitArgs, Run.bind_of_ok hv]; rfl⟩

/-- With the value stored, the body has ended with a result, and `exit` is what the context now has
as its `__exit__`, to be called with these arguments in this machine. -/
inductive Exits (manager entered : Value) (target : Option Expr) (body : List Stmt) (m : Machine) :
    Except RuntimeError Flow → Value → Args → Machine → Prop
  | mk {result : Except RuntimeError Flow} {exit : Value} {args : Args} {m₁ m₂ m₃ m₄ : Machine} :
    ev.store target entered m = .ok () m₁ → Run.attempt (ev.block body) m₁ = .ok result m₂ →
    ev.getAttr? manager "__exit__" m₂ = .ok (some exit) m₃ → exitArgs result m₃ = .ok args m₄ →
    Exits manager entered target body m result exit args m₄

/-- The context has an `__exit__` when the body has ended. -/
def CanExit (manager entered : Value) (target : Option Expr) (body : List Stmt) (m : Machine) :
    Prop :=
  ∀ {result m₁ m₂}, ev.store target entered m = .ok () m₁ →
    Run.attempt (ev.block body) m₁ = .ok result m₂ →
    ∃ exit m₃, ev.getAttr? manager "__exit__" m₂ = .ok (some exit) m₃

/-- A `with` statement that is not cut short and whose context is entered calls the `__exit__` of
the context, once and as the last thing it does, unless the entered value cannot be stored; with
that error it ends at once. -/
theorem exit_once_iff (span : Span) (hentered : ev.Entered context m manager entered m₁)
    (hexit : ev.CanExit manager entered target body m₁)
    (hcut : Run.isCut (ev.execStmt (.withBlock span context target body) m) = false) :
    ((∃ result exit args m₂, ev.Exits manager entered target body m₁ result exit args m₂ ∧
        ev.execStmt (.withBlock span context target body) m =
          ev.leave result (ev.call exit args m₂)) ↔
      ¬ ∃ e m₂, ev.store target entered m₁ = .error (.error e) m₂) ∧
    ∀ e m₂, ev.store target entered m₁ = .error (.error e) m₂ →
      ev.execStmt (.withBlock span context target body) m = .error (.error e) m₂ := by
  have heq : ev.execStmt (.withBlock span context target body) m =
      (ev.store target entered >>= fun _ => ev.managed manager body) m₁ :=
    ev.execWith_of_entered hentered
  refine ⟨⟨?_, fun hstores => ?_⟩, fun e m₂ hstore => ?_⟩
  · rintro ⟨_, _, _, _, ⟨hstore, -, -, -⟩, -⟩ ⟨e, m₂, hfails⟩
    cases hstore.symm.trans hfails
  · rw [heq] at hcut
    cases hstore : ev.store target entered m₁ with
    | error e m₂ =>
      obtain ⟨e, rfl⟩ := Run.error_of_not_cut hstore hcut
      exact absurd ⟨e, m₂, hstore⟩ hstores
    | ok _ m₂ =>
      rw [Run.bind_of_ok hstore] at hcut
      cases hbody : Run.attempt (ev.block body) m₂ with
      | error e m₃ =>
        rw [managed, Run.bind_of_error hbody, Run.eq_exhausted_of_attempt hbody] at hcut
        cases hcut
      | ok result m₃ =>
        obtain ⟨exit, m₄, hfound⟩ := hexit hstore hbody
        obtain ⟨args, m₅, hargs⟩ := exists_exitArgs result m₄
        refine ⟨result, exit, args, m₅, .mk hstore hbody hfound hargs, ?_⟩
        rw [heq, Run.bind_of_ok hstore, ev.managed_of_exit hbody hfound hargs]
  · rw [heq, Run.bind_of_error hstore]

end

/-- The module has a context `lock`, a bag of attributes whose `__exit__` prints. -/
def lockMachine : Machine where
  heap := {
    spaces := ⟨#[.ofList [("__exit__",
      .function (.mk 0 "leave" { rest := some "args" } announcing [⟨0, .module⟩] []))]]⟩
    frames := ⟨#[{ vars := .ofList [("lock", .space ⟨0⟩)] }]⟩
    fresh := 2 }
  builtins := .ofList [("print", .native 1 .print)]
  frames := [{ env := [⟨0, .module⟩] }]

def lock : Expr := .name default "lock"

/-- `with lock as held: assert False` -/
theorem exit_once_iff_lockMachine :
    (ofDepth .none 6).Entered lock lockMachine (.space ⟨0⟩) (.space ⟨0⟩) lockMachine ∧
    (ofDepth .none 6).CanExit (.space ⟨0⟩) (.space ⟨0⟩) (some (.name default "held"))
      failing lockMachine ∧
    ∃ e exit args m, (ofDepth .none 6).Exits (.space ⟨0⟩) (.space ⟨0⟩)
        (some (.name default "held")) failing lockMachine (.error e) exit args m ∧
      (ofDepth .none 6).execStmt (.withBlock default lock (some (.name default "held")) failing)
        lockMachine = (ofDepth .none 6).leave (.error e) ((ofDepth .none 6).call exit args m) := by
  have hentered : (ofDepth .none 6).Entered lock lockMachine (.space ⟨0⟩) (.space ⟨0⟩)
      lockMachine := .itself rfl rfl
  have hstore : ∃ m, (ofDepth .none 6).store (some (.name default "held")) (.space ⟨0⟩)
      lockMachine =
      .ok () m ∧ ∃ e m', Run.attempt ((ofDepth .none 6).block failing) m = .ok (.error e) m' ∧
        ∃ exit m'', (ofDepth .none 6).getAttr? (.space ⟨0⟩) "__exit__" m' = .ok (some exit) m'' :=
    ⟨_, rfl, _, _, rfl, _, _, rfl⟩
  obtain ⟨m₁, hstore, e, m₂, hbody, hfound⟩ := hstore
  have hexit : (ofDepth .none 6).CanExit (.space ⟨0⟩) (.space ⟨0⟩) (some (.name default "held"))
      failing lockMachine := by
    intro result m₃ m₄ hstore' hbody'
    cases hstore.symm.trans hstore'
    cases hbody.symm.trans hbody'
    exact hfound
  have hcut : Run.isCut ((ofDepth .none 6).execStmt
      (.withBlock default lock (some (.name default "held")) failing) lockMachine) = false := by
    decide
  have hstores : ¬ ∃ e m, (ofDepth .none 6).store (some (.name default "held")) (.space ⟨0⟩)
      lockMachine = .error (.error e) m := by
    rintro ⟨e, m, hfails⟩
    cases hstore.symm.trans hfails
  obtain ⟨result, exit, args, m, hexits, hend⟩ :=
    (exit_once_iff _ default hentered hexit hcut).1.2 hstores
  obtain ⟨hstore', hbody', _, _⟩ := id hexits
  cases hstore.symm.trans hstore'
  cases hbody.symm.trans hbody'
  exact ⟨hentered, hexit, e, exit, args, m, hexits, hend⟩

def pair : Expr := .tuple default [.name default "a", .name default "b"]

/-- The `__exit__` of a context is not always called: the bag cannot be unpacked into two names,
this error ends the statement, and nothing is printed. -/
theorem exit_skipped_pair :
    (ofDepth .none 6).Entered lock lockMachine (.space ⟨0⟩) (.space ⟨0⟩) lockMachine ∧
    (∃ exit, (ofDepth .none 6).getAttr? (.space ⟨0⟩) "__exit__" lockMachine =
      .ok (some exit) lockMachine) ∧
    (∃ e m, (ofDepth .none 6).execStmt (.withBlock default lock (some pair) [.pass default])
      lockMachine = .error (.error e) m ∧ m.printed = "") ∧
    ¬ ∃ result exit args m, (ofDepth .none 6).Exits (.space ⟨0⟩) (.space ⟨0⟩) (some pair)
      [.pass default] lockMachine result exit args m := by
  have hstore : ∃ e m, (ofDepth .none 6).store (some pair) (.space ⟨0⟩) lockMachine =
      .error (.error e) m := ⟨_, _, rfl⟩
  refine ⟨.itself rfl rfl, ⟨_, rfl⟩, ⟨_, _, rfl, rfl⟩, ?_⟩
  obtain ⟨e, m, hstore⟩ := hstore
  rintro ⟨result, exit, args, m', hstore', -, -, -⟩
  cases hstore.symm.trans hstore'

end Evaluator

end BlockScript
