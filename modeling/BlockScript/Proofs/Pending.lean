import BlockScript.Eval.Stmt

/-! Errors that are pending. While the exit method of a context or the clauses of a `try` statement
decide on an error, code runs with the line of that error in the one place that a machine has for
the line of an error. Here is what statements do if the line is kept in other ways. -/

namespace BlockScript

open Program

/-! ## The line of a pending error -/

/-- What becomes of the line of an error while code decides on the error. -/
structure Marking where
  /-- The line with which that code starts. -/
  held : Option Nat → Option Nat
  /-- The line of an error of that code, given the pending line and the one that is left. -/
  failed : Option Nat → Option Nat → Option Nat
  /-- The line of the pending error when it goes on, given these. -/
  resumed : Option Nat → Option Nat → Option Nat

namespace Marking

/-- All errors share one place for their lines. -/
def shared : Marking where
  held line := line
  failed _ now := now
  resumed _ now := now

/-- An error that is caught takes its line along, and brings it back when it goes on. -/
def carried : Marking where
  held _ := none
  failed _ now := now
  resumed pending _ := pending

/-- The mark of an error whose line is lost: that of no statement. -/
def lost : Option Nat := some 0

/-- All errors share one place, which is watched: the line of an error is lost if it was not written
because the pending line was there, or if the pending line is not there any more. -/
def watched : Marking where
  held line := line
  failed pending now := if now = pending then lost else now
  resumed pending now := if now = pending then now else lost

end Marking

namespace Run

variable {α : Type}

/-- The end of code that decides on a pending error: it handles the error or, with `none`, lets it
go on. -/
def decided (k : Marking) (pending : Option Nat) : Run.Result (Option α) →
      Run.Result (Option α)
  | .ok none m => .ok none { m with errorLine := k.resumed pending m.errorLine }
  | .ok (some a) m => .ok (some a) { m with errorLine := none }
  | .error (.error e) m => .error (.error e) { m with errorLine := k.failed pending m.errorLine }
  | .error .exhausted m => .error .exhausted m

def deciding (k : Marking) (p : Run (Option α)) : Run (Option α) := fun m =>
  decided k m.errorLine (p { m with errorLine := k.held m.errorLine })

end Run

namespace Evaluator

variable (ev : Evaluator)

/-- Leave a context, which may suppress an error of the body. -/
def leaveContext (manager : Value) (result : Except RuntimeError Flow) : Run (Option Unit) := do
  match ← ev.getAttr? manager "__exit__" with
  | none => return none
  | some exit =>
    if ← ev.truthy (← ev.call exit (← exitArgs result)) then return some () else return none

def managedBy (k : Marking) (manager : Value) (body : List Stmt) : Run Flow := do
  match ← Run.attempt (ev.block body) with
  | .ok flow =>
    let _ ← ev.leaveContext manager (.ok flow)
    return flow
  | .error e =>
    match ← Run.deciding k (ev.leaveContext manager (.error e)) with
    | some () => return .normal
    | none => Run.fail e

def execWithBy (k : Marking) (context : Expr) (target : Option Expr) (body : List Stmt) :
    Run Flow := do
  let manager ← ev.enterContext context target
  ev.managedBy k manager body

def recoverBy (k : Marking) (e : RuntimeError) (handlers : List Handler) :
    Run (Except RuntimeError Flow) := do
  match ← Run.deciding k (ev.findHandler e handlers) with
  | none => return .error e
  | some handler =>
    if let some name := handler.name then storeName name (← exceptionOf e)
    Run.attempt (Run.handling e (ev.block handler.body))

def execTryBy (k : Marking) (body : List Stmt) (handlers : List Handler) (finalBody : List Stmt) :
    Run Flow := do
  match ← Run.attempt (ev.block body) with
  | .ok flow => ev.finish (.ok flow) finalBody
  | .error e => ev.finish (← ev.recoverBy k e handlers) finalBody

end Evaluator

def Marking.exec (k : Marking) : Evaluator → Stmt → Run Flow
  | ev, .withBlock _ context target body => ev.execWithBy k context target body
  | ev, .tryBlock _ body handlers finalBody => ev.execTryBy k body handlers finalBody
  | ev, s => ev.execStmt s

/-! ## The interpreter as it is -/

theorem Run.deciding_shared {α : Type} (p : Run (Option α)) : Run.deciding .shared p = do
    match ← p with
    | none => return none
    | some a =>
      Run.setErrorLine none
      return some a := by
  funext m
  change Run.decided .shared m.errorLine (p m) = EStateM.bind p _ m
  unfold EStateM.bind
  cases p m with
  | ok a m' => cases a <;> rfl
  | error e m' => cases e <;> rfl

namespace Evaluator

variable (ev : Evaluator)

theorem managedBy_shared (manager : Value) (body : List Stmt) :
    ev.managedBy .shared manager body = ev.managed manager body := by
  unfold managedBy managed leaveContext
  congr
  funext result
  cases result
  all_goals
    simp only [Run.deciding_shared, bind_assoc]
    congr
    funext exit
    cases exit with
    | none => rfl
    | some exit =>
      simp only [bind_assoc]
      congr
      funext args
      congr
      funext v
      congr
      funext suppress
      cases suppress <;> rfl

theorem execWithBy_shared (context : Expr) (target : Option Expr) (body : List Stmt) :
    ev.execWithBy .shared context target body = ev.execWith context target body := by
  unfold execWithBy execWith
  simp only [managedBy_shared]

theorem recoverBy_shared (e : RuntimeError) (handlers : List Handler) :
    ev.recoverBy .shared e handlers = ev.recover e handlers := by
  unfold recoverBy recover
  rw [Run.deciding_shared, bind_assoc]
  congr
  funext found
  cases found with
  | none => rfl
  | some handler => rfl

theorem execTryBy_shared (body : List Stmt) (handlers : List Handler) (finalBody : List Stmt) :
    ev.execTryBy .shared body handlers finalBody = ev.execTry body handlers finalBody := by
  refine congrArg (Run.attempt (ev.block body) >>= ·) (funext fun result => ?_)
  cases result with
  | ok flow => rfl
  | error e => exact congrArg (· >>= (ev.finish · finalBody)) (ev.recoverBy_shared e handlers)

theorem exec_shared : Marking.shared.exec = execStmt := by
  funext ev s
  cases s with
  | withBlock => exact ev.execWithBy_shared ..
  | tryBlock => exact ev.execTryBy_shared ..
  | _ => rfl

end Evaluator

end BlockScript
