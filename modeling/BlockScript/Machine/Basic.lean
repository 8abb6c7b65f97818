import BlockScript.Halt
import BlockScript.Machine.Heap

/-! The state of a running program, and computations on it. -/

namespace BlockScript

/-! ## The scope stack: where a name that is not bound around it is looked for -/

inductive ScopeEntry where
  /-- The target of a closure, or the context of the whole script. -/
  | object (v : Value)
  | locals (frame : FrameRef)
  deriving Inhabited

/-- Layers, innermost first. -/
structure ScopeStack where
  entries : List ScopeEntry := []
  deriving Inhabited

/-- Remembers how deep the stack was before a push. -/
structure ScopeGuard where
  depth : Nat
  deriving DecidableEq, Repr, Inhabited

namespace ScopeStack

def depth (s : ScopeStack) : Nat := s.entries.length

/-- Add an innermost layer. -/
def push (s : ScopeStack) (e : ScopeEntry) : ScopeGuard × ScopeStack :=
  (⟨s.depth⟩, ⟨e :: s.entries⟩)

/-- Remove the layers pushed since the guard was made. -/
def drop (s : ScopeStack) (g : ScopeGuard) : ScopeStack := ⟨s.entries.drop (s.depth - g.depth)⟩

/-- The innermost object. -/
def top? (s : ScopeStack) : Option Value :=
  s.entries.findSome? fun
    | .object v => some v
    | .locals _ => none

/-- The types of the layers, innermost first. -/
def summary (s : ScopeStack) : List String :=
  s.entries.map fun
    | .object v => v.typeName
    | .locals _ => "<locals>"

end ScopeStack

/-! ## The state -/

structure Activation where
  env : Env
  /-- The object to which a closure writes names that it does not know. -/
  delegate : Option Value := none
  deriving Inhabited

structure Machine where
  heap : Heap := {}
  builtins : Attrs := .empty
  globals : FrameRef := ⟨0, .module⟩
  /-- The active calls, innermost first. -/
  frames : List Activation := []
  scopes : ScopeStack := {}
  modules : Attrs := .empty
  /-- What has been printed, last text first. -/
  output : List String := []
  /-- What the active generators have yielded, innermost first, last value first. -/
  yields : List (List Value) := []
  /-- The errors whose handlers are running, innermost first. -/
  handling : List RuntimeError := []
  depth : Nat := 0
  /-- The line of the innermost statement that the last error came from. -/
  errorLine : Option Nat := none
  deriving Inhabited

abbrev Run := EStateM (Halt RuntimeError) Machine

abbrev Run.Result := EStateM.Result (Halt RuntimeError) Machine

namespace Machine

def env (m : Machine) : Env := (m.frames.headD { env := [m.globals] }).env

/-- The object to which the running closure writes names that it does not know. -/
def delegate? (m : Machine) : Option Value := m.frames.head?.bind (·.delegate)

def frame (m : Machine) : FrameRef := m.env.headD m.globals

def printed (m : Machine) : String := String.join m.output.reverse

def setGlobal (m : Machine) (name : String) (v : Value) : Machine :=
  { m with heap := m.heap.setVar m.globals name v }

def global? (m : Machine) (name : String) : Option Value := m.heap.var? m.globals name

end Machine

namespace Run

variable {α : Type}

def fail (e : RuntimeError) : Run α := throw (.error e)

def typeError (fault : TypeFault) : Run α := fail (.type fault)

def valueError (fault : ValueFault) : Run α := fail (.value fault)

def ofExcept : Except RuntimeError α → Run α
  | .ok a => return a
  | .error e => fail e

/-- A result that there is unless a number is too large. -/
def orExhausted : Option α → Run α
  | some a => return a
  | none => throw .exhausted

/-- The result, or the error in which the action ends. -/
def attempt (p : Run α) : Run (Except RuntimeError α) := fun m =>
  match p m with
  | .ok a m => .ok (.ok a) m
  | .error (.error e) m => .ok (.error e) m
  | .error .exhausted m => .error .exhausted m

/-- Change the machine at the end of an action, however it ends. -/
def ensuring (p : Run α) (after : Machine → Machine) : Run α := fun m =>
  match p m with
  | .ok a m => .ok a (after m)
  | .error e m => .error e (after m)

def heap : Run Heap := return (← get).heap

def modifyHeap (f : Heap → Heap) : Run Unit := modify fun m => { m with heap := f m.heap }

def alloc (f : Heap → α × Heap) : Run α := fun m =>
  let (a, h) := f m.heap
  .ok a { m with heap := h }

/-- A number that no value has as its identity. -/
def fresh : Run Nat := alloc fun h => (h.fresh, { h with fresh := h.fresh + 1 })

def newList (items : List Value) : Run Value := return .list (← alloc (·.newList items))

def newTuple (items : List Value) : Run Value := return .tuple (← fresh) items

def newDict (d : Dict) : Run Value := return .dict (← alloc (·.newDict d))

def newSpace (attrs : Attrs) : Run Value := return .space (← alloc (·.newSpace attrs))

def keyValues (keys : List Key) : Run (List Value) := alloc fun h =>
  let (values, next) := Key.toValues h.fresh keys
  (values, { h with fresh := next })

def key (v : Value) : Run Key :=
  match Key.ofValue v with
  | .ok k => return k
  | .error t => typeError (.unhashable t)

def print (text : String) : Run Unit := modify fun m => { m with output := text :: m.output }

def withFrame (call : Activation) (p : Run α) : Run α := do
  modify fun m => { m with frames := call :: m.frames }
  ensuring p fun m => { m with frames := m.frames.tail }

/-- Run an action under one more layer of the scope stack. -/
def withScope (e : ScopeEntry) (p : Run α) : Run α := fun m =>
  let (guard, scopes) := m.scopes.push e
  ensuring p (fun m => { m with scopes := m.scopes.drop guard }) { m with scopes }

end Run

end BlockScript
