import BlockScript.Proofs.Balance
import BlockScript.Proofs.Alike.Interpreter
import BlockScript.Proofs.Alike.Start

/-! The machines in which code runs, and what a closure can rely on there: the object it writes to
is the innermost one of the scope stack. In runs that start with a new machine, all that a machine
refers to is there: it is alike to itself. So the frames around the running one are others than
that. -/

namespace BlockScript

open Program

namespace Machine

/-- The same calls are active, under further layers of the scope stack: where a call begins that
code, or an object of the application that code has called, makes. -/
structure Calls (m m' : Machine) : Prop where
  frames : m'.frames = m.frames
  layers : m.scopes.entries <:+ m'.scopes.entries

def under (m : Machine) (e : ScopeEntry) : Machine := { m with scopes := (m.scopes.push e).2 }

def enter (m : Machine) (kind : FrameKind) (vars : Attrs) (outer : Env) (delegate : Option Value) :
    Machine :=
  let (frame, heap) := m.heap.newFrame kind { vars }
  { m with heap, frames := { env := frame :: outer, delegate } :: m.frames }

def enterCall (m : Machine) (f : Function) (vars : Attrs) (kind : FrameKind)
    (delegate : Option Value) : Machine :=
  { m.enter kind vars f.env delegate with depth := m.depth + 1 }

/-- The machines in which code runs. -/
inductive Reachable : Machine → Prop
  /-- In the module, whatever has run before and whatever layers there are. -/
  | module {m : Machine} : m.frames = [{ env := [m.globals] }] → Reachable m
  /-- After an operation, whether it gave a result or an error. The operations of the interpreter
  are balanced. -/
  | after {m m' : Machine} : Reachable m → m.Restores m' → Reachable m'
  | handler {m : Machine} (e : RuntimeError) :
    Reachable m → Reachable { m with handling := e :: m.handling }
  | classBody {m : Machine} : Reachable m → Reachable (m.enter .classBody .empty m.env none)
  | function {m m₁ m₂ : Machine} {f : Function} {args : Args} {vars : Attrs} :
    Reachable m → m.Calls m₁ → f.bindParams args m₁ = .ok vars m₂ →
    Reachable (m₂.enterCall f vars .function none)
  | closureOn {m m₁ m₂ : Machine} {f : Function} {args : Args} {vars : Attrs} (target : Value) :
    Reachable m → m.Calls m₁ → f.bindParams args (m₁.under (.object target)) = .ok vars m₂ →
    Reachable (m₂.enterCall f vars .closure (some target))
  | closure {m m₁ m₂ : Machine} {f : Function} {args : Args} {vars : Attrs} :
    Reachable m → m.Calls m₁ →
    f.bindParams (args.cons (m₁.scopes.top?.getD .none)) m₁ = .ok vars m₂ →
    Reachable (m₂.enterCall f vars .closure (some (m₁.scopes.top?.getD .none)))

/-- A delegate is the innermost object, or there is none. -/
theorem Reachable.delegate {m : Machine} (hm : m.Reachable) {d : Value}
    (hd : m.delegate? = some d) (hnone : d.isNone = false) : m.scopes.top? = some d := by
  induction hm with
  | module hframes =>
    rw [delegate?, hframes] at hd
    cases hd
  | after _ hb ih =>
    rw [delegate?, hb.frames] at hd
    rw [hb.scopes]
    exact ih hd
  | handler e _ ih => exact ih hd
  | classBody _ _ => cases hd
  | function _ _ _ _ => cases hd
  | @closureOn m m1 m2 f args vars target _ _ hbind _ =>
    cases hd
    have hscopes := (Run.Balanced.ok False hbind).scopes
    change m2.scopes.top? = _
    rw [hscopes]
    rfl
  | @closure m m1 m2 f args vars _ _ hbind _ =>
    cases hd
    have hscopes := (Run.Balanced.ok False hbind).scopes
    change m2.scopes.top? = _
    rw [hscopes]
    cases htop : m1.scopes.top? with
    | none =>
      rw [htop] at hnone
      cases hnone
    | some d => rfl

end Machine

/-! ## Code -/

namespace Program

theorem Stmt.allowedBy_any (s : Stmt) : s.AllowedBy {} where
  kept := rfl
  exprs _ _ _ _ _ h := by cases h
  declares _ _ _ h := by cases h

mutual

theorem Stmt.alike_self : ∀ s : Stmt, s.Alike {} s
  | .ifElse _ _ body orelse =>
    .ifElse (Stmt.allowedBy_any _) (Stmt.allAlike_self body) (Stmt.allAlike_self orelse)
  | .whileLoop _ _ body => .whileLoop (Stmt.allowedBy_any _) (Stmt.allAlike_self body)
  | .forLoop _ _ _ body => .forLoop (Stmt.allowedBy_any _) (Stmt.allAlike_self body)
  | .withBlock _ _ _ body => .withBlock (Stmt.allowedBy_any _) (Stmt.allAlike_self body)
  | .tryBlock _ body handlers finalBody =>
    .tryBlock (Stmt.allowedBy_any _) (Stmt.allAlike_self body) (Handler.allAlike_self handlers)
      (Stmt.allAlike_self finalBody)
  | .functionDef _ _ _ body _ => .functionDef (Stmt.allowedBy_any _) (Stmt.allAlike_self body)
  | .classDef _ _ _ body _ => .classDef (Stmt.allowedBy_any _) (Stmt.allAlike_self body)
  | .expr .. | .assign .. | .augAssign .. | .pass .. | .breakLoop .. | .continueLoop ..
  | .returns .. | .asserts .. | .raises .. | .yields .. | .yieldsFrom .. | .imports ..
  | .importsFrom .. | .globals .. | .nonlocals .. => .plain rfl (Stmt.allowedBy_any _)

theorem Stmt.allAlike_self : ∀ ss : List Stmt, Stmt.AllAlike {} ss ss
  | [] => .nil
  | s :: ss => .cons (Stmt.alike_self s) (Stmt.allAlike_self ss)

theorem Handler.allAlike_self : ∀ hs : List Handler, Handler.AllAlike {} hs hs
  | [] => .nil
  | .mk _ _ _ body :: hs => .cons (Stmt.allAlike_self body) (Handler.allAlike_self hs)

end

end Program

/-! ## Machines -/

/-- All that the machine refers to has been made, as the world says. -/
def Machine.IsIn (m : Machine) (w : World) : Prop := m.Alike {} w m

namespace Machine

/-- The machines in which code runs, from a new machine on. Where code is called, the machine may be
in the middle of an operation, with further layers of the scope stack. -/
inductive Live : Machine → Prop
  | new : Live .new
  /-- After an operation, with a result or an error. What the operation refers to is there. -/
  | after {w : World} {m : Machine} {α : Type} {p : Run α} {Q : World → α → α → Prop} :
    Live m → m.IsIn w → Run.Alike {} w Q p p → m.Restores (p.after m) → Run.isCut (p m) = false →
    Live (p.after m)
  /-- The application puts a layer on the scope stack, or takes layers away. -/
  | layer {w : World} {m : Machine} {scopes : ScopeStack} :
    Live m → m.frames = [{ env := [m.globals] }] → m.IsIn w →
    List.Forall₂ (ScopeEntry.Alike {} w) scopes.entries scopes.entries → Live { m with scopes }
  | handler {w : World} {m : Machine} {e : RuntimeError} :
    Live m → m.IsIn w → e.Alike {} w e → Live { m with handling := e :: m.handling }
  | classBody {m : Machine} : Live m → Live (m.enter .classBody .empty m.env none)
  | function {w : World} {m m₁ m₂ : Machine} {f : Function} {args : Args} {vars : Attrs} :
    Live m → m.Calls m₁ → m₁.IsIn w → f.Alike {} w f → args.Alike {} w args →
    f.bindParams args m₁ = .ok vars m₂ → Live (m₂.enterCall f vars .function none)
  | closureOn {w : World} {m m₁ m₂ : Machine} {f : Function} {args : Args} {vars : Attrs}
      {target : Value} :
    Live m → m.Calls m₁ → m₁.IsIn w → f.Alike {} w f → args.Alike {} w args →
    target.Alike {} w target → f.bindParams args (m₁.under (.object target)) = .ok vars m₂ →
    Live (m₂.enterCall f vars .closure (some target))
  | closure {w : World} {m m₁ m₂ : Machine} {f : Function} {args : Args} {vars : Attrs} :
    Live m → m.Calls m₁ → m₁.IsIn w → f.Alike {} w f → args.Alike {} w args →
    f.bindParams (args.cons (m₁.scopes.top?.getD .none)) m₁ = .ok vars m₂ →
    Live (m₂.enterCall f vars .closure (some (m₁.scopes.top?.getD .none)))

variable {w : World} {m : Machine} {delegate : Option Value} {vars : Attrs}

theorem Live.reachable (hm : m.Live) : m.Reachable := by
  induction hm with
  | new => exact .module rfl
  | after _ _ _ hp _ ih => exact .after ih hp
  | layer _ hframes => exact .module hframes
  | handler _ _ _ ih => exact .handler _ ih
  | classBody _ ih => exact .classBody ih
  | function _ hcalls _ _ _ hbind ih => exact .function ih hcalls hbind
  | closureOn _ hcalls _ _ _ _ hbind ih => exact .closureOn _ ih hcalls hbind
  | closure _ hcalls _ _ _ hbind ih => exact .closure ih hcalls hbind

/-! ## What is there -/

/-- A run that does alike things from a machine that has all it refers to leaves such a machine. -/
theorem IsIn.after (hm : m.IsIn w) {α : Type} {p : Run α} {Q : World → α → α → Prop}
    (hp : Run.Alike {} w Q p p) (hcut : Run.isCut (p m) = false) :
    ∃ w', w ≤ w' ∧ (p.after m).IsIn w' := by
  have hend := hp m m hm
  unfold Run.after
  generalize p m = r at hend hcut
  cases hend with
  | ok hw hm _ => exact ⟨_, hw, hm⟩
  | error hw hm _ => exact ⟨_, hw, hm⟩
  | cut => cases hcut
  | firstCut h | secondCut h => exact h.elim

theorem IsIn.enter (hm : m.IsIn w) (kind : FrameKind) (hvars : VarsAlike {} w vars vars)
    {outer : Env} (houter : w.HasEnv outer) (hd : Option.Rel (Value.Alike {} w) delegate delegate) :
    (m.enter kind vars outer delegate).IsIn (w.addFrame kind) := by
  have hle := w.le_addFrame kind
  have hframe : Frame.Alike {} w False { vars } { vars } := ⟨hvars, rfl, rfl⟩
  have henter := hm.withHeap hle (hm.heap.newFrame kind hframe)
  refine { henter with frames := .cons ⟨rfl, ?_, ?_⟩ henter.frames }
  · change (w.addFrame kind).HasEnv (⟨m.heap.frames.size, kind⟩ :: outer)
    rw [hm.heap.frameCount]
    exact houter.addFrame kind
  · exact hd.imp fun _ _ => Value.Alike.mono hle

theorem IsIn.enterCall {m' : Machine} (hm : m.IsIn w) {f : Function} (hf : f.Alike {} w f)
    {args : Args}
    (hargs : args.Alike {} w args) (hbind : f.bindParams args m = .ok vars m') (kind : FrameKind)
    (hd : Option.Rel (Value.Alike {} w) delegate delegate) :
    ∃ w', (m'.enterCall f vars kind delegate).IsIn w' := by
  have hend := hf.bindParams (S := {}) hargs m m hm
  rw [hbind] at hend
  cases hend with
  | @ok w1 _ _ _ _ hw hm' hvars =>
    have henter := IsIn.enter hm' kind hvars ((hf.env (S := {})).mono hw)
      (hd.imp fun _ _ => Value.Alike.mono hw)
    exact ⟨_, { henter with depth_eq := rfl }⟩

theorem Live.exists_isIn (hm : m.Live) : ∃ w, m.IsIn w := by
  induction hm with
  | new => exact Machine.new_alike rfl
  | after _ hm hp _ hcut _ =>
    obtain ⟨w', -, hm'⟩ := hm.after hp hcut
    exact ⟨w', hm'⟩
  | layer _ _ hm hscopes _ => exact ⟨_, { hm with scopes := hscopes }⟩
  | handler _ hm he _ => exact ⟨_, { hm with handling := .cons he hm.handling }⟩
  | classBody _ ih =>
    obtain ⟨w, hm⟩ := ih
    exact ⟨_, IsIn.enter hm .classBody OrderedMap.AlikeBy.empty hm.env .none⟩
  | function _ _ hm hf hargs hbind _ => exact IsIn.enterCall hm hf hargs hbind .function .none
  | closureOn _ _ hm hf hargs htarget hbind _ =>
    have hunder : Machine.IsIn (Machine.under _ _) _ :=
      { hm with scopes := .cons (.object htarget) hm.scopes }
    exact IsIn.enterCall hunder hf hargs hbind .closure (.some htarget)
  | closure _ _ hm hf hargs hbind _ =>
    have htop := (scopes_top? (S := {}) hm.scopes).getD .none
    exact IsIn.enterCall hm hf (hargs.cons htop) hbind .closure (.some htop)

end Machine

end BlockScript
