import BlockScript.Proofs.Blocks
import BlockScript.Proofs.Children

/-! Programs without the places where their nodes start. Two programs are the same up to spans if
they are equal after their spans are erased. -/

namespace BlockScript.Program

open List

def Expr.withSpan (span : Span) : Expr → Expr
  | .constant _ value => .constant span value
  | .fstring _ parts => .fstring span parts
  | .name _ id => .name span id
  | .list _ items => .list span items
  | .tuple _ items => .tuple span items
  | .dict _ entries => .dict span entries
  | .comprehension _ element clauses => .comprehension span element clauses
  | .attribute _ object field => .attribute span object field
  | .subscript _ object index => .subscript span object index
  | .slice _ lower upper step => .slice span lower upper step
  | .call _ callee args => .call span callee args
  | .unary _ op operand => .unary span op operand
  | .binary _ op left right => .binary span op left right
  | .compare _ first rest => .compare span first rest
  | .logical _ op left right => .logical span op left right
  | .ternary _ test body orelse => .ternary span test body orelse

def Handler.withSpan (span : Span) : Handler → Handler
  | .mk _ kind name body => .mk span kind name body

/-- The statement with this span, also at its handlers, which are no statements of their own. -/
def Stmt.withSpan (span : Span) : Stmt → Stmt
  | .expr _ e => .expr span e
  | .assign _ targets value => .assign span targets value
  | .augAssign _ target op value => .augAssign span target op value
  | .pass _ => .pass span
  | .breakLoop _ => .breakLoop span
  | .continueLoop _ => .continueLoop span
  | .returns _ value => .returns span value
  | .asserts _ test message => .asserts span test message
  | .raises _ value => .raises span value
  | .yields _ value => .yields span value
  | .yieldsFrom _ source => .yieldsFrom span source
  | .imports _ names => .imports span names
  | .importsFrom _ module names => .importsFrom span module names
  | .globals _ names => .globals span names
  | .nonlocals _ names => .nonlocals span names
  | .ifElse _ test body orelse => .ifElse span test body orelse
  | .whileLoop _ test body => .whileLoop span test body
  | .forLoop _ target source body => .forLoop span target source body
  | .withBlock _ context target body => .withBlock span context target body
  | .tryBlock _ body handlers finalBody =>
    .tryBlock span body (handlers.map (Handler.withSpan span)) finalBody
  | .functionDef _ name params body decorators => .functionDef span name params body decorators
  | .classDef _ name bases body decorators => .classDef span name bases body decorators

/-- The change of each expression, from the inside out, by `f`, with the default span. -/
def unplaced (f : Expr → Expr) : Change Unit := ⟨fun _ _ => (), fun _ e => (f e).withSpan default⟩

/-- The statement with the default span at each statement, and `f` done to each expression in
them. -/
def Stmt.unplace (f : Expr → Expr) (s : Stmt) : Stmt :=
  s.changeWith fun t => (t.mapExprs f).withSpan default

/-- The expression with the same span, the default one, at each node. -/
def Expr.eraseSpans (e : Expr) : Expr := e.change (unplaced id) ()

def eraseSpansParts (parts : List FStringPart) : List FStringPart :=
  changeParts (unplaced id) () parts

def Module.eraseSpans (m : Module) : Module := m.map (Stmt.unplace Expr.eraseSpans)

/-! ## Views: what is compared of two programs -/

/-- A view of programs. -/
class View where
  /-- Whether the values of literals are seen. -/
  literals : Bool

variable [View]

def Constant.viewed (value : Constant) : Expr :=
  .constant default (if View.literals then value else .none)

/-- Whether this is a call of `float` with a constant, as which a number without digits is
written. -/
def isNumberCall : Expr → List Arg → Bool
  | .name _ "float", [.positional (.constant ..)] => true
  | _, _ => false

/-- What is seen of an expression if this is seen of its parts: where literals are not seen, those
that are written as one look alike. -/
def Expr.seen : Expr → Expr
  | .constant s value => .constant s (if View.literals then value else .none)
  | .fstring s parts => if View.literals then .fstring s parts else .constant s .none
  | .call s callee args =>
    if View.literals || !isNumberCall callee args then .call s callee args else .constant s .none
  | e => e

def Expr.viewed (e : Expr) : Expr := e.change (unplaced Expr.seen) ()

def FStringPart.viewed : FStringPart → FStringPart
  | .text s => .text s
  | .field value conversion spec => .field value.viewed conversion spec

def Entry.viewed : Entry → Entry
  | .mk key value => .mk key.viewed value.viewed

def Clause.viewed : Clause → Clause
  | .mk target source conditions => .mk target.viewed source.viewed (conditions.map Expr.viewed)

def Arg.viewed : Arg → Arg
  | .positional e => .positional e.viewed
  | .starred e => .starred e.viewed
  | .keyword name e => .keyword name e.viewed
  | .doubleStarred e => .doubleStarred e.viewed

def Comparison.viewed : Comparison → Comparison
  | .mk op right => .mk op right.viewed

attribute [simp] Entry.viewed.eq_1 Clause.viewed.eq_1 Arg.viewed.eq_1 Arg.viewed.eq_2
  Arg.viewed.eq_3
  Arg.viewed.eq_4 Comparison.viewed.eq_1

theorem changeAll_seen (es : List Expr) : changeAll (unplaced Expr.seen) () es =
    es.map Expr.viewed :=
  changeAll_eq_map ..

theorem changeParts_seen (ps : List FStringPart) :
    changeParts (unplaced Expr.seen) () ps = ps.map FStringPart.viewed := by
  induction ps with
  | nil => rfl
  | cons p ps ih => cases p <;> exact congrArg (_ :: ·) ih

theorem changeEntries_seen (es : List Entry) :
    changeEntries (unplaced Expr.seen) () es = es.map Entry.viewed := by
  induction es with
  | nil => rfl
  | cons e es ih => cases e; exact congrArg (_ :: ·) ih

theorem changeClauses_seen (cs : List Clause) :
    changeClauses (unplaced Expr.seen) () cs = cs.map Clause.viewed := by
  induction cs with
  | nil => rfl
  | cons c cs ih =>
    cases c
    rw [changeClauses, changeAll_seen, ih]
    rfl

theorem changeArgs_seen (as : List Arg) : changeArgs (unplaced Expr.seen) () as =
    as.map Arg.viewed := by
  induction as with
  | nil => rfl
  | cons a as ih => cases a <;> exact congrArg (_ :: ·) ih

theorem changeComparisons_seen (cs : List Comparison) :
    changeComparisons (unplaced Expr.seen) () cs = cs.map Comparison.viewed := by
  induction cs with
  | nil => rfl
  | cons c cs ih => cases c; exact congrArg (_ :: ·) ih

theorem changeOption_seen (e : Option Expr) : changeOption (unplaced Expr.seen) () e =
    e.map Expr.viewed := by
  cases e <;> rfl

namespace Expr

/-- What is seen of an expression, from what is seen of its parts. -/
@[simp] theorem viewed_eq (s : Span) :
    (∀ value, (constant s value).viewed = value.viewed) ∧
    (∀ parts, (fstring s parts).viewed =
      if View.literals then .fstring default (parts.map FStringPart.viewed)
        else .constant default .none) ∧
    (∀ id, (name s id).viewed = .name default id) ∧
    (∀ items, (list s items).viewed = .list default (items.map viewed)) ∧
    (∀ items, (tuple s items).viewed = .tuple default (items.map viewed)) ∧
    (∀ entries, (dict s entries).viewed = .dict default (entries.map Entry.viewed)) ∧
    (∀ e clauses, (comprehension s e clauses).viewed =
      .comprehension default e.viewed (clauses.map Clause.viewed)) ∧
    (∀ e name, (.attribute s e name : Expr).viewed = .attribute default e.viewed name) ∧
    (∀ e index, (subscript s e index).viewed = .subscript default e.viewed index.viewed) ∧
    (∀ lower upper step, (slice s lower upper step).viewed =
      .slice default (lower.map viewed) (upper.map viewed) (step.map viewed)) ∧
    (∀ e args, (call s e args).viewed =
      if View.literals || !isNumberCall e.viewed (args.map Arg.viewed) then
        .call default e.viewed (args.map Arg.viewed)
      else .constant default .none) ∧
    (∀ op e, (unary s op e).viewed = .unary default op e.viewed) ∧
    (∀ op left right, (binary s op left right).viewed =
      .binary default op left.viewed right.viewed) ∧
    (∀ e rest, (compare s e rest).viewed = .compare default e.viewed (rest.map Comparison.viewed)) ∧
    (∀ op left right, (logical s op left right).viewed =
      .logical default op left.viewed right.viewed) ∧
    ∀ test body orelse, (ternary s test body orelse).viewed =
      .ternary default test.viewed body.viewed orelse.viewed := by
  simp only [← changeParts_seen, ← changeEntries_seen, ← changeClauses_seen, ← changeArgs_seen,
    ← changeComparisons_seen, ← changeOption_seen, ← changeAll_seen]
  and_intros <;> intros <;> first | rfl | exact apply_ite (withSpan default) ..

mutual

theorem isAssignable_viewed (e : Expr) : e.viewed.isAssignable = e.isAssignable := by
  cases e with
  | tuple s items | list s items => simp only [viewed_eq, isAssignable, areAssignable_viewed items]
  | call s callee args | fstring s parts =>
    simp only [viewed_eq]
    split <;> rfl
  | _ => rfl

theorem areAssignable_viewed (es : List Expr) :
    areAssignable (es.map viewed) = areAssignable es := by
  cases es with
  | nil => rfl
  | cons e es =>
    rw [map_cons, areAssignable, areAssignable, isAssignable_viewed e, areAssignable_viewed es]

end

end Expr

def Params.viewed (p : Params) : Params := p.mapDefaults Expr.viewed

def Stmt.viewed (s : Stmt) : Stmt := s.unplace Expr.viewed

def Handler.viewed : Handler → Handler
  | .mk _ kind name body => .mk default (kind.map Expr.viewed) name (body.map Stmt.viewed)

attribute [simp] Handler.viewed.eq_1

def Module.viewed (m : Module) : Module := m.map Stmt.viewed

theorem changeBlock_viewed (ss : List Stmt) :
    changeBlock (fun t => (t.mapExprs Expr.viewed).withSpan default) ss = ss.map Stmt.viewed :=
  Stmt.changeBlock_eq_map ..

theorem changeHandlers_viewed (hs : List Handler) :
    ((changeHandlers (fun t => (t.mapExprs Expr.viewed).withSpan default) hs).map
      (Handler.mapKind Expr.viewed)).map (Handler.withSpan default) = hs.map Handler.viewed := by
  induction hs with
  | nil => rfl
  | cons h hs ih =>
    cases h
    rw [map_cons, ← ih, Handler.viewed, ← changeBlock_viewed]
    rfl

@[simp] theorem Stmt.viewed_eq (s : Span) :
    (∀ e, (expr s e).viewed = .expr default e.viewed) ∧
    (∀ targets e, (assign s targets e).viewed =
      .assign default (targets.map Expr.viewed) e.viewed) ∧
    (∀ target op e, (augAssign s target op e).viewed =
      .augAssign default target.viewed op e.viewed) ∧
    (pass s).viewed = .pass default ∧
    (breakLoop s).viewed = .breakLoop default ∧
    (continueLoop s).viewed = .continueLoop default ∧
    (∀ e, (returns s e).viewed = .returns default (e.map Expr.viewed)) ∧
    (∀ e message, (asserts s e message).viewed = .asserts default e.viewed
      (message.map Expr.viewed)) ∧
    (∀ e, (raises s e).viewed = .raises default (e.map Expr.viewed)) ∧
    (∀ e, (yields s e).viewed = .yields default (e.map Expr.viewed)) ∧
    (∀ e, (yieldsFrom s e).viewed = .yieldsFrom default e.viewed) ∧
    (∀ names, (imports s names).viewed = .imports default names) ∧
    (∀ module names, (importsFrom s module names).viewed = .importsFrom default module names) ∧
    (∀ names, (globals s names).viewed = .globals default names) ∧
    (∀ names, (nonlocals s names).viewed = .nonlocals default names) ∧
    (∀ e body orelse, (ifElse s e body orelse).viewed =
      .ifElse default e.viewed (body.map viewed) (orelse.map viewed)) ∧
    (∀ e body, (whileLoop s e body).viewed = .whileLoop default e.viewed (body.map viewed)) ∧
    (∀ target e body, (forLoop s target e body).viewed =
      .forLoop default target.viewed e.viewed (body.map viewed)) ∧
    (∀ e target body, (withBlock s e target body).viewed =
      .withBlock default e.viewed (target.map Expr.viewed) (body.map viewed)) ∧
    (∀ body handlers finalBody, (tryBlock s body handlers finalBody).viewed =
      .tryBlock default (body.map viewed) (handlers.map Handler.viewed) (finalBody.map viewed)) ∧
    (∀ name params body decorators, (functionDef s name params body decorators).viewed =
      .functionDef default name params.viewed (body.map viewed) (decorators.map Expr.viewed)) ∧
    ∀ name bases body decorators, (classDef s name bases body decorators).viewed =
      .classDef default name (bases.map Expr.viewed) (body.map viewed)
        (decorators.map Expr.viewed) := by
  simp only [← changeBlock_viewed, ← changeHandlers_viewed]
  and_intros <;> intros <;> rfl

/-! ## The view of all but the places -/

section

variable (hall : View.literals = true)

include hall

theorem Expr.seen_eq_id : Expr.seen = id := by
  funext e
  cases e <;> simp [seen, hall]

theorem Expr.viewed_of_literals : Expr.viewed = Expr.eraseSpans := by
  funext e
  rw [viewed, seen_eq_id hall, eraseSpans]

theorem Module.viewed_of_literals (m : Module) : m.viewed = m.eraseSpans :=
  map_congr_left fun s _ => by rw [Stmt.viewed, Expr.viewed_of_literals hall]

end

end BlockScript.Program
