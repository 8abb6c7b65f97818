import BlockScript.Proofs.Blocks
import BlockScript.Proofs.Children
import BlockScript.Proofs.RoundTrip.Tokens
import BlockScript.Proofs.RoundTrip.View

/-! Programs as the grammar allows them. The types of expressions and statements hold more than
what can be written: names that are no names, comparisons with nothing, blocks without statements.
A program is valid if no node of it is of such a shape. -/

namespace BlockScript.Program

open List

def IsName (id : String) : Prop := Token.IsWord id.toList ∧ isKeyword id = false

instance (id : String) : Decidable (IsName id) := inferInstanceAs (Decidable (_ ∧ _))

/-! ## Expressions -/

/-- Whether the text between the braces of an f-string is that of a field. -/
def FStringPart.isPrintedAs (raw : List Char) : FStringPart → Bool
  | .text _ => false
  | .field value _ _ =>
    (Literal.Field.ofText raw).value == (Print.expr Precedence.ternary value).toList

def Literal.Segment.isIn (parts : List FStringPart) : Segment → Bool
  | .text raw => (Literal.unescape raw).toBool
  | .field raw => parts.any (FStringPart.isPrintedAs raw)

def FStringPart.isText : FStringPart → Bool
  | .text _ => true
  | .field .. => false

/-- Whether a part is taken again from what is printed of it. A text is, unless it is empty. A field
is if its text holds no end of the string, no brace that opens it or closes the field, and nothing
that looks like another conversion or format. -/
def FStringPart.IsRecovered : FStringPart → Prop
  | .text s => s ≠ ""
  | .field value conversion spec =>
    let text := (Print.expr 1 value).toList
    let raw := text ++ (Print.fieldTail conversion spec).toList
    Token.closing? '"' false (raw ++ ['"']) = some (raw.length + 1) ∧ raw.head? ≠ some '{' ∧
      Literal.splitTop? '}' {} (raw ++ ['}']) = some (raw, []) ∧
      Literal.Field.ofText raw = ⟨text, conversion, spec⟩

/-- All parts are recovered, and no two texts are joined. -/
structure FStringPart.AllRecovered (parts : List FStringPart) : Prop where
  each : ∀ p ∈ parts, p.IsRecovered
  apart : parts.IsChain fun p q => p.isText = true → q.isText = false

def Arg.name? : Arg → Option String
  | .keyword name _ => some name
  | _ => none

variable {e : Expr}

namespace Expr

/-- The expression and all expressions in it. -/
def subexprs (e : Expr) : List Expr := e :: e.children.attach.flatMap fun x => subexprs x.1
termination_by sizeOf e
decreasing_by exact sizeOf_lt_of_mem_children x.2

theorem self_mem_subexprs (e : Expr) : e ∈ e.subexprs := by
  rw [subexprs]
  exact mem_cons_self

variable {x : Expr}

theorem mem_subexprs_of_child {y : Expr} (hx : x ∈ e.children) (hy : y ∈ x.subexprs) :
    y ∈ e.subexprs := by
  rw [subexprs]
  exact mem_cons_of_mem _ (mem_flatMap.2 ⟨⟨x, hx⟩, mem_attach .., hy⟩)

def bounds : Expr → List Expr
  | slice s lower upper step => (slice s lower upper step).children
  | e => [e]

/-- The expressions between the brackets of a subscript: slices have a place only there, alone or
in a row. -/
def indexOperands : Expr → List Expr
  | tuple _ items => items.flatMap bounds
  | e => e.bounds

/-- The children of an expression, with the bounds in place of slices. -/
def operands : Expr → List Expr
  | subscript _ object index => object :: index.indexOperands
  | e => e.children

/-- What an expression must be like apart from its operands. -/
def Shape : Expr → Prop
  | constant _ (.int i) => 0 ≤ i.toInt
  | name _ id | .attribute _ _ id => IsName id
  | comprehension _ _ clauses => clauses ≠ [] ∧ ∀ c ∈ clauses, c.target.isAssignable = true
  | call _ _ args => ∀ a ∈ args, ∀ n ∈ a.name?, IsName n
  | compare _ _ rest => rest ≠ []
  | fstring _ parts => Parse.plainText? parts = none
  | slice .. => False
  | _ => True

/-- An expression that can be written. -/
inductive Valid : Expr → Prop where
  | intro {e : Expr} (shape : e.Shape) (operands : ∀ x ∈ e.operands, Valid x) : Valid e

theorem Valid.leaf {e : Expr} (shape : e.Shape) (hoperands : e.operands = []) : Valid e :=
  .intro shape (hoperands ▸ forall_mem_nil _)

def isInteger : Expr → Bool
  | constant _ (.int _) => true
  | _ => false

/-- The expressions that are printed, but not read back: an f-string and a float are written as
another text, the point after an integer is read as part of it, and a slice has no place in
parentheses. -/
def isLost : Expr → Bool
  | fstring .. | constant _ (.float _) | .attribute _ (constant _ (.int _)) _
  | subscript _ _ (tuple _ [slice ..]) => true
  | _ => false

/-- Whether the printed text of an f-string is one literal and is taken apart into texts and its own
fields. -/
def splitsBack (parts : List FStringPart) : Bool :=
  let body := (Print.fstringParts parts).toList
  Token.closing? '"' false (body ++ ['"']) == some (body.length + 1) && match Literal.segments
    [] body with
    | (segments, none) => segments.all (Literal.Segment.isIn parts)
    | (_, some _) => false

/-- The expressions whose text is not read as an expression of their form, whatever the values of
literals are. A negative number would be read as an operation. -/
def isMisprinted : Expr → Bool
  | name _ id => !decide (IsName id)
  | constant _ (.float f) => Number.isNegative f
  | fstring _ parts => !splitsBack parts
  | .attribute _ (constant _ (.int _)) _ | subscript _ _ (tuple _ [slice ..]) => true
  | _ => false

/-- The expressions that are read back with the values of their literals. -/
def IsRecovered : Expr → Prop
  | fstring _ parts => FStringPart.AllRecovered parts
  | constant _ (.float f) =>
    Number.isNegative f = false ∧ Literal.number (Number.literal f) = .ok (.float f)
  | e => e.isLost = false

theorem isRecovered_of_isLost (h : e.isLost = false) : e.IsRecovered := by
  unfold IsRecovered
  split
  · cases h
  · cases h
  · exact h

/-- The expressions that are read back in the view. -/
def IsRead [View] (e : Expr) : Prop :=
  if View.literals then e.IsRecovered else e.isMisprinted = false

/-- An expression of which all is read back. -/
def Kept [View] (e : Expr) : Prop := ∀ x ∈ e.subexprs, x.IsRead

variable [View]

theorem Kept.isRead (h : e.Kept) : e.IsRead := h e e.self_mem_subexprs

theorem Kept.child (h : e.Kept) (hx : x ∈ e.children) : x.Kept :=
  fun y hy => h y (mem_subexprs_of_child hx hy)

theorem Kept.bound (h : e.Kept) (hx : x ∈ e.bounds) : x.Kept := by
  cases e with
  | slice s lower upper step => exact h.child hx
  | _ => exact mem_singleton.1 hx ▸ h

theorem Kept.operand (h : e.Kept) (hx : x ∈ e.operands) : x.Kept := by
  cases e with
  | subscript s object index =>
    have hindex : index.Kept := h.child (mem_cons_of_mem _ mem_cons_self)
    rcases mem_cons.1 hx with rfl | hx
    · exact h.child mem_cons_self
    · cases index with
      | tuple s' items =>
        obtain ⟨item, hitem, hx⟩ := mem_flatMap.1 hx
        exact (hindex.child hitem).bound hx
      | _ => exact hindex.bound hx
  | _ => exact h.child hx

end Expr

/-! ## Statements -/

def IsDotted (name : String) : Prop :=
  ∃ first more, (∀ id ∈ first :: more, IsName id) ∧ name = ".".intercalate (first :: more)

/-- What is imported, of a name that satisfies `isName`. -/
structure Alias.Valid (isName : String → Prop) (a : Alias) : Prop where
  name : isName a.name
  rename : ∀ id ∈ a.rename, IsName id

/-- Parameters that can be written: a parameter after one with a default has a default too. -/
structure Params.Valid (p : Params) : Prop where
  names : ∀ id ∈ p.names, IsName id
  distinct : (p.args.map Param.name).Nodup
  defaults : p.args.Pairwise fun a b => a.default.isSome = true → b.default.isSome = true

/-- A handler that can be written, apart from the statements in it. -/
structure Handler.Shape (h : Handler) : Prop where
  body : h.body ≠ []
  kind : h.kind = none → h.name = none
  name : ∀ id ∈ h.name, IsName id

namespace Stmt

def isPlace : Expr → Bool
  | .name .. | .attribute .. | .subscript .. => true
  | _ => false

/-- What a statement must be like apart from its expressions and the statements in its blocks. -/
def Shape : Stmt → Prop
  | assign _ targets _ => targets ≠ [] ∧ ∀ t ∈ targets, t.isAssignable = true
  | augAssign _ target _ _ => isPlace target = true
  | imports _ names => names ≠ [] ∧ ∀ a ∈ names, a.Valid IsDotted
  | importsFrom _ module names => IsDotted module ∧ names ≠ [] ∧ ∀ a ∈ names, a.Valid IsName
  | globals _ names | nonlocals _ names => names ≠ [] ∧ ∀ id ∈ names, IsName id
  | ifElse _ _ body _ | whileLoop _ _ body => body ≠ []
  | forLoop _ target _ body => target.isAssignable = true ∧ body ≠ []
  | withBlock _ _ target body => (∀ t ∈ target, t.isAssignable = true) ∧ body ≠ []
  | tryBlock _ body handlers finalBody =>
    body ≠ [] ∧ (handlers ≠ [] ∨ finalBody ≠ []) ∧ ∀ h ∈ handlers, h.Shape
  | functionDef _ name params body _ => IsName name ∧ params.Valid ∧ body ≠ []
  | classDef _ name _ body _ => IsName name ∧ body ≠ []
  | _ => True

def nested : Stmt → List Stmt
  | ifElse _ _ body orelse => body ++ orelse
  | whileLoop _ _ body | forLoop _ _ _ body | withBlock _ _ _ body | functionDef _ _ _ body _
  | classDef _ _ _ body _ => body
  | tryBlock _ body handlers finalBody => body ++ (handlers.flatMap Handler.body ++ finalBody)
  | _ => []

theorem nested_eq (s : Stmt) : s.nested = s.blocks.flatten := by
  cases s <;> simp [nested, blocks, List.flatMap]

variable {s t : Stmt}

theorem sizeOf_lt_of_mem_nested (h : t ∈ s.nested) : sizeOf t < sizeOf s := by
  rw [nested_eq] at h
  obtain ⟨b, hb, ht⟩ := mem_flatten.1 h
  exact sizeOf_lt_of_mem_blocks hb ht

/-- A statement that can be written. -/
inductive Valid : Stmt → Prop where
  | intro {s : Stmt} (shape : s.Shape) (exprs : ∀ e ∈ s.exprs, e.Valid)
    (nested : ∀ t ∈ s.nested, Valid t) : Valid s

def subexprs (s : Stmt) : List Expr :=
  s.exprs.flatMap Expr.subexprs ++ s.nested.attach.flatMap fun t => subexprs t.1
termination_by sizeOf s
decreasing_by exact sizeOf_lt_of_mem_nested t.2

/-- A statement of which all is read back. -/
def Kept [View] (s : Stmt) : Prop := ∀ x ∈ s.subexprs, x.IsRead

variable [View]

theorem Kept.expr (h : s.Kept) (he : e ∈ s.exprs) : e.Kept := by
  intro x hx
  refine h x ?_
  rw [subexprs]
  exact mem_append_left _ (mem_flatMap.2 ⟨e, he, hx⟩)

theorem Kept.nested (h : s.Kept) (ht : t ∈ s.nested) : t.Kept := by
  intro x hx
  refine h x ?_
  rw [subexprs]
  exact mem_append_right _ (mem_flatMap.2 ⟨⟨t, ht⟩, mem_attach .., hx⟩)

end Stmt

def Module.subexprs (m : Module) : List Expr := m.flatMap Stmt.subexprs

end BlockScript.Program
