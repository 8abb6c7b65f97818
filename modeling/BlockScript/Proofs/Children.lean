import BlockScript.Program.Traverse

/-! The expressions that an expression is made of: the names in it are theirs, and a change of an
expression goes through them. -/

namespace BlockScript.Program

open List

def FStringPart.exprs : FStringPart → List Expr
  | .text _ => []
  | .field value _ _ => [value]

def Entry.exprs : Entry → List Expr
  | .mk key value => [key, value]

def Clause.exprs : Clause → List Expr
  | .mk target source conditions => target :: source :: conditions

def Arg.value : Arg → Expr
  | .positional e | .starred e | .keyword _ e | .doubleStarred e => e

def Comparison.right : Comparison → Expr
  | .mk _ right => right

namespace Expr

def children : Expr → List Expr
  | constant .. | name .. => []
  | fstring _ parts => parts.flatMap FStringPart.exprs
  | list _ items | tuple _ items => items
  | dict _ entries => entries.flatMap Entry.exprs
  | comprehension _ element clauses => element :: clauses.flatMap Clause.exprs
  | .attribute _ object _ => [object]
  | subscript _ object index => [object, index]
  | slice _ lower upper step => lower.toList ++ (upper.toList ++ step.toList)
  | call _ callee args => callee :: args.map Arg.value
  | unary _ _ operand => [operand]
  | binary _ _ left right | logical _ _ left right => [left, right]
  | compare _ first rest => first :: rest.map Comparison.right
  | ternary _ test body orelse => [test, body, orelse]

theorem sizeOf_lt_of_mem_children {e x : Expr} (h : x ∈ e.children) : sizeOf x < sizeOf e := by
  cases e with
  | constant s value | name s id => simp [children] at h
  | fstring s parts =>
    obtain ⟨p, hp, hx⟩ := mem_flatMap.1 h
    have := sizeOf_lt_of_mem hp
    cases p with
    | text t => simp [FStringPart.exprs] at hx
    | field value conversion spec =>
      simp only [FStringPart.exprs, mem_singleton] at hx
      simp only [hx, fstring.sizeOf_spec, FStringPart.field.sizeOf_spec] at this ⊢
      omega
  | list s items | tuple s items =>
    simp only [children] at h
    have := sizeOf_lt_of_mem h
    simp only [list.sizeOf_spec, tuple.sizeOf_spec]
    omega
  | dict s entries =>
    obtain ⟨⟨k, v⟩, hp, hx⟩ := mem_flatMap.1 h
    have := sizeOf_lt_of_mem hp
    simp only [Entry.exprs, mem_cons, not_mem_nil, or_false] at hx
    simp only [dict.sizeOf_spec, Entry.mk.sizeOf_spec] at this ⊢
    rcases hx with rfl | rfl <;> omega
  | comprehension s element clauses =>
    rcases mem_cons.1 h with rfl | h
    · simp only [comprehension.sizeOf_spec]
      omega
    · obtain ⟨⟨t, source, conditions⟩, hc, hx⟩ := mem_flatMap.1 h
      have := sizeOf_lt_of_mem hc
      simp only [Clause.exprs, mem_cons] at hx
      simp only [comprehension.sizeOf_spec, Clause.mk.sizeOf_spec] at this ⊢
      rcases hx with rfl | rfl | hx
      · omega
      · omega
      · have := sizeOf_lt_of_mem hx
        omega
  | slice s lower upper step =>
    simp only [children, mem_append, Option.mem_toList] at h
    rcases h with rfl | rfl | rfl <;>
      simp only [slice.sizeOf_spec, Option.some.sizeOf_spec] <;> omega
  | call s callee args =>
    rcases mem_cons.1 h with rfl | h
    · simp only [call.sizeOf_spec]
      omega
    · obtain ⟨a, ha, rfl⟩ := mem_map.1 h
      have := sizeOf_lt_of_mem ha
      cases a <;>
        simp only [Arg.value, call.sizeOf_spec, Arg.positional.sizeOf_spec,
          Arg.starred.sizeOf_spec, Arg.keyword.sizeOf_spec, Arg.doubleStarred.sizeOf_spec]
          at this ⊢ <;>
        omega
  | compare s first rest =>
    rcases mem_cons.1 h with rfl | h
    · simp only [compare.sizeOf_spec]
      omega
    · obtain ⟨⟨op, right⟩, hc, rfl⟩ := mem_map.1 h
      have := sizeOf_lt_of_mem hc
      simp only [Comparison.right, compare.sizeOf_spec, Comparison.mk.sizeOf_spec] at this ⊢
      omega
  | «attribute» | subscript | unary | binary | logical | ternary =>
    simp only [children, mem_cons, not_mem_nil, or_false] at h
    rcases h with rfl | rfl | rfl <;> simp <;> omega

end Expr

/-! ## Names -/

variable {id : String}

theorem mem_namesInAll {es : List Expr} : id ∈ namesInAll es ↔ ∃ e ∈ es, id ∈ e.names := by
  induction es with
  | nil => simp [namesInAll]
  | cons e es ih => simp [namesInAll, ih]

theorem mem_namesInOption {e : Option Expr} : id ∈ namesInOption e ↔ ∃ x ∈ e, id ∈ x.names := by
  cases e <;> simp [namesInOption]

theorem mem_namesInParts {parts : List FStringPart} :
    id ∈ namesInParts parts ↔ ∃ e ∈ parts.flatMap FStringPart.exprs, id ∈ e.names := by
  induction parts with
  | nil => simp [namesInParts]
  | cons part parts ih =>
    cases part <;> simp [namesInParts, FStringPart.names, FStringPart.exprs, ih]

theorem mem_namesInEntries {entries : List Entry} :
    id ∈ namesInEntries entries ↔ ∃ e ∈ entries.flatMap Entry.exprs, id ∈ e.names := by
  induction entries with
  | nil => simp [namesInEntries]
  | cons entry entries ih =>
    cases entry
    simp [namesInEntries, Entry.names, Entry.exprs, ih, or_and_right, exists_or]

theorem mem_namesInClauses {clauses : List Clause} :
    id ∈ namesInClauses clauses ↔ ∃ e ∈ clauses.flatMap Clause.exprs, id ∈ e.names := by
  induction clauses with
  | nil => simp [namesInClauses]
  | cons clause clauses ih =>
    cases clause
    simp [namesInClauses, Clause.names, Clause.exprs, ih, mem_namesInAll, or_and_right, exists_or]

theorem mem_namesInArgs {args : List Arg} :
    id ∈ namesInArgs args ↔ ∃ e ∈ args.map Arg.value, id ∈ e.names := by
  induction args with
  | nil => simp [namesInArgs]
  | cons arg args ih => cases arg <;> simp [namesInArgs, Arg.names, Arg.value, ih]

theorem mem_namesInComparisons {rest : List Comparison} :
    id ∈ namesInComparisons rest ↔ ∃ e ∈ rest.map Comparison.right, id ∈ e.names := by
  induction rest with
  | nil => simp [namesInComparisons]
  | cons comparison rest ih =>
    cases comparison
    simp [namesInComparisons, Comparison.names, Comparison.right, ih]

theorem Expr.name_or_ne (e : Expr) : (∃ s x, e = .name s x) ∨ ∀ s x, e ≠ .name s x := by
  cases e with
  | name s x => exact .inl ⟨s, x, rfl⟩
  | constant | fstring | list | tuple | dict | comprehension | «attribute» | subscript | slice
  | call | unary | binary | compare | logical | ternary => exact .inr nofun

/-- The names in an expression that is none itself are those in its children. -/
theorem Expr.mem_names_iff {e : Expr} (hname : ∀ s x, e ≠ .name s x) :
    id ∈ e.names ↔ ∃ x ∈ e.children, id ∈ x.names := by
  cases e with
  | name s x => exact absurd rfl (hname s x)
  | fstring s parts => exact mem_namesInParts
  | list s items | tuple s items => exact mem_namesInAll
  | dict s entries => exact mem_namesInEntries
  | comprehension s element clauses => simp [Expr.names, children, mem_namesInClauses]
  | call s callee args => simp [Expr.names, children, mem_namesInArgs]
  | compare s first rest => simp [Expr.names, children, mem_namesInComparisons]
  | slice s lower upper step =>
    simp [Expr.names, children, mem_namesInOption, or_and_right, exists_or]
  | ternary s test body orelse => simp [Expr.names, children, or_left_comm]
  | constant | «attribute» | subscript | unary | binary | logical => simp [Expr.names, children]

/-! ## The children of a changed expression -/

section

variable {σ : Type} (c : Change σ) (env : σ)

theorem changeAll_eq_map (es : List Expr) : changeAll c env es = es.map (·.change c env) := by
  induction es with
  | nil => rfl
  | cons e es ih => rw [changeAll, ih, map_cons]

theorem exprs_changeParts (parts : List FStringPart) :
    (changeParts c env parts).flatMap FStringPart.exprs =
      (parts.flatMap FStringPart.exprs).map (·.change c env) := by
  induction parts with
  | nil => rfl
  | cons part parts ih =>
    cases part <;> simp [changeParts, FStringPart.exprs, ih]

theorem exprs_changeEntries (entries : List Entry) :
    (changeEntries c env entries).flatMap Entry.exprs =
      (entries.flatMap Entry.exprs).map (·.change c env) := by
  induction entries with
  | nil => rfl
  | cons entry entries ih =>
    cases entry
    simp [changeEntries, Entry.exprs, ih]

theorem exprs_changeClauses (clauses : List Clause) :
    (changeClauses c env clauses).flatMap Clause.exprs =
      (clauses.flatMap Clause.exprs).map (·.change c env) := by
  induction clauses with
  | nil => rfl
  | cons clause clauses ih =>
    cases clause
    simp [changeClauses, Clause.exprs, changeAll_eq_map, ih]

theorem target_changeClauses (clauses : List Clause) :
    (changeClauses c env clauses).map Clause.target =
      (clauses.map Clause.target).map (·.change c env) := by
  induction clauses with
  | nil => rfl
  | cons clause clauses ih =>
    cases clause
    simp only [changeClauses, map_cons, Clause.target, ih]

theorem value_changeArgs (args : List Arg) :
    (changeArgs c env args).map Arg.value = (args.map Arg.value).map (·.change c env) := by
  induction args with
  | nil => rfl
  | cons arg args ih => cases arg <;> simp [changeArgs, Arg.value, ih]

theorem right_changeComparisons (rest : List Comparison) :
    (changeComparisons c env rest).map Comparison.right =
      (rest.map Comparison.right).map (·.change c env) := by
  induction rest with
  | nil => rfl
  | cons comparison rest ih =>
    cases comparison
    simp [changeComparisons, Comparison.right, ih]

variable {c : Change σ} {env : σ}

/-- The expression with its parts changed, before the last step. -/
def Expr.inside (c : Change σ) (env : σ) (e : Expr) : Expr :=
  let inner := c.enter env e
  match e with
  | .constant s value => .constant s value
  | .fstring s parts => .fstring s (changeParts c inner parts)
  | .name s id => .name s id
  | .list s items => .list s (changeAll c inner items)
  | .tuple s items => .tuple s (changeAll c inner items)
  | .dict s entries => .dict s (changeEntries c inner entries)
  | .comprehension s element clauses =>
    .comprehension s (element.change c inner) (changeClauses c inner clauses)
  | .attribute s object id => .attribute s (object.change c inner) id
  | .subscript s object index => .subscript s (object.change c inner) (index.change c inner)
  | .slice s lower upper step =>
    .slice s (changeOption c inner lower) (changeOption c inner upper) (changeOption c inner step)
  | .call s callee args => .call s (callee.change c inner) (changeArgs c inner args)
  | .unary s op operand => .unary s op (operand.change c inner)
  | .binary s op left right => .binary s op (left.change c inner) (right.change c inner)
  | .compare s first rest => .compare s (first.change c inner) (changeComparisons c inner rest)
  | .logical s op left right => .logical s op (left.change c inner) (right.change c inner)
  | .ternary s test body orelse =>
    .ternary s (test.change c inner) (body.change c inner) (orelse.change c inner)

namespace Expr

theorem change_eq (e : Expr) : e.change c env = c.leave env (e.inside c env) := by
  cases e <;> rfl

theorem children_inside (e : Expr) :
    (e.inside c env).children = e.children.map (·.change c (c.enter env e)) := by
  cases e with
  | fstring s parts => exact exprs_changeParts ..
  | list s items | tuple s items => exact changeAll_eq_map ..
  | dict s entries => exact exprs_changeEntries ..
  | comprehension s element clauses => exact congrArg (_ :: ·) (exprs_changeClauses ..)
  | call s callee args => exact congrArg (_ :: ·) (value_changeArgs ..)
  | compare s first rest => exact congrArg (_ :: ·) (right_changeComparisons ..)
  | slice s lower upper step => cases lower <;> cases upper <;> cases step <;> rfl
  | constant | name | «attribute» | subscript | unary | binary | logical | ternary => rfl

theorem map_eq_self {f : Expr → Expr} {es : List Expr} (h : ∀ x ∈ es, f x = x) : es.map f = es :=
  (map_congr_left h).trans (map_id' es)

/-- Where the children stay as they are, so does the expression up to the last step. -/
theorem inside_eq_self {e : Expr} (h : ∀ x ∈ e.children, x.change c (c.enter env e) = x) :
    e.inside c env = e := by
  simp only [inside]
  generalize c.enter env e = inner at h ⊢
  cases e with
  | constant | name => rfl
  | list s items | tuple s items =>
    rw [children] at h
    simp only [changeAll_eq_map, map_eq_self h]
  | fstring s parts =>
    refine congrArg (fstring s) ?_
    induction parts with
    | nil => rfl
    | cons part parts ih => cases part <;> simp_all [children, FStringPart.exprs, changeParts]
  | dict s entries =>
    refine congrArg (dict s) ?_
    induction entries with
    | nil => rfl
    | cons entry entries ih => cases entry; simp_all [children, Entry.exprs, changeEntries]
  | comprehension s element clauses =>
    rw [children, forall_mem_cons] at h
    obtain ⟨helement, h⟩ := h
    simp only [helement]
    refine congrArg (comprehension s element) ?_
    induction clauses with
    | nil => rfl
    | cons clause clauses ih =>
      cases clause
      simp_all [Clause.exprs, changeClauses, changeAll_eq_map, map_eq_self]
  | call s callee args =>
    rw [children, forall_mem_cons] at h
    obtain ⟨hcallee, h⟩ := h
    simp only [hcallee]
    refine congrArg (call s callee) ?_
    induction args with
    | nil => rfl
    | cons arg args ih => cases arg <;> simp_all [Arg.value, changeArgs]
  | compare s first rest =>
    rw [children, forall_mem_cons] at h
    obtain ⟨hfirst, h⟩ := h
    simp only [hfirst]
    refine congrArg (compare s first) ?_
    induction rest with
    | nil => rfl
    | cons comparison rest ih => cases comparison; simp_all [Comparison.right, changeComparisons]
  | slice s lower upper step =>
    cases lower <;> cases upper <;> cases step <;> simp_all [children, changeOption]
  | «attribute» | subscript | unary | binary | logical | ternary => simp_all [children]

theorem inside_ne_name {e : Expr} (hname : ∀ s x, e ≠ .name s x) (s : Span) (x : String) :
    e.inside c env ≠ .name s x := by
  cases e with
  | name s x => exact absurd rfl (hname s x)
  | _ => exact fun h => nomatch h

end Expr

end

end BlockScript.Program
