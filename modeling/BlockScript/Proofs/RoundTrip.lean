import BlockScript.Proofs.Parsed.Stmt
import BlockScript.Proofs.RoundTrip.Module

/-! Printing and parsing: a program that was parsed is read back from what is printed of it, and so
is an expression. -/

namespace BlockScript.Program

/-! ## Programs -/

variable {m : Module} {filename : String} {source : List Char} {e : Expr}

theorem Module.kept_of_subexprs [View] (h : ∀ x ∈ m.subexprs, x.IsRead) : ∀ stmt ∈ m, stmt.Kept :=
  fun stmt hstmt x hx => h x (List.mem_flatMap.2 ⟨stmt, hstmt, hx⟩)

/-- A program that comes from a text, and of which nothing is lost in print, is read back as itself
up to the places of its parts. -/
theorem Module.print_reads_back (hparse : Module.parse source filename = .ok m) (hne : m ≠ [])
    (hkept : ∀ x ∈ m.subexprs, x.isLost = false) (filename' : String) :
    ∃ m', Module.parse m.print.toList filename' = .ok m' ∧ m'.eraseSpans = m.eraseSpans := by
  have hvalid : ∀ stmt ∈ m, stmt.Valid :=
    fun stmt hstmt => (Module.placed_of_parse hparse stmt hstmt).valid
  let _ : View := ⟨true⟩
  obtain ⟨m', hm', hviewed⟩ := Module.parse_print hne hvalid
    (Module.kept_of_subexprs fun x hx => Expr.isRecovered_of_isLost (hkept x hx)) filename'
  refine ⟨m', hm', ?_⟩
  rw [← m'.viewed_of_literals rfl, hviewed, m.viewed_of_literals rfl]

/-- A program with nested blocks, operators that need parentheses, and a subscript. -/
def layeredText : List Char :=
  ("@mark\ndef f(a, b=-1, *more):\n    if not (a or b) ** 2:\n        return a[1:, b]\n" ++
    "    elif a: pass\n").toList

theorem Module.print_reads_back_layeredText :
    ∃ m, Module.parse layeredText "layered" = .ok m ∧ m ≠ [] ∧
      (∀ x ∈ m.subexprs, x.isLost = false) ∧
      ∃ m', Module.parse m.print.toList "printed" = .ok m' ∧ m'.eraseSpans = m.eraseSpans := by
  have hclosed : (match Module.parse layeredText "layered" with
      | .ok m => !m.isEmpty && m.subexprs.all (!·.isLost)
      | .error _ => false) = true := by
    decide +kernel
  split at hclosed
  · next m hm =>
    simp only [Bool.and_eq_true, Bool.not_eq_true',
      List.isEmpty_eq_false_iff, List.all_eq_true] at hclosed
    exact ⟨m, hm, hclosed.1, hclosed.2, Module.print_reads_back hm hclosed.1 hclosed.2 "printed"⟩
  · cases hclosed

/-! ## Expressions -/

open Parse

theorem Expr.valid_of_parse (h : Expr.parse source filename = .ok e) : e.Valid := by
  rw [Expr.parse, Source.run] at h
  split at h
  · next hrun =>
    cases h
    have hrules := rules_sound (.ofText source filename)
    exact ((gives_parseWhole (hrules _)).ok (all_isLexed source filename) hrun).1
  · next e _ _ => cases e <;> cases h

/-- What is printed of an expression that can be written and of which nothing is lost is read as the
same expression. -/
theorem Expr.parse_print [View] (hvalid : e.Valid) (hkept : e.Kept) (filename : String) :
    ∃ e', Expr.parse e.print.toList filename = .ok e' ∧ e'.viewed = e.viewed := by
  obtain ⟨e', hrun, he'⟩ :=
    whole_reads ((hvalid.readable hkept).whole) (Nat.le_add_right _ 11) filename
  refine ⟨e', ?_, he'⟩
  rw [Expr.print, Print.expr_of_le (Nat.zero_le _),
    ← Print.expr_of_le (Print.precedence_bounds e).1]
  exact congrArg (Source.finish _) hrun

/-- An f-string that comes from a text is read back from what is printed of it with the same texts
and, up to the places of their parts, the same fields, if all that is in it is recovered. -/
theorem Expr.fstring_reads_back {span : Span} {parts : List FStringPart}
    (hparse : Expr.parse source filename = .ok (.fstring span parts))
    (hrecovered : ∀ x ∈ (fstring span parts).subexprs, x.IsRecovered) (filename' : String) :
    ∃ span' parts', Expr.parse (fstring span parts).print.toList filename' =
      .ok (.fstring span' parts') ∧ eraseSpansParts parts' = eraseSpansParts parts := by
  let _ : View := ⟨true⟩
  have hkept : (fstring span parts).Kept := hrecovered
  obtain ⟨e', hread, hviewed⟩ := parse_print (valid_of_parse hparse) hkept filename'
  rw [viewed_of_literals rfl] at hviewed
  cases e' with
  | fstring span' parts' =>
    injection hviewed with _ hparts
    exact ⟨span', parts', hread, hparts⟩
  | _ => cases hviewed

/-- A text, and next to it an f-string with a field between quotes. -/
def mixedText : List Char := "'\x7b\"' f'\x7bd[\"k\"]!r:>\x7bw\x7d\x7d\"'".toList

theorem Expr.parse_mixedText : (match Expr.parse mixedText "mixed" with
    | .ok (.fstring span parts) => (fstring span parts).subexprs.tail.all (!·.isLost) &&
      match parts with
      | [.text a, .field (.subscript _ (.name _ d) (.constant _ (.str k)))
          conversion spec, .text b] =>
        (a, d, k, conversion, spec, b) == ("\x7b\"", "d", "k", some 'r', some ">\x7bw\x7d", "\"")
      | _ => false
    | _ => false) = true := by
  decide +kernel

theorem Expr.fstring_reads_back_mixedText :
    ∃ span parts, Expr.parse mixedText "mixed" = .ok (.fstring span parts) ∧
      (∀ x ∈ (fstring span parts).subexprs, x.IsRecovered) ∧
      ∃ span' parts', Expr.parse (fstring span parts).print.toList "printed" =
        .ok (.fstring span' parts') ∧ eraseSpansParts parts' = eraseSpansParts parts := by
  have hclosed := parse_mixedText
  split at hclosed
  · next span parts hparse =>
    obtain ⟨hinner, hparts⟩ := Bool.and_eq_true_iff.1 hclosed
    have hall : FStringPart.AllRecovered parts := by
      split at hparts
      · simp only [beq_iff_eq, Prod.mk.injEq] at hparts
        obtain ⟨rfl, rfl, rfl, rfl, rfl, rfl⟩ := hparts
        refine ⟨?_, by simp [FStringPart.isText]⟩
        simp only [List.forall_mem_cons, FStringPart.IsRecovered]
        have htext (s s₁ s₂ : Span) :
            Print.expr 1 (.subscript s (.name s₁ "d") (.constant s₂ (.str "k"))) = "d['k']" := by
          cbv
        rw [htext]
        refine ⟨by simp, ⟨?_, ?_, ?_, by with_unfolding_all rfl⟩, by simp, List.forall_mem_nil _⟩
        all_goals with_unfolding_all decide
      · cases hparts
    have hrecovered : ∀ x ∈ (fstring span parts).subexprs, x.IsRecovered := by
      rw [subexprs, List.tail_cons, List.all_eq_true] at hinner
      rw [subexprs, List.forall_mem_cons]
      exact ⟨hall, fun x hx => isRecovered_of_isLost (by simpa using hinner x hx)⟩
    exact ⟨span, parts, hparse, hrecovered, fstring_reads_back hparse hrecovered "printed"⟩
  · cases hclosed

theorem Expr.parse_dictField : (match Expr.parse "f'\x7b \x7b1: 2\x7d[1] \x7d'".toList "field" with
    | .ok (.fstring _ [.field
        (.subscript _ (.dict _ [.mk (.constant _ (.int a)) (.constant _ (.int b))])
        (.constant _ (.int c))) none none]) => (a, b, c) == (1, 2, 1)
    | _ => false) = true := by
  decide +kernel

/-- A field that starts with a brace is printed as a text. -/
theorem Expr.fstring_lost_dictField :
    ∃ e, Expr.parse "f'\x7b \x7b1: 2\x7d[1] \x7d'".toList "field" = .ok e ∧
      e.print = "f\"\x7b\x7b1: 2\x7d[1]\x7d\"" ∧
      ∀ e', Expr.parse e.print.toList "field" ≠ .ok e' := by
  have hclosed := parse_dictField
  have hparse : (Expr.parse "f\"\x7b\x7b1: 2\x7d[1]\x7d\"".toList "field").toBool = false := by
    decide +kernel
  split at hclosed
  · next s s₁ s₂ s₃ a s₄ b s₅ c he =>
    simp only [beq_iff_eq, Prod.mk.injEq] at hclosed
    obtain ⟨rfl, rfl, rfl⟩ := hclosed
    have hlost (e : Expr) (hprint : e.print = "f\"\x7b\x7b1: 2\x7d[1]\x7d\"") :
        e.print = "f\"\x7b\x7b1: 2\x7d[1]\x7d\"" ∧
        ∀ e', Expr.parse e.print.toList "field" ≠ .ok e' := by
      refine ⟨hprint, fun e' he' => ?_⟩
      rw [← hprint, he'] at hparse
      cases hparse
    exact ⟨_, he, hlost _ (by cbv)⟩
  · cases hclosed

end BlockScript.Program
