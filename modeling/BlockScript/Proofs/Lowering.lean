import BlockScript.Proofs.Alike.Project
import BlockScript.Proofs.Alike.Start
import BlockScript.Proofs.Lowering.Writes

/-! Lowering and what a program does.

A lowered assignment to an attribute evaluates the object before the value, while the interpreter
takes the value first. So a lowered module does what an interpreter does that writes properties from
left to right, and it does what the module itself does if the order makes no difference. -/

namespace BlockScript

open Program List

/-! ## Ends of runs -/

namespace Run

/-- Runs that end alike once the bounds on their recursion are large enough. -/
structure SameEnds (S : Setting) (w : World)
    (p q : Nat → Run.Result Unit) : Prop where
  forth : ∀ n, isCut (p n) = false → ∀ N, 2 * n ≤ N →
    EndAlike { S with } w (fun _ => Eq) (p n) (q N)
  back : ∀ N, isCut (q N) = false → ∀ n, N ≤ n → EndAlike { S with } w (fun _ => Eq) (p n) (q N)

variable {S : Setting} {w : World} {α β : Type} {Q : World → α → β → Prop}
  {r : Run.Result α}
  {r' : Run.Result β}

theorem EndAlike.of_not_cut {first second : Prop} (hfirst : first → isCut r = false)
    (hsecond : second → isCut r' = false)
    (h : EndAlike { S with firstCut := first, secondCut := second } w Q r r') :
    EndAlike { S with } w Q r r' := by
  cases h with
  | ok hw hm hq => exact .ok hw hm hq
  | error hw hm he => exact .error hw hm he
  | cut => exact .cut
  | firstCut h => cases hfirst h
  | secondCut h => cases hsecond h

end Run

/-! ## Interpreters -/

/-- The executor writes the properties in `P` from left to right, and does all else as usual. -/
structure Executor.ObjectFirst (exec : Executor) (host : Host) (P : Stmt → Prop) : Prop where
  kept : ∀ ev s, ¬(Compile.isPropertyWrite s = true ∧ P s) → exec ev s = ev.execStmt s
  writes : ∀ n s span object name value, P (.assign s [.attribute span object name] value) →
    exec (.ofDepthBy exec host n) (.assign s [.attribute span object name] value) =
      (Evaluator.ofDepthBy exec host n).writeProperty object name value

namespace Compile

open Evaluator

variable {rt : String} {o : ObjectRef} {P : Stmt → Prop} {exec : Executor} {host : Host}

theorem special?_eq_some {s s' : Stmt} (h : (loweringOf rt o P).special? s = some s') :
    ∃ span place object name value, s = .assign span [.attribute place object name] value ∧ P s ∧
      s' = lowerAssign rt s := by
  simp only [loweringOf] at h
  split at h
  · next hs =>
    obtain ⟨hwrite, hP⟩ := hs
    cases h
    unfold isPropertyWrite at hwrite
    split at hwrite
    · exact ⟨_, _, _, _, _, rfl, hP, rfl⟩
    · cases hwrite
  · cases h

theorem special?_eq_none {s : Stmt} (h : (loweringOf rt o P).special? s = none) :
    ¬(isPropertyWrite s = true ∧ P s) := by
  intro hs
  simp only [loweringOf, if_pos hs] at h
  cases h

theorem allowsIn_operands {S : Setting} {span place : Span} {object value : Expr} {name : String}
    (h : ∀ e ∈ (Stmt.assign span [.attribute place object name] value).exprs, S.AllowsIn e) :
    S.AllowsIn object ∧ S.AllowsIn value :=
  ⟨h (.attribute place object name) mem_cons_self, h value (mem_cons_of_mem _ mem_cons_self)⟩

variable {w : World} {m m' : Machine} {closures : ClosureRegistry} {module : Module}

section

variable (hexec : exec.ObjectFirst host P) (huniform : host.Uniform) (ho : o.kind = .runtime)

include hexec huniform ho

/-- Whatever the plain program comes to with a bound, the lowered one does with twice that bound. -/
theorem alike_of_double_le {n N : Nat} (hN : 2 * n ≤ N) :
    (ofDepthBy exec host n).Alike { loweringOf rt o P with firstCut := True } (ofDepth host N) := by
  induction n generalizing N with
  | zero => exact Evaluator.Alike.exhausted_left trivial huniform (host_ofDepth host N)
  | succ n ih =>
    obtain ⟨N, rfl⟩ : ∃ K, N = K + 1 := ⟨N - 1, by omega⟩
    refine .succ huniform (ih (by omega)) (fun ev s hs => hexec.kept ev s (special?_eq_none hs)) ?_
    intro w s s' hs hexprs
    obtain ⟨span, place, object, name, value, rfl, hP, rfl⟩ := special?_eq_some hs
    rw [hexec.writes n _ _ _ _ _ hP]
    cases n with
    | zero => exact fun _ _ _ => .firstCut trivial
    | succ n =>
      obtain ⟨N, rfl⟩ : ∃ K, N = K + 3 := ⟨N - 3, by omega⟩
      obtain ⟨hobject, hvalue⟩ := allowsIn_operands hexprs
      exact (ih (N := N + 2) (by omega)).lowerAssign rfl ho span place hobject hvalue name

/-- Whatever the lowered program comes to with a bound, the plain one does with that bound. -/
theorem alike_of_le {n N : Nat} (hN : N ≤ n) :
    (ofDepthBy exec host n).Alike { loweringOf rt o P with secondCut := True }
      (ofDepth host N) := by
  induction n generalizing N with
  | zero =>
    cases Nat.le_zero.1 hN
    exact Evaluator.Alike.exhausted_both huniform
  | succ n ih =>
    cases N with
    | zero => exact .exhausted_right trivial huniform
    | succ N =>
      refine .succ huniform (ih (by omega)) (fun ev s hs =>
        hexec.kept ev s (special?_eq_none hs)) ?_
      intro w s s' hs hexprs
      obtain ⟨span, place, object, name, value, rfl, hP, rfl⟩ := special?_eq_some hs
      rw [hexec.writes n _ _ _ _ _ hP]
      by_cases hshort : N < 3
      · intro m m' _
        rw [execStmt_lowerAssign_exhausted hshort]
        exact .secondCut trivial
      · obtain ⟨N, rfl⟩ : ∃ K, N = K + 3 := ⟨N - 3, by omega⟩
        obtain ⟨hobject, hvalue⟩ := allowsIn_operands hexprs
        exact (ih (N := N + 2) (by omega)).lowerAssign rfl ho span place hobject hvalue name

/-- A lowered module ends as the module does if properties are written from left to right. -/
theorem sameEnds_lower
    (hmodule : ∀ s ∈ Stmt.withinAll module, IsPlain rt closures s ∧
    (isPropertyWrite s = true → P s))
    (hm : m.Alike (loweringOf rt o P) w m') :
    Run.SameEnds (loweringOf rt o P) w (fun n => (ofDepthBy exec host n).execModule module m)
      (fun n => (ofDepth host n).execModule (lower rt closures module) m') where
  forth _ hn _ hN := .of_not_cut (fun _ => hn) nofun
    ((alike_of_double_le hexec huniform ho hN).execModule (allAlike_lower hmodule) m m' hm)
  back _ hN _ hn := .of_not_cut nofun (fun _ => hN)
    ((alike_of_le hexec huniform ho hn).execModule (allAlike_lower hmodule) m m' hm)

end

theorem objectFirst_execObjectFirst (host : Host) :
    Executor.ObjectFirst execObjectFirst host fun _ => True where
  kept _ _ hs := execObjectFirst_of_not_write (Bool.eq_false_iff.2 fun h => hs ⟨h, trivial⟩)
  writes _ _ _ _ _ _ _ := rfl

/-- It makes no difference in which order the operands of an assignment are evaluated. -/
def Commutes (host : Host) (s : Stmt) : Prop :=
  ∀ n, (ofDepth host n).execObjectFirst s = (ofDepth host n).execStmt s

theorem objectFirst_execStmt (host : Host) :
    Executor.ObjectFirst execStmt host (Commutes host) where
  kept _ _ _ := rfl
  writes n _ _ _ _ _ hs := by
    rw [ofDepthBy_execStmt]
    exact (hs n).symm

theorem commutes_constant (host : Host) (s span place : Span) (object : Expr) (name : String)
    (c : Constant) : Commutes host (.assign s [.attribute span object name]
      (.constant place c)) := by
  intro n
  cases n with
  | zero => rfl
  | succ n =>
    have hconst : (ofDepth host (n + 1)).eval (.constant place c) = pure (.ofConstant c) := rfl
    simp only [execObjectFirst, writeProperty, execStmt, hconst, pure_bind, List.forM,
      assign, bind_assoc]

/-- A lowered module does what the module does if properties are written from left to right. So it
does what the module itself does if no assignment in it depends on the order. -/
theorem lower_alike (huniform : host.Uniform) (ho : o.kind = .runtime)
    (hplain : ∀ s ∈ Stmt.withinAll module, IsPlain rt closures s) :
    (∀ w m m', m.Alike (loweringOf rt o fun _ => True) w m' →
    Run.SameEnds (loweringOf rt o fun _ => True) w
        (fun n => (ofDepthBy execObjectFirst host n).execModule module m)
        (fun n => (ofDepth host n).execModule (lower rt closures module) m')) ∧
    ((∀ s ∈ Stmt.withinAll module, isPropertyWrite s = true → Commutes host s) →
      ∀ w m m', m.Alike (loweringOf rt o (Commutes host)) w m' →
        Run.SameEnds (loweringOf rt o (Commutes host)) w (fun n =>
          (ofDepth host n).execModule module m)
          (fun n => (ofDepth host n).execModule (lower rt closures module) m')) := by
  refine ⟨fun w m m' hm => ?_, fun hcommutes w m m' hm => ?_⟩
  · exact sameEnds_lower (objectFirst_execObjectFirst host) huniform ho
      (fun s hs => ⟨hplain s hs, fun _ => trivial⟩) hm
  · have hends := sameEnds_lower (objectFirst_execStmt host) huniform ho
      (fun s hs => ⟨hplain s hs, hcommutes s hs⟩) hm
    simpa only [ofDepthBy_execStmt] using hends

/-- Code has nothing to do with blocks if there are none. -/
theorem isPlain_empty {s : Stmt} (h : rt ∉ s.exprs.flatMap Expr.names ++ s.declares) :
    IsPlain rt .empty s := by
  rw [mem_append, not_or] at h
  exact ⟨fun _ _ _ _ => rfl, fun e he hrt => h.1 (mem_flatMap.2 ⟨e, he, hrt⟩), h.2⟩

def counterProgram : Module :=
  [.classDef default "C" [] [.pass default] [], .functionDef default "reset" {}
      [.assign default [.attribute default (.name default "C") "count"]
        (.constant default (.int 0))] [],
    .expr default ((Expr.name default "reset").apply [])]

theorem lower_alike_counterProgram :
    (∀ s ∈ Stmt.withinAll counterProgram, IsPlain "__runtime__" .empty s) ∧
    (∀ s ∈ Stmt.withinAll counterProgram, isPropertyWrite s = true → Commutes Project.host s) ∧
    ∃ w m, installRuntime "__runtime__" Machine.new = .ok () m ∧
      Run.isCut ((ofDepth Project.host 6).execModule counterProgram m) = false ∧
      Run.SameEnds (loweringOf "__runtime__" firstRuntime (Commutes Project.host)) w
        (fun n => (ofDepth Project.host n).execModule counterProgram m)
        (fun n => (ofDepth Project.host n).execModule
          (lower "__runtime__" .empty counterProgram) m) := by
  have hplain : ∀ s ∈ Stmt.withinAll counterProgram, IsPlain "__runtime__" .empty s := by
    intro s hs
    refine isPlain_empty ?_
    revert s
    decide
  have hcommutes : ∀ s ∈ Stmt.withinAll counterProgram, isPropertyWrite s = true →
      Commutes Project.host s := by
    intro s hs hwrite
    rw [counterProgram] at hs
    simp only [Stmt.withinAll, Stmt.within, cons_append, nil_append, mem_cons,
      not_mem_nil, or_false] at hs
    rcases hs with rfl | rfl | rfl | rfl | rfl
    case inr.inr.inr.inl => exact commutes_constant _ _ _ _ _ _ _
    all_goals cases hwrite
  obtain ⟨w, hm⟩ := Machine.withRuntime_alike
    (S := loweringOf "__runtime__" firstRuntime (Commutes Project.host)) rfl
  refine ⟨hplain, hcommutes, w, _, installRuntime_new _, ?_, ?_⟩
  · decide +kernel
  · exact (lower_alike Project.uniform_host rfl hplain).2 hcommutes w _ _ hm

def printing (text : String) : Expr := (Expr.name default "print").apply [.str default text]

def orderedWrite : Module :=
  [.assign default [.attribute default (printing "object") "x"] (printing "value")]

/-- Lowering does not always keep what is printed. -/
theorem lower_not_alike_orderedWrite : ¬ ∀ (module : Module) (n : Nat),
      (∀ s ∈ Stmt.withinAll module, IsPlain "__runtime__" .empty s) →
        (((ofDepth .none n).execModule (lower "__runtime__" .empty module)).after
            (.withRuntime "__runtime__")).printed =
          (((ofDepth .none n).execModule module).after (.withRuntime "__runtime__")).printed := by
  intro h
  have hprinted := h orderedWrite 6 (fun s hs => isPlain_empty (by revert s; decide))
  revert hprinted
  decide

end Compile

end BlockScript
