import BlockScript.Proofs.Cleanup

/-! The line of an error that nothing catches.

A machine has one place for the line of the error that is on its way. While the exit method of a
context or the clauses of a `try` statement decide on an error, code runs that may raise and catch
errors of its own, with the line of the pending error in that place. An interpreter in which an
error that is caught takes its line along says which line is right; one that watches the place says
when the line that is left there is that line. -/

namespace BlockScript

open Program

/-! ## Markings that follow each other -/

/-- The line of the first run is that of the second, unless it is lost or still that of the pending
error. -/
def Marks.behind (pending : Option Nat) : Marks where
  Rel a b := a = Marking.lost ∨ a = b ∨ a.isSome ∧ a = pending
  unset := .inr (.inl rfl)
  atLine line a b h := by
    rcases h with rfl | rfl | ⟨ha, rfl⟩
    · exact .inl rfl
    · exact .inr (.inl rfl)
    · obtain ⟨l, rfl⟩ := Option.isSome_iff_exists.1 ha
      exact .inr (.inr ⟨rfl, rfl⟩)

theorem Marks.behind_none {a b : Option Nat} :
    (behind Option.none).Rel a b ↔ (a ≠ Marking.lost → a = b) := by
  change _ ∨ _ ∨ _ ∧ a = none ↔ _
  constructor
  · rintro (h | h | ⟨h, rfl⟩) hkept
    · exact absurd h hkept
    · exact h
    · cases h
  · intro h
    by_cases hkept : a = Marking.lost
    · exact .inl hkept
    · exact .inr (.inl (h hkept))

theorem Marking.watched_follows_shared : watched.Follows shared fun _ => .behind none where
  held h := h
  failed {_ a b c d} _ h := by
    change (Marks.behind none).Rel (if c = a then lost else c) d
    split
    · exact .inl rfl
    · exact h
  resumed {_ a b c d} _ h := by
    change (Marks.behind none).Rel (if c = a then c else lost) d
    split
    · exact h
    · exact .inl rfl

theorem Marking.watched_follows_carried : watched.Follows carried .behind where
  held {_ a b} _ := by
    change (Marks.behind a).Rel a none
    cases a with
    | none => exact .inr (.inl rfl)
    | some line => exact .inr (.inr ⟨rfl, rfl⟩)
  failed {_ a b c d} _ h := by
    change (Marks.behind _).Rel (if c = a then lost else c) d
    split
    · exact .inl rfl
    · next hne =>
      rcases h with h | h | ⟨-, h⟩
      · exact .inl h
      · exact .inr (.inl h)
      · exact absurd h hne
  resumed {_ a b c d} h _ := by
    change (Marks.behind _).Rel (if c = a then c else lost) b
    split
    · next heq => exact heq ▸ h
    · exact .inl rfl

variable {w : World} {S : Setting} {e e' : RuntimeError} {line : Nat} {α : Type}

namespace Evaluator.Alike

variable {R : Option Nat → Marks} {k k' : Marking}

theorem markedStmt {ev ev' : Evaluator} (hk : k.Follows k' R)
    (he : ∀ line, ev.Alike { marks := R line } ev') {pending : Option Nat} {s s' : Stmt}
    (hs : s.Alike {} s') :
    Run.Alike { marks := R pending } w (Flow.Alike {}) (k.exec ev s) (k'.exec ev' s') := by
  have hrest := (he pending).execStmt (w := w) hs rfl
  cases hs with
  | special hspecial => cases hspecial
  | @withBlock _ context target _ _ hallow hbody =>
    have hcontext := hallow.exprs context List.mem_cons_self
    refine execWithBy (S := {}) pending hk he hcontext (fun e hmem => ?_) hbody
    exact hallow.exprs e (List.mem_cons_of_mem _ (Option.mem_toList.2 hmem))
  | tryBlock hallow hbody hhandlers hlast =>
    have hhs := handlers_alike (S := {}) hhandlers hallow.exprs hallow.declares
    exact execTryBy (S := {}) pending hk he hbody hhs hlast
  | @plain s hplain =>
    cases s with
    | withBlock | tryBlock => cases hplain
    | _ => exact hrest
  | ifElse | whileLoop | forLoop | functionDef | classDef => exact hrest

theorem ofDepthBy_exec (hk : k.Follows k' R) {host : Host} (huniform : host.Uniform) (n : Nat) :
    ∀ pending : Option Nat,
      (ofDepthBy k.exec host n).Alike { marks := R pending } (ofDepthBy k'.exec host n) := by
  induction n with
  | zero => exact fun _ => exhausted_both huniform
  | succ n ih => exact fun pending => succBy huniform (ih pending) fun _ => markedStmt hk ih

end Evaluator.Alike

/-! ## The line that is reported -/

theorem RuntimeError.Alike.className_eq (h : e.Alike S w e') : e'.className = e.className := by
  cases h <;> rfl

theorem RuntimeError.Alike.message_eq (h : e.Alike S w e') : e'.message = e.message := by
  cases h <;> rfl

def Run.line? {α : Type} : Run.Result α → Option Nat
  | .error (.error _) m => m.errorLine
  | _ => none

theorem Run.exists_error_of_line? {r : Run.Result α}
    (h : Run.line? r = some line) : ∃ e m, r = .error (.error e) m ∧ m.errorLine = some line := by
  cases r with
  | ok => cases h
  | error stop m =>
    cases stop with
    | exhausted => cases h
    | error e => exact ⟨e, m, rfl, h⟩

theorem Run.isSome_errorLine_atLine {p : Run α} {m m' : Machine}
    (h : Run.atLine line p m = .error (.error e) m') : m'.errorLine.isSome := by
  unfold Run.atLine at h
  split at h
  · next m1 _ =>
    cases h
    change (m1.errorLine.orElse _).isSome
    cases m1.errorLine <;> rfl
  · next hother => exact absurd h (hother _ _)

namespace Evaluator

variable {exec : Executor} {host : Host} {module : Module} {n : Nat} {m m' : Machine}
  {e : RuntimeError}

theorem isSome_errorLine_execBlockBy (ev : Evaluator) {ss : List Stmt}
    (h : ev.execBlockBy exec ss m = .error (.error e) m') : m'.errorLine.isSome := by
  induction ss generalizing m with
  | nil => cases h
  | cons s ss ih =>
    unfold execBlockBy at h
    cases hs : Run.atLine s.span.line (exec ev s) m with
    | error stop m1 =>
      rw [Run.bind_of_error hs] at h
      cases h
      exact Run.isSome_errorLine_atLine hs
    | ok flow m1 =>
      rw [Run.bind_of_ok hs] at h
      cases flow with
      | normal => exact ih h
      | breakLoop | continueLoop | returns => cases h

theorem isSome_errorLine_execModule
    (h : (ofDepthBy exec host n).execModule module m = .error (.error e) m') :
    m'.errorLine.isSome := by
  unfold execModule at h
  rw [Run.bind_of_ok (show Run.setErrorLine none m =
    .ok () { m with errorLine := none } from rfl)] at h
  cases hblock : (ofDepthBy exec host n).block module { m with errorLine := none } with
  | ok flow m1 =>
    rw [Run.bind_of_ok hblock] at h
    cases h
  | error stop m1 =>
    rw [Run.bind_of_error hblock] at h
    cases h
    cases n with
    | zero => cases hblock
    | succ n => exact isSome_errorLine_execBlockBy _ hblock

/-- The error that a module ends in is the one of the interpreter whose errors take their lines
along, and the line that is reported is the one that this error has there, unless it was lost while
code decided on another error. -/
theorem line_of_uncaught_error {m : Machine} (hm : m.Live) (huniform : host.Uniform)
    (hend : (ofDepth host n).execModule module m = .error (.error e) m') :
    ∃ e₁ m₁ line, (ofDepthBy Marking.carried.exec host n).execModule module m =
      .error (.error e₁) m₁ ∧
      e₁.className = e.className ∧ e₁.message = e.message ∧ m₁.output = m'.output ∧
      m₁.errorLine = some line ∧
      (Run.line? ((ofDepthBy Marking.watched.exec host n).execModule module m) ≠ Marking.lost →
        m'.errorLine = some line) := by
  obtain ⟨w, hw⟩ := hm.exists_isIn
  have hm₀ : m.Alike {} w m (.behind none) := hw.withLine (.inr (.inl rfl))
  have hshared := (Alike.ofDepthBy_exec Marking.watched_follows_shared huniform n none).execModule
    (Stmt.allAlike_self module) m m hm₀
  have hcarried := (Alike.ofDepthBy_exec Marking.watched_follows_carried huniform n none).execModule
    (Stmt.allAlike_self module) m m hm₀
  rw [exec_shared, ofDepthBy_execStmt, hend] at hshared
  generalize (ofDepthBy Marking.watched.exec host n).execModule module m = r at hshared hcarried ⊢
  cases hshared with
  | firstCut h => exact h.elim
  | @error _ e₀ _ m₀ _ _ hm' he' =>
    generalize hr : (ofDepthBy Marking.carried.exec host n).execModule module m = r at hcarried
    cases hcarried with
    | secondCut h => exact h.elim
    | @error _ _ e₁ _ m₁ _ hm₁ he₁ =>
      obtain ⟨line, hline⟩ := Option.isSome_iff_exists.1 (isSome_errorLine_execModule hr)
      refine ⟨e₁, m₁, line, rfl, ?_, ?_, ?_, hline, fun hkept => ?_⟩
      · exact he₁.className_eq.trans he'.className_eq.symm
      · exact he₁.message_eq.trans he'.message_eq.symm
      · exact hm₁.output_eq.trans hm'.output_eq.symm
      · have hsame := Marks.behind_none.1 hm'.errorLine hkept
        have hright := Marks.behind_none.1 hm₁.errorLine hkept
        rw [← hsame, hright, hline]

def failingAt (line : Nat) : Stmt := .asserts ⟨line, 1⟩ (.constant default (.bool false)) none

/-- A `try` statement, on a line, whose body fails on the next one. It handles every error. -/
def handlingAt (line : Nat) (handler finalBody : List Stmt) : Stmt :=
  .tryBlock ⟨line, 1⟩ [failingAt (line + 1)] [.mk ⟨line + 2, 1⟩ none none handler] finalBody

/-- A handler that catches an error of its own and then fails, with a `finally` block that catches
another one. -/
def failingTwice : Module :=
  [handlingAt 1 [handlingAt 4 [.pass default] [], failingAt 8] [handlingAt 10 [.pass default] []]]

theorem line_of_uncaught_error_failingTwice : Machine.new.Live ∧ Host.none.Uniform ∧
    ∃ e m', (ofDepth .none 7).execModule failingTwice .new = .error (.error e) m' ∧
      ∃ e₁ m₁, (ofDepthBy Marking.carried.exec .none 7).execModule failingTwice .new =
        .error (.error e₁) m₁ ∧ m₁.errorLine = some 8 ∧ m'.errorLine = some 8 := by
  refine ⟨.new, Host.uniform_none, ?_⟩
  have hreported : Run.line? ((ofDepth .none 7).execModule failingTwice .new) = some 8 := by
    decide +kernel
  have hkept : Run.line? ((ofDepthBy Marking.watched.exec .none 7).execModule failingTwice .new) ≠
      Marking.lost := by decide +kernel
  obtain ⟨e, m', hend, hline⟩ := Run.exists_error_of_line? hreported
  obtain ⟨e₁, m₁, line, hrun, -, -, -, hline₁, hsame⟩ :=
    line_of_uncaught_error .new Host.uniform_none hend
  refine ⟨e, m', hend, e₁, m₁, hrun, ?_, hline⟩
  rw [hline₁, ← hsame hkept, hline]

/-- A context whose exit method catches an error of its own, and a body that fails on line 8. -/
def leavingLoudly : Module :=
  [.classDef ⟨1, 1⟩ "M" [] [.functionDef ⟨2, 5⟩ "__exit__"
      { args := ["self", "kind", "error", "trace"].map (⟨·, none⟩) }
      [handlingAt 3 [.pass default] []] []] [],
    .withBlock ⟨7, 1⟩ ((Expr.name default "M").apply []) none [failingAt 8]]

/-- The exit method clears the line of the error that it lets go on: that of the `with` statement is
reported. -/
theorem line_lost_leavingLoudly :
    Run.line? ((ofDepth .none 9).execModule leavingLoudly .new) = some 7 ∧
    Run.line? ((ofDepthBy Marking.carried.exec .none 9).execModule leavingLoudly .new) =
      some 8 := by
  constructor
  · decide +kernel
  · decide +kernel

end Evaluator

end BlockScript
