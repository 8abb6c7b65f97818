import BlockScript.Proofs.Growth.Rules

/-! Attempts leave no trace. An attempt that is given up is undone by cutting the closures that are
registered and open down to their former numbers. Nothing below these numbers was touched meanwhile,
so in every state that reading can reach this gives back the state from before. -/

namespace BlockScript.Desugar

/-- What may be run while a script is read: moves of the scanner, the rules of the grammar with
recursion to any depth, attempts at them, and one after another. -/
inductive Operation (script : Script) : {α : Type} → Reading α → Prop where
  | pure {α : Type} (a : α) : Operation script (pure a)
  | fail {α : Type} (fault : SyntaxFault) (pos : Position) :
    Operation script (fail script fault pos : Reading α)
  | current : Operation script current
  | bump : Operation script bump
  | moveTo (scanner : Scanner) : Operation script (moveTo scanner)
  | layout (newlines : Bool) : Operation script (layout newlines)
  | layoutToIndent : Operation script layoutToIndent
  | copyUntil (stop : Token → Bool) : Operation script (copyUntil stop)
  | expr (n : Nat) (mode : Mode) : Operation script (readExpr script (.ofDepth script n) mode)
  | exprTail (n : Nat) (mode : Mode) :
    Operation script (readExprTail script (.ofDepth script n) mode)
  | atom (n : Nat) (mode : Mode) : Operation script (readAtom script (.ofDepth script n) mode)
  | operand (n : Nat) (mode : Mode) : Operation script (readOperand script (.ofDepth script n) mode)
  | bracket (n : Nat) (mode : Mode) : Operation script (readBracket script (.ofDepth script n) mode)
  | wordOperator : Operation script (readWordOperator script)
  | items (n : Nat) (mode : Mode) : Operation script (readItems (.ofDepth script n) mode)
  | closure? (n : Nat) : Operation script (readClosure? script (.ofDepth script n))
  | closureBody (n : Nat) : Operation script (readClosureBody script (.ofDepth script n))
  | inlineStatements (n : Nat) : Operation script (readInlineStatements (.ofDepth script n))
  | opensDict (n : Nat) : Operation script (opensDict (.ofDepth script n))
  | dict (n : Nat) : Operation script (readDict script (.ofDepth script n))
  | dictEntries (n : Nat) : Operation script (readDictEntries script (.ofDepth script n))
  | plugin (n : Nat) : Operation script (readPlugin script (.ofDepth script n))
  | localDef? (n : Nat) : Operation script (readLocalDef? script (.ofDepth script n))
  | assignments (n : Nat) : Operation script (readAssignments (.ofDepth script n))
  | exprStatement (n : Nat) : Operation script (readExprStatement (.ofDepth script n))
  | listStatement (n : Nat) : Operation script (readListStatement (.ofDepth script n))
  | simpleStatement (n : Nat) : Operation script (readSimpleStatement script (.ofDepth script n))
  | simpleStatements (n : Nat) : Operation script (readSimpleStatements script (.ofDepth script n))
  | blockHeader : Operation script (readBlockHeader script)
  | suite (n width : Nat) : Operation script (readSuite (.ofDepth script n) width)
  | statement? (n width : Nat) : Operation script (readStatement? script (.ofDepth script n) width)
  | statements (n width : Nat) : Operation script (readStatements script (.ofDepth script n) width)
  | block (n : Nat) (parent : Option Nat) :
    Operation script (readBlock script (.ofDepth script n) parent)
  | program (n : Nat) : Operation script (readProgram script (.ofDepth script n))
  | tryReading {α : Type} {p : Reading α} : Operation script p → Operation script (tryReading p)
  | succeeds {p : Reading Bool} : Operation script p → Operation script (succeeds p)
  | andThen {α β : Type} {p : Reading α} {f : α → Reading β} :
    Operation script p → (∀ a, Operation script (f a)) → Operation script (p >>= f)

/-- The states that reading a script can reach, also inside closures and after failures. -/
inductive Reachable (script : Script) : State → Prop where
  | start : Reachable script script.start
  | ok {α : Type} {p : Reading α} {s t : State} {a : α} :
    Reachable script s → Operation script p → p s = .ok a t → Reachable script t
  | error {α : Type} {p : Reading α} {s t : State} {e : Halt SyntaxError} :
    Reachable script s → Operation script p → p s = .error e t → Reachable script t
  /-- The inside of a closure whose header ends at `scanner`. -/
  | opened {s : State} (scanner : Scanner) :
    Reachable script s → Reachable script { s with scanner, stack := s.nextId :: s.stack }

variable {script : Script}

variable {α : Type} {p : Reading α} {s : State}

theorem Operation.extending (h : Operation script p) : Extending False script p := by
  induction h with
  | moveTo scanner => exact @Extending.moveTo _ _ _ (.anywhere ..)
  | fail fault pos => exact @Extending.fail _ _ _ _ _ ⟨nofun⟩
  | tryReading _ ih => exact .tryReading _
  | succeeds _ ih => exact .succeeds _
  | andThen _ _ ihp ihf => exact .andThen ihf
  | _ => infer_instance

/-- In every state that can be reached, the ids registered are those of complete closures. -/
theorem Reachable.numbered (h : Reachable script s) : s.Numbered := by
  induction h with
  | start => exact nofun
  | ok _ hp hrun ih => exact (hp.extending.ok (.anywhere ..) hrun).1.numbered ih
  | error _ hp hrun ih => exact (hp.extending.error (.anywhere ..) hrun).1.numbered ih
  | opened scanner _ ih => exact (State.Extends.opened _ scanner [_]).numbered ih

/-- From every state that can be reached, a failed attempt, a look whether a dict starts, a look for
a closure that finds none and a look for a local definition that finds none leave the state exactly
as it was: the scanner, the number of complete closures, the closures that are open, and the
registry with its entries in their order. -/
theorem speculation_invisible {s t : State} (h : Reachable script s) (n : Nat) :
    (∀ {α : Type} {p : Reading α} {e : Halt SyntaxError},
      Operation script p → tryReading p s = .error e t → t = s) ∧
    (∀ answer, opensDict (.ofDepth script n) s = .ok answer t → t = s) ∧
    (readClosure? script (.ofDepth script n) s = .ok none t → t = s) ∧
    (readLocalDef? script (.ofDepth script n) s = .ok none t → t = s) := by
  have hs := h.numbered
  have hany := Inside.anywhere script s.scanner
  refine ⟨fun hp hrun => ?_, fun answer hrun => ?_, fun hrun => ?_, fun hrun => ?_⟩
  · have := hp.extending
    exact (tryReading_error hany hrun).1.eq hs
  · exact (succeeds_ok hany hrun).eq hs
  · exact (readClosure?_none hany hrun).eq hs
  · exact (readLocalDef?_none hany hrun).eq hs

/-- The state after a reading, whether it succeeds or fails. -/
def after {α : Type} (p : Reading α) (s : State) : State :=
  match p s with
  | .ok _ t | .error _ t => t

theorem ok_after_of_isSome (h : (p.run' s).isSome = true) : ∃ a, p s = .ok a (after p s) := by
  unfold EStateM.run' EStateM.run at h
  unfold after
  cases hrun : p s with
  | ok a t => exact ⟨a, rfl⟩
  | error e t =>
    rw [hrun] at h
    cases h

theorem error_after_of_isNone (h : (p.run' s).isNone = true) : ∃ e, p s = .error e (after p s) := by
  unfold EStateM.run' EStateM.run at h
  unfold after
  cases hrun : p s with
  | ok a t =>
    rw [hrun] at h
    cases h
  | error e t => exact ⟨e, rfl⟩

def unclosedScript : Script where
  source := "\x7b a \x7d \x7b \x7b b \x7d )".toList
  filename := "unclosed"
  localPrefix := none
  plugins := []

/-- An expression is tried after the first closure. It fails inside the second, when the closure
within that one is registered; then one closure is registered and none is open, as before. -/
theorem speculation_invisible_unclosedScript : ∃ (s u t : State) (e : Halt SyntaxError),
    Reachable unclosedScript s ∧ s.closures.size = 1 ∧ s.stack = [] ∧
      readExpr unclosedScript (.ofDepth unclosedScript 32) {} s = .error e u ∧
      u.closures.size = 2 ∧ u.stack.length = 1 ∧
      tryReading (readExpr unclosedScript (.ofDepth unclosedScript 32) {}) s = .error e t ∧
      t = s := by
  let first : Reading String := do bump; readAtom unclosedScript (.ofDepth unclosedScript 32) {}
  let second := readExpr unclosedScript (.ofDepth unclosedScript 32) {}
  let s := after first unclosedScript.start
  have hruns : (first.run' unclosedScript.start).isSome = true ∧ s.closures.size = 1 ∧
      s.stack = [] ∧ (second.run' s).isNone = true ∧ (after second s).closures.size = 2 ∧
      (after second s).stack.length = 1 := by with_unfolding_all decide
  obtain ⟨hfirst, hsize, hstack, hsecond, hsize', hdepth⟩ := hruns
  obtain ⟨a, hfirst⟩ := ok_after_of_isSome hfirst
  obtain ⟨e, hsecond⟩ := error_after_of_isNone hsecond
  have hs : Reachable unclosedScript s := .ok .start (.andThen .bump fun _ => .atom 32 {}) hfirst
  have htry : tryReading second s = .error e ((after second s).rollback s.checkpoint) := by
    unfold tryReading
    rw [hsecond]
  exact ⟨s, after second s, _, e, hs, hsize, hstack, hsecond, hsize', hdepth, htry,
    (speculation_invisible hs 32).1 (.expr 32 {}) htry⟩

end BlockScript.Desugar
