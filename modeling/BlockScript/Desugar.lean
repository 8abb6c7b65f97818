import BlockScript.Desugar.Statement

/-! Reading a script: block calls, closures, calls without parentheses, local definitions and
plugins become plain code with a registry of closures. -/

namespace BlockScript

namespace Desugar

def Grammar.step (script : Script) (grammar : Grammar) : Grammar where
  expr := readExpr script grammar
  exprTail := readExprTail script grammar
  items := readItems grammar
  dictEntries := readDictEntries script grammar
  simpleStatements := readSimpleStatements script grammar
  inlineStatements := readInlineStatements grammar
  assignments := readAssignments grammar
  block := readBlock script grammar
  statements := readStatements script grammar
  program := readProgram script grammar

def Grammar.ofDepth (script : Script) : Nat → Grammar
  | 0 => .exhausted
  | n + 1 => {
    expr := fun mode => readExpr script (ofDepth script n) mode
    exprTail := fun mode => readExprTail script (ofDepth script n) mode
    items := fun mode => readItems (ofDepth script n) mode
    dictEntries := fun s => readDictEntries script (ofDepth script n) s
    simpleStatements := fun s => readSimpleStatements script (ofDepth script n) s
    inlineStatements := fun s => readInlineStatements (ofDepth script n) s
    assignments := fun s => readAssignments (ofDepth script n) s
    block := fun parent => readBlock script (ofDepth script n) parent
    statements := fun width => readStatements script (ofDepth script n) width
    program := fun s => readProgram script (ofDepth script n) s }

theorem Grammar.ofDepth_succ (script : Script) (n : Nat) :
    Grammar.ofDepth script (n + 1) = (Grammar.ofDepth script n).step script := rfl

def Script.depth (script : Script) : Nat :=
  16 * (script.start.scanner.remaining + 1)

def Script.readTo (script : Script) (n : Nat) : Except (Halt SyntaxError) Desugared :=
  match (Grammar.ofDepth script n).program script.start with
  | .ok code s => .ok ⟨code, s.closures.sortByPosition⟩
  | .error e _ => .error e

end Desugar

/-- The plain form of a script. -/
def desugar (script : Desugar.Script) : Except SyntaxError Desugared :=
  match script.readTo script.depth with
  | .ok d => .ok d
  | .error (.error e) => .error e
  | .error .exhausted => .error (script.errorAt .tooDeep .start)

end BlockScript
