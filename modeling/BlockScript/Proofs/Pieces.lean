import BlockScript.Proofs.Growth

/-! A script in pieces. Reading a script cuts its text into pieces that are copied, pieces for which
other code is written, arguments that get parentheses, and closures that give way to their ids. The
pieces alone determine the code, the closures and their ids. -/

namespace BlockScript.Desugar

open List

inductive Pieces where
  | done
  /-- Text that stands in the code as it stands in the script. -/
  | copied (text : List Char) (rest : Pieces)
  /-- Text for which other code is written. -/
  | replaced (text code : List Char) (rest : Pieces)
  /-- Arguments without parentheses, with the blanks in front of them. -/
  | call (blanks : List Char) (arguments rest : Pieces)
  /-- A closure: its text up to the body, the body, a brace if one was opened. -/
  | closure (opening : List Char) (nonempty : opening ≠ []) (parameters : Option (List String))
      (braced : Bool) (body rest : Pieces)

namespace Pieces

def closing (braced : Bool) : List Char := if braced then ['\x7d'] else []

/-- The text of the script. -/
def source : Pieces → List Char
  | done => []
  | copied text rest => text ++ rest.source
  | replaced text _ rest => text ++ rest.source
  | call blanks arguments rest => blanks ++ (arguments.source ++ rest.source)
  | closure opening _ _ braced body rest =>
    opening ++ (body.source ++ (closing braced ++ rest.source))

def count : Pieces → Nat
  | done => 0
  | copied _ rest | replaced _ _ rest => rest.count
  | call _ arguments rest => arguments.count + rest.count
  | closure _ _ _ _ body rest => body.count + 1 + rest.count

/-- The code written for the pieces inside the closures `stack`, when `n` closures are complete. -/
def code (stack : List String) : Nat → Pieces → List Char
  | _, done => []
  | n, copied text rest => text ++ rest.code stack n
  | n, replaced _ code rest => code ++ rest.code stack n
  | n, call _ arguments rest =>
    '(' :: (arguments.code stack n ++ ')' :: rest.code stack (n + arguments.count))
  | n, closure _ _ _ _ body rest =>
    (closureId stack n).toList ++ rest.code stack (n + (body.count + 1))

def body (braced : Bool) (code : List Char) : ClosureBody :=
  if braced then .block (String.ofList code) else .expr (String.ofList code)

/-- The closures in the order in which they are complete, for pieces that start at `pos`. -/
def closures (stack : List String) : Nat → Position → Pieces → List Closure
  | _, _, done => []
  | n, pos, copied text rest | n, pos, replaced text _ rest =>
    rest.closures stack n (pos.advance text)
  | n, pos, call blanks arguments rest =>
    arguments.closures stack n (pos.advance blanks) ++
      rest.closures stack (n + arguments.count) ((pos.advance blanks).advance arguments.source)
  | n, pos, closure opening _ parameters braced body rest =>
    let id := closureId stack n
    let inside := pos.advance opening
    body.closures (id :: stack) n inside ++
      ⟨id, pos.line, pos.column, parameters, Pieces.body braced (body.code (id :: stack) n)⟩ ::
        rest.closures stack (n + (body.count + 1))
          ((inside.advance body.source).advance (closing braced))

/-- The pieces of a script without plugins. Other code stands only for the keyword of a local
definition, and is its mark; nothing that is left out holds a line break. -/
def Plain (mark? : Option String) : Pieces → Prop
  | done => True
  | copied _ rest => rest.Plain mark?
  | replaced text code rest =>
    ('\n' ∉ text ∧ ∃ mark ∈ mark?, code <+: mark.toList) ∧ rest.Plain mark?
  | call blanks arguments rest => '\n' ∉ blanks ∧ arguments.Plain mark? ∧ rest.Plain mark?
  | closure _ _ parameters _ body rest =>
    (∀ names ∈ parameters, ∀ name ∈ names, Token.IsWord name.toList) ∧ body.Plain mark? ∧
    rest.Plain mark?

def append : Pieces → Pieces → Pieces
  | done, q => q
  | copied text rest, q => copied text (rest.append q)
  | replaced text code rest, q => replaced text code (rest.append q)
  | call blanks arguments rest, q => call blanks arguments (rest.append q)
  | closure opening h parameters braced body rest, q =>
    closure opening h parameters braced body (rest.append q)

theorem source_append (p q : Pieces) : (p.append q).source = p.source ++ q.source := by
  induction p with
  | done => rfl
  | copied _ _ ih | replaced _ _ _ ih | call _ _ _ _ ih | closure _ _ _ _ _ _ _ ih =>
    simp only [append, source, ih, append_assoc]

theorem count_append (p q : Pieces) : (p.append q).count = p.count + q.count := by
  induction p with
  | done => simp [append, count]
  | copied _ _ ih | replaced _ _ _ ih | call _ _ _ _ ih | closure _ _ _ _ _ _ _ ih =>
    simp only [append, count, ih, Nat.add_assoc]

theorem code_append (stack : List String) (n : Nat) (p q : Pieces) :
    (p.append q).code stack n = p.code stack n ++ q.code stack (n + p.count) := by
  induction p generalizing n with
  | done => simp [append, count, code]
  | copied _ _ ih | replaced _ _ _ ih | call _ _ _ _ ih | closure _ _ _ _ _ _ _ ih =>
    simp only [append, count, code, ih, append_assoc, cons_append, Nat.add_assoc]

theorem closures_append (stack : List String) (n : Nat) (pos : Position) (p q : Pieces) :
    (p.append q).closures stack n pos =
      p.closures stack n pos ++ q.closures stack (n + p.count) (pos.advance p.source) := by
  induction p generalizing n pos with
  | done => simp [append, count, closures, source, Position.advance]
  | copied _ _ ih | replaced _ _ _ ih | call _ _ _ _ ih | closure _ _ _ _ _ _ _ ih =>
    simp only [append, count, closures, source, ih, append_assoc, cons_append,
      Nat.add_assoc, Position.advance_append]

theorem Plain.append {mark? : Option String} {p q : Pieces} (hp : p.Plain mark?)
    (hq : q.Plain mark?) : (p.append q).Plain mark? := by
  induction p with
  | done => exact hq
  | copied _ _ ih => exact ih hp
  | replaced _ _ _ ih => exact ⟨hp.1, ih hp.2⟩
  | call _ _ _ _ ih | closure _ _ _ _ _ _ _ ih => exact ⟨hp.1, hp.2.1, ih hp.2.2⟩

theorem length_closures (stack : List String) (n : Nat) (pos : Position) (p : Pieces) :
    (p.closures stack n pos).length = p.count := by
  induction p generalizing stack n pos with
  | done => rfl
  | copied _ _ ih | replaced _ _ _ ih => simp only [closures, count, ih]
  | call _ _ _ iha ih => simp only [closures, count, length_append, iha, ih]
  | closure _ _ _ _ _ _ ihb ih =>
    simp only [closures, count, length_append, length_cons, ihb, ih]
    omega

end Pieces

end BlockScript.Desugar
