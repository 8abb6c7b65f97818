import BlockScript.OrderedMap
import BlockScript.Text.Search

/-! Closures cut out of a script, and what is left of the script without them. -/

namespace BlockScript

inductive ClosureBody where
  | block (code : String)
  | expr (code : String)
  deriving DecidableEq, Repr, Inhabited

structure Closure where
  id : String
  line : Nat
  column : Nat
  /-- `none` for a block without a header. -/
  parameters : Option (List String)
  body : ClosureBody
  deriving DecidableEq, Repr, Inhabited

namespace Closure

def text (c : Closure) : String :=
  match c.body with
  | .block code => code
  | .expr code => code

/-- A block without a header configures its target; it takes no arguments. -/
def isBlockForm (c : Closure) : Bool := c.parameters.isNone

/-- Order by the place of the header. -/
def startsBefore (a b : Closure) : Bool :=
  a.line < b.line || (a.line == b.line && a.column ≤ b.column)

end Closure

abbrev ClosureRegistry := OrderedMap String Closure

namespace ClosureRegistry

def register (closures : ClosureRegistry) (c : Closure) : ClosureRegistry :=
  closures.insert c.id c

def sortByPosition (closures : ClosureRegistry) : ClosureRegistry :=
  ⟨closures.entries.mergeSort fun a b => a.2.startsBefore b.2,
    closures.distinct.perm (List.mergeSort_perm _ _).symm fun h => by rwa [BEq.comm]⟩

end ClosureRegistry

/-- A script in plain form: its code, with closures replaced by their ids, and the closures. -/
structure Desugared where
  code : String
  closures : ClosureRegistry
  deriving Inhabited

namespace Desugared

/-- The ids that stand neither in the code nor in another closure. -/
def unreferenced (d : Desugared) : List String :=
  d.closures.keys.filter fun id =>
    !Text.containsWord d.code id &&
      !d.closures.values.any fun c => c.id != id && Text.containsWord c.text id

end Desugared

end BlockScript
