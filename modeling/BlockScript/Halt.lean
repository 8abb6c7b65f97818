/-! How a computation ends without a result: by an error of its domain, or because a bound was too
small, on its recursion or on numbers that it does not check. -/

namespace BlockScript

inductive Halt (ε : Type) where
  | error (e : ε)
  /-- A bound ran out; nothing is known about the input. -/
  | exhausted
  deriving Repr, DecidableEq, Inhabited

end BlockScript
