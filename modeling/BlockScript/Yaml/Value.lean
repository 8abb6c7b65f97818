import BlockScript.Number.Binary
import BlockScript.Text.Escaped

/-! The values of documents, and the expressions that evaluate to them. -/

namespace BlockScript.Yaml

mutual

inductive Value where
  | null
  | bool (b : Bool)
  /-- From the least signed to the greatest unsigned number of 64 bits. -/
  | int (i : Int)
  | float (f : Float)
  | str (s : String)
  | sequence (items : List Value)
  | mapping (entries : List Entry)
  | tagged (tag : String) (v : Value)

inductive Entry where
  | mk (key value : Value)

end

instance : Inhabited Value := ⟨.null⟩

namespace Value

mutual

/-- Whether two values are the same as keys. There is one undefined number. -/
def isSame : Value → Value → Bool
  | null, null => true
  | bool a, bool b => a == b
  | int a, int b => a == b
  | float a, float b => a == b || (a.isNaN && b.isNaN)
  | str a, str b => a == b
  | sequence as, sequence bs => areSame as bs
  | mapping as, mapping bs => as.length == bs.length && areEntriesOf bs as
  | tagged s a, tagged t b => s == t && isSame a b
  | _, _ => false

def areSame : List Value → List Value → Bool
  | [], [] => true
  | a :: as, b :: bs => isSame a b && areSame as bs
  | _, _ => false

/-- Whether each entry is one of `others`; the order of entries does not matter. -/
def areEntriesOf (others : List Entry) : List Entry → Bool
  | [] => true
  | .mk k v :: rest =>
    (others.any fun | .mk k' v' => isSame k k' && isSame v v') && areEntriesOf others rest

end

/-- An integer as an expression. Those out of the range of signed numbers are floating-point. -/
def intLiteral (i : Int) : String :=
  if i ≤ Number.greatestInt then toString i else Number.literal (UInt64.ofNat i.toNat).toFloat

mutual

/-- An expression that evaluates to the value. Tags are dropped. -/
def literal : Value → String
  | null => "None"
  | bool true => "True"
  | bool false => "False"
  | int i => intLiteral i
  | float f => Number.literal f
  | str s => Text.quoteLiteral s
  | sequence items => "[" ++ ", ".intercalate (literals items) ++ "]"
  | mapping entries => "\x7b" ++ ", ".intercalate (entryLiterals entries) ++ "\x7d"
  | tagged _ v => literal v

def literals : List Value → List String
  | [] => []
  | v :: vs => literal v :: literals vs

def entryLiterals : List Entry → List String
  | [] => []
  | .mk k v :: rest => (literal k ++ ": " ++ literal v) :: entryLiterals rest

end

end Value

end BlockScript.Yaml
