import BlockScript.Number.Binary
import BlockScript.OrderedMap
import BlockScript.Value.Error

/-! Keys of dicts: the values that cannot change. A float that is a small integer is the same key as
that integer. -/

namespace BlockScript

inductive Key where
  | none
  | bool (b : Bool)
  | int (i : Int64)
  | str (s : String)
  | tuple (items : List Key)
  deriving Repr, Inhabited

namespace Key

mutual

def beq : Key → Key → Bool
  | none, none => true
  | bool a, bool b => a == b
  | int a, int b => a == b
  | str a, str b => a == b
  | tuple as, tuple bs => beqAll as bs
  | _, _ => false

def beqAll : List Key → List Key → Bool
  | [], [] => true
  | a :: as, b :: bs => beq a b && beqAll as bs
  | _, _ => false

end

instance : BEq Key := ⟨beq⟩

/-- The integer that a float is, if it is one below `9 * 10 ^ 15` in magnitude. -/
def integral? (f : Float) : Option Int64 :=
  if f.abs < 9.0e15 && Number.isIntegral f then
    (Number.truncate? f).map Int64.ofInt
  else Option.none

mutual

/-- The key that a value is, or the type that is none. -/
def ofValue : Value → Except String Key
  | .none => .ok none
  | .bool b => .ok (bool b)
  | .int i => .ok (int i)
  | .float f =>
    match integral? f with
    | some i => .ok (int i)
    | Option.none => .error "float"
  | .str s => .ok (str s)
  | .tuple _ items => (ofValues items).map tuple
  | v => .error v.typeName

def ofValues : List Value → Except String (List Key)
  | [] => .ok []
  | v :: vs => do
    let k ← ofValue v
    return k :: (← ofValues vs)

end

mutual

/-- The value of a key, where the tuples in it get identities from `next` on; and the next free
identity. -/
def toValue (next : Nat) : Key → Value × Nat
  | none => (.none, next)
  | bool b => (.bool b, next)
  | int i => (.int i, next)
  | str s => (.str s, next)
  | tuple items =>
    let (values, after) := toValues next items
    (.tuple after values, after + 1)

def toValues (next : Nat) : List Key → List Value × Nat
  | [] => ([], next)
  | k :: ks =>
    let (v, after) := toValue next k
    let (vs, last) := toValues after ks
    (v :: vs, last)

end

end Key

abbrev Dict := OrderedMap Key Value

abbrev Attrs := OrderedMap String Value

end BlockScript
