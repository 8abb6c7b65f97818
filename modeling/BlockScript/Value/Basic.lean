import BlockScript.Program.Stmt

/-! Values. What can change lives in a heap, and a value refers to it; what cannot is part of the
value. A value that has an identity but no cell of its own carries a number that tells it from
others. -/

namespace BlockScript

open Program

/-! ## Functions that are built in -/

inductive Native where
  | print
  | str
  | repr
  | int
  | float
  | bool
  | list
  | tuple
  | dict
  | space
  | len
  | range
  | enumerate
  | zip
  | sorted
  | reversed
  | min
  | max
  | sum
  | any
  | all
  | abs
  | type
  | isInstance
  | getAttr
  | setAttr
  | hasAttr
  | exceptionInit
  | closureMark
  deriving DecidableEq, Repr, Inhabited

namespace Native

def name : Native → String
  | print => "print"
  | str => "str"
  | repr => "repr"
  | int => "int"
  | float => "float"
  | bool => "bool"
  | list => "list"
  | tuple => "tuple"
  | dict => "dict"
  | space => "namespace"
  | len => "len"
  | range => "range"
  | enumerate => "enumerate"
  | zip => "zip"
  | sorted => "sorted"
  | reversed => "reversed"
  | min => "min"
  | max => "max"
  | sum => "sum"
  | any => "any"
  | all => "all"
  | abs => "abs"
  | type => "type"
  | isInstance => "isinstance"
  | getAttr => "getattr"
  | setAttr => "setattr"
  | hasAttr => "hasattr"
  | exceptionInit => "__init__"
  | closureMark => "closure"

/-- What a function does, for the functions every program can name. -/
def description? : Native → Option String
  | print => some "Write values to the output sink"
  | str => some "String form of a value"
  | repr => some "Quoted, unambiguous form of a value"
  | int => some "Convert to an integer"
  | float => some "Convert to a float ('nan' and 'inf' accepted)"
  | bool => some "Truthiness of a value"
  | list => some "New list from an iterable"
  | tuple => some "New tuple from an iterable"
  | dict => some "New dict from a mapping, pairs or keywords"
  | space => some "Attribute bag from keywords"
  | len => some "Number of items"
  | range => some "List of integers in [start, stop) by step"
  | enumerate => some "(index, item) pairs"
  | zip => some "Tuples of corresponding items"
  | sorted => some "Sorted list, optional key and reverse"
  | reversed => some "Items in reverse order"
  | min => some "Smallest item"
  | max => some "Largest item"
  | sum => some "Sum of items"
  | any => some "Whether any item is truthy"
  | all => some "Whether every item is truthy"
  | abs => some "Absolute value"
  | type => some "Class of a value"
  | isInstance => some "Whether a value is an instance of a class"
  | getAttr => some "Read an attribute, optional default"
  | setAttr => some "Write an attribute"
  | hasAttr => some "Whether an attribute can be read"
  | exceptionInit | closureMark => none

def builtins : List Native :=
  [print, str, repr, int, float, bool, list, tuple, dict, space, len, range, enumerate, zip, sorted,
    reversed, min, max, sum, any, all, abs, type, isInstance, getAttr, setAttr, hasAttr]

def find? (name : String) : Option Native := builtins.find? (·.name == name)

end Native

/-! ## Values -/

structure ListRef where
  index : Nat
  deriving DecidableEq, Repr, Inhabited

structure DictRef where
  index : Nat
  deriving DecidableEq, Repr, Inhabited

structure SpaceRef where
  index : Nat
  deriving DecidableEq, Repr, Inhabited

structure InstanceRef where
  index : Nat
  deriving DecidableEq, Repr, Inhabited

inductive FrameKind where
  | module
  | function
  | closure
  | classBody
  deriving DecidableEq, Repr, Inhabited

structure FrameRef where
  index : Nat
  kind : FrameKind
  deriving DecidableEq, Repr, Inhabited

/-- The frames visible from a place in a program, innermost first. -/
abbrev Env := List FrameRef

inductive ObjectKind where
  /-- The object through which compiled scripts resolve names. -/
  | runtime
  /-- An object of the embedding application, with the name of its type. -/
  | host (typeName : String)
  deriving DecidableEq, Repr, Inhabited

structure ObjectRef where
  index : Nat
  kind : ObjectKind
  deriving DecidableEq, Repr, Inhabited

/-- What a class inherits and its attributes live in the heap. -/
structure Class where
  id : Nat
  name : String
  deriving DecidableEq, Repr, Inhabited

def ObjectRef.typeName (o : ObjectRef) : String :=
  match o.kind with
  | .runtime => "Runtime"
  | .host name => name

mutual

inductive Value where
  | none
  | bool (b : Bool)
  | int (i : Int64)
  | float (f : Float)
  | str (s : String)
  | list (ref : ListRef)
  | tuple (id : Nat) (items : List Value)
  | dict (ref : DictRef)
  | function (f : Function)
  /-- A function that works on a target: its first argument becomes a layer of the scope stack. -/
  | closure (f : Function)
  | native (id : Nat) (fn : Native)
  | method (id : Nat) (receiver : Value) (method : Method)
  | cls (c : Class)
  | inst (ref : InstanceRef) (cls : Class)
  | space (ref : SpaceRef)
  | object (o : ObjectRef)

inductive Function where
  /-- `defaults` holds the values for the last parameters, those that declare a default. -/
  | mk (id : Nat) (name : String) (params : Params) (body : List Stmt) (env : Env)
      (defaults : List Value)

inductive Method where
  | function (f : Function)
  | native (id : Nat) (fn : Native)
  /-- A method that the type of the receiver provides under this name. -/
  | named (name : String)

end

instance : Inhabited Value := ⟨.none⟩

namespace Function

def id : Function → Nat
  | mk id _ _ _ _ _ => id

def name : Function → String
  | mk _ name _ _ _ _ => name

def params : Function → Params
  | mk _ _ params _ _ _ => params

def body : Function → List Stmt
  | mk _ _ _ body _ _ => body

def env : Function → Env
  | mk _ _ _ _ env _ => env

def defaults : Function → List Value
  | mk _ _ _ _ _ defaults => defaults

/-- A call of a function that yields collects what it yields. -/
def isGenerator (f : Function) : Bool := Stmt.areYielding f.body

end Function

namespace Value

def ofChars (cs : List Char) : Value := str (String.ofList cs)

def ofNat (n : Nat) : Value := int (Int64.ofNat n)

def isNone : Value → Bool
  | none => true
  | _ => false

def asStr? : Value → Option String
  | str s => some s
  | _ => Option.none

/-- The integer a value stands for; `True` is one and `False` is zero. -/
def asInt? : Value → Option Int64
  | int i => some i
  | bool b => some (if b then 1 else 0)
  | _ => Option.none

def asFloat? : Value → Option Float
  | float f => some f
  | int i => some i.toFloat
  | bool b => some (if b then 1.0 else 0.0)
  | _ => Option.none

def isNumber : Value → Bool
  | int _ | float _ | bool _ => true
  | _ => false

def typeName : Value → String
  | none => "NoneType"
  | bool _ => "bool"
  | int _ => "int"
  | float _ => "float"
  | str _ => "str"
  | list _ => "list"
  | tuple _ _ => "tuple"
  | dict _ => "dict"
  | function _ | closure _ => "function"
  | native _ _ => "builtin_function"
  | method _ _ _ => "method"
  | cls _ => "type"
  | inst _ c => c.name
  | space _ => "namespace"
  | object o => o.typeName

/-- Identity. Scalars have none, and are the same if they are equal. -/
def isSame : Value → Value → Bool
  | none, none => true
  | bool a, bool b => a == b
  | int a, int b => a == b
  | str a, str b => a == b
  | list a, list b => a == b
  | tuple a _, tuple b _ => a == b
  | dict a, dict b => a == b
  | function a, function b | closure a, closure b => a.id == b.id
  | native a _, native b _ => a == b
  | method a _ _, method b _ _ => a == b
  | cls a, cls b => a.id == b.id
  | inst a _, inst b _ => a == b
  | space a, space b => a == b
  | object a, object b => a == b
  | _, _ => false

end Value

structure Args where
  positional : List Value := []
  keywords : List (String × Value) := []
  deriving Inhabited

namespace Args

def isEmpty (a : Args) : Bool := a.positional.isEmpty && a.keywords.isEmpty

def get? (a : Args) (i : Nat) : Option Value := a.positional[i]?

def get (a : Args) (i : Nat) : Value := (a.get? i).getD .none

def keyword? (a : Args) (name : String) : Option Value :=
  (a.keywords.find? (·.1 == name)).map (·.2)

def dropKeyword (a : Args) (name : String) : Args :=
  { a with keywords := a.keywords.eraseP (·.1 == name) }

def cons (v : Value) (a : Args) : Args := { a with positional := v :: a.positional }

end Args

end BlockScript
