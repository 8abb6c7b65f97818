import BlockScript.Json

/-! Options of a compilation, and how files hold them. -/

namespace BlockScript

structure Options where
  /-- The name of the object through which free names are read and written. -/
  runtimeName : String := "__runtime__"
  /-- Marks the targets of local definitions. -/
  localPrefix : String := "_def_"
  localDefs : Bool := true
  pureNames : List String := []
  /-- Plain code that every compiled module starts with. -/
  preamble : String := ""
  deriving DecidableEq, Repr, Inhabited

def Options.localMark (o : Options) : Option String :=
  if o.localDefs then some o.localPrefix else none

/-! ## Files -/

namespace Options

/-- Why a text holds no options. -/
inductive Fault where
  | malformed
  | emptyName
  deriving DecidableEq, Repr, Inhabited

def Fault.message : Fault → String
  | malformed => "invalid JSON"
  | emptyName => "runtime_name and local_def_prefix must not be empty"

/-- The names of the options. A file may give the values in this order instead. -/
def fieldNames : List String :=
  ["runtime_name", "local_def_prefix", "local_defs", "pure_builtins", "preamble"]

def text? : Json → Option String
  | .str text => text
  | _ => none

def setField (o : Options) (name : String) (v : Json) : Option Options :=
  match name, v with
  | "runtime_name", v => (text? v).map fun s => { o with runtimeName := s }
  | "local_def_prefix", v => (text? v).map fun s => { o with localPrefix := s }
  | "local_defs", .bool b => some { o with localDefs := b }
  | "pure_builtins", .array items =>
    (items.mapM text?).map fun names => { o with pureNames := names }
  | "preamble", v => (text? v).map fun s => { o with preamble := s }
  | name, _ => if fieldNames.contains name then none else some o

/-- The options of an object, where each option is given at most once. -/
def ofMembers (o : Options) (given : List String) : List JsonMember → Option Options
  | [] => some o
  | .mk none _ :: _ => none
  | .mk (some name) v :: rest => do
    if fieldNames.contains name && given.contains name then none
    ofMembers (← o.setField name v) (name :: given) rest

/-- The options of a value; those it does not give have their defaults. -/
def ofJson? : Json → Option Options
  | .object members => ofMembers {} [] members
  | .array items =>
    if items.length ≤ fieldNames.length then
      (fieldNames.zip items).foldlM (fun o (name, v) => o.setField name v) {}
    else none
  | _ => none

def read (text : List Char) : Except Fault Options :=
  match (Json.read? text).bind ofJson? with
  | none => .error .malformed
  | some o => if o.runtimeName.isEmpty || o.localPrefix.isEmpty then .error .emptyName else .ok o

end Options

end BlockScript
