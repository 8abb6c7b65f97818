import BlockScript.Yaml.Node
import BlockScript.Yaml.Value
import BlockScript.Yaml.Token.Scan

/-! What scalars and trees stand for. -/

namespace BlockScript.Yaml

def nullTexts : List String := ["null", "Null", "NULL", "~"]

def bool? (text : String) : Option Bool :=
  if ["true", "True", "TRUE"].contains text then some true
  else if ["false", "False", "FALSE"].contains text then some false
  else none

/-- Whether a text has digits only, after a sign, but a zero in front. It is no number. -/
def isZeroPadded (cs : List Char) : Bool :=
  let digits := match cs with
    | '+' :: cs | '-' :: cs => cs
    | cs => cs
  match digits with
  | '0' :: c :: rest => (c :: rest).all (·.isDigit)
  | _ => false

def marked? : List Char → Option Nat
  | '0' :: 'x' :: digits => Number.natural? 16 digits
  | '0' :: 'o' :: digits => Number.natural? 8 digits
  | '0' :: 'b' :: digits => Number.natural? 2 digits
  | _ => none

def magnitude? (cs : List Char) : Option Nat := (marked? cs).orElse fun _ => Number.natural? 10 cs

def int? (cs : List Char) : Option Int :=
  if isZeroPadded cs then none
  else
    match cs with
    | '+' :: digits => (magnitude? digits).map Int.ofNat
    | '-' :: digits => (magnitude? digits).map fun n => -(n : Int)
    | digits => (magnitude? digits).map Int.ofNat

/-- The number that an integer is. Beyond 128 bits it is no integer any more, and what is beyond 64
bits has no value. -/
inductive IntRange where
  | value (i : Int)
  | unsupported
  | beyond
  deriving DecidableEq, Repr

def IntRange.of (i : Int) : IntRange :=
  if Number.leastInt ≤ i ∧ i < Number.countLimit then .value i
  else if -Int.pow 2 127 ≤ i ∧ i < Int.pow 2 128 then .unsupported
  else .beyond

def float? (cs : List Char) : Option Float :=
  let unsigned := match cs with
    | '+' :: rest => rest
    | cs => cs
  let text := String.ofList cs
  if [".inf", ".Inf", ".INF"].contains (String.ofList unsigned) then some (1.0 / 0.0)
  else if ["-.inf", "-.Inf", "-.INF"].contains text then some (-1.0 / 0.0)
  else if [".nan", ".NaN", ".NAN"].contains text then some (0.0 / 0.0)
  else
    match Number.float? cs with
    | some f => if f.isFinite then some f else none
    | none => none

def plainValue (cs : List Char) : Option Value :=
  let text := String.ofList cs
  if cs.isEmpty || nullTexts.contains text then some .null
  else
    match bool? text, (int? cs).map IntRange.of with
    | some b, _ => some (.bool b)
    | none, some (.value i) => some (.int i)
    | none, some .unsupported => none
    | none, _ =>
      if isZeroPadded cs then some (.str text)
      else some ((float? cs).elim (.str text) .float)

def standardValue (type : String) (cs : List Char) : Option Value :=
  let text := String.ofList cs
  match type with
  | "tag:yaml.org,2002:null" => if nullTexts.contains text then some .null else none
  | "tag:yaml.org,2002:bool" => (bool? text).map .bool
  | "tag:yaml.org,2002:int" =>
    match (int? cs).map IntRange.of with
    | some (.value i) => some (.int i)
    | _ => none
  | "tag:yaml.org,2002:float" => (float? cs).map .float
  | _ => some (.str text)

/-- The name in a tag of the application, which starts with a mark. -/
def ownTag? : List Char → Option String
  | '!' :: octets => String.fromUTF8? ⟨(octets.map (·.toUInt8)).toArray⟩
  | _ => none

/-- Put a value under a tag of the application, which must have a name. -/
def underTag (tag : Option (List Char)) (v : Value) : Option Value :=
  match tag.bind ownTag? with
  | some "" => none
  | some name => some (.tagged name v)
  | none => some v

def scalarValue (tag : Option (List Char)) (isPlain : Bool) (text : List Char) : Option Value :=
  match tag with
  | none => if isPlain then plainValue text else some (.str (String.ofList text))
  | some octets =>
    if octets.head? = some '!' then do
      underTag tag (← if isPlain then plainValue text else some (.str (String.ofList text)))
    else standardValue (String.ofList octets) text

/-- Resolving counts the aliases that it follows, and follows only so many. -/
abbrev Resolve := StateT Nat Option

def follow (anchors : Anchors) (limit : Nat) : Node → Resolve Node
  | .reference id => do
    modify (· + 1)
    if limit < (← get) then failure
    (anchors.node? id : Option Node)
  | node => return node

def hasKey (entries : List Entry) (key : Value) : Bool :=
  entries.any fun | .mk other _ => other.isSame key

/-- The value of a node nested at most `depth` deep. The keys of a mapping are all different. -/
def Node.value (anchors : Anchors) (limit : Nat) : Nat → Node → Resolve Value
  | 0, node => do
    match ← follow anchors limit node with
    | .scalar tag isPlain text => (scalarValue tag isPlain text : Option Value)
    | _ => failure
  | depth + 1, node => do
    match ← follow anchors limit node with
    | .scalar tag isPlain text => (scalarValue tag isPlain text : Option Value)
    | .sequence tag items =>
      let values ← items.mapM (Node.value anchors limit depth)
      (underTag tag (.sequence values) : Option Value)
    | .mapping tag entries =>
      let values ← entries.foldlM (fun done (.mk k v) => do
        let key ← Node.value anchors limit depth k
        if hasKey done key then failure
        return done ++ [.mk key (← Node.value anchors limit depth v)]) []
      (underTag tag (.mapping values) : Option Value)
    | .reference _ => failure

def maxNesting : Nat := 128

def Value.ofTokens? (tokens : List Token) : Option Value := do
  let (node, anchors) ← document? tokens
  let (v, _) ← (node.value anchors (100 * node.weight) maxNesting).run 0
  return v

def Value.ofDocument? (document : List Char) : Option Value := do
  Value.ofTokens? (← tokens? document)

end BlockScript.Yaml
