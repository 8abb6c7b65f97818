import BlockScript.Yaml.Token

/-! The tree of a document. -/

namespace BlockScript.Yaml

mutual

/-- A tag is a list of octets. -/
inductive Node where
  | scalar (tag : Option (List Char)) (isPlain : Bool) (text : List Char)
  | sequence (tag : Option (List Char)) (items : List Node)
  | mapping (tag : Option (List Char)) (entries : List NodeEntry)
  | reference (id : Nat)

inductive NodeEntry where
  | mk (key value : Node)

end

instance : Inhabited Node := ⟨.reference 0⟩

namespace Node

def empty : Node := scalar none true []

mutual

/-- The number of nodes, where those with contents count twice. -/
def weight : Node → Nat
  | scalar .. | reference _ => 1
  | sequence _ items => 2 + weights items
  | mapping _ entries => 2 + entryWeights entries

def weights : List Node → Nat
  | [] => 0
  | n :: ns => weight n + weights ns

def entryWeights : List NodeEntry → Nat
  | [] => 0
  | .mk k v :: rest => weight k + weight v + entryWeights rest

end

end Node

/-- What the anchors of a document stand for. An anchor takes as its number the count of names known
before it, so that after a name is used twice, two anchors can have one number; the one that starts
last then stands for both. -/
structure Anchors where
  ids : List (String × Nat) := []
  /-- The place among the anchors of the last one with a number. -/
  places : List (Nat × Nat) := []
  nodes : List (Nat × Node) := []

namespace Anchors

def id? (a : Anchors) (name : String) : Option Nat := a.ids.lookup name

def start (a : Anchors) (name : String) (place : Nat) : Anchors :=
  let id := a.ids.length
  { a with
    ids := (name, id) :: a.ids.filter (·.1 ≠ name)
    places := (id, place) :: a.places }

def node? (a : Anchors) (id : Nat) : Option Node :=
  (a.places.lookup id).bind fun place => a.nodes.lookup place

end Anchors

structure Reading where
  tokens : List Token
  handles : List (String × List Char) := []
  anchors : Anchors := {}
  anchorCount : Nat := 0

abbrev Read := StateT Reading Option

namespace Read

def peek : Read Token := return (← get).tokens.headD .streamEnd

def next : Read Unit := modify fun r => { r with tokens := r.tokens.tail }

/-- Pass over a token if it is the next one. -/
def accept (t : Token) : Read Bool := do
  if (← peek) = t then
    next
    return true
  else return false

def expect (t : Token) : Read Unit := do
  if (← peek) = t then next else failure

def resolveTag (handle : String) (suffix : List Char) : Read (List Char) := do
  if handle.isEmpty then return suffix
  match (← get).handles.lookup handle with
  | some start => return start ++ suffix
  | none => failure

def tag? : Read (Option (List Char)) := do
  match ← peek with
  | .tag handle suffix =>
    next
    return some (← resolveTag handle suffix)
  | _ => return none

def anchor? : Read (Option String) := do
  match ← peek with
  | .anchor name =>
    next
    return some name
  | _ => return none

def properties : Read (Option (List Char) × Option String) := do
  match ← tag? with
  | some tag => return (some tag, ← anchor?)
  | none =>
    match ← anchor? with
    | some name => return (← tag?, some name)
    | none => return (none, none)

def anchored (name : Option String) (p : Read Node) : Read Node := do
  match name with
  | none => p
  | some name =>
    let place := (← get).anchorCount
    modify fun r =>
      { r with anchors := r.anchors.start name place, anchorCount := place + 1 }
    let node ← p
    modify fun r =>
      { r with anchors := { r.anchors with nodes := (place, node) :: r.anchors.nodes } }
    return node

/-- A scalar. The tag that is a mark alone says nothing about it. -/
def scalar (tag : Option (List Char)) (isPlain : Bool) (text : List Char) : Node :=
  .scalar (if tag = some ['!'] then none else tag) isPlain text

inductive Place where
  | flow
  | block
  /-- The value or key of a block mapping, where a sequence needs no indentation. -/
  | blockEntry
  deriving DecidableEq, Repr

def emptyUnless (stops : List Token) (p : Read Node) : Read Node := do
  if stops.contains (← peek) then return .empty else p

mutual

/-- Read a node. The first argument bounds the recursion. -/
def node : Nat → Place → Read Node
  | 0, _ => failure
  | n + 1, place => do
    match ← peek with
    | .reference name =>
      next
      match (← get).anchors.id? name with
      | some id => return .reference id
      | none => failure
    | _ =>
      let (tag, name) ← properties
      anchored name (content n place tag name.isSome)

def content : Nat → Place → Option (List Char) → Bool → Read Node
  | 0, _, _, _ => failure
  | n + 1, place, tag, hasAnchor => do
    match ← peek, place with
    | .item, .blockEntry => return .sequence tag (← plainItems n)
    | .scalar isPlain text, _ =>
      next
      return scalar tag isPlain text
    | .flowSequence, _ =>
      next
      return .sequence tag (← flowItems n true)
    | .flowMapping, _ =>
      next
      return .mapping tag (← flowEntries n true)
    | .blockSequence, .block | .blockSequence, .blockEntry =>
      next
      return .sequence tag (← blockItems n)
    | .blockMapping, .block | .blockMapping, .blockEntry =>
      next
      return .mapping tag (← blockEntries n)
    | _, _ => if tag.isSome || hasAnchor then return .scalar tag true [] else failure

def blockItems : Nat → Read (List Node)
  | 0 => failure
  | n + 1 => do
    if ← accept .item then
      let item ← emptyUnless [.item, .blockEnd] (node n .block)
      return item :: (← blockItems n)
    else
      expect .blockEnd
      return []

def plainItems : Nat → Read (List Node)
  | 0 => failure
  | n + 1 => do
    if ← accept .item then
      let item ← emptyUnless [.item, .key, .value, .blockEnd] (node n .block)
      return item :: (← plainItems n)
    else return []

def blockEntries : Nat → Read (List NodeEntry)
  | 0 => failure
  | n + 1 => do
    let stops := [Token.key, .value, .blockEnd]
    if ← accept .key then
      let key ← emptyUnless stops (node n .blockEntry)
      let value ← if ← accept .value then emptyUnless stops (node n .blockEntry) else pure .empty
      return .mk key value :: (← blockEntries n)
    else
      expect .blockEnd
      return []

/-- The items of a flow sequence, and its end. A key makes an item a mapping of one entry. -/
def flowItems : Nat → Bool → Read (List Node)
  | 0, _ => failure
  | n + 1, first => do
    if ← accept .flowSequenceEnd then return []
    if !first then expect .comma
    if ← accept .flowSequenceEnd then return []
    let item ← if ← accept .key then pairItem n else node n .flow
    return item :: (← flowItems n false)

/-- A mapping of one entry after its key mark. Where no key is written, the token there is passed
over. -/
def pairItem : Nat → Read Node
  | 0 => failure
  | n + 1 => do
    let key ←
      if [Token.value, .comma, .flowSequenceEnd].contains (← peek) then do
        next
        pure .empty
      else node n .flow
    let value ←
      if ← accept .value then emptyUnless [.comma, .flowSequenceEnd] (node n .flow)
      else pure .empty
    return .mapping none [.mk key value]

def flowEntries : Nat → Bool → Read (List NodeEntry)
  | 0, _ => failure
  | n + 1, first => do
    if ← accept .flowMappingEnd then return []
    if !first then expect .comma
    if ← accept .flowMappingEnd then return []
    let stops := [Token.comma, .flowMappingEnd]
    let entry ←
      if ← accept .key then do
        let key ← emptyUnless (.value :: stops) (node n .flow)
        let value ← if ← accept .value then emptyUnless stops (node n .flow) else pure .empty
        pure (NodeEntry.mk key value)
      else do pure (.mk (← node n .flow) .empty)
    return entry :: (← flowEntries n false)

end

def standardHandles : List (String × List Char) :=
  [("!", ['!']), ("!!", "tag:yaml.org,2002:".toList)]

/-- Read the directives of a document: versions that are understood, given once, and handles. -/
def directives (hasVersion : Bool) : List Token → Option (List (String × List Char) × List Token)
  | .version major minor :: rest =>
    if hasVersion || major ≠ 1 || (minor ≠ 1 && minor ≠ 2) then none else directives true rest
  | .tagHandle handle start :: rest => do
    let (handles, rest) ← directives hasVersion rest
    if (handles.lookup handle).isSome then none else some ((handle, start) :: handles, rest)
  | rest => some ([], rest)

def root (bound : Nat) : Read Node := do
  let (handles, rest) ← (directives false (← get).tokens : Option _)
  let isExplicit := rest ≠ (← get).tokens || rest.head? = some .documentStart
  let added := standardHandles.filter fun (handle, _) => (handles.lookup handle).isNone
  modify fun r => { r with tokens := rest, handles := handles ++ added }
  if isExplicit then
    expect .documentStart
    match ← peek with
    | .version .. | .tagHandle .. | .documentStart | .documentEnd | .streamEnd => return .empty
    | _ => node bound .block
  else node bound .block

end Read

/-- The node of a text that holds one document, with what its anchors stand for. A text without
tokens is a document, too. -/
def document? (tokens : List Token) : Option (Node × Anchors) :=
  if tokens = [.streamEnd] then some (.empty, {})
  else do
    let (node, r) ← (Read.root (2 * tokens.length + 2)).run { tokens }
    if r.tokens.dropWhile (· = .documentEnd) = [.streamEnd] then some (node, r.anchors) else none

end BlockScript.Yaml
