import BlockScript.Text.Escaped
import BlockScript.Machine.Equality

/-! Values as text. A container that is part of itself is shown as an ellipsis where it comes up
again. -/

namespace BlockScript

/-- A part of the text of an object. -/
inductive Piece where
  | text (s : String)
  | value (v : Value)
  deriving Inhabited

inductive Container where
  | list (r : ListRef)
  | dict (r : DictRef)
  | space (r : SpaceRef)
  deriving DecidableEq, Repr

namespace Key

mutual

def repr : Key → String
  | none => "None"
  | bool true => "True"
  | bool false => "False"
  | int i => toString i.toInt
  | str s => Text.quoteValue s
  | tuple [only] => "(" ++ repr only ++ ",)"
  | tuple items => "(" ++ ", ".intercalate (reprAll items) ++ ")"

def reprAll : List Key → List String
  | [] => []
  | k :: ks => repr k :: reprAll ks

end

end Key

namespace Value

mutual

/-- The text of a value where tuples are shown item by item, and all else by `leaf`. Strings are
quoted if `quoted` is set, and always inside tuples. -/
def showBy (leaf : Bool → Value → String) (quoted : Bool) : Value → String
  | tuple _ [only] => "(" ++ showBy leaf true only ++ ",)"
  | tuple _ items => "(" ++ ", ".intercalate (showAllBy leaf items) ++ ")"
  | v => leaf quoted v

def showAllBy (leaf : Bool → Value → String) : List Value → List String
  | [] => []
  | v :: vs => showBy leaf true v :: showAllBy leaf vs

end

end Value

def Method.name : Method → String
  | function f => f.name
  | native _ fn => fn.name
  | named name => name

def bracketed (start : String) (items : List String) (stop : String) : String :=
  start ++ ", ".intercalate items ++ stop

namespace Heap

/-- The text of a value through chains of at most `n` cells, inside the containers `active`. -/
def showTo (h : Heap) (pieces : ObjectRef → List Piece) :
    Nat → List Container → Bool → Value → String
  | 0, _, _, _ => "..."
  | n + 1, active, quoted, v => v.showBy (fun
    | _, .none => "None"
    | _, .bool true => "True"
    | _, .bool false => "False"
    | _, .int i => toString i.toInt
    | _, .float f => Number.valueText f
    | quoted, .str s => if quoted then Text.quoteValue s else s
    | _, .list r =>
      if active.contains (.list r) then "[...]"
      else bracketed "[" ((h.list r).map (h.showTo pieces n (.list r :: active) true)) "]"
    | _, .dict r =>
      if active.contains (.dict r) then "\x7b...\x7d"
      else
        bracketed "\x7b" ((h.dict r).entries.map fun (k, v) =>
          k.repr ++ ": " ++ h.showTo pieces n (.dict r :: active) true v) "\x7d"
    | _, .space r =>
      if active.contains (.space r) then "namespace(...)"
      else
        bracketed "namespace(" ((h.space r).entries.map fun (k, v) =>
          k ++ "=" ++ h.showTo pieces n (.space r :: active) true v) ")"
    | _, .function f => "<function " ++ f.name ++ ">"
    | _, .closure f => "<closure " ++ f.name ++ ">"
    | _, .native _ fn => "<built-in function " ++ fn.name ++ ">"
    | _, .method _ receiver m => "<bound method " ++ receiver.typeName ++ "." ++ m.name ++ ">"
    | _, .cls c => "<class '" ++ c.name ++ "'>"
    | _, .inst r c =>
      match (h.inst r).get? "message", h.classAttr? c "__exception__" with
      | some message, some _ => h.showTo pieces n active false message
      | _, _ => "<" ++ c.name ++ " object>"
    | _, .object o => String.join ((pieces o).map fun
      | .text s => s
      | .value v => h.showTo pieces n active true v)
    | _, .tuple .. => "") quoted

/-- A bound for the chains that a text follows: a container comes up once, with each of the other
cells at most once between two containers. -/
def chainLimit (h : Heap) : Nat := (h.size + 1) * (h.size + 1)

def display (h : Heap) (pieces : ObjectRef → List Piece) (v : Value) : String :=
  h.showTo pieces h.chainLimit [] false v

def repr (h : Heap) (pieces : ObjectRef → List Piece) (v : Value) : String :=
  h.showTo pieces h.chainLimit [] true v

end Heap

/-! ## What can be told of values at a moment of a run -/

structure View where
  heap : Heap
  /-- How the objects of the embedding application look. -/
  pieces : ObjectRef → List Piece

namespace View

def display (view : View) (v : Value) : String := view.heap.display view.pieces v

def repr (view : View) (v : Value) : String := view.heap.repr view.pieces v

def truthy (view : View) : Value → Bool
  | .none => false
  | .bool b => b
  | .int i => i != 0
  | .float f => f != 0.0
  | .str s => !s.isEmpty
  | .list r => !(view.heap.list r).isEmpty
  | .tuple _ items => !items.isEmpty
  | .dict r => !(view.heap.dict r).isEmpty
  | _ => true

end View

end BlockScript
