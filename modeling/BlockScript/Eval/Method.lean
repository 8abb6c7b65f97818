import BlockScript.Format.Spec
import BlockScript.Text.Search
import BlockScript.Value.Sequence
import BlockScript.Eval.Resolve

/-! Methods of strings, lists and dicts, and how a method is called by its name. -/

namespace BlockScript.Evaluator

/-! ## Strings -/

def expectStr (v : Value) (what : String) : Run (List Char) :=
  match v with
  | .str s => return s.toList
  | other => Run.typeError (.notStr what other.typeName)

/-- A count of cuts; a negative one means no limit. -/
def limit? (i : Int64) : Option Nat := if i < 0 then none else some i.toInt.toNat

/-- `strip` and its one-sided forms: without characters, blanks are removed. -/
def strStrip (s : List Char) (start stop : Bool) (chars : Value) : Run Value := do
  let p : Char → Bool ←
    if chars.isNone then pure Text.isBlank
    else do
      let set ← expectStr chars "strip chars"
      pure set.contains
  let s := if start then Text.stripStart p s else s
  return .ofChars (if stop then Text.stripEnd p s else s)

def strSplit (s : List Char) (args : Args) : Run Value := do
  let limit : Option Nat ←
    match (args.keyword? "maxsplit").orElse fun _ => args.get? 1 with
    | some v =>
      match v.asInt? with
      | some i => pure (limit? i)
      | none => Run.typeError .maxsplitNotInt
    | none => pure none
  let sep := ((args.keyword? "sep").orElse fun _ => args.get? 0).getD .none
  let parts ←
    if sep.isNone then
      pure (match limit with
        | some n => Text.wordsUpTo n s
        | none => Text.words s)
    else do
      let sep ← expectStr sep "separator"
      if sep.isEmpty then Run.valueError .emptySeparator
      pure (match limit with
        | some n => Text.splitUpTo sep n s
        | none => Text.split sep s)
  Run.newList (parts.map Value.ofChars)

/-- The texts of items that must all be strings, the first of which has the given index. -/
def expectTexts (index : Nat) : List Value → Run (List (List Char))
  | [] => return []
  | .str s :: rest => return s.toList :: (← expectTexts (index + 1) rest)
  | other :: _ => Run.typeError (.joinItemNotStr index other.typeName)

/-- Whether one of the candidates, which must be strings up to the first hit, satisfies `p`. -/
def anyAffix (what : String) (p : List Char → Bool) : List Value → Run Bool
  | [] => return false
  | v :: rest => do
    let affix ← expectStr v what
    if p affix then return true else anyAffix what p rest

/-- `startswith` and `endswith` take one string or a tuple of them. -/
def strAffix (what : String) (p : List Char → Bool) (candidates : Value) : Run Value := do
  let candidates := match candidates with
    | .tuple _ items => items
    | v => [v]
  return .bool (← anyAffix what p candidates)

def strReplace (s : List Char) (args : Args) : Run Value := do
  let old ← expectStr (args.get 0) "replace argument"
  let new ← expectStr (args.get 1) "replace argument"
  match ((args.get? 2).bind Value.asInt?).bind limit? with
  | some n => return .ofChars (Text.replaceUpTo n old new s)
  | none => return .ofChars (Text.replace old new s)

variable (ev : Evaluator)

def strMethod (s : List Char) (name : String) (args : Args) : Run Value := do
  let check := args.check ("str." ++ name)
  match name with
  | "upper" =>
    check 0 0
    return .ofChars (Text.upper s)
  | "lower" =>
    check 0 0
    return .ofChars (Text.lower s)
  | "strip" =>
    check 0 1
    strStrip s true true (args.get 0)
  | "lstrip" =>
    check 0 1
    strStrip s true false (args.get 0)
  | "rstrip" =>
    check 0 1
    strStrip s false true (args.get 0)
  | "split" => strSplit s args
  | "splitlines" =>
    check 0 0
    Run.newList ((Text.lines s).map Value.ofChars)
  | "join" =>
    check 1 1
    let texts ← expectTexts 0 (← ev.iterate (args.get 0))
    return .ofChars (s.intercalate texts)
  | "startswith" =>
    check 1 1
    strAffix "startswith argument" (·.isPrefixOf s) (args.get 0)
  | "endswith" =>
    check 1 1
    strAffix "endswith argument" (·.isSuffixOf s) (args.get 0)
  | "replace" =>
    check 2 3
    strReplace s args
  | "find" =>
    check 1 1
    let needle ← expectStr (args.get 0) "find argument"
    return (Text.find? needle s).elim (.int (-1)) Value.ofNat
  | "count" =>
    check 1 1
    let needle ← expectStr (args.get 0) "count argument"
    return .ofNat (Text.count needle s)
  | "format" => return .ofChars (← Run.ofExcept (Format.template (← ev.view) s args))
  | _ => Run.fail (.attribute (.missing "str" name))

/-! ## Sorting and choosing by keys that a function computes -/

/-- The key of an item: the item itself unless there is a function. -/
def keyOf (key item : Value) : Run Value :=
  if key.isNone then return item else ev.call key { positional := [item] }

/-- Items sorted by key. Keys are computed before the first comparison. -/
def sorted (items : List Value) (key : Value) (reverse : Bool) : Run (List Value) := do
  let keyed ← items.mapM fun item => return (← ev.keyOf key item, item)
  Run.ofExcept ((← Run.heap).sortKeyed reverse keyed)

/-- The item whose key compares to all others as `keep` says, the first of them; `best` is the best
so far with its key. -/
def extremumFrom (key : Value) (keep : Ordering) :
    Option (Value × Value) → List Value → Run (Option Value)
  | best, [] => return best.map (·.2)
  | none, item :: items => do
    let k ← ev.keyOf key item
    extremumFrom key keep (some (k, item)) items
  | some (bestKey, best), item :: items => do
    let k ← ev.keyOf key item
    if ← Run.ofExcept (isOrdering ((← Run.heap).order k bestKey) keep) then
      extremumFrom key keep (some (k, item)) items
    else extremumFrom key keep (some (bestKey, best)) items

/-! ## Lists -/

def modifyList (r : ListRef) (f : List Value → List Value) : Run Unit :=
  Run.modifyHeap fun h => h.setList r (f (h.list r))

/-- Remove the item at a place, by default the last. -/
def listPop (r : ListRef) (index : Option Value) : Run Value := do
  let items := (← Run.heap).list r
  if items.isEmpty then Run.fail .popFromEmpty
  let i ← match index with
    | some v => Run.ofExcept (Sequence.place items.length v "pop")
    | none => pure (items.length - 1)
  modifyList r (·.eraseIdx i)
  return items[i]?.getD .none

/-- Insert before a place; places beyond the ends mean the ends. -/
def listInsert (r : ListRef) (index v : Value) : Run Value := do
  match index.asInt? with
  | none => Run.typeError .insertIndexNotInt
  | some i =>
    modifyList r fun items =>
      let at_ := if i < 0 then max (i.toInt + items.length) 0 else min i.toInt items.length
      items.insertIdx at_.toNat v
    return .none

def listMethod (r : ListRef) (name : String) (args : Args) : Run Value := do
  let check := args.check ("list." ++ name)
  match name with
  | "append" =>
    check 1 1
    modifyList r (· ++ [args.get 0])
    return .none
  | "extend" =>
    check 1 1
    let extra ← ev.iterate (args.get 0)
    modifyList r (· ++ extra)
    return .none
  | "pop" =>
    check 0 1
    listPop r (args.get? 0)
  | "insert" =>
    check 2 2
    listInsert r (args.get 0) (args.get 1)
  | "index" =>
    check 1 1
    let view ← ev.view
    match (view.heap.list r).findIdx? (view.heap.equals · (args.get 0)) with
    | some i => return .ofNat i
    | none => Run.valueError (.notInList (view.repr (args.get 0)))
  | "count" =>
    check 1 1
    let h ← Run.heap
    return .ofNat ((h.list r).countP (h.equals · (args.get 0)))
  | "remove" =>
    check 1 1
    let h ← Run.heap
    match (h.list r).findIdx? (h.equals · (args.get 0)) with
    | some i =>
      modifyList r (·.eraseIdx i)
      return .none
    | none => Run.valueError .removedNotInList
  | "sort" =>
    let key := (args.keyword? "key").getD .none
    let reverse ← match args.keyword? "reverse" with
      | some v => ev.truthy v
      | none => pure false
    ((args.dropKeyword "key").dropKeyword "reverse").check ("list." ++ name) 0 0
    let items ← ev.sorted ((← Run.heap).list r) key reverse
    modifyList r fun _ => items
    return .none
  | "reverse" =>
    check 0 0
    modifyList r List.reverse
    return .none
  | "copy" =>
    check 0 0
    Run.newList ((← Run.heap).list r)
  | "clear" =>
    check 0 0
    modifyList r fun _ => []
    return .none
  | _ => Run.fail (.attribute (.missing "list" name))

/-! ## Dicts -/

def modifyDict (r : DictRef) (f : Dict → Dict) : Run Unit :=
  Run.modifyHeap fun h => h.setDict r (f (h.dict r))

def pairOf (item : Value) : Run (Key × Value) := do
  match ← ev.iterate item with
  | [k, v] => return (← Run.key k, v)
  | items => Run.valueError (.pairLength items.length)

def pairsOf (v : Value) : Run (List (Key × Value)) := do
  match v with
  | .dict r => return ((← Run.heap).dict r).entries
  | .space r => return ((← Run.heap).space r).entries.map fun (name, v) => (.str name, v)
  | other => (← ev.iterate other).mapM ev.pairOf

/-- The entries that the arguments of a call give: a mapping, and keywords. -/
def pairsOfArgs (function : String) (args : Args) : Run (List (Key × Value)) := do
  if 1 < args.positional.length then
    Run.typeError (.atMostOneArgument function args.positional.length)
  let pairs ← match args.get? 0 with
    | some v => ev.pairsOf v
    | none => pure []
  return pairs ++ args.keywords.map fun (name, v) => (.str name, v)

def dictMethod (r : DictRef) (name : String) (args : Args) : Run Value := do
  let check := args.check ("dict." ++ name)
  match name with
  | "keys" =>
    check 0 0
    Run.newList (← Run.keyValues ((← Run.heap).dict r).keys)
  | "values" =>
    check 0 0
    Run.newList ((← Run.heap).dict r).values
  | "items" =>
    check 0 0
    let d := (← Run.heap).dict r
    let keys ← Run.keyValues d.keys
    Run.newList (← (keys.zip d.values).mapM fun (k, v) => Run.newTuple [k, v])
  | "get" =>
    check 1 2
    let k ← Run.key (args.get 0)
    return (((← Run.heap).dict r).get? k).getD (args.get 1)
  | "update" =>
    let pairs ← ev.pairsOfArgs "update" args
    modifyDict r (·.insertAll pairs)
    return .none
  | "pop" =>
    check 1 2
    let k ← Run.key (args.get 0)
    match ((← Run.heap).dict r).get? k, args.get? 1 with
    | some v, _ =>
      modifyDict r (·.erase k)
      return v
    | none, some default => return default
    | none, none => Run.fail (.key (← ev.repr (args.get 0)))
  | "setdefault" =>
    check 1 2
    let k ← Run.key (args.get 0)
    match ((← Run.heap).dict r).get? k with
    | some v => return v
    | none =>
      modifyDict r (·.insert k (args.get 1))
      return args.get 1
  | "copy" =>
    check 0 0
    Run.newDict ((← Run.heap).dict r)
  | "clear" =>
    check 0 0
    modifyDict r fun _ => .empty
    return .none
  | _ => Run.fail (.attribute (.missing "dict" name))

/-! ## Calls -/

def nameArg (v : Value) : Run String :=
  match v with
  | .str s => return s
  | other => Run.typeError (.nameNotStr other.typeName)

def runtimeMethod (name : String) (args : Args) : Run Value := do
  match name with
  | "__getitem__" | "lookup" =>
    args.check name 1 1
    ev.lookup (← nameArg (args.get 0))
  | "__setitem__" | "set" =>
    args.check name 2 2
    ev.set (← nameArg (args.get 0)) (args.get 1)
    return .none
  | "closure" =>
    args.check name 0 0
    return .native (← Run.fresh) .closureMark
  | "configure_object" =>
    args.check name 2 2
    ev.configureObject (args.get 0) (args.get 1)
  | "call_block" =>
    args.check name 2 2
    ev.callBlock (args.get 0) (args.get 1)
  | "set_object_property" =>
    args.check name 3 3
    let key ← nameArg (args.get 1)
    ev.setProperty (args.get 0) key (args.get 2)
    return .none
  | _ => missing "Runtime" name

def objectMethod (o : ObjectRef) (name : String) (args : Args) : Run Value :=
  match o.kind with
  | .runtime => ev.runtimeMethod name args
  | .host _ => ev.host.callMethod ev.toCalls o name args

def callMethod (receiver : Value) (name : String) (args : Args) : Run Value := do
  match receiver with
  | .object o => ev.objectMethod o name args
  | .inst .. | .cls _ | .space _ => ev.call (← ev.getAttr receiver name) args
  | .str s => ev.strMethod s.toList name args
  | .list r => ev.listMethod r name args
  | .dict r => ev.dictMethod r name args
  | other => missing other.typeName name

end BlockScript.Evaluator
