import BlockScript.Eval.Method
import BlockScript.Proofs.Alike.Resolve

/-! Methods of values that are alike. -/

namespace BlockScript

open Program List

variable {S : Pairing} {w : World}

/-! ## Keys -/

namespace Key

theorem ofValue_eq {v v' : Value} (hv : v.Alike S w v') : ofValue v' = ofValue v := by
  refine Value.Alike.Hereditary.all (P := fun v v' => ofValue v' = ofValue v)
    ⟨fun {_ _ items items'} _ h hs => ?_, fun hv hnot => ?_⟩ hv
  · have hall : ofValues items' = ofValues items := by
      clear h
      induction hs with
      | nil => rfl
      | cons hv _ ih => rw [ofValues, ofValues, hv, ih]
    rw [ofValue, ofValue, hall]
  · cases hv <;> first
      | rfl
      | exact (hnot _ _ rfl).elim

/-- What two runs make with fresh identities, and the identities they give out next. -/
def MadeAlike {α : Type} (w : World) (Q : World → α → α → Prop) (made made' : α × Nat) : Prop :=
  ∃ w', w ≤ w' ∧ w'.frames = w.frames ∧ w'.first = made.2 ∧ w'.second = made'.2 ∧
    Q w' made.1 made'.1

theorem MadeAlike.now {α : Type} {Q : World → α → α → Prop} {a a' : α} (h : Q w a a') :
    MadeAlike w Q (a, w.first) (a', w.second) := ⟨w, w.le_refl, rfl, rfl, rfl, h⟩

mutual

theorem toValue_alike (w : World) : ∀ k : Key,
    MadeAlike w (Value.Alike S) (toValue w.first k) (toValue w.second k)
  | .none => .now .none
  | .bool b => .now (.bool b)
  | .int i => .now (.int i)
  | .str s => .now (.str s)
  | .tuple items => by
    obtain ⟨w', hw, hframes, hfirst, hsecond, hitems⟩ := toValues_alike w items
    rw [toValue, toValue]
    refine ⟨w'.next, World.le_trans hw w'.le_next, hframes, congrArg (· + 1) hfirst,
      congrArg (· + 1) hsecond, .tuple ?_ (Value.Alike.mono_all w'.le_next hitems)⟩
    rw [← hfirst, ← hsecond]
    exact w'.ids_next

theorem toValues_alike (w : World) : ∀ ks : List Key,
    MadeAlike w (Values.Alike S) (toValues w.first ks) (toValues w.second ks)
  | [] => .now .nil
  | k :: ks => by
    obtain ⟨w1, hw1, hframes1, hfirst1, hsecond1, hv⟩ := toValue_alike w k
    obtain ⟨w2, hw2, hframes2, hfirst2, hsecond2, hvs⟩ := toValues_alike w1 ks
    rw [toValues, toValues]
    dsimp only
    rw [← hfirst1, ← hsecond1]
    exact ⟨w2, World.le_trans hw1 hw2, hframes2.trans hframes1, hfirst2, hsecond2,
      .cons (hv.mono hw2) hvs⟩

end

end Key

namespace Run

theorem ReadAlike.key {v v' : Value} (hv : v.Alike S w v') :
    Run.ReadAlike S w Eq (Run.key v) (Run.key v') := by
  rw [Run.key, Run.key, Key.ofValue_eq hv]
  split
  · exact .pure rfl
  · exact .fail rfl

theorem Alike.keyValues (keys : List Key) :
    Run.Alike S w (Values.Alike S) (Run.keyValues keys) (Run.keyValues keys) := by
  intro m m' hm
  obtain ⟨w', hw, hframes, hfirst, hsecond, hvs⟩ := Key.toValues_alike (S := S) w keys
  have hheap := hm.heap.later hw hframes
  rw [hfirst, hsecond, ← hm.heap.fresh, ← hm.heap.fresh'] at hheap
  rw [← hm.heap.fresh, ← hm.heap.fresh'] at hvs
  exact .ok hw (hm.withHeap hw hheap) hvs

end Run

/-! ## Places in sequences -/

variable {index index' : Value} {items items' vs vs' : List Value}

namespace Sequence

theorem place_alike (hi : index.Alike S w index') (length : Nat) (container : String) :
    ExceptAlike S w Eq (place length index container) (place length index' container) := by
  rw [place, place, hi.asInt?_eq, hi.typeName_eq]
  cases index.asInt? with
  | none => exact .error (.same rfl)
  | some i =>
    dsimp only
    generalize (if i < 0 then i.toInt + length else i.toInt : Int) = at_
    split
    · exact .error (.same rfl)
    · exact .ok rfl

theorem slicePlaces_plain (length : Nat) (lower upper step : Option Int64) :
    Except.IsPlain (slicePlaces length lower upper step) := by
  unfold slicePlaces
  dsimp only
  split
  · exact .error rfl
  · exact .ok _

theorem slice_alike (hitems : Values.Alike S w items items') (lower upper step : Option Int64) :
    ExceptAlike S w (Option.Rel (Values.Alike S w)) (slice items lower upper step)
      (slice items' lower upper step) := by
  rw [slice, slice, hitems.length_eq]
  refine .bind (.of_eq rfl (slicePlaces_plain ..)) fun places _ hplaces => .ok ?_
  subst hplaces
  cases places with
  | none => exact .none
  | some places =>
    refine .some (rel_filterMap (R := Eq) ?_ (forall₂_refl _))
    rintro i _ rfl
    dsimp only
    rw [getElem?_toArray, getElem?_toArray]
    exact rel_getElem? hitems i

end Sequence

namespace Evaluator

variable {v v' : Value} {args args' : Args}

/-! ## Strings -/

theorem expectStr_read (hv : v.Alike S w v') (what : String) :
    Run.ReadAlike S w Eq (expectStr v what) (expectStr v' what) := by
  cases hv with
  | str s => exact .pure rfl
  | _ => exact .fail rfl

theorem strStrip_alike (s : List Char) (start stop : Bool) (hv : v.Alike S w v') :
    Run.ValueAlike S w (strStrip s start stop v) (strStrip s start stop v') := by
  unfold strStrip
  rw [hv.isNone_eq]
  refine .ite (fun _ => .bind_eq (.pure rfl) fun _ _ _ => .pure (Value.Alike.str _)) fun _ => ?_
  exact .read_bind_eq (expectStr_read hv _) fun set =>
    .bind_eq (.pure rfl) fun _ _ _ => .pure (Value.Alike.str _)

theorem alike_ofChars (parts : List (List Char)) :
    Values.Alike S w (parts.map Value.ofChars) (parts.map Value.ofChars) :=
  forall₂_map_left_iff.2 (forall₂_map_right_iff.2 (forall₂_same.2 fun _ _ => .str _))

theorem strSplit_alike (s : List Char) (ha : args.Alike S w args') :
    Run.ValueAlike S w (strSplit s args) (strSplit s args') := by
  unfold strSplit
  dsimp only
  have hlimit := (ha.keyword? "maxsplit").orElse (ha.get? 1)
  generalize (args.keyword? "maxsplit").orElse (fun _ => args.get? 1) = limit,
    (args'.keyword? "maxsplit").orElse (fun _ => args'.get? 1) = limit' at hlimit
  have hsep := ((ha.keyword? "sep").orElse (ha.get? 0)).getD Value.Alike.none
  generalize ((args.keyword? "sep").orElse fun _ => args.get? 0).getD .none = sep,
    ((args'.keyword? "sep").orElse fun _ => args'.get? 0).getD .none = sep' at hsep
  have hparts : ∀ w (parts : List (List Char)), Run.ValueAlike S w
      (Run.newList (parts.map Value.ofChars)) (Run.newList (parts.map Value.ofChars)) :=
    fun w parts => .newList (alike_ofChars parts)
  -- A limit that is no integer is refused; with any limit, both runs split alike.
  cases hlimit
  case' none => refine .bind_eq (.pure rfl) fun w' hw limit => ?_
  case' some hv =>
    dsimp only
    rw [hv.asInt?_eq]
    split
    case' h_2 => exact .fail_bind (.same rfl)
    case' h_1 => refine .bind_eq (.pure rfl) fun w' hw limit => ?_
  all_goals
    rw [hsep.isNone_eq]
    refine .ite (fun _ => .bind_eq (.pure rfl) fun w parts => hparts w) fun _ => ?_
    refine .read_bind_eq (expectStr_read (hsep.mono hw) _) fun text => ?_
    refine .ite (fun _ => .fail_bind (.same rfl)) fun _ => ?_
    exact .bind_eq (.pure rfl) fun w _ => hparts w

theorem expectTexts_alike (hvs : Values.Alike S w vs vs') (index : Nat) :
    Run.EqAlike S w (expectTexts index vs) (expectTexts index vs') := by
  induction hvs generalizing index with
  | nil => exact .pure rfl
  | cons hv _ ih =>
    cases hv with
    | str s => exact .bind_eq (ih (index + 1)) fun _ _ _ => .pure rfl
    | _ => exact .typeError _

theorem anyAffix_alike (hvs : Values.Alike S w vs vs') (what : String) (p : List Char → Bool) :
    Run.EqAlike S w (anyAffix what p vs) (anyAffix what p vs') := by
  induction hvs with
  | nil => exact .pure rfl
  | cons hv _ ih =>
    exact .read_bind_eq (expectStr_read hv what) fun affix => .ite (fun _ => .pure rfl) fun _ => ih

theorem strAffix_alike (hv : v.Alike S w v') (what : String) (p : List Char → Bool) :
    Run.ValueAlike S w (strAffix what p v) (strAffix what p v') := by
  refine .bind_eq (anyAffix_alike ?_ what p) fun _ _ b => .pure (.bool b)
  cases hv with
  | tuple _ hitems => exact hitems
  | _ => exact .cons (by constructor <;> assumption) .nil

theorem strReplace_alike (s : List Char) (ha : args.Alike S w args') :
    Run.ValueAlike S w (strReplace s args) (strReplace s args') := by
  refine .read_bind_eq (expectStr_read (ha.get 0) _) fun old => ?_
  refine .read_bind_eq (expectStr_read (ha.get 1) _) fun new => ?_
  have hcount : ((args'.get? 2).bind Value.asInt?).bind limit? =
      ((args.get? 2).bind Value.asInt?).bind limit? := by
    match args.get? 2, args'.get? 2, ha.get? 2 with
    | _, _, .none => rfl
    | _, _, .some hv => exact congrArg (Option.bind · limit?) hv.asInt?_eq
  rw [hcount]
  split
  · exact .pure (.str _)
  · exact .pure (.str _)

end Evaluator

namespace Evaluator.Alike

variable {ev ev' : Evaluator} {v v' : Value} {args args' : Args}

theorem strMethod (he : ev.Alike S ev') (s : List Char) (name : String)
    (ha : args.Alike S w args') :
    Run.ValueAlike S w (ev.strMethod s name args) (ev'.strMethod s name args') := by
  unfold Evaluator.strMethod
  dsimp only
  split
  · exact ha.checked (.pure (.str _))
  · exact ha.checked (.pure (.str _))
  · exact ha.checked (strStrip_alike _ _ _ (ha.get 0))
  · exact ha.checked (strStrip_alike _ _ _ (ha.get 0))
  · exact ha.checked (strStrip_alike _ _ _ (ha.get 0))
  · exact strSplit_alike s ha
  · exact ha.checked (.newList (alike_ofChars _))
  · refine ha.checked (.bind (he.iterate (ha.get 0)) fun _ _ items items' hitems => ?_)
    exact .bind_eq (expectTexts_alike hitems 0) fun _ _ _ => .pure (.str _)
  · exact ha.checked (strAffix_alike (ha.get 0) _ _)
  · exact ha.checked (strAffix_alike (ha.get 0) _ _)
  · exact ha.checked (strReplace_alike s ha)
  · refine ha.checked (.read_bind_eq (expectStr_read (ha.get 0) _) fun needle => ?_)
    cases Text.find? needle s with
    | none => exact .pure (.int _)
    | some i => exact .pure (.int _)
  · exact ha.checked (.read_bind_eq (expectStr_read (ha.get 0) _) fun needle => .pure (.int _))
  · refine .read_bind he.view_read fun _ _ hview => ?_
    exact .read_bind_eq (.ofExcept (Format.template_alike hview ha s)) fun _ => .pure (.str _)
  · exact .fail_same rfl

/-! ## Lists -/

variable {key key' : Value}

theorem keyOf (he : ev.Alike S ev') (hk : key.Alike S w key') (hv : v.Alike S w v') :
    Run.ValueAlike S w (ev.keyOf key v) (ev'.keyOf key' v') := by
  rw [Evaluator.keyOf, Evaluator.keyOf, hk.isNone_eq]
  exact .ite (fun _ => .pure hv) fun _ => he.call hk (.of_positional (.cons hv .nil))

theorem sorted (he : ev.Alike S ev') (hitems : Values.Alike S w items items')
    (hk : key.Alike S w key') (reverse : Bool) :
    Run.Alike S w (Values.Alike S) (ev.sorted items key reverse)
      (ev'.sorted items' key' reverse) := by
  refine .bind (.mapM World.mono_value (mono_pair (S := S)) hitems fun w' hw v v' hv => ?_)
    fun w' hw keyed keyed' hkeyed => ?_
  · exact .bind (he.keyOf (hk.mono hw) hv) fun _ hw' _ _ hkey => .pure ⟨hkey, hv.mono hw'⟩
  · exact .heap_bind fun h h' hh => .ofExcept (hh.sortKeyed_alike reverse hkeyed)

theorem extremumFrom (he : ev.Alike S ev') (hk : key.Alike S w key')
    (keep : Ordering) {best best' : Option (Value × Value)}
    (hbest : Option.Rel (PairAlike S w) best best') (hitems : Values.Alike S w items items') :
    Run.Alike S w (fun w => Option.Rel (Value.Alike S w)) (ev.extremumFrom key keep best items)
      (ev'.extremumFrom key' keep best' items') := by
  induction items generalizing w best best' items' with
  | nil =>
    cases hitems
    cases hbest with
    | none => exact .pure .none
    | some h => exact .pure (.some h.2)
  | cons item items ih =>
    obtain ⟨item', items', hitem, hrest, rfl⟩ := forall₂_cons_left_iff.1 hitems
    cases hbest with
    | none =>
      unfold Evaluator.extremumFrom
      refine .bind (he.keyOf hk hitem) fun w1 hw k k' hkey => ?_
      exact ih (hk.mono hw) (.some ⟨hkey, hitem.mono hw⟩) (Value.Alike.mono_all hw hrest)
    | @some e e' hbest =>
      obtain ⟨bestKey, best⟩ := e
      obtain ⟨bestKey', best'⟩ := e'
      unfold Evaluator.extremumFrom
      refine .bind (he.keyOf hk hitem) fun w1 hw k k' hkey => .heap_bind fun h h' hh => ?_
      refine .read_bind_eq (.ofExcept
        (isOrdering_agree (hh.order_agree hkey (hbest.1.mono hw)) keep))
        fun ordered => .ite (fun _ => ?_) fun _ => ?_
      · exact ih (hk.mono hw) (.some ⟨hkey, hitem.mono hw⟩) (Value.Alike.mono_all hw hrest)
      · exact ih (hk.mono hw) (.some ⟨hbest.1.mono hw, hbest.2.mono hw⟩)
          (Value.Alike.mono_all hw hrest)

end Evaluator.Alike

namespace Evaluator

variable {v v' : Value} {args args' : Args}

theorem modifyList_alike (r : ListRef) {f f' : List Value → List Value}
    (hf : ∀ vs vs', Values.Alike S w vs vs' → Values.Alike S w (f vs) (f' vs')) :
    Run.EqAlike S w (modifyList r f) (modifyList r f') :=
  .modifyHeap rfl fun _ _ hh => hh.setList r (hf _ _ (hh.list r))

theorem modifyDict_alike (r : DictRef) {f f' : Dict → Dict}
    (hf : ∀ d d', MapAlike S w d d' → MapAlike S w (f d) (f' d')) :
    Run.EqAlike S w (modifyDict r f) (modifyDict r f') :=
  .modifyHeap rfl fun _ _ hh => hh.setDict r (hf _ _ (hh.dict r))

theorem eraseIdx_alike (h : Values.Alike S w vs vs') (i : Nat) :
    Values.Alike S w (vs.eraseIdx i) (vs'.eraseIdx i) := by
  induction h generalizing i with
  | nil => exact .nil
  | cons hv hvs ih =>
    cases i with
    | zero => exact hvs
    | succ i => exact .cons hv (ih i)

theorem insertIdx_alike (h : Values.Alike S w vs vs') (i : Nat)
    (hv : v.Alike S w v') : Values.Alike S w (vs.insertIdx i v) (vs'.insertIdx i v') := by
  induction h generalizing i with
  | nil =>
    cases i with
    | zero => exact .cons hv .nil
    | succ i => exact .nil
  | cons hu hvs ih =>
    cases i with
    | zero => exact .cons hv (.cons hu hvs)
    | succ i => exact .cons hu (ih i)

theorem set_alike (h : Values.Alike S w vs vs') (i : Nat)
    (hv : v.Alike S w v') : Values.Alike S w (vs.set i v) (vs'.set i v') := by
  induction h generalizing i with
  | nil => exact .nil
  | cons hu hvs ih =>
    cases i with
    | zero => exact .cons hv hvs
    | succ i => exact .cons hu (ih i)

theorem listPop_alike (r : ListRef) {index index' : Option Value}
    (hi : Option.Rel (Value.Alike S w) index index') :
    Run.ValueAlike S w (listPop r index) (listPop r index') := by
  refine .heap_bind fun h h' hh => ?_
  have hitems := hh.list r
  generalize h.list r = items, h'.list r = items' at hitems
  dsimp only
  rw [isEmpty_eq_of_forall₂ hitems, ← hitems.length_eq]
  have hend (i : Nat) : Run.ValueAlike S w (do
        modifyList r (·.eraseIdx i)
        return items[i]?.getD .none)
      (do
        modifyList r (·.eraseIdx i)
        return items'[i]?.getD .none) :=
    .andThen (modifyList_alike r fun _ _ h => eraseIdx_alike h i) fun _ hw =>
      .pure (((rel_getElem? hitems i).getD .none).mono hw)
  refine .ite (fun _ => .fail_bind (.same rfl)) fun _ => ?_
  cases hi with
  | none => exact .read_bind_eq (.pure rfl) hend
  | some hv => exact .read_bind_eq (.ofExcept (Sequence.place_alike hv _ _)) hend

theorem listInsert_alike (r : ListRef) (hi : index.Alike S w index') (hv : v.Alike S w v') :
    Run.ValueAlike S w (listInsert r index v) (listInsert r index' v') := by
  unfold listInsert
  rw [hi.asInt?_eq]
  split
  · exact .typeError _
  · refine .andThen (modifyList_alike r fun vs vs' hvs => ?_) fun _ _ => .pure .none
    dsimp only
    rw [hvs.length_eq]
    exact insertIdx_alike hvs _ hv

end Evaluator

namespace Evaluator.Alike

variable {ev ev' : Evaluator} {v v' : Value} {args args' : Args}

variable {h h' : Heap}

theorem findIdx?_eq (hh : h.Alike S w h') (hv : v.Alike S w v') (hvs : Values.Alike S w vs vs') :
    vs'.findIdx? (h'.equals · v') = vs.findIdx? (h.equals · v) := by
  induction hvs with
  | nil => rfl
  | cons hu _ ih => rw [findIdx?_cons, findIdx?_cons, hh.equals_agree hu hv, ih]

theorem countP_eq (hh : h.Alike S w h') (hv : v.Alike S w v') (hvs : Values.Alike S w vs vs') :
    vs'.countP (h'.equals · v') = vs.countP (h.equals · v) := by
  induction hvs with
  | nil => rfl
  | cons hu _ ih => rw [countP_cons, countP_cons, hh.equals_agree hu hv, ih]

variable (he : ev.Alike S ev')

include he

/-- An option of a call that is off unless it is given. -/
theorem flag {α β : Type} {Q : World → α → β → Prop} {f : Bool → Run α} {g : Bool → Run β}
    (hfg : ∀ b, Run.Alike S w Q (f b) (g b)) {given given' : Option Value} :
    Option.Rel (Value.Alike S w) given given' →
    Run.Alike S w Q (match given with
        | some v => ev.truthy v >>= f
        | none => pure false >>= f)
      (match given' with
        | some v => ev'.truthy v >>= g
        | none => pure false >>= g) := by
  intro hgiven
  cases hgiven with
  | none => exact .read_bind_eq (.pure rfl) hfg
  | some hv => exact .read_bind_eq (he.truthy_read hv) hfg

theorem listMethod (r : ListRef) (name : String) (ha : args.Alike S w args') :
    Run.ValueAlike S w (ev.listMethod r name args) (ev'.listMethod r name args') := by
  have hset : ∀ w {f f' : List Value → List Value},
      (∀ vs vs', Values.Alike S w vs vs' → Values.Alike S w (f vs) (f' vs')) →
      Run.ValueAlike S w (do
          modifyList r f
          return .none)
        (do
          modifyList r f'
          return .none) :=
    fun w _ _ hf => .andThen (modifyList_alike r hf) fun _ _ => .pure .none
  unfold Evaluator.listMethod
  dsimp only
  split
  · exact ha.checked (hset w fun vs vs' hvs => rel_append hvs (.cons (ha.get 0) .nil))
  · refine ha.checked (.bind (he.iterate (ha.get 0)) fun w' _ extra extra' hextra => ?_)
    exact hset w' fun vs vs' hvs => rel_append hvs hextra
  · exact ha.checked (listPop_alike r (ha.get? 0))
  · exact ha.checked (listInsert_alike r (ha.get 0) (ha.get 1))
  · refine ha.checked (.read_bind he.view_read fun view view' hview => ?_)
    rw [findIdx?_eq hview.heap (ha.get 0) (hview.heap.list r), hview.repr_eq (ha.get 0)]
    split
    · exact .pure (.int _)
    · exact .valueError _
  · refine ha.checked (.heap_bind fun h h' hh => ?_)
    rw [countP_eq hh (ha.get 0) (hh.list r)]
    exact .pure (.int _)
  · refine ha.checked (.heap_bind fun h h' hh => ?_)
    rw [findIdx?_eq hh (ha.get 0) (hh.list r)]
    split
    · exact hset _ fun vs vs' hvs => eraseIdx_alike hvs _
    · exact .valueError _
  · refine he.flag (fun reverse => ?_) (ha.keyword? "reverse")
    refine ((ha.dropKeyword _).dropKeyword _).checked (.heap_bind fun h h' hh => ?_)
    refine .bind (he.sorted (hh.list r) ((ha.keyword? "key").getD .none) reverse)
      fun w' _ items items' hitems => ?_
    exact hset w' fun _ _ _ => hitems
  · exact ha.checked (hset w fun vs vs' hvs => rel_reverse hvs)
  · exact ha.checked (.heap_bind fun h h' hh => .newList (hh.list r))
  · exact ha.checked (hset w fun _ _ _ => .nil)
  · exact .fail_same rfl

/-! ## Dicts -/

omit he in
theorem rel_zip {us us' : List Value} (hv : Values.Alike S w vs vs')
    (hu : Values.Alike S w us us') : List.Forall₂ (PairAlike S w) (vs.zip us) (vs'.zip us') := by
  induction hv generalizing us us' with
  | nil => exact .nil
  | cons hv _ ih =>
    cases hu with
    | nil => exact .nil
    | cons hu hrest => exact .cons ⟨hv, hu⟩ (ih hrest)

theorem pairOf (hv : v.Alike S w v') :
    Run.Alike S w (fun w e e' => e'.1 = e.1 ∧ e.2.Alike S w e'.2) (ev.pairOf v)
      (ev'.pairOf v') := by
  refine .bind (he.iterate hv) fun w' _ items items' hitems => ?_
  match items, items', hitems with
  | [], _, .nil => exact .valueError _
  | [_], _, .cons _ .nil => exact .valueError _
  | [k, v], _, .cons hk (.cons hv .nil) =>
    exact .read_bind_eq (.key hk) fun _ => .pure ⟨rfl, hv⟩
  | _ :: _ :: _ :: rest, _, .cons _ (.cons _ (.cons _ hrest)) =>
    dsimp only [length_cons]
    rw [hrest.length_eq]
    exact .valueError _

theorem pairsOf (hv : v.Alike S w v') :
    Run.Alike S w (fun w => MapAlike.Entries S w) (ev.pairsOf v) (ev'.pairsOf v') := by
  have hitems : Run.Alike S w (fun w => MapAlike.Entries S w)
      (do (← ev.iterate v).mapM ev.pairOf) (do (← ev'.iterate v').mapM ev'.pairOf) := by
    refine .bind (he.iterate hv) fun w' _ items items' hitems => ?_
    refine .mapM World.mono_value ?_ hitems fun w'' _ _ _ hv => he.pairOf hv
    exact fun _ _ hw _ _ h => ⟨h.1, h.2.mono hw⟩
  cases hv with
  | dict r => exact .heap_bind fun h h' hh => .pure (hh.dict r)
  | space r =>
    refine .heap_bind fun h h' hh => .pure ?_
    exact rel_map (fun _ _ he => ⟨congrArg Key.str he.1, he.2⟩) (hh.space r)
  | _ => exact hitems

theorem pairsOfArgs (function : String) (ha : args.Alike S w args') :
    Run.Alike S w (fun w => MapAlike.Entries S w) (ev.pairsOfArgs function args)
      (ev'.pairsOfArgs function args') := by
  have hend : ∀ w', w ≤ w' → ∀ pairs pairs', MapAlike.Entries S w' pairs pairs' →
      Run.Alike S w' (fun w => MapAlike.Entries S w)
        (pure (pairs ++ args.keywords.map fun e => (Key.str e.1, e.2)))
        (pure (pairs' ++ args'.keywords.map fun e => (Key.str e.1, e.2))) := by
    intro w' hw pairs pairs' hpairs
    refine .pure (rel_append hpairs (rel_map (fun _ _ he => ?_) (ha.mono hw).keywords))
    exact ⟨congrArg Key.str he.1, he.2⟩
  unfold Evaluator.pairsOfArgs
  rw [← ha.positional.length_eq]
  have hfirst := ha.get? 0
  generalize args.get? 0 = first, args'.get? 0 = first' at hfirst
  refine .ite (fun _ => .fail_bind (.same rfl)) fun _ => ?_
  cases hfirst with
  | none => exact .bind (.pure .nil) hend
  | some hv => exact .bind (he.pairsOf hv) hend

theorem dictMethod (r : DictRef) (name : String) (ha : args.Alike S w args') :
    Run.ValueAlike S w (ev.dictMethod r name args) (ev'.dictMethod r name args') := by
  unfold Evaluator.dictMethod
  dsimp only
  split
  · refine ha.checked (.heap_bind fun h h' hh => ?_)
    rw [OrderedMap.AlikeBy.keys_eq (hh.dict r)]
    exact .bind (.keyValues _) fun _ _ _ _ hvs => .newList hvs
  · exact ha.checked (.heap_bind fun h h' hh => .newList (hh.dict r).values)
  · refine ha.checked (.heap_bind fun h h' hh => ?_)
    rw [OrderedMap.AlikeBy.keys_eq (hh.dict r)]
    refine .bind (.keyValues _) fun w1 hw1 keys keys' hkeys => ?_
    have hpairs := rel_zip hkeys (Value.Alike.mono_all hw1 (hh.dict r).values)
    refine .bind (.mapM mono_pair World.mono_value hpairs fun _ _ _ _ he => ?_)
      fun _ _ _ _ hitems => .newList hitems
    exact .newTuple (.cons he.1 (.cons he.2 .nil))
  · refine ha.checked (.read_bind_eq (.key (ha.get 0)) fun k => ?_)
    exact .heap_bind fun h h' hh => .pure (((hh.dict r).get? k).getD (ha.get 1))
  · refine .bind (he.pairsOfArgs _ ha) fun w' _ pairs pairs' hpairs => ?_
    exact .andThen (modifyDict_alike r fun _ _ hd => hd.insertAll hpairs) fun _ _ => .pure .none
  · refine ha.checked (.read_bind_eq (.key (ha.get 0)) fun k => .heap_bind fun h h' hh => ?_)
    have hfound := (hh.dict r).get? k
    have hdefault := ha.get? 1
    generalize (h.dict r).get? k = found, (h'.dict r).get? k = found' at hfound
    generalize args.get? 1 = default, args'.get? 1 = default' at hdefault
    cases hfound with
    | some hv =>
      exact .andThen (modifyDict_alike r fun _ _ hd => OrderedMap.AlikeBy.erase hd k)
        fun _ hw => .pure (hv.mono hw)
    | none =>
      cases hdefault with
      | some hv => exact .pure hv
      | none => exact .read_bind_eq (he.repr_read (ha.get 0)) fun _ => .fail_same rfl
  · refine ha.checked (.read_bind_eq (.key (ha.get 0)) fun k => .heap_bind fun h h' hh => ?_)
    match (h.dict r).get? k, (h'.dict r).get? k, (hh.dict r).get? k with
    | _, _, .some hv => exact .pure hv
    | _, _, .none =>
      exact .andThen (modifyDict_alike r fun _ _ hd => hd.insert k (ha.get 1))
        fun _ hw => .pure ((ha.get 1).mono hw)
  · exact ha.checked (.heap_bind fun h h' hh => .newDict (hh.dict r))
  · exact ha.checked (.andThen (modifyDict_alike r fun _ _ _ => .nil) fun _ _ => .pure .none)
  · exact .fail_same rfl

/-! ## Objects -/

omit he in
theorem nameArg (hv : v.Alike S w v') :
    Run.ReadAlike S w Eq (nameArg v) (Evaluator.nameArg v') := by
  cases hv with
  | str s => exact .pure rfl
  | _ => exact .fail rfl

theorem runtimeMethod (hall : ∀ name, S.Allows name) (name : String) (ha : args.Alike S w args') :
    Run.ValueAlike S w (ev.runtimeMethod name args) (ev'.runtimeMethod name args') := by
  have hlookup : ∀ function, Run.ValueAlike S w (do
        args.check function 1 1
        ev.lookup (← Evaluator.nameArg (args.get 0)))
      (do
        args'.check function 1 1
        ev'.lookup (← Evaluator.nameArg (args'.get 0))) := fun function =>
    ha.checked (.read_bind_eq (nameArg (ha.get 0)) fun name => he.lookup (hall name))
  have hset : ∀ function, Run.ValueAlike S w (do
        args.check function 2 2
        ev.set (← Evaluator.nameArg (args.get 0)) (args.get 1)
        return .none)
      (do
        args'.check function 2 2
        ev'.set (← Evaluator.nameArg (args'.get 0)) (args'.get 1)
        return .none) := fun function =>
    ha.checked (.read_bind_eq (nameArg (ha.get 0)) fun name =>
      .andThen (he.set (hall name) (ha.get 1)) fun _ _ => .pure .none)
  unfold Evaluator.runtimeMethod
  split
  · exact hlookup _
  · exact hlookup _
  · exact hset _
  · exact hset _
  · exact ha.checked (.bind .fresh fun _ _ _ _ hids => .pure (.native _ hids))
  · exact ha.checked (he.configureObject (ha.get 0) (ha.get 1))
  · exact ha.checked (he.callBlock (ha.get 0) (ha.get 1))
  · refine ha.checked (.read_bind_eq (nameArg (ha.get 1)) fun name => ?_)
    exact .andThen (he.setProperty (ha.get 0) name (ha.get 2)) fun _ _ => .pure .none
  · exact .missing _ _

theorem objectMethod {o : ObjectRef} (ho : S.Shows o) (name : String) (ha : args.Alike S w args') :
    Run.ValueAlike S w (ev.objectMethod o name args) (ev'.objectMethod o name args') := by
  unfold Evaluator.objectMethod
  split
  · next hkind => exact he.runtimeMethod (Setting.Shows.allows ho hkind) name ha
  · rw [he.host_eq]
    exact he.uniform.callMethod he.calls o ho name ha

theorem callMethod (hv : v.Alike S w v') (name : String) (ha : args.Alike S w args') :
    Run.ValueAlike S w (ev.callMethod v name args) (ev'.callMethod v' name args') := by
  have hattr : Run.ValueAlike S w (do ev.call (← ev.getAttr v name) args)
      (do ev'.call (← ev'.getAttr v' name) args') :=
    .bind (he.getAttr hv name) fun _ hw _ _ hf => he.call hf (ha.mono hw)
  cases hv with
  | object ho => exact he.objectMethod ho name ha
  | inst | cls | space => exact hattr
  | str s => exact he.strMethod s.toList name ha
  | list r => exact he.listMethod r name ha
  | dict r => exact he.dictMethod r name ha
  | _ => exact .missing _ _

end Evaluator.Alike

end BlockScript
