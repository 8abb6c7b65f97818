import BlockScript.Eval.Operator
import BlockScript.Proofs.Alike.Methods

/-! Items and operators on values that are alike. -/

namespace BlockScript

open Program List

variable {S : Pairing} {w : World} {v v' index index' : Value} {α β : Type} {R : α → β → Prop}
  {as : List α} {bs : List β} {p : α → Bool} {q : β → Bool}

theorem charValues_alike (s : String) : Values.Alike S w (charValues s) (charValues s) :=
  forall₂_map_left_iff.2 (forall₂_map_right_iff.2 (forall₂_same.2 fun _ _ => .str _))

theorem any_eq_of_forall₂ (hpq : ∀ a b, R a b → q b = p a) (h : List.Forall₂ R as bs) :
    bs.any q = as.any p := by
  induction h with
  | nil => rfl
  | cons hab _ ih => rw [any_cons, any_cons, hpq _ _ hab, ih]

theorem all_eq_of_forall₂ (hpq : ∀ a b, R a b → q b = p a) (h : List.Forall₂ R as bs) :
    bs.all q = as.all p := by
  rw [all_eq_not_any_not, all_eq_not_any_not]
  exact congrArg not (any_eq_of_forall₂ (fun a b hab => congrArg not (hpq a b hab)) h)

theorem itemAt_alike {items items' : List Value} (hitems : Values.Alike S w items items')
    (hi : index.Alike S w index') (container : String) :
    Run.ValueAlike S w (itemAt items index container) (itemAt items' index' container) := by
  unfold itemAt
  rw [← hitems.length_eq]
  exact .read_bind_eq (.ofExcept (Sequence.place_alike hi _ _)) fun i =>
    .pure ((rel_getElem? hitems i).getD .none)

theorem setListItem_alike (r : ListRef) (hi : index.Alike S w index') (hv : v.Alike S w v') :
    Run.EqAlike S w (setListItem r index v) (setListItem r index' v') := by
  refine .heap_bind fun h h' hh => ?_
  have hitems := hh.list r
  dsimp only
  rw [← hitems.length_eq]
  exact .read_bind_eq (.ofExcept (Sequence.place_alike hi _ _)) fun i =>
    .modifyHeap rfl fun _ _ hh => hh.setList r (Evaluator.set_alike hitems i hv)

namespace Evaluator.Alike

variable {ev ev' : Evaluator} {index index' u u' : Value} {args args' : Args}

variable (he : ev.Alike S ev')

include he

theorem byMethod {R : World → α → β → Prop} {p : Run α} {q : Run β} (hv : v.Alike S w v')
    (name : String) (fault : String → TypeFault) (hp : Run.Alike S w R p q) : Run.Alike S w R
      (do if ev.hasMethod (← Run.heap) v name then p else Run.typeError (fault v.typeName))
      (do if ev'.hasMethod (← Run.heap) v' name then q else Run.typeError (fault v'.typeName)) := by
  refine .heap_bind fun h h' hh => ?_
  rw [he.hasMethod_eq hh hv, hv.typeName_eq]
  exact .ite (fun _ => hp) fun _ => .typeError _

theorem getItem (hv : v.Alike S w v') (hi : index.Alike S w index') :
    Run.ValueAlike S w (ev.getItem v index) (ev'.getItem v' index') := by
  have hown := he.callMethod hv "__getitem__" (.of_positional (.cons hi .nil))
  have hself := hv
  cases hv with
  | list r => exact .heap_bind fun h h' hh => itemAt_alike (hh.list r) hi _
  | tuple _ hitems => exact itemAt_alike hitems hi _
  | str s => exact itemAt_alike (charValues_alike s) hi _
  | dict r =>
    refine .read_bind_eq (.key hi) fun k => .heap_bind fun h h' hh => ?_
    match (h.dict r).get? k, (h'.dict r).get? k, (hh.dict r).get? k with
    | _, _, .some hv => exact .pure hv
    | _, _, .none => exact .read_bind_eq (he.repr_read hi) fun _ => .fail_same rfl
  | inst | object => exact he.byMethod hself _ _ hown
  | _ => exact .typeError _

theorem setItem (hu : u.Alike S w u') (hi : index.Alike S w index') (hv : v.Alike S w v') :
    Run.EqAlike S w (ev.setItem u index v) (ev'.setItem u' index' v') := by
  have hown := he.callMethod hu "__setitem__" (.of_positional (.cons hi (.cons hv .nil)))
  have hself := hu
  cases hu with
  | list r => exact setListItem_alike r hi hv
  | dict r =>
    exact .read_bind_eq (.key hi) fun k => modifyDict_alike r fun _ _ hd => hd.insert k hv
  | inst | object => exact he.byMethod hself _ _ (hown.bind fun _ _ _ _ _ => .pure rfl)
  | _ => exact .typeError _

theorem items (hv : v.Alike S w v') :
    Run.Alike S w (Values.Alike S) (ev.items v) (ev'.items v') := by
  have hown := he.callMethod hv "__iter__" (.of_positional .nil)
  have hself := hv
  cases hv with
  | list r => exact .heap_bind fun h h' hh => .pure (hh.list r)
  | tuple _ hitems => exact .pure hitems
  | str s => exact .pure (charValues_alike s)
  | dict r =>
    refine .heap_bind fun h h' hh => ?_
    rw [OrderedMap.AlikeBy.keys_eq (hh.dict r)]
    exact .keyValues _
  | inst | object => exact he.byMethod hself _ _ (hown.bind fun _ _ _ _ hs => he.iterate hs)
  | _ => exact .typeError _

theorem hasEqual (hu : u.Alike S w u') (hv : v.Alike S w v') :
    Run.EqAlike S w (ev.hasEqual u v) (ev'.hasEqual u' v') := by
  refine .bind (he.iterate hu) fun w' hw items items' hitems => .heap_bind fun h h' hh => .pure ?_
  exact (any_eq_of_forall₂ (fun _ _ hi => hh.equals_agree hi (hv.mono hw)) hitems).symm

theorem contains (hu : u.Alike S w u') (hv : v.Alike S w v') :
    Run.EqAlike S w (ev.contains u v) (ev'.contains u' v') := by
  have hequal := he.hasEqual hu hv
  cases hu with
  | str s =>
    cases hv with
    | str needle => exact .pure rfl
    | _ => exact .typeError _
  | dict r =>
    exact .read_bind_eq (.key hv) fun k => .heap_bind fun h h' hh =>
      .pure (OrderedMap.AlikeBy.contains_eq (hh.dict r) k).symm
  | space r =>
    refine .heap_bind fun h h' hh => .pure ?_
    have hcontains : (h'.space r).contains = (h.space r).contains :=
      funext (OrderedMap.AlikeBy.contains_eq (hh.space r))
    rw [hv.asStr?_eq, hcontains]
  | @object o ho =>
    unfold Evaluator.contains
    dsimp only
    rw [he.host_eq]
    refine .ite (fun _ => ?_) fun _ => hequal
    exact .bind (he.objectMethod ho _ (.of_positional (.cons hv .nil)))
      fun _ _ _ _ hb => .of_read (he.truthy_read hb)
  | _ => exact hequal

theorem toStr (hv : v.Alike S w v') : Run.EqAlike S w (ev.toStr v) (ev'.toStr v') := by
  have hdisplay : Run.EqAlike S w (ev.display v) (ev'.display v') := .of_read (he.display_read hv)
  cases hv with
  | inst r c =>
    refine .heap_bind fun h h' hh => ?_
    match h.classAttr? c "__str__", h'.classAttr? c "__str__", hh.classAttr? c "__str__" with
    | _, _, .none => exact hdisplay
    | _, _, .some hm =>
      refine .bind (.bindAttr (.inst r c) hm) fun _ _ _ _ hf => ?_
      refine .bind (he.call hf (.of_positional .nil)) fun _ _ _ _ hs => ?_
      exact .of_read (he.display_read hs)
  | _ => exact hdisplay

omit he

theorem slice (hv : v.Alike S w v') (lower upper step : Option Int64) :
    Run.ValueAlike S w (Evaluator.slice v lower upper step)
      (Evaluator.slice v' lower upper step) := by
  cases hv with
  | list r =>
    refine .heap_bind fun h h' hh => .bind ?_ fun _ _ _ _ => .newList
    exact .read_bind (.ofExcept (Sequence.slice_alike (hh.list r) _ _ _)) fun _ _ => .orExhausted
  | tuple _ hitems =>
    refine .bind ?_ fun _ _ _ _ => .newTuple
    exact .read_bind (.ofExcept (Sequence.slice_alike hitems _ _ _)) fun _ _ => .orExhausted
  | str s =>
    refine .bind_eq (.read_bind_eq (.ofExcept (.of_eq rfl ?_)) .orExhausted_same)
      fun _ _ _ => .pure (.str _)
    unfold Sequence.slice
    generalize Sequence.slicePlaces .. = places, Sequence.slicePlaces_plain _ _ _ _ = hplaces
    cases hplaces with
    | ok places => exact .ok _
    | error he => exact .error he
  | _ => exact .typeError _

end Evaluator.Alike

/-! ## Operators -/

namespace Number

variable {i : Except RuntimeError Int64}

theorem power_plain (a : Int) (e : Nat) : Except.IsPlain (power a e) := by
  unfold power
  split
  · exact Format.orOverflow_plain _
  · split
    · exact .error rfl
    · exact Format.orOverflow_plain _

theorem shiftLeft_plain (a b : Int64) : Except.IsPlain (shiftLeft a b) := by
  unfold shiftLeft
  split
  · exact .error rfl
  · exact Format.orOverflow_plain _

theorem shiftRight_plain (a b : Int64) : Except.IsPlain (shiftRight a b) := by
  unfold shiftRight
  split
  · exact .error rfl
  · exact .ok _

theorem int_alike (hi : Except.IsPlain i) :
    ExceptAlike S w (Value.Alike S w) (Value.int <$> i) (Value.int <$> i) :=
  (ExceptAlike.of_eq rfl hi).map fun a _ hab => hab ▸ .int a

theorem intOp_alike (op : BinaryOp) (a b : Int64) :
    ExceptAlike S w (Value.Alike S w) (intOp op a b) (intOp op a b) := by
  unfold intOp
  repeat' split
  all_goals first
    | exact int_alike (Format.orOverflow_plain _)
    | exact int_alike (power_plain ..)
    | exact int_alike (shiftLeft_plain ..)
    | exact int_alike (shiftRight_plain ..)
    | exact .ok (.int _)
    | exact .ok (.float _)
    | exact .error (.same rfl)

theorem floatOp?_alike (op : BinaryOp) (a b : Float) {e : RuntimeError} (he : e.isRaised = false) :
    ExceptAlike S w (Value.Alike S w) ((floatOp? op a b).getD (.error e))
      ((floatOp? op a b).getD (.error e)) := by
  unfold floatOp?
  split
  all_goals
    dsimp only [Option.getD]
    repeat' split
  all_goals first
    | exact .ok (.float _)
    | exact .error (.same rfl)
    | exact .error (.same he)

theorem unaryOp_alike (op : UnaryOp) (hv : v.Alike S w v') :
    ExceptAlike S w (Value.Alike S w) (unaryOp op v) (unaryOp op v') := by
  have hplain : ∀ u : Value, ExceptAlike S w (Value.Alike S w) (unaryOp op u) (unaryOp op u) := by
    intro u
    unfold unaryOp
    split
    all_goals first
      | exact int_alike (Format.orOverflow_plain _)
      | exact .ok (.int _)
      | exact .ok (.float _)
      | exact .error (.same rfl)
  have heq : unaryOp op v' = unaryOp op v := by
    unfold unaryOp
    rw [hv.asInt?_eq, hv.typeName_eq]
    cases op <;> cases hv <;> rfl
  rw [heq]
  exact hplain v

end Number

namespace Evaluator

variable {u u' : Value}

theorem repeated_alike {items items' : List Value} (hitems : Values.Alike S w items items')
    (count : Int) :
    Values.Alike S w (Sequence.repeated items count) (Sequence.repeated items' count) := by
  unfold Sequence.repeated
  generalize count.toNat = n
  induction n with
  | zero => exact .nil
  | succ n ih =>
    rw [replicate_succ, replicate_succ, flatten_cons, flatten_cons]
    exact rel_append hitems ih

theorem repeatValue?_alike (hv : v.Alike S w v') (count : Int) :
    Option.Rel (Run.ValueAlike S w) (repeatValue? v count) (repeatValue? v' count) := by
  cases hv with
  | str s => exact .some (.pure (.str _))
  | list r =>
    exact .some (.heap_bind fun h h' hh => .newList (repeated_alike (hh.list r) count))
  | tuple _ hitems => exact .some (.newTuple (repeated_alike hitems count))
  | _ => exact .none

theorem joinValues?_alike (op : BinaryOp) (hu : u.Alike S w u') (hv : v.Alike S w v') :
    Option.Rel (Run.ValueAlike S w) (joinValues? op u v) (joinValues? op u' v') := by
  unfold joinValues?
  cases op with
  | add =>
    cases hu with
    | str s =>
      cases hv with
      | str t => exact .some (.pure (.str _))
      | _ => exact .none
    | list r =>
      cases hv with
      | list t =>
        exact .some (.heap_bind fun h h' hh => .newList (rel_append (hh.list r) (hh.list t)))
      | _ => exact .none
    | tuple _ hus =>
      cases hv with
      | tuple _ hvs => exact .some (.newTuple (rel_append hus hvs))
      | _ => exact .none
    | _ => exact .none
  | bitOr =>
    cases hu with
    | dict r =>
      cases hv with
      | dict t =>
        exact .some (.heap_bind fun h h' hh => .newDict ((hh.dict r).insertAll (hh.dict t)))
      | _ => exact .none
    | _ => exact .none
  | _ => exact .none

theorem repetition?_alike (op : BinaryOp) (hu : u.Alike S w u') (hv : v.Alike S w v') :
    Option.Rel (Run.ValueAlike S w) (repetition? op u v) (repetition? op u' v') := by
  have hu' := hu
  have hv' := hv
  cases op with
  | mul =>
    cases hu with
    | int n => exact repeatValue?_alike hv' n.toInt
    | _ =>
      cases hv with
      | int n => exact repeatValue?_alike hu' n.toInt
      | _ => exact .none
  | _ => exact .none

end Evaluator

namespace Evaluator.Alike

variable {ev ev' : Evaluator} {u u' : Value}

theorem joined (op : BinaryOp) (hu : u.Alike S w u') (hv : v.Alike S w v') (error : TypeFault) :
    Run.ValueAlike S w (match (joinValues? op u v).orElse fun _ => repetition? op u v with
        | some run => run
        | none => Run.fail (.type error))
      (match (joinValues? op u' v').orElse fun _ => repetition? op u' v' with
        | some run => run
        | none => Run.fail (.type error)) := by
  have hjoin := (joinValues?_alike op hu hv).orElse (repetition?_alike op hu hv)
  generalize (joinValues? op u v).orElse _ = run, (joinValues? op u' v').orElse _ = run' at hjoin
  cases hjoin with
  | none => exact .fail_same rfl
  | some h => exact h

theorem plainBinary (he : ev.Alike S ev') (op : BinaryOp) (hu : u.Alike S w u')
    (hv : v.Alike S w v') :
    Run.ValueAlike S w (ev.plainBinary op u v) (ev'.plainBinary op u' v') := by
  unfold Evaluator.plainBinary
  dsimp only
  rw [hu.asInt?_eq, hv.asInt?_eq, hu.asFloat?_eq, hv.asFloat?_eq, hu.typeName_eq, hv.typeName_eq]
  split
  · exact .ofExcept (Number.intOp_alike op _ _)
  · exact .ofExcept (Number.floatOp?_alike op _ _ rfl)
  · have hjoined := joined op hu hv (.unsupportedOperands op.symbol u.typeName v.typeName)
    cases op with
    | mod =>
      cases hu with
      | str s =>
        refine .read_bind he.view_read fun _ _ hview => ?_
        exact .read_bind_eq (.ofExcept (Format.percent_alike hview hv _)) fun _ => .pure (.str _)
      | _ => exact hjoined
    | _ => exact hjoined

theorem binary (he : ev.Alike S ev') (op : BinaryOp) (hu : u.Alike S w u') (hv : v.Alike S w v') :
    Run.ValueAlike S w (ev.binary op u v) (ev'.binary op u' v') := by
  have hplain := he.plainBinary op hu hv
  cases hu with
  | inst r c =>
    refine .heap_bind fun h h' hh => ?_
    match h.classAttr? c (operatorMethod op), h'.classAttr? c (operatorMethod op),
        hh.classAttr? c (operatorMethod op) with
    | _, _, .none => exact hplain
    | _, _, .some hm =>
      refine .bind (.bindAttr (.inst r c) hm) fun _ hw _ _ hf => ?_
      exact he.call hf (.of_positional (.cons (hv.mono hw) .nil))
  | _ => exact hplain

theorem binaryInPlace (he : ev.Alike S ev') (op : BinaryOp) (hu : u.Alike S w u')
    (hv : v.Alike S w v') :
    Run.ValueAlike S w (ev.binaryInPlace op u v) (ev'.binaryInPlace op u' v') := by
  have hbinary := he.binary op hu hv
  cases op with
  | add =>
    cases hu with
    | list r =>
      refine .bind (he.iterate hv) fun _ _ extra extra' hextra => ?_
      exact .andThen (modifyList_alike r fun _ _ hvs => rel_append hvs hextra) fun _ _ =>
        .pure (.list r)
    | _ => exact hbinary
  | _ => exact hbinary

theorem unary (he : ev.Alike S ev') (op : UnaryOp) (hv : v.Alike S w v') :
    Run.ValueAlike S w (ev.unary op v) (ev'.unary op v') := by
  cases op with
  | not => exact .read_bind_eq (he.truthy_read hv) fun _ => .pure (.bool _)
  | _ => exact .ofExcept (Number.unaryOp_alike _ hv)

theorem ordered (p : Ordering → Bool) (hu : u.Alike S w u') (hv : v.Alike S w v') :
    Run.EqAlike S w (Evaluator.ordered p u v) (Evaluator.ordered p u' v') :=
  .heap_bind fun _ _ hh => .read_bind_eq (.ofExcept (hh.order_agree hu hv)) fun _ => .pure rfl

theorem compareOne (he : ev.Alike S ev') (op : CompareOp) (hu : u.Alike S w u')
    (hv : v.Alike S w v') : Run.EqAlike S w (ev.compareOne op u v) (ev'.compareOne op u' v') := by
  cases op with
  | eq => exact .heap_bind fun h h' hh => .pure (hh.equals_agree hu hv).symm
  | notEq => exact .heap_bind fun h h' hh => .pure (congrArg not (hh.equals_agree hu hv).symm)
  | is => exact .pure (hu.isSame_eq hv).symm
  | isNot => exact .pure (congrArg not (hu.isSame_eq hv).symm)
  | isIn => exact he.contains hv hu
  | notIn => exact .bind_eq (he.contains hv hu) fun _ _ _ => .pure rfl
  | lt | ltEq | gt | gtEq => exact ordered _ hu hv

end Evaluator.Alike

end BlockScript
