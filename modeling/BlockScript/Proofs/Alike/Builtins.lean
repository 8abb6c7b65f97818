import BlockScript.Eval.Builtin
import BlockScript.Proofs.Alike.Operators

/-! Built-in functions on values that are alike. -/

namespace BlockScript

open Program List

variable {S : Pairing} {w : World} {v v' : Value} {args args' : Args}

namespace Evaluator

/-! ## Conversion -/

theorem radixArg_read {given given' : Option Value}
    (hg : Option.Rel (Value.Alike S w) given given') :
    Run.ReadAlike S w Eq (radixArg given) (radixArg given') := by
  cases hg with
  | none => exact .pure rfl
  | some hv =>
    unfold radixArg
    dsimp only
    rw [hv.asInt?_eq]
    split
    · split
      · exact .pure rfl
      · exact .fail rfl
    · exact .fail rfl

theorem builtinInt_alike (ha : args.Alike S w args') :
    Run.ValueAlike S w (builtinInt args) (builtinInt args') := by
  refine ha.checked (.read_bind_eq (radixArg_read (ha.get? 1)) fun radix => ?_)
  match args.get? 0, args'.get? 0, ha.get? 0 with
  | _, _, .none => exact .pure (.int 0)
  | _, _, .some hv =>
    cases hv with
    | str s =>
      dsimp only
      split
      · exact .pure (.int _)
      · exact .valueError _
    | float f =>
      exact .read_bind_eq (.ofExcept (.of_eq rfl (Format.truncate_plain _ _))) fun _ =>
        .pure (.int _)
    | bool b => exact .pure (.int _)
    | int i => exact .pure (.int _)
    | _ => exact .typeError _

theorem builtinFloat_alike (ha : args.Alike S w args') :
    Run.ValueAlike S w (builtinFloat args) (builtinFloat args') := by
  refine ha.checked ?_
  match args.get? 0, args'.get? 0, ha.get? 0 with
  | _, _, .none => exact .pure (.float _)
  | _, _, .some hv =>
    cases hv with
    | str s =>
      dsimp only
      split
      · exact .pure (.float _)
      · exact .valueError _
    | bool b => exact .pure (.float _)
    | int i => exact .pure (.float _)
    | float f => exact .pure (.float _)
    | _ => exact .typeError _

theorem builtinSpace_alike (ha : args.Alike S w args') :
    Run.ValueAlike S w (builtinSpace args) (builtinSpace args') := by
  unfold builtinSpace
  rw [isEmpty_eq_of_forall₂ ha.positional]
  refine .ite (fun _ => .fail_bind (.same rfl)) fun _ => ?_
  exact .newSpace (.ofList ha.keywords)

/-! ## Types -/

theorem builtinType_alike (ha : args.Alike S w args') :
    Run.ValueAlike S w (builtinType args) (builtinType args') := by
  refine ha.checked ?_
  have hv := ha.get 0
  have hnew : ∀ name, Run.ValueAlike S w (do return .cls (← Run.alloc (·.newClass name [] .empty)))
      (do return .cls (← Run.alloc (·.newClass name [] .empty))) := fun name =>
    .made (fun _ _ hh => hh.newClass name [] .empty) fun _ => .cls
  generalize args.get 0 = v, args'.get 0 = v' at hv
  cases hv with
  | inst r c => exact .pure (.cls c)
  | _ => exact hnew _

theorem isOfNative_eq (hv : v.Alike S w v') (fn : Native) : isOfNative v' fn = isOfNative v fn := by
  have htype := hv.typeName_eq
  cases fn <;> cases hv <;> rfl

theorem isInstanceOf_alike {h h' : Heap} (hh : h.Alike S w h') (hv : v.Alike S w v') {c c' : Value}
    (hc : c.Alike S w c') : ExceptAlike S w Eq (isInstanceOf h v c) (isInstanceOf h' v' c') := by
  refine Value.Alike.Hereditary.all
    (P := fun c c' => ExceptAlike S w Eq (isInstanceOf h v c) (isInstanceOf h' v' c'))
    ⟨fun _ h hcs => ?_, fun hc hnot => ?_⟩ hc
  · rw [isInstanceOf, isInstanceOf]
    clear h
    induction hcs with
    | nil => exact .ok rfl
    | cons hc _ ih =>
      unfold isInstanceOfAny
      refine hc.bind fun b _ hb => ?_
      cases hb
      cases b with
      | true => exact .ok rfl
      | false => exact ih
  · cases hc with
    | cls c =>
      unfold isInstanceOf
      refine .ok ?_
      cases hv with
      | inst r own => exact (hh.isSubclass_eq own c).symm
      | _ => rfl
    | native fn => exact .ok (isOfNative_eq hv fn).symm
    | tuple => exact (hnot _ _ rfl).elim
    | _ => exact .error (.same rfl)

theorem builtinIsInstance_alike (ha : args.Alike S w args') :
    Run.ValueAlike S w (builtinIsInstance args) (builtinIsInstance args') := by
  refine ha.checked (.heap_bind fun h h' hh => ?_)
  exact .read_bind_eq (.ofExcept (isInstanceOf_alike hh (ha.get 0) (ha.get 1))) fun _ =>
    .pure (.bool _)

theorem attributeName_read (hv : v.Alike S w v') (function : String) :
    Run.ReadAlike S w Eq (attributeName v function) (attributeName v' function) := by
  cases hv with
  | str s => exact .pure rfl
  | _ => exact .fail rfl

theorem makeClosure_alike (ha : args.Alike S w args') :
    Run.ValueAlike S w (makeClosure args) (makeClosure args') := by
  refine ha.checked ?_
  have hv := ha.get 0
  generalize args.get 0 = v, args'.get 0 = v' at hv
  cases hv with
  | function hf | closure hf => exact .pure (.closure hf)
  | _ => exact .typeError _

/-! ## Sequences and numbers -/

theorem builtinLen_alike (ha : args.Alike S w args') :
    Run.ValueAlike S w (builtinLen args) (builtinLen args') := by
  refine ha.checked (.heap_bind fun h h' hh => ?_)
  have hv := ha.get 0
  generalize args.get 0 = v, args'.get 0 = v' at hv
  have hsize : ∀ {n n' : Nat}, n' = n → Run.ValueAlike S w (pure (Value.ofNat n))
      (pure (Value.ofNat n')) := by
    rintro n _ rfl
    exact .pure (.int _)
  cases hv with
  | str s => exact hsize rfl
  | list r => exact hsize (hh.list r).length_eq.symm
  | tuple _ hitems => exact hsize hitems.length_eq.symm
  | dict r => exact hsize (OrderedMap.AlikeBy.size_eq (hh.dict r))
  | space r => exact hsize (OrderedMap.AlikeBy.size_eq (hh.space r))
  | _ => exact .typeError _

theorem intArg_read (hv : v.Alike S w v') (function : String) :
    Run.ReadAlike S w Eq (intArg function v) (intArg function v') := by
  rw [intArg, intArg, hv.asInt?_eq, hv.typeName_eq]
  split
  · exact .pure rfl
  · exact .fail rfl

theorem builtinRange_alike (ha : args.Alike S w args') :
    Run.ValueAlike S w (builtinRange args) (builtinRange args') := by
  refine ha.checked ?_
  refine .bind (.mapM World.mono_value World.mono_const ha.positional
    fun _ _ _ _ hv => .of_read (intArg_read hv _)) fun _ _ bounds bounds' hbounds => ?_
  rw [forall₂_eq_eq_eq] at hbounds
  subst hbounds
  split
  all_goals
    split
    · exact .fail_same rfl
    · refine .bind_eq (.orExhausted_same _) fun _ _ numbers => .newList ?_
      exact forall₂_map_left_iff.2 (forall₂_map_right_iff.2 (forall₂_same.2 fun _ _ => .int _))

theorem builtinAbs_alike (ha : args.Alike S w args') :
    Run.ValueAlike S w (builtinAbs args) (builtinAbs args') := by
  refine ha.checked ?_
  have hv := ha.get 0
  generalize args.get 0 = v, args'.get 0 = v' at hv
  have hint : ∀ i, Run.ValueAlike S w (do return .int (← Run.ofExcept (Number.checked i)))
      (do return .int (← Run.ofExcept (Number.checked i))) := fun i =>
    .read_bind_eq (.ofExcept (.of_eq rfl (Format.orOverflow_plain _))) fun _ => .pure (.int _)
  cases hv with
  | float f => exact .pure (.float _)
  | int i => exact hint _
  | bool b => exact hint _
  | _ => exact .typeError _

theorem rel_zipIdx {vs vs' : List Value} (h : Values.Alike S w vs vs') (i : Nat) :
    List.Forall₂ (fun e e' => e.1.Alike S w e'.1 ∧ e'.2 = e.2) (vs.zipIdx i) (vs'.zipIdx i) := by
  induction h generalizing i with
  | nil => exact .nil
  | cons hv _ ih => exact .cons ⟨hv, rfl⟩ (ih (i + 1))

theorem rows_alike {columns columns' : List (List Value)}
    (h : List.Forall₂ (Values.Alike S w) columns columns') :
    List.Forall₂ (Values.Alike S w) (rows columns) (rows columns') := by
  unfold rows
  rw [map_eq_of_forall₂ (fun _ _ hc => hc.length_eq.symm) h]
  refine forall₂_map_left_iff.2 (forall₂_map_right_iff.2 (forall₂_same.2 fun i _ => ?_))
  exact rel_filterMap (fun _ _ hc => rel_getElem? hc i) h

end Evaluator

namespace Evaluator.Alike

variable {ev ev' : Evaluator}

variable (he : ev.Alike S ev')

include he

variable (ha : args.Alike S w args')

include ha

theorem printMark (name default : String) :
    Run.ReadAlike S w Eq (ev.printMark args name default) (ev'.printMark args' name default) := by
  unfold Evaluator.printMark
  match args.keyword? name, args'.keyword? name, ha.keyword? name with
  | _, _, .none => exact .pure rfl
  | _, _, .some hv =>
    have hdisplay := he.display_read hv
    cases hv with
    | none => exact .pure rfl
    | _ => exact hdisplay

theorem builtinPrint : Run.ValueAlike S w (ev.builtinPrint args) (ev'.builtinPrint args') := by
  refine .read_bind_eq (he.printMark ha _ _) fun sep =>
    .read_bind_eq (he.printMark ha _ _) fun stop => ?_
  have hkeywords := ((ha.dropKeyword "sep").dropKeyword "end").keywords
  dsimp only
  generalize ((args.dropKeyword "sep").dropKeyword "end").keywords = given,
    ((args'.dropKeyword "sep").dropKeyword "end").keywords = given' at hkeywords
  cases hkeywords with
  | nil =>
    refine .bind (.mapM World.mono_value World.mono_const ha.positional
      fun _ _ _ _ hv => he.toStr hv)
      fun _ _ texts texts' htexts => ?_
    rw [forall₂_eq_eq_eq] at htexts
    subst htexts
    exact .andThen (.print _) fun _ _ => .pure .none
  | @cons e e' _ _ hentry _ =>
    obtain ⟨keyword, _⟩ := e
    obtain ⟨_, _⟩ := e'
    cases hentry.1
    exact .fail_bind (.same rfl)

theorem builtinStr : Run.ValueAlike S w (ev.builtinStr args) (ev'.builtinStr args') := by
  refine ha.checked ?_
  match args.get? 0, args'.get? 0, ha.get? 0 with
  | _, _, .none => exact .pure (.str _)
  | _, _, .some hv => exact .bind_eq (he.toStr hv) fun _ _ _ => .pure (.str _)

theorem builtinRepr : Run.ValueAlike S w (ev.builtinRepr args) (ev'.builtinRepr args') :=
  ha.checked (.read_bind_eq (he.repr_read (ha.get 0)) fun _ => .pure (.str _))

theorem builtinBool : Run.ValueAlike S w (ev.builtinBool args) (ev'.builtinBool args') := by
  refine ha.checked ?_
  match args.get? 0, args'.get? 0, ha.get? 0 with
  | _, _, .none => exact .pure (.bool _)
  | _, _, .some hv => exact .read_bind_eq (he.truthy_read hv) fun _ => .pure (.bool _)

theorem builtinList : Run.ValueAlike S w (ev.builtinList args) (ev'.builtinList args') := by
  refine ha.checked ?_
  match args.get? 0, args'.get? 0, ha.get? 0 with
  | _, _, .none => exact .newList .nil
  | _, _, .some hv => exact .bind (he.iterate hv) fun _ _ _ _ hitems => .newList hitems

theorem builtinTuple : Run.ValueAlike S w (ev.builtinTuple args) (ev'.builtinTuple args') := by
  refine ha.checked ?_
  match args.get? 0, args'.get? 0, ha.get? 0 with
  | _, _, .none => exact .newTuple .nil
  | _, _, .some hv => exact .bind (he.iterate hv) fun _ _ _ _ hitems => .newTuple hitems

theorem builtinDict : Run.ValueAlike S w (ev.builtinDict args) (ev'.builtinDict args') :=
  .bind (he.pairsOfArgs _ ha) fun _ _ _ _ hpairs => .newDict (.ofList hpairs)

/-! ## Attributes -/

theorem builtinGetAttr : Run.ValueAlike S w (ev.builtinGetAttr args)
    (ev'.builtinGetAttr args') := by
  refine ha.checked (.read_bind_eq (attributeName_read (ha.get 1) _) fun name => ?_)
  refine .bind (.attempt (he.getAttr (ha.get 0) name)) fun w' hw found found' hfound => ?_
  have hdefault := (ha.mono hw).get? 2
  generalize args.get? 2 = default, args'.get? 2 = default' at hdefault
  cases hfound with
  | ok hv => exact .pure hv
  | error he =>
    cases hdefault with
    | none => exact .fail he
    | some hv =>
      dsimp only
      rw [he.isAttribute_eq]
      exact .ite (fun _ => .pure hv) fun _ => .fail he

theorem builtinSetAttr : Run.ValueAlike S w (ev.builtinSetAttr args)
    (ev'.builtinSetAttr args') := by
  refine ha.checked (.read_bind_eq (attributeName_read (ha.get 1) _) fun name => ?_)
  exact .andThen (he.setAttr (ha.get 0) name (ha.get 2)) fun _ _ => .pure .none

theorem builtinHasAttr : Run.ValueAlike S w (ev.builtinHasAttr args)
    (ev'.builtinHasAttr args') := by
  refine ha.checked (.read_bind_eq (attributeName_read (ha.get 1) _) fun name => ?_)
  refine .bind (he.getAttr? (ha.get 0) name) fun _ _ found found' hfound => ?_
  rw [hfound.isSome_eq]
  exact .pure (.bool _)

theorem exceptionInit : Run.ValueAlike S w (ev.exceptionInit args) (ev'.exceptionInit args') := by
  unfold Evaluator.exceptionInit
  match args.positional, args'.positional, ha.positional with
  | _, _, .nil => exact .typeError _
  | _, _, .cons hv hrest =>
    cases hv with
    | inst r c =>
      refine .bind (.newTuple hrest) fun w1 hw1 all all' hall => ?_
      extract_lets next next'
      have hnext (message : String) : Run.ValueAlike S w1 (next message) (next' message) := by
        refine .andThen (.modifyHeap rfl fun _ _ hh => hh.setInst r ?_) fun _ _ => .pure .none
        exact ((hh.inst r).insert "args" hall).insert "message" (.str message)
      match hrest with
      | .nil => exact .read_bind_eq (.pure rfl) hnext
      | .cons hv .nil => exact .read_bind_eq (he.display_read (hv.mono hw1)) hnext
      | .cons _ (.cons _ _) => exact .read_bind_eq (he.display_read hall) hnext
    | _ => exact .typeError _

/-! ## Sequences -/

theorem builtinEnumerate :
    Run.ValueAlike S w (ev.builtinEnumerate args) (ev'.builtinEnumerate args') := by
  unfold Evaluator.builtinEnumerate
  have hgiven := (ha.keyword? "start").orElse (ha.get? 1)
  generalize (args.keyword? "start").orElse (fun _ => args.get? 1) = given,
    (args'.keyword? "start").orElse (fun _ => args'.get? 1) = given' at hgiven
  extract_lets first next first' next'
  have hnext (start : Int64) : Run.ValueAlike S w (next start) (next' start) := by
    have hfirst : Args.Alike S w first first' := .of_positional (forall₂_take _ ha.positional)
    refine hfirst.checked (.bind (he.iterate (hfirst.get 0)) fun _ _ items items' hitems => ?_)
    refine .bind (.mapM (R := fun w e e' => e.1.Alike S w e'.1 ∧ e'.2 = e.2) ?_ World.mono_value
      (rel_zipIdx hitems 0) ?_) fun _ _ _ _ hitems => .newList hitems
    · exact fun _ _ hw _ _ h => ⟨h.1.mono hw, h.2⟩
    · rintro _ _ ⟨v, i⟩ ⟨v', _⟩ ⟨hv, hi⟩
      cases hi
      exact .newTuple (.cons (.int _) (.cons hv .nil))
  cases hgiven with
  | none => exact .read_bind_eq (.pure rfl) hnext
  | some hv => exact .read_bind_eq (intArg_read hv _) hnext

theorem builtinZip : Run.ValueAlike S w (ev.builtinZip args) (ev'.builtinZip args') := by
  have hmono : World.Mono (Values.Alike S) := fun _ _ hw _ _ => Value.Alike.mono_all hw
  refine .bind (.mapM World.mono_value hmono ha.positional fun _ _ _ _ hv => he.iterate hv)
    fun _ _ columns columns' hcolumns => ?_
  refine .bind (.mapM hmono World.mono_value (rows_alike hcolumns) fun _ _ _ _ => .newTuple)
    fun _ _ _ _ hitems => .newList hitems

theorem builtinSorted : Run.ValueAlike S w (ev.builtinSorted args) (ev'.builtinSorted args') := by
  refine he.flag (fun reverse => ((ha.dropKeyword _).dropKeyword _).checked ?_)
    (ha.keyword? "reverse")
  refine .bind (he.iterate (ha.get 0)) fun w' hw items items' hitems => ?_
  have hkey := ((ha.keyword? "key").getD .none).mono hw
  exact .bind (he.sorted hitems hkey reverse) fun _ _ _ _ hitems => .newList hitems

theorem builtinReversed :
    Run.ValueAlike S w (ev.builtinReversed args) (ev'.builtinReversed args') :=
  ha.checked (.bind (he.iterate (ha.get 0)) fun _ _ _ _ hitems => .newList (rel_reverse hitems))

omit ha in
theorem builtinExtremum (function : String) (keep : Ordering) (ha : args.Alike S w args') :
    Run.ValueAlike S w (ev.builtinExtremum function keep args)
      (ev'.builtinExtremum function keep args') := by
  unfold Evaluator.builtinExtremum
  extract_lets key next key' next'
  have hnext : ∀ w', w ≤ w' → ∀ items items', Values.Alike S w' items items' →
      Run.ValueAlike S w' (next items) (next' items') := by
    intro w1 hw1 items items' hitems
    have hkey := ((ha.keyword? "key").getD .none).mono hw1
    refine .bind (he.extremumFrom hkey keep .none hitems) fun w2 hw2 best best' hbest => ?_
    have hdefault := (ha.mono (World.le_trans hw1 hw2)).keyword? "default"
    generalize args.keyword? "default" = default, args'.keyword? "default" = default' at hdefault
    cases hbest with
    | some hv => exact .pure hv
    | none =>
      cases hdefault with
      | some hv => exact .pure hv
      | none => exact .valueError _
  have hpositional := ha.positional
  generalize args.positional = vs, args'.positional = vs' at hpositional
  match hpositional with
  | .nil => exact .bind (.pure .nil) hnext
  | .cons hv .nil => exact .bind (he.iterate hv) hnext
  | .cons hu (.cons hv hrest) => exact .bind (.pure (.cons hu (.cons hv hrest))) hnext

theorem builtinSum : Run.ValueAlike S w (ev.builtinSum args) (ev'.builtinSum args') := by
  refine ha.checked (.bind (he.iterate (ha.get 0)) fun w' hw items items' hitems => ?_)
  have hstart := ((ha.mono hw).get? 1).getD (.int 0)
  exact .foldlM World.mono_value hstart hitems fun _ _ _ _ ht _ _ hv => he.plainBinary .add ht hv

theorem builtinAny : Run.ValueAlike S w (ev.builtinAny args) (ev'.builtinAny args') := by
  refine ha.checked (.bind (he.iterate (ha.get 0)) fun _ _ items items' hitems => ?_)
  refine .read_bind he.view_read fun view view' hview => ?_
  rw [any_eq_of_forall₂ (fun _ _ hv => hview.truthy_eq hv) hitems]
  exact .pure (.bool _)

theorem builtinAll : Run.ValueAlike S w (ev.builtinAll args) (ev'.builtinAll args') := by
  refine ha.checked (.bind (he.iterate (ha.get 0)) fun _ _ items items' hitems => ?_)
  refine .read_bind he.view_read fun view view' hview => ?_
  rw [all_eq_of_forall₂ (fun _ _ hv => hview.truthy_eq hv) hitems]
  exact .pure (.bool _)

omit ha

theorem callNative (fn : Native) (ha : args.Alike S w args') :
    Run.ValueAlike S w (ev.callNative fn args) (ev'.callNative fn args') := by
  cases fn with
  | print => exact he.builtinPrint ha
  | str => exact he.builtinStr ha
  | repr => exact he.builtinRepr ha
  | int => exact builtinInt_alike ha
  | float => exact builtinFloat_alike ha
  | bool => exact he.builtinBool ha
  | list => exact he.builtinList ha
  | tuple => exact he.builtinTuple ha
  | dict => exact he.builtinDict ha
  | space => exact builtinSpace_alike ha
  | len => exact builtinLen_alike ha
  | range => exact builtinRange_alike ha
  | enumerate => exact he.builtinEnumerate ha
  | zip => exact he.builtinZip ha
  | sorted => exact he.builtinSorted ha
  | reversed => exact he.builtinReversed ha
  | min => exact he.builtinExtremum _ _ ha
  | max => exact he.builtinExtremum _ _ ha
  | sum => exact he.builtinSum ha
  | any => exact he.builtinAny ha
  | all => exact he.builtinAll ha
  | abs => exact builtinAbs_alike ha
  | type => exact builtinType_alike ha
  | isInstance => exact builtinIsInstance_alike ha
  | getAttr => exact he.builtinGetAttr ha
  | setAttr => exact he.builtinSetAttr ha
  | hasAttr => exact he.builtinHasAttr ha
  | exceptionInit => exact he.exceptionInit ha
  | closureMark => exact makeClosure_alike ha

end Evaluator.Alike

end BlockScript
