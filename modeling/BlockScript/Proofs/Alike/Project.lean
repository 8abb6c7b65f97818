import BlockScript.Project
import BlockScript.Proofs.Alike.Operators

/-! Projects, tasks and bags look neither at identities nor at code. -/

namespace BlockScript.Project

section Reading

variable {S : Setting} {w : World} {h h' : Heap}

/-- Objects of the application are never hidden. -/
theorem shows_host {o : ObjectRef} {name : String} (h : o.kind = .host name) : S.Shows o :=
  fun _ hkind => by rw [h] at hkind; cases hkind

theorem name?_alike (hh : h.Alike S w h') (o : ObjectRef) :
    Option.Rel (Value.Alike S w) (name? h o) (name? h' o) := (hh.fields o).get? "name"

theorem tasks_alike (hh : h.Alike S w h') (o : ObjectRef) :
    List.Forall₂ (fun t t' => t' = t ∧ S.Shows t) (tasks h o) (tasks h' o) := by
  unfold tasks
  match (h.fields o).get? "tasks", (h'.fields o).get? "tasks", (hh.fields o).get? "tasks" with
  | _, _, .none => exact .nil
  | _, _, .some hv =>
    cases hv with
    | tuple _ hitems =>
      refine List.rel_filterMap (fun v v' hv => ?_) hitems
      cases hv with
      | object ho => exact .some ⟨rfl, ho⟩
      | _ => exact .none
    | _ => exact .nil

theorem taskSpace_alike (hh : h.Alike S w h') (o : ObjectRef) :
    (taskSpace h o).Alike S w (taskSpace h' o) := ((hh.fields o).get? "attrs").getD .none

theorem bagList_eq (hh : h.Alike S w h') (o : ObjectRef) : bagList h' o = bagList h o := by
  unfold bagList
  match (h.fields o).get? "items", (h'.fields o).get? "items", (hh.fields o).get? "items" with
  | _, _, .none => rfl
  | _, _, .some hv => cases hv <;> rfl

theorem bagItems_alike (hh : h.Alike S w h') (o : ObjectRef) :
    Values.Alike S w (bagItems h o) (bagItems h' o) := by
  rw [bagItems, bagItems, bagList_eq hh]
  exact hh.list _

theorem member_alike {found found' : Option Value} {member : Member}
    (h : Option.Rel (Value.Alike S w) found found') (hm : member.Alike S w member) :
    Member.Alike S w (found.elim member .value) (found'.elim member .value) := by
  cases h with
  | none => exact hm
  | some hv => exact .value hv

theorem attr_alike (hh : h.Alike S w h') (o : ObjectRef) (name : String) :
    Member.Alike S w (attr h o name) (attr h' o name) := by
  have htask : Member.Alike S w (taskAttr h o name) (taskAttr h' o name) := by
    unfold taskAttr
    have hspace := taskSpace_alike hh o
    generalize taskSpace h o = space, taskSpace h' o = space' at hspace
    cases hspace with
    | space r => exact member_alike ((hh.space r).get? name) .absent
    | _ => exact .absent
  unfold attr
  split
  · exact member_alike (name?_alike hh o) .unset
  · refine .items (List.rel_filterMap (fun t t' ht => ?_) (tasks_alike hh o))
    rw [ht.1]
    exact name?_alike hh t
  · exact member_alike (name?_alike hh o) .absent
  · exact htask
  · rw [← (bagItems_alike hh o).length_eq]
    exact .value (.int _)
  · exact .absent

end Reading

variable {S : Pairing} {w : World}

theorem newObject_alike (kind : Kind) {fields fields' : List (String × Value)}
    (hf : MapAlike.Entries S w fields fields') :
    Run.Alike S w (fun _ o o' => o' = o ∧ S.Shows o) (newObject kind fields)
      (newObject kind fields') := by
  refine .alloc fun h h' hh => ⟨⟨?_, shows_host rfl⟩, ?_⟩
  · exact (hh.newObject (.host kind.typeName) (.ofList hf)).1
  · exact (hh.newObject (.host kind.typeName) (.ofList hf)).2

theorem addTask_alike (o : ObjectRef) (name : String) :
    Run.ValueAlike S w (addTask o name) (addTask o name) := by
  refine .bind (.newSpace .empty) fun w1 _ space space' hspace => ?_
  refine .bind (newObject_alike .task (.cons ⟨rfl, .str name⟩ (.cons ⟨rfl, hspace⟩ .nil))) ?_
  rintro w2 _ _ task ⟨rfl, htask⟩
  refine .heap_bind fun h h' hh => ?_
  have htasks : Values.Alike S w2 ((tasks h o ++ [task]).map .object)
      ((tasks h' o ++ [task]).map .object) := by
    refine List.rel_map (fun t t' ht => ?_) (List.rel_append (tasks_alike hh o)
      (.cons ⟨rfl, htask⟩ .nil))
    rw [ht.1]
    exact .object ht.2
  refine .bind (.newTuple htasks) fun w3 _ all all' hall => ?_
  exact .andThen (.modifyHeap rfl fun _ _ hh => hh.setField o "tasks" hall) fun _ _ =>
    .pure (.object htask)

theorem newBag_alike {items items' : List Value} (hitems : Values.Alike S w items items') :
    Run.ValueAlike S w (newBag items) (newBag items') := by
  refine .bind (.newList hitems) fun w1 _ list list' hlist => ?_
  refine .bind (newObject_alike .bag (.cons ⟨rfl, hlist⟩ .nil)) ?_
  rintro w2 _ _ bag ⟨rfl, hbag⟩
  exact .pure (.object hbag)

theorem projectMethod_eq (c : Calls) (o : ObjectRef) (name : String) (args : Args) :
    projectMethod c o name args = if name = "task" then
        match args.positional with
        | .str task :: _ => addTask o task
        | _ => badCall name
      else if name = "bag" then newBag args.positional
      else if name = "invoke" then
        match args.positional with
        | callee :: rest => c.call callee { args with positional := rest }
        | [] => badCall name
      else badCall name := by
  unfold projectMethod
  split
  · next h => rw [h]; rfl
  · rfl
  · next h => rw [h]; rfl
  · next _ hstr hinvoke =>
    split
    · next h =>
      split
      · next hs => exact (hstr _ _ h hs).elim
      · rfl
    · split
      · next h =>
        split
        · next hs => exact (hinvoke _ _ h hs).elim
        · rfl
      · rfl

theorem projectMethod_alike {c c' : Calls} (hc : c.Alike S c') (o : ObjectRef) (name : String)
    {args args' : Args} (ha : args.Alike S w args') :
    Run.ValueAlike S w (projectMethod c o name args) (projectMethod c' o name args') := by
  have hpositional := ha.positional
  rw [projectMethod_eq, projectMethod_eq]
  generalize args.positional = vs, args'.positional = vs' at hpositional
  refine .ite (fun _ => ?_) fun _ => .ite (fun _ => newBag_alike hpositional) fun _ =>
    .ite (fun _ => ?_) fun _ => .typeError _
  · cases hpositional with
    | nil => exact .typeError _
    | cons hv _ =>
      cases hv with
      | str s => exact addTask_alike o s
      | _ => exact .typeError _
  · cases hpositional with
    | nil => exact .typeError _
    | cons hf hrest => exact hc.call w hf ⟨hrest, ha.keywords⟩

theorem bagMethod_alike (o : ObjectRef) (name : String) {args args' : Args}
    (ha : args.Alike S w args') :
    Run.ValueAlike S w (bagMethod o name args) (bagMethod o name args') := by
  refine .heap_bind fun h h' hh => ?_
  rw [bagList_eq hh]
  have hitems := bagItems_alike hh o
  split
  · exact itemAt_alike hitems (ha.get 0) _
  · exact .andThen (setListItem_alike _ (ha.get 0) (ha.get 1)) fun _ _ => .pure .none
  · rw [any_eq_of_forall₂ (fun _ _ hv => hh.equals_agree hv (ha.get 0)) hitems]
    exact .pure (.bool _)
  · exact .pure (.list _)
  · exact .typeError _

theorem setProjectProperty_eq (o : ObjectRef) (name : String) (v : Value) :
    setProjectProperty o name v =
      if name = "name" then
        match v with
        | .str _ => do
          Run.modifyHeap (·.setField o "name" v)
          return true
        | other => Run.fail (.property ("'name' must be a str, not '" ++ other.typeName ++ "'"))
      else if name = "tasks" then Run.fail (.attribute (.host "tasks are declared with task()"))
      else return false := by
  unfold setProjectProperty
  split
  · rfl
  · next h => cases v <;> first | rfl | exact (h _ rfl).elim
  · rfl
  · next hname htasks _ => rw [if_neg hname, if_neg htasks]

theorem setProjectProperty_alike (o : ObjectRef) (name : String) {v v' : Value}
    (hv : v.Alike S w v') :
    Run.EqAlike S w (setProjectProperty o name v) (setProjectProperty o name v') := by
  rw [setProjectProperty_eq, setProjectProperty_eq]
  refine .ite (fun _ => ?_) fun _ => .ite (fun _ => .fail_same rfl) fun _ => .pure rfl
  cases hv with
  | str s =>
    exact .andThen (.modifyHeap rfl fun _ _ hh => hh.setField o "name" (.str s))
      fun _ _ => .pure rfl
  | _ => exact .fail_same rfl

theorem uniform_host : host.Uniform where
  attr := attr_alike
  setAttr o name v v' _ := by
    change Run.Alike _ _ _ (setAttr o name v) (setAttr o name v')
    unfold setAttr
    split
    · exact .typeError _
    · exact .missing _ _
  callMethod {S w c c'} hc o _ name args args' ha := by
    change Run.Alike S w _ (callMethod c o name args) (callMethod c' o name args')
    unfold callMethod
    split
    · exact projectMethod_alike hc o name ha
    · exact bagMethod_alike o name ha
    · exact .missing _ _
  call {S w c c'} _ o args args' ha := by
    change Run.Alike S w _ (call o args) (call o args')
    unfold call
    split
    · refine .heap_bind fun h h' hh => ?_
      have hitems : Values.Alike S w (bagItems h o ++ args.positional)
          (bagItems h' o ++ args'.positional) := List.rel_append (bagItems_alike hh o) ha.positional
      dsimp only
      rw [bagList_eq hh, ← hitems.length_eq]
      exact .andThen (.modifyHeap rfl fun _ _ hh => hh.setList _ hitems) fun _ _ => .pure (.int _)
    · exact .typeError _
  pieces {S w h h'} hh o := by
    change List.Forall₂ _ (pieces h o) (pieces h' o)
    unfold pieces
    split
    · rw [bagList_eq hh]
      exact .cons (.text _) (.cons (.value (.list _)) (.cons (.text _) .nil))
    · exact .cons (.text _) .nil
  configure {S c c'} hc o := by
    change Option.Rel _ (configure? c o) (configure? c' o)
    unfold configure?
    split
    · refine .some fun w v v' hv => .heap_bind fun h h' hh => ?_
      exact hc.call w hv (.of_positional (.cons (taskSpace_alike hh o) .nil))
    · exact .none
  setProperty {S w o set} hset name v v' hv := by
    change setProperty? o = some set at hset
    unfold setProperty? at hset
    split at hset
    · cases hset
      exact setProjectProperty_alike o name hv
    · cases hset
  nameValue {S w h h'} _ o name := by
    change Option.Rel _ (nameValue? o name) (nameValue? o name)
    unfold nameValue?
    split
    · exact .some (.str _)
    · exact .none

end BlockScript.Project
