import BlockScript.Proofs.Alike.Attributes

/-! Free names of alike code are read and written alike. -/

namespace BlockScript

open Program

variable {S : Pairing} {w : World}

variable {m m' : Machine} {name : String}

theorem Machine.Alike.local? (hm : m.Alike S w m' S.marks)
    (hname : S.Allows name) : Option.Rel (Value.Alike S w) (m.local? name) (m'.local? name) := by
  rw [Machine.local?, Machine.local?, hm.frame_eq, hm.env_eq]
  refine (hm.heap.var? m.frame hname).orElse ?_
  split
  · split
    · exact hm.heap.var? _ hname
    · exact .none
  · exact .none

variable {es es' : List ScopeEntry}

theorem scopes_top? (h : List.Forall₂ (ScopeEntry.Alike S w) es es') :
    Option.Rel (Value.Alike S w) (ScopeStack.top? ⟨es⟩) (ScopeStack.top? ⟨es'⟩) := by
  unfold ScopeStack.top?
  induction h with
  | nil => exact .none
  | cons he _ ih =>
    cases he with
    | object hv => exact .some hv
    | locals _ => exact ih

theorem scopes_summary_eq (h : List.Forall₂ (ScopeEntry.Alike S w) es es') :
    ScopeStack.summary ⟨es'⟩ = ScopeStack.summary ⟨es⟩ :=
  map_eq_of_forall₂ (fun _ _ he => by
    cases he with
    | object hv => exact hv.typeName_eq
    | locals _ => rfl) h

namespace Evaluator.Alike

variable {ev ev' : Evaluator} {v v' u u' : Value} {h h' : Heap}

variable (he : ev.Alike S ev')

include he

theorem lookupMember (hv : v.Alike S w v') (name : String) :
    Run.Alike S w (fun w => Option.Rel (Value.Alike S w)) (ev.lookupMember v name)
      (ev'.lookupMember v' name) := by
  have hv' := hv
  have hattr : Run.Alike S w (fun w => Option.Rel (Value.Alike S w))
      (do return some (← ev.getAttr v name)) (do return some (← ev'.getAttr v' name)) :=
    .bind (he.getAttr hv name) fun _ _ _ _ hu => .pure (.some hu)
  refine .heap_bind fun h h' hh => ?_
  cases hv with
  | none => exact .pure .none
  | dict r => exact .pure ((hh.dict r).get? (.str name))
  | space r => exact .pure ((hh.space r).get? name)
  | @object o ho =>
    have hmember := he.objectAttr hh o name
    dsimp only
    generalize ev.host.objectAttr h o name = member, ev'.host.objectAttr h' o name =
      member' at hmember
    cases hmember with
    | absent =>
      dsimp only
      rw [he.host_eq]
      refine .ite (fun _ => hattr) fun _ => .pure ?_
      unfold Host.objectName?
      split
      · exact .none
      · exact he.uniform.nameValue hh o name
    | _ => exact hattr
  | _ => exact he.getAttr? hv' name

theorem hasMember_eq (hh : h.Alike S w h') (hv : v.Alike S w v') (name : String) :
    ev'.hasMember h' v' name = ev.hasMember h v name := by
  cases hv with
  | dict r => exact OrderedMap.AlikeBy.contains_eq (hh.dict r) _
  | space r => exact OrderedMap.AlikeBy.contains_eq (hh.space r) _
  | inst r c =>
    unfold Evaluator.hasMember
    dsimp only
    rw [OrderedMap.AlikeBy.contains_eq (hh.inst r) name, (hh.classAttr? c name).isSome_eq]
  | cls c => exact (hh.classAttr? c name).isSome_eq
  | @object o _ =>
    unfold Evaluator.hasMember
    dsimp only
    rw [(he.objectAttr hh o name).isAbsent_eq, he.host_eq]
  | _ => rfl

theorem isMethodMember_eq (hh : h.Alike S w h') (hv : v.Alike S w v') (name : String) :
    ev'.isMethodMember h' v' name = ev.isMethodMember h v name := by
  have hbuiltin := hv.hasBuiltinMethod_eq name
  cases hv with
  | inst r c =>
    unfold Evaluator.isMethodMember
    dsimp only
    rw [OrderedMap.AlikeBy.contains_eq (hh.inst r) name]
    match h.classAttr? c name, h'.classAttr? c name, hh.classAttr? c name with
    | _, _, .none => rfl
    | _, _, .some hv => cases hv <;> rfl
  | object _ =>
    unfold Evaluator.isMethodMember
    dsimp only
    rw [he.host_eq]
  | dict _ | space _ | cls _ => rfl
  | _ => exact hbuiltin

theorem lookupIn (hname : S.Allows name) (hes : List.Forall₂ (ScopeEntry.Alike S w) es es') :
    Run.Alike S w (fun w => Option.Rel (Value.Alike S w)) (ev.lookupIn name es)
      (ev'.lookupIn name es') := by
  induction es generalizing w es' with
  | nil =>
    cases hes
    exact .pure .none
  | cons e es ih =>
    obtain ⟨e', rest, hentry, hrest, rfl⟩ := List.forall₂_cons_left_iff.1 hes
    cases hentry with
    | object hv =>
      refine .bind (he.lookupMember hv name) fun w' hw r r' hr => ?_
      cases hr with
      | some hv => exact .pure (.some hv)
      | none => exact ih (hrest.imp fun _ _ => ScopeEntry.Alike.mono hw)
    | @locals frame _ =>
      refine .heap_bind fun h h' hh => ?_
      match h.var? frame name, h'.var? frame name, hh.var? frame hname with
      | _, _, .some hv => exact .pure (.some hv)
      | _, _, .none => exact ih hrest

theorem lookup (hname : S.Allows name) : Run.ValueAlike S w (ev.lookup name) (ev'.lookup name) := by
  refine .get_bind fun m m' hm => ?_
  match m.local? name, m'.local? name, hm.local? hname with
  | _, _, .some hv => exact .pure hv
  | _, _, .none =>
    refine .bind (he.lookupIn hname hm.scopes) fun w' hw r r' hr => ?_
    cases hr with
    | some hv => exact .pure hv
    | none =>
      refine .get_bind fun m m' hm => ?_
      have hfound := (hm.heap.var? w'.globals hname).orElse (hm.builtins.get? name)
      have hsummary : m'.scopes.summary = m.scopes.summary := scopes_summary_eq hm.scopes
      rw [Machine.global?, Machine.global?, hm.globals, hm.globals', hsummary]
      generalize ((m.heap.var? w'.globals name).orElse fun _ => m.builtins.get? name) = found,
        ((m'.heap.var? w'.globals name).orElse fun _ => m'.builtins.get? name) = found' at hfound
      cases hfound with
      | some hv => exact .pure hv
      | none => exact .fail_same rfl

theorem findTarget (hh : h.Alike S w h') (name : String)
    (hes : List.Forall₂ (ScopeEntry.Alike S w) es es') :
    ExceptAlike S w (Option.Rel (Value.Alike S w)) (ev.findTarget h name es)
      (ev'.findTarget h' name es') := by
  induction hes with
  | nil => exact .ok .none
  | cons hentry _ ih =>
    unfold Evaluator.findTarget
    cases hentry with
    | object hv =>
      dsimp only
      rw [he.isMethodMember_eq hh hv, he.hasMember_eq hh hv, hv.typeName_eq]
      split
      · exact .error (.same rfl)
      · split
        · exact .ok (.some hv)
        · exact ih
    | locals _ =>
      dsimp only
      rw [hh.hasVar_eq]
      split
      · exact .error (.same rfl)
      · exact ih

theorem delegated {delegate delegate' : Option Value} {write write' : Run Unit} (kind : FrameKind)
    (name : String) (hv : v.Alike S w v') (hwrite : Run.EqAlike S w write write') :
    Option.Rel (Value.Alike S w) delegate delegate' → Run.EqAlike S w (match kind, delegate with
        | .closure, some d => if d.isNone then write else ev.setProperty d name v
        | _, _ => write)
      (match kind, delegate' with
        | .closure, some d => if d.isNone then write' else ev'.setProperty d name v'
        | _, _ => write') := by
  intro hdelegate
  cases kind with
  | closure =>
    cases hdelegate with
    | none => exact hwrite
    | some hd =>
      dsimp only
      rw [hd.isNone_eq]
      exact .ite (fun _ => hwrite) fun _ => he.setProperty hd name hv
  | _ => exact hwrite

theorem setNew (hm : m.Alike S w m' S.marks) (hname : S.Allows name) (hv : v.Alike S w v') :
    Run.EqAlike S w (ev.setNew m name v) (ev'.setNew m' name v') := by
  unfold Evaluator.setNew
  have hend := he.delegated m.frame.kind name hv
    (.modifyHeap rfl fun _ _ hh => hh.setVar hm.frame hname hv) hm.delegate?
  rw [hm.frame_eq, hm.env_eq, hm.globals, hm.globals', hm.heap.enclosing?_eq, hm.heap.hasVar_eq]
  refine .ite (fun _ => ?_) fun _ => hend
  refine .ite (fun _ => .fail_bind (.same rfl)) fun _ => ?_
  exact .ite (fun _ => .fail_bind (.same rfl)) fun _ => hend

theorem set (hname : S.Allows name) (hv : v.Alike S w v') :
    Run.EqAlike S w (ev.set name v) (ev'.set name v') := by
  refine .get_bind fun m m' hm => ?_
  rw [hm.frame_eq, hm.heap.hasVar_eq]
  refine .ite (fun _ => .modifyHeap rfl fun _ _ hh => hh.setVar hm.frame hname hv) fun _ => ?_
  have htarget := he.findTarget hm.heap name hm.scopes
  generalize ev.findTarget m.heap name m.scopes.entries = target,
    ev'.findTarget m'.heap name m'.scopes.entries = target' at htarget
  cases htarget with
  | error he => exact .fail_bind he
  | ok htarget =>
    cases htarget with
    | some hu => exact he.setProperty hu name hv
    | none => exact he.setNew hm hname hv

omit he in
theorem withLocals {Q : World → Value → Value → Prop} {p q : Run Value}
    (h : Run.Alike S w Q p q) : Run.Alike S w Q (withLocals p) (Evaluator.withLocals q) := by
  refine .get_bind fun m m' hm => ?_
  rw [hm.frame_eq]
  exact .ite (fun _ => h) fun _ => .withScope (.locals hm.frame) h

theorem configureDict (r : DictRef) (hv : v.Alike S w v') :
    Run.ValueAlike S w (ev.configureDict r v) (ev'.configureDict r v') := by
  refine .heap_bind fun h h' hh => ?_
  refine .bind (Q := fun _ => Eq) (.alloc fun _ _ hh' =>
    (hh'.newSpace (.ofList (List.rel_filterMap ?_ (hh.dict r)))).imp Eq.symm id) ?_
  · rintro ⟨k, v⟩ ⟨_, v'⟩ ⟨hk, hv⟩
    cases hk
    cases k with
    | str name => exact .some ⟨rfl, hv⟩
    | _ => exact .none
  rintro w1 hw1 proxy _ rfl
  refine .bind (he.call (hv.mono hw1) (.of_positional (.cons (.space proxy) .nil)))
    fun w2 hw2 _ _ _ => ?_
  refine .bind (Q := fun _ => Eq) (.modifyHeap rfl fun h h' hh => hh.setDict r (.insertAll ?_ ?_))
    fun _ _ _ _ _ => .pure (.dict r)
  · exact OrderedMap.AlikeBy.filter (fun k _ _ _ => by cases k <;> rfl) (hh.dict r)
  · refine List.rel_filterMap ?_ (hh.space proxy)
    rintro ⟨name, v⟩ ⟨_, v'⟩ ⟨hname, hv⟩
    cases hname
    dsimp only
    split
    · exact .none
    · exact .some ⟨rfl, hv⟩

theorem configure (hu : u.Alike S w u') (hv : v.Alike S w v') :
    Run.ValueAlike S w (ev.configure u v) (ev'.configure u' v') := by
  have hu' := hu
  have hplain : Run.ValueAlike S w (do
        let _ ← ev.call v { positional := [u] }
        return u)
      (do
        let _ ← ev'.call v' { positional := [u'] }
        return u') :=
    .bind (he.call hv (.of_positional (.cons hu .nil))) fun _ hw _ _ _ => .pure (hu.mono hw)
  unfold Evaluator.configure
  cases hu with
  | @object o _ =>
    have hown : Option.Rel (fun f f' => ∀ w {v v' : Value}, v.Alike S w v' →
        Run.ValueAlike S w (f v) (f' v'))
        (ev.host.objectConfigure? ev.toCalls o) (ev'.host.objectConfigure? ev'.toCalls o) := by
      rw [he.host_eq]
      unfold Host.objectConfigure?
      split
      · exact .none
      · exact he.uniform.configure he.calls o
    dsimp only
    generalize ev.host.objectConfigure? ev.toCalls o = own,
      ev'.host.objectConfigure? ev'.toCalls o = own' at hown
    cases hown with
    | none => exact hplain
    | some h => exact h w hv
  | inst r c =>
    refine .heap_bind fun h h' hh => ?_
    match h.classAttr? c "configure", h'.classAttr? c "configure", hh.classAttr? c "configure" with
    | _, _, .none => exact hplain
    | _, _, .some hm =>
      refine .bind (.bindAttr hu' hm) fun _ hw _ _ hbound => ?_
      exact he.call hbound (.of_positional (.cons (hv.mono hw) .nil))
  | dict r => exact he.configureDict r hv
  | _ => exact hplain

theorem configureObject (hu : u.Alike S w u') (hv : v.Alike S w v') :
    Run.ValueAlike S w (ev.configureObject u v) (ev'.configureObject u' v') :=
  withLocals (he.configure hu hv)

theorem callBlock (hu : u.Alike S w u') (hv : v.Alike S w v') :
    Run.ValueAlike S w (ev.callBlock u v) (ev'.callBlock u' v') := by
  refine withLocals (.heap_bind fun h h' hh => ?_)
  rw [he.isCallable_eq hh hu]
  exact .ite (fun _ => he.call hu (.of_positional (.cons hv .nil))) fun _ => he.configure hu hv

end Evaluator.Alike

end BlockScript
