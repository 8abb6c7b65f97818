import BlockScript.Proofs.Names.Layers
import BlockScript.Proofs.Names.Live

/-! What is written to a free name is read back under it. The write goes to the running frame, to an
object of the scope stack or to the delegate of a closure; a read passes over the same layers, since
those that did not take the write do not see it either. -/

namespace BlockScript

open List

def Value.isHosted : Value → Bool
  | .object o => o.kind != .runtime
  | _ => false

namespace Evaluator

variable (ev : Evaluator) {h h' : Heap} {name : String} {v target : Value}

/-- How the heap changes when a value takes an assignment to one of its properties. -/
inductive Takes (h : Heap) (name : String) (v : Value) : Value → Heap → Prop
  | dict (r : DictRef) : Takes h name v (.dict r) (h.setDict r ((h.dict r).insert (.str name) v))
  | inst (r : InstanceRef) (c : Class) :
    Takes h name v (.inst r c) (h.setInst r ((h.inst r).insert name v))
  | cls (c : Class) :
    Takes h name v (.cls c) (h.setClassAttrs c.id ((h.classAttrs c.id).insert name v))
  | space (r : SpaceRef) : Takes h name v (.space r) (h.setSpace r ((h.space r).insert name v))

theorem Takes.var? (ht : Takes h name v target h') (r : FrameRef) (x : String) :
    h'.var? r x = h.var? r x := by
  cases ht with
  | dict | inst | cls | space => rfl

variable {m m' : Machine} {r : InstanceRef} {c : Class} {a : Value} {entries : List ScopeEntry}

theorem setProperty_cases (m : Machine) (name : String) (v : Value)
    (hosted : target.isHosted = false) :
    (∃ h', Takes m.heap name v target h' ∧ ev.setProperty target name v m = .ok ()
      { m with heap := h' }) ∨
    ∃ e : RuntimeError, e.isAttribute = true ∧ ev.setProperty target name v m = .error
      (.error e) m := by
  cases target with
  | dict r => exact .inl ⟨_, .dict r, rfl⟩
  | inst r c => exact .inl ⟨_, .inst r c, rfl⟩
  | cls c => exact .inl ⟨_, .cls c, rfl⟩
  | space r => exact .inl ⟨_, .space r, rfl⟩
  | object o =>
    obtain ⟨index, kind⟩ := o
    cases kind with
    | runtime => exact .inr ⟨_, rfl, rfl⟩
    | host typeName => cases hosted
  | none | bool | int | float | str | list | tuple | function | closure | native | method =>
    exact .inr ⟨_, rfl, rfl⟩

/-! ## Members of layers -/

/-- Names other than their own are only shown by objects of the embedding application. -/
theorem showsOnly_of_ne (hosted : target.isHosted = false) (hname : name ≠ "__name__") :
    ev.showsOnly h target name = false := by
  have hbeq := beq_eq_false_iff_ne.2 hname
  cases target with
  | cls c => rw [showsOnly, hbeq, Bool.false_and]
  | function | closure | native => exact hbeq
  | object o =>
    obtain ⟨index, kind⟩ := o
    cases kind with
    | runtime => exact Bool.and_false _
    | host typeName => cases hosted
  | none | bool | int | float | str | list | tuple | dict | method | inst | space => rfl

/-- A layer that a write passes by shows nothing under the name. -/
theorem lookupMember_of_passes (hosted : target.isHosted = false) (hname : name ≠ "__name__")
    (hp : ev.Passes m.heap target name) : ev.lookupMember target name m = .ok none m := by
  cases ev.lookupMember_readsAs m target name with
  | passed _ _ hlookup => exact hlookup
  | declared hdeclared => exact absurd hp hdeclared
  | shown hs => cases hs.symm.trans (ev.showsOnly_of_ne hosted hname)

theorem Takes.lookupMember (ht : Takes h name v target m.heap) (hname : name ≠ "__name__") :
    ev.lookupMember target name m = .ok (some v) m := by
  generalize hm : m.heap = h' at ht
  cases ht with
  | dict r =>
    have hget : (m.heap.dict r).get? (.str name) = some v := by
      rw [hm, Heap.dict_setDict_self, OrderedMap.get?_insert_self]
      exact beq_self_eq_true name
    exact congrArg (EStateM.Result.ok · m) hget
  | space r =>
    have hget : (m.heap.space r).get? name = some v := by
      rw [hm, Heap.space_setSpace_self, OrderedMap.get?_insert_self _ BEq.rfl]
    exact congrArg (EStateM.Result.ok · m) hget
  | inst r c =>
    refine ev.getAttr?_of_ok (ev.getAttr_inst ?_)
    rw [hm, Heap.inst_setInst_self, OrderedMap.get?_insert_self _ BEq.rfl]
  | cls c =>
    refine ev.getAttr?_of_ok (ev.getAttr_cls hname ?_)
    rw [hm, Heap.classAttr?_setClassAttrs_self]

theorem Passes.object {o : ObjectRef} (hosted : (Value.object o).isHosted = false)
    (hp : ev.Passes h (.object o) name) (h' : Heap) : ev.Passes h' (.object o) name := by
  obtain ⟨index, kind⟩ := o
  cases kind with
  | runtime => exact hp
  | host typeName => cases hosted

/-- A layer that does not take a write, since it does not know the name, shows nothing of it
afterwards, or what was written: two layers may be the same object. -/
theorem Takes.lookupMember_inner {inner : Value} (ht : Takes h name v target m.heap)
    (htarget : ev.hasMember h target name = true) (hosted : inner.isHosted = false)
    (hname : name ≠ "__name__") (hp : ev.Passes h inner name) :
    ev.lookupMember inner name m = .ok none m ∨ ev.lookupMember inner name m = .ok (some v) m := by
  generalize hm : m.heap = h' at ht
  have unchanged (hp' : ev.Passes h' inner name) : ev.lookupMember inner name m = .ok none m ∨
        ev.lookupMember inner name m = .ok (some v) m := by
    rw [← hm] at hp'
    exact .inl (ev.lookupMember_of_passes hosted hname hp')
  cases ht with
  | dict r =>
    cases inner with
    | dict s =>
      by_cases hs : s = r
      · rw [hs] at hp
        exact absurd htarget (Bool.eq_false_iff.1 hp.2)
      · rw [passes_dict, Heap.dict_setDict_ne h hs] at unchanged
        exact unchanged (ev.passes_dict.1 hp)
    | object o => exact unchanged (hp.object ev hosted _)
    | _ => exact unchanged hp
  | space r =>
    cases inner with
    | space s =>
      by_cases hs : s = r
      · rw [hs] at hp
        exact absurd htarget (Bool.eq_false_iff.1 hp.2)
      · rw [passes_space, Heap.space_setSpace_ne h hs] at unchanged
        exact unchanged (ev.passes_space.1 hp)
    | object o => exact unchanged (hp.object ev hosted _)
    | _ => exact unchanged hp
  | inst r c =>
    cases inner with
    | inst s d =>
      by_cases hs : s = r
      · rw [hs]
        refine .inr (ev.getAttr?_of_ok (ev.getAttr_inst ?_))
        rw [hm, Heap.inst_setInst_self, OrderedMap.get?_insert_self _ BEq.rfl]
      · rw [passes_inst, Heap.inst_setInst_ne h hs] at unchanged
        exact unchanged (ev.passes_inst.1 hp)
    | object o => exact unchanged (hp.object ev hosted _)
    | _ => exact unchanged hp
  | cls c =>
    -- Neither the class nor an instance inherits from a class that declares what it does not see.
    cases inner with
    | inst s d =>
      have hid := Heap.not_mem_lineage (ev.passes_inst.1 hp).2 htarget
      rw [passes_inst, Heap.classAttr?_setClassAttrs_ne h _ hid] at unchanged
      exact unchanged (ev.passes_inst.1 hp)
    | cls d =>
      have hid := Heap.not_mem_lineage (ev.passes_cls.1 hp) htarget
      rw [passes_cls, Heap.classAttr?_setClassAttrs_ne h _ hid] at unchanged
      exact unchanged (ev.passes_cls.1 hp)
    | object o => exact unchanged (hp.object ev hosted _)
    | _ => exact unchanged hp

/-! ## Layers -/

theorem mem_of_top? (htop : (ScopeStack.mk entries).top? = some target) :
    .object target ∈ entries := by
  obtain ⟨entry, hmem, hentry⟩ := exists_of_findSome?_eq_some htop
  cases entry with
  | object layer =>
    cases hentry
    exact hmem
  | locals frame => cases hentry

theorem findTarget_some (hf : ev.findTarget h name entries = .ok (some target)) :
    .object target ∈ entries ∧ ev.hasMember h target name = true := by
  replace hf := ev.finds hf
  generalize hr : Except.ok (some target) = r at hf
  induction hf with
  | nil | barred => cases hr
  | taken hmember =>
    cases hr
    exact ⟨mem_cons_self, hmember⟩
  | layer _ _ ih | locals _ _ ih => exact ⟨mem_cons_of_mem _ (ih hr).1, (ih hr).2⟩

theorem findTarget_error {e : RuntimeError}
    (hf : ev.findTarget h name entries = .error e) : ∃ bar, e = .cannotAssign name bar := by
  replace hf := ev.finds hf
  generalize hr : Except.error e = r at hf
  induction hf with
  | nil | taken => cases hr
  | barred =>
    cases hr
    exact ⟨_, rfl⟩
  | layer _ _ ih | locals _ _ ih => exact ih hr

theorem Takes.lookupIn (hname : name ≠ "__name__")
    (hosted : ∀ layer, .object layer ∈ entries → layer.isHosted = false)
    (hf : ev.findTarget h name entries = .ok (some target)) (ht : Takes h name v target m.heap) :
    ev.lookupIn name entries m = .ok (some v) m := by
  have htarget := (ev.findTarget_some hf).2
  replace hf := ev.finds hf
  generalize hr : Except.ok (some target) = r at hf
  induction hf with
  | nil | barred => cases hr
  | taken =>
    cases hr
    exact ev.lookupIn_object (ht.lookupMember ev hname)
  | layer hp _ ih =>
    rcases ht.lookupMember_inner ev htarget (hosted _ mem_cons_self) hname hp with hl | hl
    · rw [ev.lookupIn_object hl]
      exact ih (fun layer hl => hosted layer (mem_cons_of_mem _ hl)) hr
    · exact ev.lookupIn_object hl
  | locals hvar _ ih =>
    rw [ev.lookupIn_locals ((ht.var? ..).trans hvar)]
    exact ih (fun layer hl => hosted layer (mem_cons_of_mem _ hl)) hr

/-- The innermost object shows what it took, if no layer knew the name before. -/
theorem Takes.lookupIn_top (hname : name ≠ "__name__")
    (hf : ev.findTarget h name entries = .ok none)
    (htop : (ScopeStack.mk entries).top? = some target) (ht : Takes h name v target m.heap) :
    ev.lookupIn name entries m = .ok (some v) m := by
  replace hf := ev.finds hf
  generalize hr : Except.ok none = r at hf
  induction hf with
  | nil => cases htop
  | barred | taken => cases hr
  | layer =>
    cases htop
    exact ev.lookupIn_object (ht.lookupMember ev hname)
  | locals hvar _ ih =>
    rw [ev.lookupIn_locals ((ht.var? ..).trans hvar)]
    exact ih htop hr

/-! ## Free names -/

theorem lookup_of_local (hl : m.local? name = some a) : ev.lookup name m = .ok a m := by
  unfold lookup
  rw [Run.get_bind]
  simp only [hl]
  rfl

theorem lookup_of_lookupIn (hl : m.local? name = none)
    (hs : ev.lookupIn name m.scopes.entries m = .ok (some a) m) : ev.lookup name m = .ok a m := by
  unfold lookup
  rw [Run.get_bind]
  simp only [hl]
  rw [Run.bind_of_ok hs]
  rfl

theorem local?_of_var (hvar : m.heap.var? m.frame name = some a) : m.local? name = some a := by
  rw [Machine.local?, hvar]
  rfl

theorem local?_of_not_classBody (hvar : m.heap.var? m.frame name = none)
    (hkind : m.frame.kind ≠ .classBody) : m.local? name = none := by
  rw [Machine.local?, hvar, if_neg hkind]
  rfl

section
variable {P : Run.Result Unit → Prop}
  (hvar : P (.ok () { m with heap := m.heap.setVar m.frame name v }))
  (hbar : ∀ bar, P (.error (.error (.cannotAssign name bar)) m))
include hvar hbar

omit hbar in
theorem delegated_cases
    (hdelegate : ∀ d, m.delegate? = some d → d.isNone = false → P (ev.setProperty d name v m)) :
    P ((match m.frame.kind, m.delegate? with
      | .closure, some delegate =>
        if delegate.isNone then Run.modifyHeap (·.setVar m.frame name v)
        else ev.setProperty delegate name v
      | _, _ => Run.modifyHeap (·.setVar m.frame name v) : Run Unit) m) := by
  cases m.frame.kind with
  | module | function | classBody => exact hvar
  | closure =>
    cases hd : m.delegate? with
    | none => exact hvar
    | some d =>
      dsimp only
      split
      · exact hvar
      · next hnone => exact hdelegate d hd (Bool.eq_false_iff.2 hnone)

/-- A write that no layer takes goes to the delegate or makes a variable, unless the name is bound
around the running code. -/
theorem setNew_cases
    (hdelegate : ∀ d, m.delegate? = some d → d.isNone = false → P (ev.setProperty d name v m)) :
    P (ev.setNew m name v m) := by
  have hwrite := ev.delegated_cases hvar hdelegate
  unfold setNew
  dsimp only
  split
  · split
    · exact hbar _
    · split
      · exact hbar _
      · exact hwrite
  · exact hwrite

/-- A write goes to the running frame, to the layer that takes it or, if there is none, to the
delegate of the running closure. -/
theorem set_cases (htarget : ∀ target, m.heap.var? m.frame name = none →
      (ev.findTarget m.heap name m.scopes.entries = .ok (some target) ∨
        ev.findTarget m.heap name m.scopes.entries = .ok none ∧
          m.delegate? = some target ∧ target.isNone = false) →
      P (ev.setProperty target name v m)) : P (ev.set name v m) := by
  unfold Evaluator.set
  rw [Run.get_bind]
  split
  · exact hvar
  · next hnone =>
    have hunbound := Option.not_isSome_iff_eq_none.1 hnone
    cases hf : ev.findTarget m.heap name m.scopes.entries with
    | error e =>
      obtain ⟨bar, rfl⟩ := ev.findTarget_error hf
      exact hbar bar
    | ok found =>
      rw [Run.bind_of_ok (show Run.ofExcept (.ok found) m = .ok found m from rfl)]
      cases found with
      | some target => exact htarget target hunbound (.inl hf)
      | none =>
        exact ev.setNew_cases hvar hbar fun d hd hn => htarget d hunbound (.inr ⟨hf, hd, hn⟩)

end

/-- Whatever takes a write, the name then has the value that was written. -/
theorem lookup_set {m m' : Machine} (hm : m.Reachable) (hkind : m.frame.kind ≠ .classBody)
    (hosted : ∀ layer, .object layer ∈ m.scopes.entries → layer.isHosted = false)
    (hname : name ≠ "__name__") (hset : ev.set name v m = .ok () m') :
    ev.lookup name m' = .ok v m' := by
  revert hset
  refine ev.set_cases (P := fun r => r = .ok () m' → _) ?_ nofun fun target hvar hlayer hset => ?_
  · rintro ⟨⟩
    exact ev.lookup_of_local (local?_of_var (m.heap.var?_setVar_self m.frame name v))
  · have htarget : target.isHosted = false := by
      rcases hlayer with hf | ⟨_, hd, hnone⟩
      · exact hosted target (ev.findTarget_some hf).1
      · exact hosted target (mem_of_top? (hm.delegate hd hnone))
    rcases ev.setProperty_cases m name v htarget with ⟨h', ht, hok⟩ | ⟨e, -, herror⟩
    case inr => cases hset.symm.trans herror
    cases hset.symm.trans hok
    refine ev.lookup_of_lookupIn (local?_of_not_classBody ?_ hkind) ?_
    · exact (ht.var? m.frame name).trans hvar
    · rcases hlayer with hf | ⟨hf, hd, hnone⟩
      · exact Takes.lookupIn ev hname hosted hf ht
      · exact Takes.lookupIn_top ev hname hf (hm.delegate hd hnone) ht

def idleMachine : Machine where
  heap := { spaces := ⟨#[.empty]⟩, frames := ⟨#[{}]⟩ }
  frames := [{ env := [⟨0, .module⟩] }]

def emptyBlock : Function := .mk 0 "block" { args := [⟨"self", none⟩] } [] [⟨0, .module⟩] []

def configuringMachine : Machine :=
  (idleMachine.under (.object (.space ⟨0⟩))).enterCall emptyBlock
    (.ofList [("self", .space ⟨0⟩)]) .closure (some (.space ⟨0⟩))

theorem reachable_configuringMachine : configuringMachine.Reachable := by
  have hbind : emptyBlock.bindParams { positional := [.space ⟨0⟩] }
      (idleMachine.under (.object (.space ⟨0⟩))) =
        .ok (.ofList [("self", .space ⟨0⟩)]) (idleMachine.under (.object (.space ⟨0⟩))) := rfl
  exact .closureOn (.space ⟨0⟩) (.module rfl) ⟨rfl, suffix_rfl⟩ hbind

/-- A name that nothing knows becomes an attribute of the bag, and is read from there. -/
theorem lookup_set_configuringMachine : configuringMachine.Reachable ∧
      ∃ m', (exhausted Host.none).set "size" (.int 3) configuringMachine = .ok () m' ∧
        (m'.heap.space ⟨0⟩).get? "size" = some (.int 3) ∧
        (exhausted Host.none).lookup "size" m' = .ok (.int 3) m' := by
  refine ⟨reachable_configuringMachine, _, rfl, rfl, ?_⟩
  refine lookup_set _ reachable_configuringMachine (by decide) ?_ (by decide) rfl
  intro layer hlayer
  cases hlayer with
  | head => rfl
  | tail _ hlayer => cases hlayer

end Evaluator

end BlockScript
