import BlockScript.Project
import BlockScript.Proofs.Balance.Run

/-! Where reads and writes of a free name stop. A write stops at a layer that declares the name or
has a method of that name. A read finds the name there too, and besides in layers that show a name
without declaring it; such a layer is passed by a write, which then ends further out. -/

namespace BlockScript.Evaluator

open List

variable (ev : Evaluator) {h : Heap} {name : String} {target a : Value} {m : Machine}
  {r : InstanceRef}
  {c : Class} {entries : List ScopeEntry}

/-! ## Members -/

def Passes (h : Heap) (target : Value) (name : String) : Prop :=
  ev.isMethodMember h target name = false ∧ ev.hasMember h target name = false

theorem passes_iff {found : Option Value} (hmethod : ev.isMethodMember h target name = false)
    (hmember : ev.hasMember h target name = found.isSome) :
    ev.Passes h target name ↔ found = none := by
  rw [Passes, hmethod, hmember, and_iff_right rfl, Option.isSome_eq_false_iff,
    Option.isNone_iff_eq_none]

theorem passes_dict {r : DictRef} :
    ev.Passes h (.dict r) name ↔ (h.dict r).get? (.str name) = none :=
  ev.passes_iff rfl rfl

theorem passes_space {r : SpaceRef} : ev.Passes h (.space r) name ↔ (h.space r).get? name = none :=
  ev.passes_iff rfl rfl

theorem passes_cls : ev.Passes h (.cls c) name ↔ h.classAttr? c name = none := ev.passes_iff rfl rfl

theorem passes_inst : ev.Passes h (.inst r c) name ↔
      (h.inst r).get? name = none ∧ h.classAttr? c name = none := by
  constructor
  · intro hp
    obtain ⟨hattr, hclass⟩ := Bool.or_eq_false_iff.1 hp.2
    exact ⟨Option.not_isSome_iff_eq_none.1 (Bool.eq_false_iff.1 hattr),
      Option.not_isSome_iff_eq_none.1 (Bool.eq_false_iff.1 hclass)⟩
  · rintro ⟨hattr, hclass⟩
    have hcontains : (h.inst r).contains name = false := by rw [OrderedMap.contains, hattr]; rfl
    constructor
    · simp only [isMethodMember, hclass, Bool.and_false]
    · simp only [hasMember, hcontains, hclass, Option.isSome_none, Bool.or_self]

theorem getAttr_inst (hattr : (m.heap.inst r).get? name = some a) :
    ev.getAttr (.inst r c) name m = .ok a m := by
  unfold getAttr
  rw [Run.heap_bind]
  simp only [hattr]
  rfl

theorem getAttr_inst_missing (hattr : (m.heap.inst r).get? name = none)
    (hclass : m.heap.classAttr? c name = none) :
    ev.getAttr (.inst r c) name m = .error (.error (.attribute (.missing c.name name))) m := by
  unfold getAttr
  rw [Run.heap_bind]
  simp only [hattr, hclass]
  rfl

theorem getAttr_cls (hname : name ≠ "__name__") (hattr : m.heap.classAttr? c name = some a) :
    ev.getAttr (.cls c) name m = .ok a m := by
  unfold getAttr
  rw [Run.heap_bind]
  simp only [if_neg hname, hattr]
  rfl

theorem getAttr_cls_missing (hname : name ≠ "__name__") (hattr : m.heap.classAttr? c name = none) :
    ev.getAttr (.cls c) name m = .error (.error (.attribute (.missingOnClass c.name name))) m := by
  unfold getAttr
  rw [Run.heap_bind]
  simp only [if_neg hname, hattr]
  rfl

theorem getAttr?_of_ok (hget : ev.getAttr target name m = .ok a m) :
    ev.getAttr? target name m = .ok (some a) m := by
  refine Run.bind_of_ok (a := Except.ok a) ?_
  rw [Run.attempt, hget]

theorem getAttr?_of_error {e : RuntimeError}
    (hget : ev.getAttr target name m = .error (.error e) m) :
    ev.getAttr? target name m = .ok none m := by
  refine Run.bind_of_ok (a := Except.error e) ?_
  rw [Run.attempt, hget]

/-- A read ends in a layer with a value, or with the error of a property that has none. -/
def IsFound : Run.Result (Option Value) → Prop
  | .ok r _ => r.isSome
  | .error (.error (.attribute (.unset ..))) _ => True
  | .error _ _ => False

/-- Whether a value shows a name that it does not declare: classes and functions show their own
name, and objects of the application the names that they know beyond their attributes. -/
def showsOnly (h : Heap) (target : Value) (name : String) : Bool :=
  match target with
  | .cls c => name == "__name__" && (h.classAttr? c name).isNone
  | .function _ | .closure _ | .native _ _ => name == "__name__"
  | .object o =>
    (ev.host.objectAttr h o name).isAbsent && !ev.host.objectIsMethod o name &&
      (ev.host.objectName? h o name).isSome
  | _ => false

theorem passes_of_showsOnly (hs : ev.showsOnly h target name = true) : ev.Passes h target name := by
  cases target with
  | cls c =>
    have hnone := (Bool.and_eq_true_iff.1 hs).2
    exact ev.passes_cls.2 (Option.isNone_iff_eq_none.1 hnone)
  | function f | closure f | native id fn => exact ⟨rfl, rfl⟩
  | object o =>
    obtain ⟨hdeclared, -⟩ := Bool.and_eq_true_iff.1 hs
    obtain ⟨habsent, hmethod⟩ := Bool.and_eq_true_iff.1 hdeclared
    have hmethod : ev.host.objectIsMethod o name = false := by simpa using hmethod
    refine ⟨hmethod, ?_⟩
    simp only [hasMember, habsent, hmethod, Bool.not_true, Bool.or_self]
  | none | bool | int | float | str | list | tuple | dict | method | inst | space => cases hs

/-! ## Attributes -/

theorem getAttr?_isFound {m' : Machine} (hget : ev.getAttr target name m = .ok a m') :
    IsFound (ev.getAttr? target name m) := by
  have hattempt : Run.attempt (ev.getAttr target name) m = .ok (.ok a) m' := by
    rw [Run.attempt, hget]
  rw [getAttr?, Run.bind_of_ok hattempt]
  rfl

theorem bind_ok (receiver attr : Value) (m : Machine) :
    ∃ a m', bind receiver attr m = .ok a m' := by
  cases attr with
  | function f | native id fn => exact ⟨_, _, rfl⟩
  | none | bool | int | float | str | list | tuple | dict | closure | method | cls | inst | space
  | object => exact ⟨_, _, rfl⟩

theorem getAttr_inst_inherited {attr : Value} (hattr : (m.heap.inst r).get? name = none)
    (hclass : m.heap.classAttr? c name = some attr) :
    ev.getAttr (.inst r c) name m = bind (.inst r c) attr m := by
  unfold getAttr
  rw [Run.heap_bind]
  simp only [hattr, hclass]

theorem getAttr_cls_name (c : Class) (m : Machine) :
    ev.getAttr (.cls c) "__name__" m = .ok (.str c.name) m := rfl

/-! ## Layers -/

inductive ReadsAs (m : Machine) (target : Value) (name : String) : Prop
  | passed : ev.Passes m.heap target name → ev.showsOnly m.heap target name = false →
    ev.lookupMember target name m = .ok none m → ReadsAs m target name
  | declared : ¬ev.Passes m.heap target name → IsFound (ev.lookupMember target name m) →
    ReadsAs m target name
  | shown : ev.showsOnly m.heap target name = true → IsFound (ev.lookupMember target name m) →
    ReadsAs m target name

variable {ev}

theorem ReadsAs.of_get {a : Option Value} (hs : ev.showsOnly m.heap target name = false)
    (hpasses : ev.Passes m.heap target name ↔ a = none)
    (hget : ev.lookupMember target name m = .ok a m) : ev.ReadsAs m target name := by
  cases a with
  | none => exact .passed (hpasses.2 rfl) hs hget
  | some a =>
    refine .declared (fun hp => nomatch hpasses.1 hp) ?_
    rw [hget]
    rfl

theorem ReadsAs.of_builtin (hs : ev.showsOnly m.heap target name = false)
    (hmember : ev.hasMember m.heap target name = false)
    (hmethod : ev.isMethodMember m.heap target name = target.hasBuiltinMethod name)
    (hlookup : ev.lookupMember target name m = ev.getAttr? target name m)
    (hget : ev.getAttr target name =
      (if target.hasBuiltinMethod name then namedMethod target name
        else missing target.typeName name)) : ev.ReadsAs m target name := by
  cases hb : target.hasBuiltinMethod name with
  | true =>
    rw [if_pos hb] at hget
    refine .declared (fun hp => ?_) ?_
    · rw [Passes, hmethod, hb] at hp
      exact nomatch hp.1
    · rw [hlookup]
      exact ev.getAttr?_isFound (congrFun hget m)
  | false =>
    rw [if_neg (Bool.eq_false_iff.1 hb)] at hget
    refine .passed ⟨hmethod.trans hb, hmember⟩ hs ?_
    rw [hlookup]
    exact ev.getAttr?_of_error (congrFun hget m)

theorem ReadsAs.of_named (own : String)
    (hs : ev.showsOnly m.heap target name = (name == "__name__"))
    (hpasses : ev.Passes m.heap target name)
    (hlookup : ev.lookupMember target name m = ev.getAttr? target name m)
    (hget : ev.getAttr target name =
      (if name = "__name__" then pure (.str own) else missing target.typeName name)) :
    ev.ReadsAs m target name := by
  by_cases hname : name = "__name__"
  · rw [if_pos hname] at hget
    refine .shown (hs.trans (beq_iff_eq.2 hname)) ?_
    rw [hlookup]
    exact ev.getAttr?_isFound (congrFun hget m)
  · rw [if_neg hname] at hget
    refine .passed hpasses (hs.trans (beq_eq_false_iff_ne.2 hname)) ?_
    rw [hlookup]
    exact ev.getAttr?_of_error (congrFun hget m)

theorem readsAs_inst (r : InstanceRef) (c : Class) : ev.ReadsAs m (.inst r c) name := by
  cases hattr : (m.heap.inst r).get? name with
  | some a =>
    refine .declared (fun hp => ?_) (ev.getAttr?_isFound (ev.getAttr_inst hattr))
    rw [(ev.passes_inst.1 hp).1] at hattr
    cases hattr
  | none =>
    cases hclass : m.heap.classAttr? c name with
    | some attr =>
      obtain ⟨a, m', hbind⟩ := bind_ok (.inst r c) attr m
      rw [← ev.getAttr_inst_inherited hattr hclass] at hbind
      refine .declared (fun hp => ?_) (ev.getAttr?_isFound hbind)
      rw [(ev.passes_inst.1 hp).2] at hclass
      cases hclass
    | none =>
      exact .passed (ev.passes_inst.2 ⟨hattr, hclass⟩) rfl
        (ev.getAttr?_of_error (ev.getAttr_inst_missing hattr hclass))

theorem readsAs_cls (c : Class) : ev.ReadsAs m (.cls c) name := by
  cases hclass : m.heap.classAttr? c name with
  | some attr =>
    refine .declared (fun hp => ?_) ?_
    · rw [ev.passes_cls.1 hp] at hclass
      cases hclass
    · by_cases hname : name = "__name__"
      · exact ev.getAttr?_isFound (hname ▸ ev.getAttr_cls_name c m)
      · exact ev.getAttr?_isFound (ev.getAttr_cls hname hclass)
  | none =>
    by_cases hname : name = "__name__"
    · refine .shown ?_ (ev.getAttr?_isFound (hname ▸ ev.getAttr_cls_name c m))
      rw [showsOnly, hclass, hname]
      rfl
    · refine .passed (ev.passes_cls.2 hclass) ?_
        (ev.getAttr?_of_error (ev.getAttr_cls_missing hname hclass))
      rw [showsOnly, beq_eq_false_iff_ne.2 hname]
      rfl

theorem lookupMember_object (o : ObjectRef) : ev.lookupMember (.object o) name m =
    (match ev.host.objectAttr m.heap o name with
      | .absent =>
        if ev.host.objectIsMethod o name then some <$> ev.getObjectAttr o name
        else pure (ev.host.objectName? m.heap o name)
      | _ => some <$> ev.getObjectAttr o name : Run (Option Value)) m :=
  rfl

theorem getObjectAttr_eq (o : ObjectRef) : ev.getObjectAttr o name m =
    (match ev.host.objectAttr m.heap o name with
      | .value v => pure v
      | .items vs => Run.newList vs
      | .unset => Run.fail (.attribute (.unset o.typeName name))
      | .absent =>
        if ev.host.objectIsMethod o name then namedMethod (.object o) name
        else missing o.typeName name : Run Value) m :=
  rfl

theorem readsAs_object (o : ObjectRef) : ev.ReadsAs m (.object o) name := by
  have hlookup := @lookupMember_object ev name m o
  have hget := @getObjectAttr_eq ev name m o
  cases hattr : ev.host.objectAttr m.heap o name with
  | value v | items vs | unset =>
    rw [hattr] at hlookup hget
    refine .declared (fun hp => ?_) ?_
    · have hmember := hp.2
      rw [hasMember, hattr] at hmember
      cases hmember
    · change _ = EStateM.map some (ev.getObjectAttr o name) m at hlookup
      rw [hlookup, EStateM.map, hget]
      trivial
  | absent =>
    rw [hattr] at hlookup hget
    dsimp only at hlookup hget
    cases hmethod : ev.host.objectIsMethod o name with
    | true =>
      rw [hmethod] at hlookup hget
      refine .declared (fun hp => ?_) ?_
      · exact nomatch hmethod.symm.trans hp.1
      · change _ = EStateM.map some (ev.getObjectAttr o name) m at hlookup
        rw [hlookup, EStateM.map, hget]
        trivial
    | false =>
      rw [hmethod] at hlookup
      change _ = EStateM.Result.ok (ev.host.objectName? m.heap o name) m at hlookup
      have hpasses : ev.Passes m.heap (.object o) name := by
        refine ⟨hmethod, ?_⟩
        rw [hasMember, hattr, hmethod]
        rfl
      have hshows : ev.showsOnly m.heap (.object o) name =
          (ev.host.objectName? m.heap o name).isSome := by
        rw [showsOnly, hattr, hmethod]
        rfl
      cases hname : ev.host.objectName? m.heap o name with
      | some v =>
        refine .shown (hshows.trans (congrArg Option.isSome hname)) ?_
        rw [hlookup, hname]
        rfl
      | none =>
        refine .passed hpasses (hshows.trans (congrArg Option.isSome hname)) ?_
        rw [hlookup, hname]

variable (ev) {inner : List ScopeEntry}

theorem lookupMember_readsAs (m : Machine) (target : Value) (name : String) :
    ev.ReadsAs m target name := by
  cases target with
  | none => exact .passed ⟨rfl, rfl⟩ rfl rfl
  | dict r => exact .of_get rfl ev.passes_dict rfl
  | space r => exact .of_get rfl ev.passes_space rfl
  | inst r c => exact readsAs_inst r c
  | cls c => exact readsAs_cls c
  | object o => exact readsAs_object o
  | function f | closure f => exact .of_named f.name rfl ⟨rfl, rfl⟩ rfl rfl
  | native id fn => exact .of_named fn.name rfl ⟨rfl, rfl⟩ rfl rfl
  | str | list | bool | int | float | tuple | method => exact .of_builtin rfl rfl rfl rfl rfl

/-- How the target of a write is found: it is the first layer that is not passed by. -/
inductive Finds (h : Heap) (name : String) :
    List ScopeEntry → Except RuntimeError (Option Value) → Prop
  | nil : Finds h name [] (.ok none)
  | barred {entry rest bar} : Finds h name (entry :: rest) (.error (.cannotAssign name bar))
  | taken {layer rest} : ev.hasMember h layer name = true →
    Finds h name (.object layer :: rest) (.ok (some layer))
  | layer {layer rest r} : ev.Passes h layer name → Finds h name rest r →
    Finds h name (.object layer :: rest) r
  | locals {frame rest r} : h.var? frame name = none → Finds h name rest r →
    Finds h name (.locals frame :: rest) r

theorem finds {r : Except RuntimeError (Option Value)} (hf : ev.findTarget h name entries = r) :
    ev.Finds h name entries r := by
  subst hf
  induction entries with
  | nil => exact .nil
  | cons entry rest ih =>
    cases entry with
    | object layer =>
      unfold findTarget
      split
      · exact .barred
      · next hmethod =>
        split
        · next hmember => exact .taken hmember
        · next hmember => exact .layer ⟨Bool.eq_false_iff.2 hmethod, Bool.eq_false_iff.2 hmember⟩ ih
    | locals frame =>
      unfold findTarget
      split
      · exact .barred
      · next hvar => exact .locals (Option.not_isSome_iff_eq_none.1 hvar) ih

theorem lookupIn_object {layer : Value} {rest : List ScopeEntry} {r : Option Value}
    (hlayer : ev.lookupMember layer name m = .ok r m) :
    ev.lookupIn name (.object layer :: rest) m = match r with
      | some a => .ok (some a) m
      | none => ev.lookupIn name rest m := by
  rw [lookupIn, Run.bind_of_ok hlayer]
  cases r with
  | some a => rfl
  | none => rfl

theorem lookupIn_locals {frame : FrameRef} {rest : List ScopeEntry}
    (hvar : m.heap.var? frame name = none) :
    ev.lookupIn name (.locals frame :: rest) m = ev.lookupIn name rest m := by
  rw [lookupIn, Run.heap_bind]
  simp only [hvar]

theorem lookupIn_isFound_of_head {layer : Value} {rest : List ScopeEntry}
    (hfound : IsFound (ev.lookupMember layer name m)) :
    IsFound (ev.lookupIn name (.object layer :: rest) m) := by
  change IsFound (EStateM.bind (ev.lookupMember layer name) _ m)
  unfold EStateM.bind
  cases hlookup : ev.lookupMember layer name m with
  | error e m' =>
    rw [hlookup] at hfound
    exact hfound
  | ok r m' =>
    rw [hlookup] at hfound
    cases r with
    | none => cases hfound
    | some v => rfl

/-- A read finds a name in the layers that a write passes by exactly if one of them shows it. -/
theorem lookupIn_isFound_iff (hpassed : ev.findTarget m.heap name inner = .ok none) :
    IsFound (ev.lookupIn name inner m) ↔
      ∃ layer, .object layer ∈ inner ∧ ev.showsOnly m.heap layer name = true := by
  replace hpassed := ev.finds hpassed
  generalize hr : Except.ok none = r at hpassed
  have hskip {entry : ScopeEntry} {rest : List ScopeEntry}
      (hentry : ∀ layer, entry = .object layer → ev.showsOnly m.heap layer name = false) :
      (∃ layer, .object layer ∈ rest ∧ ev.showsOnly m.heap layer name = true) ↔
        ∃ layer, .object layer ∈ entry :: rest ∧ ev.showsOnly m.heap layer name = true := by
    refine exists_congr fun layer => and_congr_left fun hs => ?_
    rw [mem_cons, or_iff_right]
    rintro rfl
    exact nomatch (hentry layer rfl).symm.trans hs
  induction hpassed with
  | nil =>
    constructor
    · intro hfound
      cases hfound
    · rintro ⟨layer, hmem, _⟩
      cases hmem
  | barred | taken => cases hr
  | @layer layer _ _ hp _ ih =>
    cases ev.lookupMember_readsAs m layer name with
    | declared hdeclared _ => exact absurd hp hdeclared
    | passed _ hs hlookup =>
      rw [ev.lookupIn_object hlookup]
      exact (ih hr).trans (hskip fun _ heq => ScopeEntry.object.inj heq ▸ hs)
    | shown hs hfound =>
      refine ⟨fun _ => ⟨layer, mem_cons_self, hs⟩, fun _ => ?_⟩
      exact ev.lookupIn_isFound_of_head hfound
  | locals hvar _ ih =>
    rw [ev.lookupIn_locals hvar]
    exact (ih hr).trans (hskip nofun)

theorem findTarget_append (outer : List ScopeEntry)
    (hpassed : ev.findTarget h name inner = .ok none) :
    ev.findTarget h name (inner ++ outer) = ev.findTarget h name outer := by
  replace hpassed := ev.finds hpassed
  generalize hr : Except.ok none = r at hpassed
  induction hpassed with
  | nil => rfl
  | barred | taken => cases hr
  | layer hp _ ih =>
    rw [cons_append, findTarget, if_neg (Bool.eq_false_iff.1 hp.1),
      if_neg (Bool.eq_false_iff.1 hp.2), ih hr]
  | @locals frame _ _ hvar _ ih =>
    have hfree : ¬ h.hasVar frame name := Option.not_isSome_iff_eq_none.2 hvar
    rw [cons_append, findTarget, if_neg hfree, ih hr]

/-- A read finds a name in a layer exactly if a write stops there, unless the layer merely shows the
name. So a write goes past a layer in which a read finds the name exactly if one of the layers that
it passes by merely shows it. -/
theorem stops_alike_iff (m : Machine) (name : String) :
    (∀ target, (IsFound (ev.lookupMember target name m) ↔
        ev.hasMember m.heap target name = true ∨ ev.isMethodMember m.heap target name = true) ↔
      ev.showsOnly m.heap target name = false) ∧
    ∀ inner outer, m.scopes.entries = inner ++ outer → ev.findTarget m.heap name inner = .ok none →
      ev.findTarget m.heap name m.scopes.entries = ev.findTarget m.heap name outer ∧
      (IsFound (ev.lookupIn name inner m) ↔
        ∃ layer, .object layer ∈ inner ∧ ev.showsOnly m.heap layer name = true) := by
  constructor
  · intro target
    have hdeclared : ev.Passes m.heap target name ↔
        ¬(ev.hasMember m.heap target name = true ∨
          ev.isMethodMember m.heap target name = true) := by
      rw [Passes, not_or, Bool.not_eq_true, Bool.not_eq_true, and_comm]
    cases ev.lookupMember_readsAs m target name with
    | passed hp hs hlookup =>
      have hfound : ¬IsFound (ev.lookupMember target name m) := by
        rw [hlookup]
        exact Bool.false_ne_true
      exact ⟨fun _ => hs, fun _ => iff_of_false hfound (hdeclared.1 hp)⟩
    | declared hp hfound =>
      have hs : ev.showsOnly m.heap target name = false :=
        Bool.eq_false_iff.2 fun hs => hp (ev.passes_of_showsOnly hs)
      exact ⟨fun _ => hs, fun _ => iff_of_true hfound (Decidable.not_not.1 fun h =>
        hp (hdeclared.2 h))⟩
    | shown hs hfound =>
      have hp := hdeclared.1 (ev.passes_of_showsOnly hs)
      exact ⟨fun h => absurd (h.1 hfound) hp, fun h => nomatch hs.symm.trans h⟩
  · intro inner outer hentries hpassed
    rw [hentries]
    exact ⟨ev.findTarget_append outer hpassed, ev.lookupIn_isFound_iff hpassed⟩

def versionedMachine : Machine where
  heap := { spaces := ⟨#[.ofList [("VERSION", .str "0.9")]]⟩, objects := ⟨#[.empty]⟩,
            frames := ⟨#[{}]⟩ }
  frames := [{ env := [⟨0, .module⟩] }]
  scopes := ⟨[.object (.object ⟨0, .host "Project"⟩), .object (.space ⟨0⟩)]⟩

/-- A project shows its version. A write goes past it to the bag, and a read keeps seeing what the
project shows. -/
theorem stops_alike_iff_versionedMachine :
    (exhausted Project.host).findTarget versionedMachine.heap "VERSION"
        versionedMachine.scopes.entries = .ok (some (.space ⟨0⟩)) ∧
      IsFound ((exhausted Project.host).lookupIn "VERSION"
        [.object (.object ⟨0, .host "Project"⟩)] versionedMachine) := by
  have hpassed : (exhausted Project.host).findTarget versionedMachine.heap "VERSION"
      [.object (.object ⟨0, .host "Project"⟩)] = .ok none := by rfl
  have h := ((exhausted Project.host).stops_alike_iff versionedMachine "VERSION").2
    [.object (.object ⟨0, .host "Project"⟩)] [.object (.space ⟨0⟩)] rfl hpassed
  refine ⟨h.1.trans rfl, h.2.2 ⟨_, mem_cons_self, ?_⟩⟩
  rfl

/-- A class shows its name, but does not declare it. -/
theorem not_stops_alike_class :
    ¬(IsFound ((exhausted Project.host).lookupMember (.cls ⟨0, "C"⟩) "__name__" versionedMachine) ↔
      (exhausted Project.host).hasMember versionedMachine.heap (.cls ⟨0, "C"⟩) "__name__" = true ∨
      (exhausted Project.host).isMethodMember versionedMachine.heap (.cls ⟨0, "C"⟩)
        "__name__" = true) := by
  intro h
  have hclass : versionedMachine.heap.classAttr? ⟨0, "C"⟩ "__name__" = none := by
    rw [Heap.classAttr?, Heap.lineage_eq]
    rfl
  rcases h.1 rfl with hmember | hmethod
  · rw [hasMember, hclass] at hmember
    cases hmember
  · cases hmethod

end BlockScript.Evaluator
