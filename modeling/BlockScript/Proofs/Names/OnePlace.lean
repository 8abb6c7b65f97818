import BlockScript.Proofs.Names.ReadBack

/-! A write to a free name changes one binding: a variable of the running frame, or what one object
has under the name. A write that is refused changes nothing. -/

namespace BlockScript

/-! ## Slots -/

inductive Slot where
  | var (frame : Nat)
  | entry (r : DictRef)
  | member (r : SpaceRef)
  | attr (r : InstanceRef)
  | classAttr (id : Nat)
  deriving DecidableEq

variable {p : Slot} {r : FrameRef}

namespace Heap

def binding? (h : Heap) (name : String) : Slot → Option Value
  | .var frame => (h.frames.get frame).vars.get? name
  | .entry r => (h.dict r).get? (.str name)
  | .member r => (h.space r).get? name
  | .attr r => (h.inst r).get? name
  | .classAttr id => (h.classAttrs id).get? name

def bindAt (h : Heap) (name : String) (v : Value) : Slot → Heap
  | .var frame =>
    let f := h.frames.get frame
    { h with frames := h.frames.set frame { f with vars := f.vars.insert name v } }
  | .entry r => h.setDict r ((h.dict r).insert (.str name) v)
  | .member r => h.setSpace r ((h.space r).insert name v)
  | .attr r => h.setInst r ((h.inst r).insert name v)
  | .classAttr id => h.setClassAttrs id ((h.classAttrs id).insert name v)

theorem binding?_bindAt_self (h : Heap) (name other : String) (v : Value) (p : Slot) :
    (h.bindAt name v p).binding? other p = if other = name then some v else h.binding? other p := by
  cases p with
  | var frame =>
    simp only [bindAt, binding?]
    rw [Cells.get_set_self, OrderedMap.get?_insert]
  | entry r =>
    simp only [bindAt, binding?]
    rw [dict_setDict_self, OrderedMap.get?_insert_str]
  | member r =>
    simp only [bindAt, binding?]
    rw [space_setSpace_self, OrderedMap.get?_insert]
  | attr r =>
    simp only [bindAt, binding?]
    rw [inst_setInst_self, OrderedMap.get?_insert]
  | classAttr id =>
    simp only [bindAt, binding?]
    rw [classAttrs_setClassAttrs_self, OrderedMap.get?_insert]

theorem binding?_bindAt_ne (h : Heap) (name other : String) (v : Value) {q : Slot} (hne : q ≠ p) :
    (h.bindAt name v p).binding? other q = h.binding? other q := by
  cases p with
  | var frame =>
    cases q with
    | var i =>
      have hi : i ≠ frame := fun heq => hne (congrArg Slot.var heq)
      simp only [bindAt, binding?]
      rw [Cells.get_set_ne _ hi]
    | entry | member | attr | classAttr => rfl
  | entry r =>
    cases q with
    | entry s =>
      have hs : s ≠ r := fun heq => hne (congrArg Slot.entry heq)
      simp only [bindAt, binding?]
      rw [dict_setDict_ne h hs]
    | var | member | attr | classAttr => rfl
  | member r =>
    cases q with
    | member s =>
      have hs : s ≠ r := fun heq => hne (congrArg Slot.member heq)
      simp only [bindAt, binding?]
      rw [space_setSpace_ne h hs]
    | var | entry | attr | classAttr => rfl
  | attr r =>
    cases q with
    | attr s =>
      have hs : s ≠ r := fun heq => hne (congrArg Slot.attr heq)
      simp only [bindAt, binding?]
      rw [inst_setInst_ne h hs]
    | var | entry | member | classAttr => rfl
  | classAttr id =>
    cases q with
    | classAttr i =>
      have hi : i ≠ id := fun heq => hne (congrArg Slot.classAttr heq)
      simp only [bindAt, binding?]
      rw [classAttrs_setClassAttrs_ne h hi]
    | var | entry | member | attr => rfl

theorem binding?_bindAt (h : Heap) (name other : String) (v : Value) (p q : Slot) :
    (h.bindAt name v p).binding? other q = if q = p ∧
    other = name then some v else h.binding? other q := by
  by_cases hq : q = p
  · rw [hq, binding?_bindAt_self]
    simp only [true_and]
  · rw [binding?_bindAt_ne h name other v hq, if_neg fun hboth => hq hboth.1]

theorem frame_bindAt (h : Heap) (name : String) (v : Value) (hp : p ≠ .var r.index) :
    (h.bindAt name v p).frame r = h.frame r := by
  cases p with
  | var frame =>
    have hne : r.index ≠ frame := fun heq => hp (congrArg Slot.var heq.symm)
    exact Cells.get_set_ne h.frames hne _
  | entry | member | attr | classAttr => rfl

end Heap

/-- Where a value has its properties, if it is built in and has any. -/
def Value.slot? : Value → Option Slot
  | .dict r => some (.entry r)
  | .space r => some (.member r)
  | .inst r _ => some (.attr r)
  | .cls c => some (.classAttr c.id)
  | _ => Option.none

/-- The places that may take a write of the running code: its frame, an object of the scope stack,
and the delegate of a closure. -/
def Machine.MayTake (m : Machine) (p : Slot) : Prop :=
  p = .var m.frame.index ∨ (∃ layer, .object layer ∈ m.scopes.entries ∧ layer.slot? = some p) ∨
    ∃ d, m.delegate? = some d ∧ d.slot? = some p

def RuntimeError.Refuses (name : String) (e : RuntimeError) : Prop :=
  (∃ bar, e = .cannotAssign name bar) ∨ e.isAttribute = true

/-- The write of a name has changed one binding, or was refused and has changed nothing. -/
def Machine.WriteEnds (m : Machine) (name : String) (v : Value)
    (r : Run.Result Unit) : Prop :=
  (∃ p, m.MayTake p ∧ r = .ok () { m with heap := m.heap.bindAt name v p }) ∨
    ∃ e, e.Refuses name ∧ r = .error (.error e) m

namespace Evaluator

variable (ev : Evaluator) {name : String} {v target : Value} {m : Machine}

theorem Takes.exists_slot {h h' : Heap} (ht : Takes h name v target h') :
    ∃ p, target.slot? = some p ∧ h' = h.bindAt name v p := by
  cases ht with
  | dict | inst | cls | space => exact ⟨_, rfl, rfl⟩

theorem writeEnds_set (hm : m.Reachable)
    (hosted : ∀ layer, .object layer ∈ m.scopes.entries → layer.isHosted = false) :
    m.WriteEnds name v (ev.set name v m) := by
  refine ev.set_cases (.inl ⟨_, .inl rfl, rfl⟩) (fun bar => .inr ⟨_, .inl ⟨bar, rfl⟩, rfl⟩)
    fun target _ hlayer => ?_
  have hmem : .object target ∈ m.scopes.entries := by
    rcases hlayer with hf | ⟨_, hd, hnone⟩
    · exact (ev.findTarget_some hf).1
    · exact mem_of_top? (hm.delegate hd hnone)
  rcases ev.setProperty_cases m name v (hosted target hmem) with ⟨h', ht, hset⟩ | ⟨e, he, hset⟩
  · obtain ⟨p, hp, rfl⟩ := ht.exists_slot
    exact .inl ⟨p, .inr (.inl ⟨target, hmem, hp⟩), hset⟩
  · exact .inr ⟨e, .inr he, hset⟩

end Evaluator

/-! ## Frames -/

/-- The frames around the running code: those that it sees beside its own, those on the scope stack
and, from outside the module, that of the module. -/
def Machine.Surrounds (m : Machine) (r : FrameRef) : Prop :=
  r ∈ m.env.tail ∨ (.locals r ∈ m.scopes.entries ∧ r ≠ m.frame) ∨
  (r = m.globals ∧ m.frame.kind ≠ .module)

variable {s : FrameRef} {w : World}

theorem World.HasFrame.eq (hr : w.HasFrame r) (hs : w.HasFrame s) (hindex : r.index = s.index) :
    r = s := by
  obtain ⟨index, kind⟩ := r
  obtain ⟨index', kind'⟩ := s
  cases hindex
  cases Option.some.inj (hr.symm.trans hs)
  rfl

theorem World.HasEnv.index_ne {env : Env} (henv : w.HasEnv env) (hr : r ∈ env.tail) :
    r.index ≠ (env.headD s).index := by
  cases env with
  | nil => cases hr
  | cons top rest => exact Nat.ne_of_lt (List.rel_of_pairwise_cons henv.sorted hr)

theorem ScopeEntry.Alike.hasFrame {S : Setting} {e : ScopeEntry}
    (h : ScopeEntry.Alike S w e (.locals r)) : w.HasFrame r := by
  cases h with
  | locals hr => exact hr

namespace Machine

variable {m : Machine} {w : World} {r : FrameRef}

/-- The running frame is none of those around the running code. -/
theorem IsIn.index_ne (hm : m.IsIn w) (hr : m.Surrounds r) : r.index ≠ m.frame.index := by
  rcases hr with htail | ⟨hlocals, hne⟩ | ⟨rfl, hkind⟩
  · exact (Alike.env (S := {}) hm).index_ne htail
  · intro hindex
    have he := List.forall₂_same.1 (Alike.scopes (S := {}) hm) _ hlocals
    exact hne (he.hasFrame.eq (Alike.frame (S := {}) hm) hindex)
  · intro hindex
    have hmodule := (Alike.heap (S := {}) hm).module
    rw [← Alike.globals (S := {}) hm] at hmodule
    rw [← hmodule.eq (Alike.frame (S := {}) hm) hindex,
      Alike.globals (S := {}) hm, w.kind_globals] at hkind
    exact hkind rfl

end Machine

theorem Value.slot?_ne_var (v : Value) (frame : Nat) : v.slot? ≠ some (.var frame) := by
  unfold slot?
  split <;> simp

theorem Machine.MayTake.ne_var {m : Machine} (hp : m.MayTake p) {frame : Nat}
    (hne : frame ≠ m.frame.index) : p ≠ .var frame := by
  rintro rfl
  rcases hp with heq | ⟨layer, -, hslot⟩ | ⟨d, -, hslot⟩
  · cases heq
    exact hne rfl
  · exact layer.slot?_ne_var _ hslot
  · exact d.slot?_ne_var _ hslot

namespace Evaluator

variable (ev : Evaluator) {m : Machine}

/-- A write to a free name changes one binding, in no frame around the running code, or it is
refused and changes nothing. -/
theorem set_one_binding (hm : m.Live)
    (hosted : ∀ layer, .object layer ∈ m.scopes.entries → layer.isHosted = false)
    (name : String) (v : Value) :
    (∃ p, m.MayTake p ∧ ev.set name v m = .ok () { m with heap := m.heap.bindAt name v p } ∧
      (∀ q other, (m.heap.bindAt name v p).binding? other q =
        if q = p ∧ other = name then some v else m.heap.binding? other q) ∧
      ∀ r, m.Surrounds r → (m.heap.bindAt name v p).frame r = m.heap.frame r) ∨
    ∃ e, e.Refuses name ∧ ev.set name v m = .error (.error e) m := by
  refine (ev.writeEnds_set hm.reachable hosted).imp_left ?_
  rintro ⟨p, hp, hset⟩
  refine ⟨p, hp, hset, fun q other => m.heap.binding?_bindAt name other v p q, fun r hr => ?_⟩
  obtain ⟨w, hw⟩ := hm.exists_isIn
  exact m.heap.frame_bindAt name v (hp.ne_var (hw.index_ne hr))

/-- Make a bag of attributes, and have an identity for a block. -/
def openBag : Run (Value × Nat) := do
  let bag ← Run.newSpace .empty
  let id ← Run.fresh
  return (bag, id)

instance : Run.Balanced False openBag := by
  unfold openBag
  infer_instance

theorem alike_openBag :
    Run.Alike {} w (fun w' b b' => b.1.Alike {} w' b'.1 ∧ w'.ids b.2 b'.2) openBag openBag :=
  .bind (.newSpace .nil) fun _ _ _ _ hbag => .bind .fresh fun _ hw _ _ hid =>
  .pure ⟨hbag.mono hw, hid⟩

def blockOf (id : Nat) : Function :=
  .mk id "block" { args := [⟨"self", none⟩] } [] [⟨0, .module⟩] []

def bagMachine : Machine :=
  ((openBag.after .new).under (.object (.space ⟨0⟩))).enterCall (blockOf Machine.new.heap.fresh)
    (.ofList [("self", .space ⟨0⟩)]) .closure (some (.space ⟨0⟩))

theorem openBag_new : openBag .new = .ok (.space ⟨0⟩, Machine.new.heap.fresh)
    (openBag.after .new) := rfl

theorem live_bagMachine : bagMachine.Live := by
  obtain ⟨w, hnew⟩ := Machine.new_alike (S := {}) rfl
  have hbalanced : Run.Balanced False openBag := inferInstance
  have hlive : (openBag.after .new).Live :=
    .after .new hnew alike_openBag (hbalanced.holds.restores _) rfl
  have hend := alike_openBag .new .new hnew
  rw [openBag_new] at hend
  cases hend with
  | ok _ hm hbag =>
    have hbind : (blockOf Machine.new.heap.fresh).bindParams { positional := [.space ⟨0⟩] }
        ((openBag.after .new).under (.object (.space ⟨0⟩))) = .ok (.ofList [("self", .space ⟨0⟩)])
            ((openBag.after .new).under (.object (.space ⟨0⟩))) := rfl
    have hblock : Function.Alike {} _ (blockOf Machine.new.heap.fresh) (blockOf _) :=
      .mk hbag.2 (fun _ _ _ h => by cases h) .nil (Machine.Alike.env (S := {}) hm) .nil
    exact .closureOn hlive ⟨rfl, List.suffix_rfl⟩ hm hblock ⟨.cons hbag.1 .nil, .nil⟩ hbag.1 hbind

/-- A new name becomes an attribute of the bag, and no variable of the module. -/
theorem set_one_binding_bagMachine : bagMachine.Live ∧ bagMachine.Surrounds bagMachine.globals ∧
      ∃ h, (exhausted Host.none).set "size" (.int 3) bagMachine =
        .ok () { bagMachine with heap := h } ∧ h.binding? "size" (.member ⟨0⟩) = some (.int 3) ∧
        h.frame bagMachine.globals = bagMachine.heap.frame bagMachine.globals := by
  have hmodule : bagMachine.Surrounds bagMachine.globals := .inr (.inr ⟨rfl, by decide⟩)
  have hosted : ∀ layer, .object layer ∈ bagMachine.scopes.entries → layer.isHosted = false := by
    intro layer hlayer
    cases hlayer with
    | head => rfl
    | tail _ hlayer => cases hlayer
  have hrun : (exhausted Host.none).set "size" (.int 3) bagMachine = .ok ()
      { bagMachine with heap := bagMachine.heap.bindAt "size" (.int 3) (.member ⟨0⟩) } := rfl
  rcases set_one_binding (exhausted Host.none) live_bagMachine hosted "size" (.int 3) with
    ⟨p, -, hset, -, hframes⟩ | ⟨e, -, hset⟩
  · have hheap := congrArg Machine.heap (EStateM.Result.ok.inj (hrun.symm.trans hset)).2
    refine ⟨live_bagMachine, hmodule, _, hset, ?_, hframes _ hmodule⟩
    rw [← show _ = bagMachine.heap.bindAt "size" (.int 3) p from hheap]
    rfl
  · cases hrun.symm.trans hset

end Evaluator

end BlockScript
