import BlockScript.Proofs.Alike.Value
import BlockScript.Proofs.Names.Heap

/-! Heaps of two runs that are alike, cell by cell. -/

namespace BlockScript

open Program List

variable {S : Setting} {w w' : World}

/-! ## Cells -/

structure Cells.AlikeBy {α : Type} [Inhabited α] (R : α → α → Prop) (c c' : Cells α) : Prop where
  size_eq : c'.size = c.size
  get : ∀ i, R (c.get i) (c'.get i)

namespace Cells

variable {α : Type} [Inhabited α]

theorem size_set (c : Cells α) (i : Nat) (a : α) :
    (c.set i a).size = if i < c.size then c.size else i + 1 := by
  unfold set
  split
  · next h => simp [size]
  · next h =>
    have hi : c.cells.size ≤ i := Nat.le_of_not_lt h
    simp only [size, Array.size_push, Array.size_append, Array.size_replicate]
    omega

variable {R R' : α → α → Prop} {c c' : Cells α}

namespace AlikeBy

theorem imp (himp : ∀ a b, R a b → R' a b) (h : c.AlikeBy R c') : c.AlikeBy R' c' :=
  ⟨h.size_eq, fun i => himp _ _ (h.get i)⟩

theorem set (h : c.AlikeBy R c') (i : Nat) {a b : α} (hab : R a b) :
    (c.set i a).AlikeBy R (c'.set i b) := by
  refine ⟨?_, fun j => ?_⟩
  · rw [size_set, size_set, h.size_eq]
  · by_cases hj : j = i
    · rw [hj, get_set_self, get_set_self]
      exact hab
    · rw [get_set_ne _ hj, get_set_ne _ hj]
      exact h.get j

theorem push (h : c.AlikeBy R c') {a b : α} (hab : R a b) : (c.push a).AlikeBy R (c'.push b) := by
  refine ⟨?_, fun j => ?_⟩
  · rw [size_push, size_push, h.size_eq]
  · rw [get_push, get_push, h.size_eq]
    split
    · exact hab
    · exact h.get j

end AlikeBy

end Cells

/-! ## Frames -/

/-- A variable of both runs; only the module binds the hidden name. -/
def VarAlike (S : Setting) (w : World) (isModule : Prop) (name : String) (v v' : Value) : Prop :=
  (S.Allows name ∧ v.Alike S w v') ∨
    isModule ∧ ∃ o, S.hidden? = some (name, o) ∧ v = .object o ∧ v' = .object o

variable {isModule : Prop} {v v' : Value}

theorem VarAlike.mono (hw : w ≤ w') {name : String}
    (h : VarAlike S w isModule name v v') : VarAlike S w' isModule name v v' :=
  h.imp (fun h => ⟨h.1, h.2.mono hw⟩) id

theorem VarAlike.alike {name : String}
    (hname : S.Allows name) (h : VarAlike S w isModule name v v') : v.Alike S w v' := by
  rcases h with ⟨-, h⟩ | ⟨-, o, ho, -, -⟩
  · exact h
  · exact absurd rfl (hname _ ho)

structure Frame.Alike (S : Setting) (w : World) (isModule : Prop) (f f' : Frame) : Prop where
  vars : f.vars.AlikeBy (VarAlike S w isModule) f'.vars
  globals_eq : f'.globals = f.globals
  nonlocals_eq : f'.nonlocals = f.nonlocals

variable {f f' : Frame}

theorem Frame.Alike.mono (hw : w ≤ w') (h : f.Alike S w isModule f') : f.Alike S w' isModule f' :=
  ⟨h.vars.imp fun _ _ _ hv => hv.mono hw, h.globals_eq, h.nonlocals_eq⟩

/-! ## Heaps -/

structure ClassBody.Alike (S : Setting) (w : World) (c c' : ClassBody) : Prop where
  bases_eq : c'.bases = c.bases
  attrs : MapAlike S w c.attrs c'.attrs

structure Heap.Alike (S : Setting) (w : World) (h h' : Heap) : Prop where
  lists : h.lists.AlikeBy (List.Forall₂ (Value.Alike S w)) h'.lists
  dicts : h.dicts.AlikeBy (MapAlike S w) h'.dicts
  spaces : h.spaces.AlikeBy (MapAlike S w) h'.spaces
  instances : h.instances.AlikeBy (MapAlike S w) h'.instances
  classes : h.classes.AlikeBy (ClassBody.Alike S w) h'.classes
  objects : h.objects.AlikeBy (MapAlike S w) h'.objects
  frames : ∀ i, (h.frames.get i).Alike S w (i = w.globals.index) (h'.frames.get i)
  frameCount : h.frames.size = w.frames.length
  frameCount' : h'.frames.size = w.frames.length
  fresh : h.fresh = w.first
  fresh' : h'.fresh = w.second
  module : w.HasFrame w.globals
  hidden : ∀ name o, S.hidden? = some (name, o) →
    h.var? w.globals name = some (.object o) ∧ h'.var? w.globals name = some (.object o)

namespace World

/-- Both runs give out one more identity. -/
def next (w : World) : World where
  globals := w.globals
  frames := w.frames
  first := w.first + 1
  second := w.second + 1
  ids a b := w.ids a b ∨ a = w.first ∧ b = w.second
  kind_globals := w.kind_globals
  lt_of_ids {a b} h := by
    rcases h with h | ⟨rfl, rfl⟩
    · have := w.lt_of_ids h
      omega
    · omega
  ids_iff {a b c d} h h' := by
    rcases h with h | ⟨rfl, rfl⟩ <;> rcases h' with h' | ⟨rfl, rfl⟩
    · exact w.ids_iff h h'
    · have := w.lt_of_ids h
      omega
    · have := w.lt_of_ids h'
      omega
    · omega

theorem le_next (w : World) : w ≤ w.next := ⟨rfl, prefix_rfl, .inl⟩

theorem ids_next (w : World) : w.next.ids w.first w.second := .inr ⟨rfl, rfl⟩

/-- The second run gives out an identity that the first has no use for. -/
def skip (w : World) : World where
  globals := w.globals
  frames := w.frames
  first := w.first
  second := w.second + 1
  ids := w.ids
  kind_globals := w.kind_globals
  lt_of_ids h := ⟨(w.lt_of_ids h).1, Nat.lt_succ_of_lt (w.lt_of_ids h).2⟩
  ids_iff := w.ids_iff

theorem le_skip (w : World) : w ≤ w.skip := ⟨rfl, prefix_rfl, id⟩

def addFrame (w : World) (kind : FrameKind) : World where
  globals := w.globals
  frames := w.frames ++ [kind]
  first := w.first
  second := w.second
  ids := w.ids
  kind_globals := w.kind_globals
  lt_of_ids := w.lt_of_ids
  ids_iff := w.ids_iff

theorem le_addFrame (w : World) (kind : FrameKind) : w ≤ w.addFrame kind :=
  ⟨rfl, prefix_append .., id⟩

theorem hasFrame_addFrame (w : World) (kind : FrameKind) :
    (w.addFrame kind).HasFrame ⟨w.frames.length, kind⟩ := by
  simp [HasFrame, addFrame]

theorem HasFrame.lt {r : FrameRef} (h : w.HasFrame r) : r.index < w.frames.length :=
  (List.getElem?_eq_some_iff.1 h).1

theorem HasEnv.addFrame {env : Env} (h : w.HasEnv env) (kind : FrameKind) :
    (w.addFrame kind).HasEnv (⟨w.frames.length, kind⟩ :: env) where
  frames r hr := by
    rcases mem_cons.1 hr with rfl | hr
    · exact hasFrame_addFrame w kind
    · exact (h.frames r hr).mono (le_addFrame w kind)
  sorted := pairwise_cons.2 ⟨fun r hr => (h.frames r hr).lt, h.sorted⟩
  module := mem_cons_of_mem _ h.module

end World

namespace Heap.Alike

variable {h h' : Heap}

variable (hh : h.Alike S w h')

include hh

theorem list (r : ListRef) : Values.Alike S w (h.list r) (h'.list r) := hh.lists.get r.index

theorem dict (r : DictRef) : MapAlike S w (h.dict r) (h'.dict r) := hh.dicts.get r.index

theorem space (r : SpaceRef) : MapAlike S w (h.space r) (h'.space r) := hh.spaces.get r.index

theorem inst (r : InstanceRef) : MapAlike S w (h.inst r) (h'.inst r) := hh.instances.get r.index

theorem fields (o : ObjectRef) : MapAlike S w (h.fields o) (h'.fields o) := hh.objects.get o.index

theorem classAttrs (id : Nat) : MapAlike S w (h.classAttrs id) (h'.classAttrs id) :=
  (hh.classes.get id).attrs

theorem frame (r : FrameRef) :
    (h.frame r).Alike S w (r.index = w.globals.index) (h'.frame r) := hh.frames r.index

/-! ### Reading -/

theorem size_eq : h'.size = h.size := by
  simp only [Heap.size, hh.lists.size_eq, hh.dicts.size_eq, hh.spaces.size_eq,
    hh.instances.size_eq, hh.objects.size_eq]

theorem lineage_eq (id : Nat) : h'.lineage id = h.lineage id := by
  induction id using Nat.strongRecOn with
  | _ id ih =>
    rw [Heap.lineage, Heap.lineage, ClassBody.lineage, ClassBody.lineage]
    rw [(hh.classes.get id).bases_eq]
    congr 1
    refine flatMap_congr fun base _ => ?_
    split
    · next hlt => exact ih _ hlt
    · rfl

theorem isSubclass_eq (c other : Class) : h'.isSubclass c other = h.isSubclass c other := by
  rw [Heap.isSubclass, Heap.isSubclass, hh.lineage_eq]

theorem classAttr? (c : Class) (name : String) :
    Option.Rel (Value.Alike S w) (h.classAttr? c name) (h'.classAttr? c name) := by
  rw [Heap.classAttr?, Heap.classAttr?, hh.lineage_eq]
  induction h.lineage c.id with
  | nil => exact .none
  | cons id ids ih =>
    rw [findSome?_cons, findSome?_cons]
    match (h.classAttrs id).get? name, (h'.classAttrs id).get? name,
    (hh.classAttrs id).get? name with
    | _, _, .none => exact ih
    | _, _, .some hv => exact .some hv

theorem hasVar_eq (r : FrameRef) (name : String) :
    h'.hasVar r name = h.hasVar r name := (hh.frame r).vars.contains_eq name

theorem var?_all (r : FrameRef) (name : String) :
    Option.Rel (VarAlike S w (r.index = w.globals.index) name) (h.var? r name)
      (h'.var? r name) := by
  rw [Heap.var?, Heap.var?]
  match (h.frame r).vars.get? name, (h'.frame r).vars.get? name, (hh.frame r).vars.get? name with
  | _, _, .none => exact .none
  | _, _, .some hv =>
    obtain ⟨k, hk, hv⟩ := hv
    cases eq_of_beq hk
    exact .some hv

variable {name : String} {a a' : Attrs} {r : FrameRef}

theorem var? (r : FrameRef) (hname : S.Allows name) :
    Option.Rel (Value.Alike S w) (h.var? r name) (h'.var? r name) := by
  match h.var? r name, h'.var? r name, hh.var?_all r name with
  | _, _, .none => exact .none
  | _, _, .some hv => exact .some (hv.alike hname)

theorem enclosing?_eq (name : String) (env : Env) :
    h'.enclosing? name env = h.enclosing? name env := by
  induction env with
  | nil => rfl
  | cons r rest ih => simp only [Heap.enclosing?, hh.hasVar_eq, ih]

theorem outerVar? (hname : S.Allows name) (env : Env) :
    Option.Rel (Value.Alike S w) (h.outerVar? name env) (h'.outerVar? name env) := by
  induction env with
  | nil => exact .none
  | cons r rest ih =>
    rw [Heap.outerVar?, Heap.outerVar?]
    split
    · exact ih
    · have hfound := hh.var? r hname
      generalize h.var? r name = found, h'.var? r name = found' at hfound ⊢
      cases hfound with
      | none => exact ih
      | some hv => exact .some hv

/-! ### Writing -/

variable {items items' : List Value}

theorem setList (r : ListRef) (hi : Values.Alike S w items items') :
    (h.setList r items).Alike S w (h'.setList r items') :=
  { hh with lists := hh.lists.set r.index hi }

variable {d d' : Dict}

theorem setDict (r : DictRef) (hd : MapAlike S w d d') :
    (h.setDict r d).Alike S w (h'.setDict r d') :=
  { hh with dicts := hh.dicts.set r.index hd }

theorem setSpace (r : SpaceRef) (ha : MapAlike S w a a') :
    (h.setSpace r a).Alike S w (h'.setSpace r a') :=
  { hh with spaces := hh.spaces.set r.index ha }

theorem setInst (r : InstanceRef) (ha : MapAlike S w a a') :
    (h.setInst r a).Alike S w (h'.setInst r a') :=
  { hh with instances := hh.instances.set r.index ha }

theorem setClassAttrs (id : Nat) (ha : MapAlike S w a a') :
    (h.setClassAttrs id a).Alike S w (h'.setClassAttrs id a') :=
  { hh with classes := hh.classes.set id ⟨(hh.classes.get id).bases_eq, ha⟩ }

theorem setField (o : ObjectRef) (name : String) (hv : v.Alike S w v') :
    (h.setField o name v).Alike S w (h'.setField o name v') :=
  { hh with objects := hh.objects.set o.index ((hh.fields o).insert name hv) }

omit hh in
theorem var?_setFrame (h : Heap) (r s : FrameRef) (f : Frame) (name : String) :
    (h.setFrame r f).var? s name = if s.index =
      r.index then f.vars.get? name else h.var? s name := by
  unfold Heap.var? Heap.frame Heap.setFrame
  split
  · next hs => rw [hs, Cells.get_set_self]
  · next hs => rw [Cells.get_set_ne _ hs]

theorem setFrame (hr : w.HasFrame r) (hf : f.Alike S w (r.index = w.globals.index) f')
    (hhidden : ∀ name o, S.hidden? = some (name, o) → r.index = w.globals.index →
      f.vars.get? name = some (.object o) ∧ f'.vars.get? name = some (.object o)) :
    (h.setFrame r f).Alike S w (h'.setFrame r f') :=
  { hh with
    frames := fun i => by
      by_cases hi : i = r.index
      · change Frame.Alike S w _ ((h.frames.set r.index f).get i) ((h'.frames.set r.index f').get i)
        rw [hi, Cells.get_set_self, Cells.get_set_self]
        exact hf
      · change Frame.Alike S w _ ((h.frames.set r.index f).get i) ((h'.frames.set r.index f').get i)
        rw [Cells.get_set_ne _ hi, Cells.get_set_ne _ hi]
        exact hh.frames i
    frameCount := by
      change (h.frames.set r.index f).size = _
      rw [Cells.size_set, if_pos (hh.frameCount ▸ hr.lt), hh.frameCount]
    frameCount' := by
      change (h'.frames.set r.index f').size = _
      rw [Cells.size_set, if_pos (hh.frameCount' ▸ hr.lt), hh.frameCount']
    hidden := fun name o ho => by
      rw [var?_setFrame, var?_setFrame]
      split
      · next hs => exact hhidden name o ho hs.symm
      · exact hh.hidden name o ho }

theorem setVar (hr : w.HasFrame r) (hname : S.Allows name) (hv : v.Alike S w v') :
    (h.setVar r name v).Alike S w (h'.setVar r name v') := by
  have hf := hh.frame r
  refine hh.setFrame hr ⟨hf.vars.insert fun k hk => ?_, hf.globals_eq, hf.nonlocals_eq⟩ ?_
  · have hk : k = name := hk.elim (fun hk => (eq_of_beq hk).symm) id
    exact .inl ⟨hk ▸ hname, hv⟩
  · intro hidden o ho hindex
    have hne : hidden ≠ name := fun heq => hname _ ho heq.symm
    have hkept := hh.hidden hidden o ho
    rw [OrderedMap.get?_insert, OrderedMap.get?_insert, if_neg hne, if_neg hne]
    unfold Heap.var? Heap.frame at hkept
    unfold Heap.frame
    rw [hindex]
    exact hkept

/-! ### Making -/

theorem newList (hi : Values.Alike S w items items') :
    (h'.newList items').1 = (h.newList items).1 ∧
    (h.newList items).2.Alike S w (h'.newList items').2 :=
  ⟨congrArg ListRef.mk hh.lists.size_eq, { hh with lists := hh.lists.push hi }⟩

theorem newDict (hd : MapAlike S w d d') :
    (h'.newDict d').1 = (h.newDict d).1 ∧ (h.newDict d).2.Alike S w (h'.newDict d').2 :=
  ⟨congrArg DictRef.mk hh.dicts.size_eq, { hh with dicts := hh.dicts.push hd }⟩

theorem newSpace (ha : MapAlike S w a a') :
    (h'.newSpace a').1 = (h.newSpace a).1 ∧ (h.newSpace a).2.Alike S w (h'.newSpace a').2 :=
  ⟨congrArg SpaceRef.mk hh.spaces.size_eq, { hh with spaces := hh.spaces.push ha }⟩

theorem newInst (ha : MapAlike S w a a') :
    (h'.newInst a').1 = (h.newInst a).1 ∧ (h.newInst a).2.Alike S w (h'.newInst a').2 :=
  ⟨congrArg InstanceRef.mk hh.instances.size_eq, { hh with instances := hh.instances.push ha }⟩

theorem newClass (name : String) (bases : List Class) (ha : MapAlike S w a a') :
    (h'.newClass name bases a').1 = (h.newClass name bases a).1 ∧
      (h.newClass name bases a).2.Alike S w (h'.newClass name bases a').2 :=
  ⟨congrArg (Class.mk · name) hh.classes.size_eq, { hh with classes := hh.classes.push ⟨rfl, ha⟩ }⟩

theorem newObject (kind : ObjectKind) (ha : MapAlike S w a a') :
    (h'.newObject kind a').1 = (h.newObject kind a).1 ∧
      (h.newObject kind a).2.Alike S w (h'.newObject kind a').2 :=
  ⟨congrArg (ObjectRef.mk · kind) hh.objects.size_eq, { hh with objects := hh.objects.push ha }⟩

theorem later (hw : w ≤ w') (hframes : w'.frames = w.frames) :
    Heap.Alike S w' { h with fresh := w'.first } { h' with fresh := w'.second } where
  lists := hh.lists.imp fun _ _ => Value.Alike.mono_all hw
  dicts := hh.dicts.imp fun _ _ => MapAlike.mono hw
  spaces := hh.spaces.imp fun _ _ => MapAlike.mono hw
  instances := hh.instances.imp fun _ _ => MapAlike.mono hw
  classes := hh.classes.imp fun _ _ hc => ⟨hc.bases_eq, hc.attrs.mono hw⟩
  objects := hh.objects.imp fun _ _ => MapAlike.mono hw
  frames i := hw.globals ▸ (hh.frames i).mono hw
  frameCount := hframes ▸ hh.frameCount
  frameCount' := hframes ▸ hh.frameCount'
  fresh := rfl
  fresh' := rfl
  module := hw.globals ▸ hh.module.mono hw
  hidden := hw.globals ▸ hh.hidden

omit hh in
theorem var?_newFrame (h : Heap) (kind : FrameKind) (f : Frame) (hr : r.index < h.frames.size)
    (name : String) : (h.newFrame kind f).2.var? r name = h.var? r name := by
  unfold Heap.var? Heap.frame Heap.newFrame
  rw [Cells.get_push_of_lt _ hr]

theorem newFrame (kind : FrameKind) (hf : f.Alike S w False f') :
    (h.newFrame kind f).2.Alike S (w.addFrame kind) (h'.newFrame kind f').2 where
  lists := hh.lists.imp fun _ _ => Value.Alike.mono_all (w.le_addFrame kind)
  dicts := hh.dicts.imp fun _ _ => MapAlike.mono (w.le_addFrame kind)
  spaces := hh.spaces.imp fun _ _ => MapAlike.mono (w.le_addFrame kind)
  instances := hh.instances.imp fun _ _ => MapAlike.mono (w.le_addFrame kind)
  classes := hh.classes.imp fun _ _ hc => ⟨hc.bases_eq, hc.attrs.mono (w.le_addFrame kind)⟩
  objects := hh.objects.imp fun _ _ => MapAlike.mono (w.le_addFrame kind)
  frames i := by
    change Frame.Alike S _ _ ((h.frames.push f).get i) ((h'.frames.push f').get i)
    rw [Cells.get_push, Cells.get_push, hh.frameCount, hh.frameCount']
    split
    · refine ⟨hf.vars.imp fun _ _ _ hv => ?_, hf.globals_eq, hf.nonlocals_eq⟩
      exact (hv.mono (w.le_addFrame kind)).imp id fun hv => hv.1.elim
    · exact (hh.frames i).mono (w.le_addFrame kind)
  frameCount := by
    change (h.frames.push f).size = _
    rw [Cells.size_push, hh.frameCount]
    simp [World.addFrame]
  frameCount' := by
    change (h'.frames.push f').size = _
    rw [Cells.size_push, hh.frameCount']
    simp [World.addFrame]
  fresh := hh.fresh
  fresh' := hh.fresh'
  module := hh.module.mono (w.le_addFrame kind)
  hidden name o ho := by
    have hlt := hh.module.lt
    have hlt' := hh.module.lt
    rw [← hh.frameCount] at hlt
    rw [← hh.frameCount'] at hlt'
    refine ⟨?_, ?_⟩
    · exact (var?_newFrame h kind f hlt name).trans (hh.hidden name o ho).1
    · exact (var?_newFrame h' kind f' hlt' name).trans (hh.hidden name o ho).2

end Heap.Alike

end BlockScript
