import BlockScript.Machine.Heap

/-! What a write to the heap changes, what classes inherit, and heaps that have new cells at
most. -/

namespace BlockScript

open List

/-! ## Maps -/

namespace OrderedMap

variable {α : Type}

/-- An entry that is inserted is found under its own key only. -/
theorem get?_insert_ne {κ : Type} [BEq κ] {m : OrderedMap κ α} {key other : κ}
    (hkey : (other == key) = false) (hsame : ∀ k, (key == k) = true → (other == k) = false)
    (a : α) : (m.insert key a).get? other = m.get? other := by
  change (insertEntry key a m.entries).lookup other = m.entries.lookup other
  induction m.entries with
  | nil => rw [insertEntry, lookup_cons, hkey]
  | cons e es ih =>
    obtain ⟨k, b⟩ := e
    unfold insertEntry
    split
    · next hk => rw [lookup_cons, lookup_cons, hsame k hk]
    · rw [lookup_cons, lookup_cons, ih]

theorem get?_insert (m : OrderedMap String α) (key other : String) (a : α) :
    (m.insert key a).get? other = if other = key then some a else m.get? other := by
  split
  · next heq => rw [heq, get?_insert_self _ BEq.rfl]
  · next hne =>
    refine get?_insert_ne (beq_eq_false_iff_ne.2 hne) (fun k hk => ?_) a
    rw [← eq_of_beq hk]
    exact beq_eq_false_iff_ne.2 hne

theorem get?_insert_str (m : OrderedMap Key α) (key other : String) (a : α) :
    (m.insert (.str key) a).get? (.str other) = if other =
      key then some a else m.get? (.str other) := by
  split
  · next heq =>
    have hself : (Key.str key == .str key) = true := beq_self_eq_true key
    rw [heq, get?_insert_self _ hself]
  · next hne =>
    have hkey : (Key.str other == .str key) = false := by
      change (other == key) = false
      exact beq_eq_false_iff_ne.2 hne
    refine get?_insert_ne hkey (fun k hk => ?_) a
    cases k with
    | str k =>
      rw [← eq_of_beq (show (key == k) = true from hk)]
      exact hkey
    | none | bool | int | tuple => cases hk

end OrderedMap

namespace Heap

variable {h : Heap} {name : String}

theorem var?_setVar_self (h : Heap) (r : FrameRef) (name : String) (v : Value) :
    (h.setVar r name v).var? r name = some v := by
  unfold setVar var? setFrame frame
  rw [Cells.get_set_self]
  exact OrderedMap.get?_insert_self _ BEq.rfl v

theorem dict_setDict_self (h : Heap) (r : DictRef) (d : Dict) : (h.setDict r d).dict r = d :=
  Cells.get_set_self h.dicts r.index d

theorem dict_setDict_ne (h : Heap) {r s : DictRef} (hne : s ≠ r) (d : Dict) :
    (h.setDict r d).dict s = h.dict s :=
  Cells.get_set_ne h.dicts (fun hi => hne (congrArg DictRef.mk hi)) d

theorem space_setSpace_self (h : Heap) (r : SpaceRef) (attrs : Attrs) :
    (h.setSpace r attrs).space r = attrs :=
  Cells.get_set_self h.spaces r.index attrs

theorem space_setSpace_ne (h : Heap) {r s : SpaceRef} (hne : s ≠ r) (attrs : Attrs) :
    (h.setSpace r attrs).space s = h.space s :=
  Cells.get_set_ne h.spaces (fun hi => hne (congrArg SpaceRef.mk hi)) attrs

theorem inst_setInst_self (h : Heap) (r : InstanceRef) (attrs : Attrs) :
    (h.setInst r attrs).inst r = attrs :=
  Cells.get_set_self h.instances r.index attrs

theorem inst_setInst_ne (h : Heap) {r s : InstanceRef} (hne : s ≠ r) (attrs : Attrs) :
    (h.setInst r attrs).inst s = h.inst s :=
  Cells.get_set_ne h.instances (fun hi => hne (congrArg InstanceRef.mk hi)) attrs

/-! ## Classes -/

theorem bases_setClassAttrs (h : Heap) (id : Nat) (attrs : Attrs) (i : Nat) :
    ((h.setClassAttrs id attrs).classes.get i).bases = (h.classes.get i).bases := by
  unfold setClassAttrs
  by_cases hi : i = id
  · rw [hi, Cells.get_set_self]
  · rw [Cells.get_set_ne _ hi]

theorem classAttrs_setClassAttrs_self (h : Heap) (id : Nat) (attrs : Attrs) :
    (h.setClassAttrs id attrs).classAttrs id = attrs := by
  unfold setClassAttrs classAttrs
  rw [Cells.get_set_self]

theorem classAttrs_setClassAttrs_ne (h : Heap) {id i : Nat} (hne : i ≠ id) (attrs : Attrs) :
    (h.setClassAttrs id attrs).classAttrs i = h.classAttrs i := by
  unfold setClassAttrs classAttrs
  rw [Cells.get_set_ne _ hne]

theorem lineage_eq (h : Heap) (i : Nat) :
    h.lineage i = i :: (h.classes.get i).bases.flatMap fun base =>
        if base.id < i then h.lineage base.id else [] :=
  ClassBody.lineage.eq_1 h.classes i

theorem lineage_setClassAttrs (h : Heap) (id : Nat) (attrs : Attrs) (i : Nat) :
    (h.setClassAttrs id attrs).lineage i = h.lineage i := by
  induction i using Nat.strongRecOn with
  | ind i ih =>
    rw [lineage_eq, lineage_eq, bases_setClassAttrs]
    congr 2
    funext base
    split
    · next hlt => exact ih base.id hlt
    · rfl

theorem lineage_subset {i j : Nat} (hi : i ∈ h.lineage j) : h.lineage i ⊆ h.lineage j := by
  induction j using Nat.strongRecOn with
  | ind j ih =>
    rw [lineage_eq] at hi
    rcases mem_cons.1 hi with rfl | hi
    · exact List.Subset.refl _
    · obtain ⟨base, hbase, hi⟩ := mem_flatMap.1 hi
      split at hi
      · next hlt =>
        intro k hk
        rw [lineage_eq]
        refine mem_cons_of_mem _ (mem_flatMap.2 ⟨base, hbase, ?_⟩)
        rw [if_pos hlt]
        exact ih base.id hlt hi hk
      · cases hi

theorem classAttr?_eq_none {c : Class} :
    h.classAttr? c name = none ↔ ∀ i ∈ h.lineage c.id, (h.classAttrs i).get? name = none :=
  findSome?_eq_none_iff

theorem not_mem_lineage {c d : Class} (hc : h.classAttr? c name = none)
    (hd : (h.classAttr? d name).isSome) : d.id ∉ h.lineage c.id := by
  intro hmem
  have hnone : h.classAttr? d name = none :=
    classAttr?_eq_none.2 fun i hi => classAttr?_eq_none.1 hc i (lineage_subset hmem hi)
  rw [hnone] at hd
  cases hd

theorem classAttr?_setClassAttrs_self (h : Heap) (c : Class) (name : String) (v : Value) :
    (h.setClassAttrs c.id ((h.classAttrs c.id).insert name v)).classAttr? c name = some v := by
  unfold classAttr?
  rw [lineage_setClassAttrs, lineage_eq, findSome?_cons, classAttrs_setClassAttrs_self,
    OrderedMap.get?_insert_self _ BEq.rfl]

theorem classAttr?_setClassAttrs_ne (h : Heap) {c : Class} {id : Nat} (attrs : Attrs)
    (hid : id ∉ h.lineage c.id) : (h.setClassAttrs id attrs).classAttr? c name =
      h.classAttr? c name := by
  unfold classAttr?
  rw [lineage_setClassAttrs]
  have hne : ∀ i ∈ h.lineage c.id, i ≠ id := fun i hi heq => hid (heq ▸ hi)
  generalize h.lineage c.id = ids at hne
  induction ids with
  | nil => rfl
  | cons i ids ih =>
    rw [findSome?_cons, findSome?_cons, classAttrs_setClassAttrs_ne _ (hne i mem_cons_self),
      ih fun j hj => hne j (mem_cons_of_mem _ hj)]

end Heap

/-! ## New cells -/

namespace Cells

variable {α : Type} [Inhabited α]

theorem get_push (c : Cells α) (a : α) (i : Nat) :
    (c.push a).get i = if i = c.size then a else c.get i := by
  unfold get push size
  rw [Array.getElem?_push]
  split <;> rfl

omit [Inhabited α] in
theorem size_push (c : Cells α) (a : α) : (c.push a).size = c.size + 1 := by
  simp [size, push]

variable {c : Cells α}

theorem get_push_of_lt {i : Nat} (a : α) (h : i < c.size) : (c.push a).get i = c.get i := by
  rw [get_push, if_neg (Nat.ne_of_lt h)]

omit [Inhabited α] in
theorem lt_size_push {i : Nat} (a : α) (h : i < c.size) : i < (c.push a).size :=
  size_push c a ▸ Nat.lt_succ_of_lt h

end Cells

inductive Contents where
  | nothing
  | items (vs : List Value)
  | entries (d : Dict)
  | attrs (attrs : Attrs)

namespace Heap

def contents (h : Heap) : Value → Contents
  | .list r => .items (h.list r)
  | .dict r => .entries (h.dict r)
  | .space r => .attrs (h.space r)
  | .inst r _ => .attrs (h.inst r)
  | .cls c => .attrs (h.classAttrs c.id)
  | .object o => .attrs (h.fields o)
  | _ => .nothing

def HasCell (h : Heap) : Value → Prop
  | .list r => r.index < h.lists.size
  | .dict r => r.index < h.dicts.size
  | .space r => r.index < h.spaces.size
  | .inst r _ => r.index < h.instances.size
  | .cls c => c.id < h.classes.size
  | .object o => o.index < h.objects.size
  | _ => True

/-- Cells may have been made since, and none has been written. -/
structure Keeps (before after : Heap) : Prop where
  hasCell : ∀ v, before.HasCell v → after.HasCell v
  contents : ∀ v, before.HasCell v → after.contents v = before.contents v

namespace Keeps

theorem refl (h : Heap) : h.Keeps h := ⟨fun _ hv => hv, fun _ _ => rfl⟩

theorem trans {a b c : Heap} (hab : a.Keeps b) (hbc : b.Keeps c) : a.Keeps c where
  hasCell v hv := hbc.hasCell v (hab.hasCell v hv)
  contents v hv := (hbc.contents v (hab.hasCell v hv)).trans (hab.contents v hv)

theorem newList (h : Heap) (items : List Value) : h.Keeps (h.newList items).2 where
  hasCell v hv := by
    cases v with
    | list r => exact Cells.lt_size_push items hv
    | _ => exact hv
  contents v hv := by
    cases v with
    | list r => exact congrArg Contents.items (Cells.get_push_of_lt items hv)
    | _ => rfl

theorem newDict (h : Heap) (d : Dict) : h.Keeps (h.newDict d).2 where
  hasCell v hv := by
    cases v with
    | dict r => exact Cells.lt_size_push d hv
    | _ => exact hv
  contents v hv := by
    cases v with
    | dict r => exact congrArg Contents.entries (Cells.get_push_of_lt d hv)
    | _ => rfl

theorem fresh (h : Heap) (n : Nat) : h.Keeps { h with fresh := n } where
  hasCell v hv := by
    cases v with
    | _ => exact hv
  contents v hv := by
    cases v with
    | _ => rfl

end Keeps

end Heap

end BlockScript
