import BlockScript.Proofs.Balance.Run
import BlockScript.Proofs.Order

/-! An order that has been found stays: when cells have been made since but none has been written,
values are in the same order. -/

namespace BlockScript

open List

/-- What is equal stays equal, and what is in an order stays in that order. -/
structure Stays {α : Type} (P : α → Prop) (equals equals' : α → α → Bool)
    (order order' : α → α → OrderResult) : Prop where
  equals {a b : α} : P a → P b → equals a b = true → equals' a b = true
  order {a b : α} {r : Option Ordering} : P a → P b → order a b = .ok r → order' a b = .ok r

section Lists

variable {P : Value → Prop} {equals equals' : Value → Value → Bool}
  {order order' : Value → Value → OrderResult}

theorem Stays.lists (hs : Stays P equals equals' order order') (L : Lawful P equals order)
    (L' : Lawful P equals' order') :
    Stays (fun as => ∀ a ∈ as, P a) (listsMatch equals) (listsMatch equals')
      (orderLists equals order) (orderLists equals' order') where
  equals {as bs} ha hb he := by
    induction as generalizing bs with
    | nil => cases bs with
      | nil => rfl
      | cons => cases he
    | cons a as ih => cases bs with
      | nil => cases he
      | cons b bs =>
        rw [forall_mem_cons] at ha hb
        rw [listsMatch_cons] at he ⊢
        exact ⟨hs.equals ha.1 hb.1 he.1, ih ha.2 hb.2 he.2⟩
  order {as bs r} ha hb ho := by
    induction as generalizing bs with
    | nil => cases bs <;> exact ho
    | cons a as ih => cases bs with
      | nil => exact ho
      | cons b bs =>
        rw [forall_mem_cons] at ha hb
        rw [orderLists_cons] at ho ⊢
        split at ho
        · next he =>
          rw [if_pos (hs.equals ha.1 hb.1 he)]
          exact ih ha.2 hb.2 ho
        · next he =>
          -- The items are in an order other than equality, and still are.
          have ho' := hs.order ha.1 hb.1 ho
          obtain ⟨o, rfl, heq⟩ := L.decides ha.1 hb.1 ho
          obtain ⟨_, ⟨⟩, heq'⟩ := L'.decides ha.1 hb.1 ho'
          rw [if_neg (mt (heq.1 ∘ heq'.2) he)]
          exact ho'

theorem OrderedMap.matches_stays {κ : Type} [BEq κ] [LawfulBEq κ] {m n : OrderedMap κ Value}
    (hs : Stays P equals equals' order order') (hm : ∀ a ∈ m.values, P a) (hn : ∀ b ∈ n.values, P b)
    (h : m.matches equals n = true) : m.matches equals' n = true := by
  obtain ⟨hsize, hentries⟩ := matches_iff.1 h
  refine matches_iff.2 ⟨hsize, fun k a ha => ?_⟩
  obtain ⟨b, hb, he⟩ := hentries k a ha
  exact ⟨b, hb, hs.equals (hm a (mem_values_of_get? ha)) (hn b (mem_values_of_get? hb)) he⟩

end Lists

namespace Heap

variable {h h' : Heap} {n n' : Nat} {a b : Value}

/-- A value without floats that has all the cells it is made of. -/
structure Plain (h : Heap) (a : Value) : Prop where
  floatFree : h.FloatFree a
  hasCell : ∀ p, h.Part a p → h.HasCell p

theorem Plain.inside (ha : h.Plain a) : ∀ b ∈ h.held a, h.Plain b := fun b hb =>
  ⟨ha.floatFree.inside b hb, fun p hp => ha.hasCell p (.inside hb hp)⟩

theorem Plain.of_held_nil (ha : ∀ f, a ≠ .float f) (hheld : h.held a = []) (hcell : h.HasCell a) :
    h.Plain a := by
  refine ⟨.of_held_nil ha hheld, ?_⟩
  rintro p (_ | ⟨hb, -⟩)
  · exact hcell
  · rw [hheld] at hb
    cases hb

namespace Keeps

variable (hk : h.Keeps h')
include hk

theorem list (ha : h.Plain (.list r)) : h'.list r = h.list r :=
  Contents.items.inj (hk.contents _ (ha.hasCell _ .refl))

theorem dict (ha : h.Plain (.dict r)) : h'.dict r = h.dict r :=
  Contents.entries.inj (hk.contents _ (ha.hasCell _ .refl))

theorem space (ha : h.Plain (.space r)) : h'.space r = h.space r :=
  Contents.attrs.inj (hk.contents _ (ha.hasCell _ .refl))

theorem held (ha : h.Plain a) : h'.held a = h.held a := by
  cases a with
  | list r => exact hk.list ha
  | dict r => exact congrArg OrderedMap.values (hk.dict ha)
  | space r => exact congrArg OrderedMap.values (hk.space ha)
  | _ => rfl

theorem part {p : Value} (ha : h.Plain a) (hp : h'.Part a p) : h.Part a p := by
  induction hp with
  | refl => exact .refl
  | inside hb _ ih =>
    rw [hk.held ha] at hb
    exact .inside hb (ih (ha.inside _ hb))

theorem plain (ha : h.Plain a) : h'.Plain a where
  floatFree f hp := ha.floatFree f (hk.part ha hp)
  hasCell p hp := hk.hasCell p (ha.hasCell p (hk.part ha hp))

theorem size_le : h.size ≤ h'.size := by
  have hle {a b : Nat} (hlt : b < a → b < b) : a ≤ b := Nat.le_of_not_lt (Nat.lt_irrefl b ∘ hlt)
  have hlists := hle (hk.hasCell (.list ⟨h'.lists.size⟩))
  have hdicts := hle (hk.hasCell (.dict ⟨h'.dicts.size⟩))
  have hspaces := hle (hk.hasCell (.space ⟨h'.spaces.size⟩))
  have hinstances := hle (hk.hasCell (.inst ⟨h'.instances.size⟩ default))
  have hobjects := hle (hk.hasCell (.object ⟨h'.objects.size, default⟩))
  dsimp only at hlists hdicts hspaces hinstances hobjects
  unfold Heap.size
  omega

theorem lawful_to (n : Nat) : Lawful h.Plain (h'.equalsTo n) (h'.orderTo n) :=
  (h'.lawful_to n).mono fun _ ha => (hk.plain ha).floatFree

theorem stays_succ {size : Nat}
    (hcells : Stays h.Plain (h.equalsTo n) (h'.equalsTo n') (h.orderTo n) (h'.orderTo n'))
    (hitems : Stays (fun a => h.Plain a ∧ sizeOf a < size) (h.equalsTo (n + 1))
      (h'.equalsTo (n' + 1)) (h.orderTo (n + 1)) (h'.orderTo (n' + 1))) :
    Stays (fun a => h.Plain a ∧ sizeOf a < size + 1) (h.equalsTo (n + 1))
      (h'.equalsTo (n' + 1)) (h.orderTo (n + 1)) (h'.orderTo (n' + 1)) := by
  have hcells' := hcells.lists ((Keeps.refl h).lawful_to n) (hk.lawful_to n')
  have hitems' := hitems.lists (((Keeps.refl h).lawful_to (n + 1)).mono fun _ => And.left)
    ((hk.lawful_to (n' + 1)).mono fun _ => And.left)
  have hinside {i : Nat} {as : List Value}
      (ha : h.Plain (.tuple i as) ∧ sizeOf (Value.tuple i as) < size + 1) :
      ∀ a ∈ as, h.Plain a ∧ sizeOf a < size :=
    fun a hmem => ⟨ha.1.inside a hmem, sizeOf_item_lt ha.2 hmem⟩
  refine ⟨fun {a b} ha hb he => ?_, fun {a b r} ha hb ho => ?_⟩
  · rw [equalsTo_iff ha.1.floatFree.ne_float hb.1.floatFree.ne_float] at he ⊢
    cases he with
    | plain hx hy => exact .plain hx hy
    | tuple he => exact .tuple (hitems'.equals (hinside ha) (hinside hb) he)
    | same => exact .same
    | list he =>
      refine .list ?_
      rw [hk.list ha.1, hk.list hb.1]
      exact hcells'.equals ha.1.inside hb.1.inside he
    | dict he =>
      refine .dict ?_
      rw [hk.dict ha.1, hk.dict hb.1]
      exact OrderedMap.matches_stays hcells ha.1.inside hb.1.inside he
    | space he =>
      refine .space ?_
      rw [hk.space ha.1, hk.space hb.1]
      exact OrderedMap.matches_stays hcells ha.1.inside hb.1.inside he
  · rw [orderTo_iff ha.1.floatFree.ne_float hb.1.floatFree.ne_float] at ho ⊢
    cases ho with
    | plain hx hy ho => exact .plain hx hy ho
    | tuple ho => exact .tuple (hitems'.order (hinside ha) (hinside hb) ho)
    | list ho =>
      refine .list ?_
      rw [hk.list ha.1, hk.list hb.1]
      exact hcells'.order ha.1.inside hb.1.inside ho

theorem stays (hn : n ≤ n') :
    Stays h.Plain (h.equalsTo n) (h'.equalsTo n') (h.orderTo n) (h'.orderTo n') := by
  induction n generalizing n' with
  | zero => exact ⟨fun _ _ he => (nomatch he), fun _ _ ho => (nomatch ho)⟩
  | succ n ihn =>
    obtain ⟨n', rfl⟩ := Nat.exists_eq_add_of_lt hn
    have hsmall (size : Nat) : Stays (fun a => h.Plain a ∧ sizeOf a < size) (h.equalsTo (n + 1))
        (h'.equalsTo (n + n' + 1)) (h.orderTo (n + 1)) (h'.orderTo (n + n' + 1)) := by
      induction size with
      | zero => constructor <;> exact fun ha => absurd ha.2 (Nat.not_lt_zero _)
      | succ size ih => exact hk.stays_succ (ihn (Nat.le_add_right n n')) ih
    exact ⟨fun {a b} ha hb => (hsmall (sizeOf a + sizeOf b + 1)).equals
      ⟨ha, by omega⟩ ⟨hb, by omega⟩,
      fun {a b _} ha hb => (hsmall (sizeOf a + sizeOf b + 1)).order ⟨ha, by omega⟩ ⟨hb, by omega⟩⟩

theorem order {r : Option Ordering} (ha : h.Plain a) (hb : h.Plain b) (ho : h.order a b = .ok r) :
    h'.order a b = .ok r :=
  (hk.stays (Nat.succ_le_succ hk.size_le)).order ha hb ho

end Keeps

end Heap

end BlockScript
