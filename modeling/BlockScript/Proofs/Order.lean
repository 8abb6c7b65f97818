import Mathlib.Data.Char
import BlockScript.Proofs.Order.Laws

/-! Equality and order of values without floats are lawful: equality is symmetric and transitive,
and an order that does not refuse agrees with it. Both follow references through a bounded number of
cells, so the laws are shown for each bound, from the laws for the next smaller one. -/

namespace BlockScript

open List

theorem orderText_eq_compare (as bs : List Char) : orderText as bs = compare as bs := by
  change _ = List.compareLex compare as bs
  induction as generalizing bs with
  | nil => cases bs <;> rfl
  | cons a as ih => cases bs with
    | nil => rfl
    | cons b bs =>
      have hcompare : compare a b = if a < b then .lt else if a = b then .eq else .gt := rfl
      rw [orderText, List.compareLex_cons_cons, ih, hcompare]
      rcases lt_trichotomy a b with h | rfl | h
      · rw [if_pos h, if_pos h]; rfl
      · rw [if_neg (lt_irrefl a), if_neg (lt_irrefl a), if_neg (lt_irrefl a), if_pos rfl]; rfl
      · rw [if_neg (lt_asymm h), if_pos h, if_neg (lt_asymm h), if_neg (ne_of_gt h)]; rfl

/-- What tells values apart that hold no others. -/
inductive Identity where
  | none
  | number (i : Int64)
  | text (s : String)
  | function (id : Nat)
  | closure (id : Nat)
  | native (id : Nat)
  | method (id : Nat)
  | cls (id : Nat)
  | inst (ref : InstanceRef)
  | object (o : ObjectRef)

/-- The order of what can be ordered. -/
def Identity.order? : Identity → Identity → Option Ordering
  | number i, number j => some (compare i.toInt j.toInt)
  | text s, text t => some (compare s.toList t.toList)
  | _, _ => Option.none

namespace Identity

variable {x y z : Identity} {o : Ordering}

theorem order?_swap (h : x.order? y = some o) : y.order? x = some o.swap := by
  unfold order? at h
  split at h <;> cases h <;> exact congrArg some Std.OrientedCmp.eq_swap

theorem order?_eq_iff (h : x.order? y = some o) : o = .eq ↔ x = y := by
  unfold order? at h
  split at h <;> cases h
  · rw [Std.compare_eq_iff_eq, Int64.toInt_inj, number.injEq]
  · rw [Std.compare_eq_iff_eq, String.toList_inj, text.injEq]

theorem order?_lt_trans (h : x.order? y = some .lt) (h' : y.order? z = some .lt) :
    x.order? z = some .lt := by
  unfold order? at h
  split at h <;> cases z <;> simp only [order?, Option.some.injEq, reduceCtorEq] at h h' ⊢
  all_goals exact Std.TransCmp.lt_trans h h'

end Identity

namespace Value

def identity? : Value → Option Identity
  | none => some .none
  | bool b => some (.number (if b then 1 else 0))
  | int i => some (.number i)
  | str s => some (.text s)
  | function f => some (.function f.id)
  | closure f => some (.closure f.id)
  | native id _ => some (.native id)
  | method id _ _ => some (.method id)
  | cls c => some (.cls c.id)
  | inst ref _ => some (.inst ref)
  | object o => some (.object o)
  | float _ | list _ | tuple _ _ | dict _ | space _ => Option.none

theorem equalsAllBy_eq_listsMatch (same : Value → Value → Bool) (as bs : List Value) :
    equalsAllBy same as bs = listsMatch (equalsBy same) as bs := by
  induction as generalizing bs with
  | nil => cases bs <;> rfl
  | cons a as ih => cases bs with
    | nil => rfl
    | cons b bs => rw [equalsAllBy, listsMatch, ih]

theorem orderAllBy_eq_orderLists (equals : Value → Value → Bool)
    (order : Value → Value → OrderResult) (as bs : List Value) :
    orderAllBy equals order as bs = orderLists equals (orderBy equals order) as bs := by
  induction as generalizing bs with
  | nil => cases bs <;> rfl
  | cons a as ih => cases bs with
    | nil => rfl
    | cons b bs => rw [orderAllBy, orderLists, ih]

end Value

namespace Heap

variable {h : Heap} {n i j size : Nat} {a b c : Value} {as : List Value}

/-- The values that a value holds. -/
def held (h : Heap) : Value → List Value
  | .tuple _ items => items
  | .list r => h.list r
  | .dict r => (h.dict r).values
  | .space r => (h.space r).values
  | _ => []

/-- A value that is reached from another through what values hold. -/
inductive Part (h : Heap) : Value → Value → Prop
  | refl {a : Value} : Part h a a
  | inside {a b c : Value} : b ∈ h.held a → Part h b c → Part h a c

def FloatFree (h : Heap) (a : Value) : Prop := ∀ f, ¬ h.Part a (.float f)

theorem FloatFree.inside (ha : h.FloatFree a) : ∀ b ∈ h.held a, h.FloatFree b :=
  fun _ hb f hpart => ha f (.inside hb hpart)

theorem FloatFree.ne_float (ha : h.FloatFree a) (f : Float) : a ≠ .float f :=
  fun heq => ha f (heq ▸ .refl)

/-- Equality through at most `n` more cells. -/
inductive Equal (h : Heap) (n : Nat) : Value → Value → Prop
  | plain {a b : Value} {x : Identity} : a.identity? = some x → b.identity? = some x → Equal h n a b
  | tuple {i j : Nat} {as bs : List Value} : listsMatch (h.equalsTo (n + 1)) as bs = true →
      Equal h n (.tuple i as) (.tuple j bs)
  | same {r : ListRef} : Equal h n (.list r) (.list r)
  | list {r s : ListRef} : listsMatch (h.equalsTo n) (h.list r) (h.list s) = true →
      Equal h n (.list r) (.list s)
  | dict {r s : DictRef} : (h.dict r).matches (h.equalsTo n) (h.dict s) = true →
      Equal h n (.dict r) (.dict s)
  | space {r s : SpaceRef} : (h.space r).matches (h.equalsTo n) (h.space s) = true →
      Equal h n (.space r) (.space s)

theorem equalsTo_tuple (as bs : List Value) :
    h.equalsTo (n + 1) (.tuple i as) (.tuple j bs) = listsMatch (h.equalsTo (n + 1)) as bs :=
  Value.equalsAllBy_eq_listsMatch _ as bs

theorem equalsTo_iff (ha : ∀ f, a ≠ .float f) (hb : ∀ f, b ≠ .float f) :
    h.equalsTo (n + 1) a b = true ↔ h.Equal n a b := by
  constructor
  · intro he
    cases a <;> cases b
    case tuple.tuple => exact .tuple (equalsTo_tuple _ _ ▸ he)
    case list.list r s =>
      rcases (Bool.or_eq_true_iff ..).1 he with he | he
      · exact eq_of_beq he ▸ .same
      · exact .list he
    case dict.dict => exact .dict he
    case space.space => exact .space he
    all_goals
      simp [equalsTo, Value.equalsBy, Value.equalsPlain, Value.asInt?,
        Value.isNumber, Value.asFloat?, Value.isSame] at ha hb he
    all_goals exact .plain rfl (by simp [Value.identity?, he])
  · intro he
    cases he with
    | tuple he => exact (equalsTo_tuple _ _).trans he
    | same => simp [equalsTo, Value.equalsBy]
    | list he => exact (Bool.or_eq_true_iff ..).2 (.inr he)
    | dict he => exact he
    | space he => exact he
    | plain hx hy =>
      cases a <;> cases hx <;> cases b <;>
      simp [equalsTo, Value.equalsBy, Value.equalsPlain, Value.asInt?,
        Value.isNumber, Value.asFloat?, Value.isSame, Value.identity?] at ha hb hy ⊢ <;> simp [hy]

/-- What an order through at most `n` more cells finds. -/
inductive Compared (h : Heap) (n : Nat) : Value → Value → Option Ordering → Prop
  | plain {a b : Value} {x y : Identity} {o : Ordering} : a.identity? = some x →
      b.identity? = some y → x.order? y = some o → Compared h n a b (some o)
  | tuple {i j : Nat} {as bs : List Value} {o : Option Ordering} :
      orderLists (h.equalsTo (n + 1)) (h.orderTo (n + 1)) as bs = .ok o →
      Compared h n (.tuple i as) (.tuple j bs) o
  | list {r s : ListRef} {o : Option Ordering} :
      orderLists (h.equalsTo n) (h.orderTo n) (h.list r) (h.list s) = .ok o →
      Compared h n (.list r) (.list s) o

theorem orderTo_tuple (as bs : List Value) : h.orderTo (n + 1) (.tuple i as) (.tuple j bs) =
      orderLists (h.equalsTo (n + 1)) (h.orderTo (n + 1)) as bs :=
  Value.orderAllBy_eq_orderLists _ _ as bs

theorem orderTo_iff {o : Option Ordering} (ha : ∀ f, a ≠ .float f) (hb : ∀ f, b ≠ .float f) :
    h.orderTo (n + 1) a b = .ok o ↔ h.Compared n a b o := by
  constructor
  · intro ho
    cases a <;> cases b
    case tuple.tuple => exact .tuple (orderTo_tuple _ _ ▸ ho)
    case list.list r s => exact .list ho
    all_goals
      simp [orderTo, Value.orderBy, Value.orderPlain, Value.asInt?,
        Value.isNumber, Value.asFloat?] at ha hb ho
    all_goals exact ho ▸ .plain rfl rfl (by simp [Identity.order?, orderText_eq_compare])
  · intro ho
    cases ho with
    | tuple ho => exact (orderTo_tuple _ _).trans ho
    | list ho => exact ho
    | plain hx hy ho =>
      cases a <;> cases hx <;> cases b <;> cases hy <;> cases ho
      all_goals simp [orderTo, Value.orderBy, Value.orderPlain, Value.asInt?, orderText_eq_compare]

def Small (h : Heap) (size : Nat) (a : Value) : Prop := h.FloatFree a ∧ sizeOf a < size

theorem sizeOf_item_lt (hsize : sizeOf (Value.tuple i as) < size + 1) (ha : a ∈ as) :
    sizeOf a < size := by
  have hitem := sizeOf_lt_of_mem ha
  rw [Value.tuple.sizeOf_spec] at hsize
  omega

theorem Small.items (ha : h.Small (size + 1) (.tuple i as)) : ∀ a ∈ as, h.Small size a :=
  fun a hmem => ⟨ha.1.inside a hmem, sizeOf_item_lt ha.2 hmem⟩

/-- Tuples need the laws for smaller values, all else for values with one cell less to go. -/
theorem lawful_succ (hcells : Lawful h.FloatFree (h.equalsTo n) (h.orderTo n))
    (hitems : Lawful (h.Small size) (h.equalsTo (n + 1)) (h.orderTo (n + 1))) :
    Lawful (h.Small (size + 1)) (h.equalsTo (n + 1)) (h.orderTo (n + 1)) where
  symm {a b} ha hb he := by
    rw [equalsTo_iff ha.1.ne_float hb.1.ne_float] at he
    rw [equalsTo_iff hb.1.ne_float ha.1.ne_float]
    cases he with
    | plain hx hy => exact .plain hy hx
    | tuple he => exact .tuple (hitems.lists.symm ha.items hb.items he)
    | same => exact .same
    | list he => exact .list (hcells.lists.symm ha.1.inside hb.1.inside he)
    | dict he => exact .dict (OrderedMap.matches_symm hcells ha.1.inside hb.1.inside he)
    | space he => exact .space (OrderedMap.matches_symm hcells ha.1.inside hb.1.inside he)
  trans {a b c} ha hb hc hab hbc := by
    rw [equalsTo_iff ha.1.ne_float hb.1.ne_float] at hab
    rw [equalsTo_iff hb.1.ne_float hc.1.ne_float] at hbc
    rw [equalsTo_iff ha.1.ne_float hc.1.ne_float]
    cases hab with
    | plain hx hy =>
      cases hbc with
      | plain hy' hz => exact .plain hx (hz.trans (hy'.symm.trans hy))
      | _ => cases hy
    | tuple hab =>
      cases hbc with
      | plain hy => cases hy
      | tuple hbc => exact .tuple (hitems.lists.trans ha.items hb.items hc.items hab hbc)
    | same => exact hbc
    | list hab =>
      cases hbc with
      | plain hy => cases hy
      | same => exact .list hab
      | list hbc => exact .list (hcells.lists.trans ha.1.inside hb.1.inside hc.1.inside hab hbc)
    | dict hab =>
      cases hbc with
      | plain hy => cases hy
      | dict hbc =>
        exact .dict (OrderedMap.matches_trans hcells ha.1.inside hb.1.inside hc.1.inside hab hbc)
    | space hab =>
      cases hbc with
      | plain hy => cases hy
      | space hbc =>
        exact .space (OrderedMap.matches_trans hcells ha.1.inside hb.1.inside hc.1.inside hab hbc)
  congr {a a' b o} ha ha' hb he ho := by
    rw [equalsTo_iff ha.1.ne_float ha'.1.ne_float] at he
    rw [orderTo_iff ha.1.ne_float hb.1.ne_float] at ho
    rw [orderTo_iff ha'.1.ne_float hb.1.ne_float]
    cases he with
    | plain hx hx' =>
      cases ho with
      | plain hx'' hy ho => exact .plain (hx'.trans (hx.symm.trans hx'')) hy ho
      | _ => cases hx
    | tuple he =>
      cases ho with
      | plain hx => cases hx
      | tuple ho => exact .tuple (hitems.lists.congr ha.items ha'.items hb.items he ho)
    | same => exact ho
    | list he =>
      cases ho with
      | plain hx => cases hx
      | list ho => exact .list (hcells.lists.congr ha.1.inside ha'.1.inside hb.1.inside he ho)
    | dict => cases ho with | plain hx => cases hx
    | space => cases ho with | plain hx => cases hx
  swap {a b o} ha hb ho := by
    rw [orderTo_iff ha.1.ne_float hb.1.ne_float] at ho
    rw [orderTo_iff hb.1.ne_float ha.1.ne_float]
    cases ho with
    | plain hx hy ho => exact .plain hy hx (Identity.order?_swap ho)
    | tuple ho => exact .tuple (hitems.lists.swap ha.items hb.items ho)
    | list ho => exact .list (hcells.lists.swap ha.1.inside hb.1.inside ho)
  decides {a b o} ha hb ho := by
    rw [orderTo_iff ha.1.ne_float hb.1.ne_float] at ho
    rw [equalsTo_iff ha.1.ne_float hb.1.ne_float]
    cases ho with
    | plain hx hy ho =>
      refine ⟨_, rfl, (Identity.order?_eq_iff ho).trans ⟨fun heq =>
        .plain hx (heq ▸ hy), fun he => ?_⟩⟩
      cases he with
      | plain hx' hy' => exact Option.some.inj ((hx.symm.trans hx').trans (hy'.symm.trans hy))
      | _ => cases hx
    | tuple ho =>
      obtain ⟨o, rfl, heq⟩ := hitems.lists.decides ha.items hb.items ho
      refine ⟨o, rfl, heq.trans ⟨.tuple, fun he => ?_⟩⟩
      cases he with
      | plain hx => cases hx
      | tuple he => exact he
    | list ho =>
      obtain ⟨o, rfl, heq⟩ := hcells.lists.decides ha.1.inside hb.1.inside ho
      refine ⟨o, rfl, ⟨fun heq' => .list (heq.1 heq'), fun he => ?_⟩⟩
      cases he with
      | plain hx => cases hx
      | list he => exact heq.2 he
      | same =>
        -- An order of a list with itself stays when it is turned around.
        have hswap := ho.symm.trans (hcells.lists.swap ha.1.inside ha.1.inside ho)
        cases o with
        | eq => rfl
        | lt | gt => cases hswap
  lt_trans {a b c} ha hb hc hab hbc := by
    rw [orderTo_iff ha.1.ne_float hb.1.ne_float] at hab
    rw [orderTo_iff hb.1.ne_float hc.1.ne_float] at hbc
    rw [orderTo_iff ha.1.ne_float hc.1.ne_float]
    cases hab with
    | plain hx hy hab =>
      cases hbc with
      | plain hy' hz hbc =>
        cases hy.symm.trans hy'
        exact .plain hx hz (Identity.order?_lt_trans hab hbc)
      | _ => cases hy
    | tuple hab =>
      cases hbc with
      | plain hy => cases hy
      | tuple hbc => exact .tuple (hitems.lists.lt_trans ha.items hb.items hc.items hab hbc)
    | list hab =>
      cases hbc with
      | plain hy => cases hy
      | list hbc =>
        exact .list (hcells.lists.lt_trans ha.1.inside hb.1.inside hc.1.inside hab hbc)

theorem lawful_of_small {equals : Value → Value → Bool} {order : Value → Value → OrderResult}
    (L : ∀ size, Lawful (h.Small size) equals order) : Lawful h.FloatFree equals order where
  symm {a b} ha hb := (L (sizeOf a + sizeOf b + 1)).symm ⟨ha, by omega⟩ ⟨hb, by omega⟩
  trans {a b c} ha hb hc :=
    (L (sizeOf a + sizeOf b + sizeOf c + 1)).trans ⟨ha, by omega⟩ ⟨hb, by omega⟩ ⟨hc, by omega⟩
  congr {a a' b o} ha ha' hb :=
    (L (sizeOf a + sizeOf a' + sizeOf b + 1)).congr ⟨ha, by omega⟩ ⟨ha', by omega⟩ ⟨hb, by omega⟩
  swap {a b o} ha hb := (L (sizeOf a + sizeOf b + 1)).swap ⟨ha, by omega⟩ ⟨hb, by omega⟩
  decides {a b o} ha hb := (L (sizeOf a + sizeOf b + 1)).decides ⟨ha, by omega⟩ ⟨hb, by omega⟩
  lt_trans {a b c} ha hb hc :=
    (L (sizeOf a + sizeOf b + sizeOf c + 1)).lt_trans ⟨ha, by omega⟩ ⟨hb, by omega⟩ ⟨hc, by omega⟩

theorem lawful_to (h : Heap) (n : Nat) : Lawful h.FloatFree (h.equalsTo n) (h.orderTo n) := by
  induction n with
  | zero => constructor <;> intros <;> contradiction
  | succ n ihn =>
    refine lawful_of_small fun size => ?_
    induction size with
    | zero => constructor <;> intros <;> exact absurd (‹h.Small 0 _›).2 (Nat.not_lt_zero _)
    | succ size ih => exact lawful_succ ihn ih

theorem lawful (h : Heap) : Lawful h.FloatFree h.equals h.order := h.lawful_to (h.size + 1)

/-- An order that does not refuse two values tells whether they are equal, does not refuse them the
other way around, and is transitive. -/
theorem order_lawful {x y z : Value} (hx : h.FloatFree x) (hy : h.FloatFree y)
    (hz : h.FloatFree z) :
    (∀ r, h.order x y = .ok r → ∃ o, r = some o ∧ (o = .eq ↔ h.equals x y = true) ∧
      h.order y x = .ok (some o.swap)) ∧
    (h.order x y = .ok (some .lt) → h.order y z = .ok (some .lt) →
      h.order x z = .ok (some .lt)) := by
  refine ⟨fun r hr => ?_, h.lawful.lt_trans hx hy hz⟩
  obtain ⟨o, rfl, heq⟩ := h.lawful.decides hx hy hr
  exact ⟨o, rfl, heq, h.lawful.swap hx hy hr⟩

theorem FloatFree.intro (ha : ∀ f, a ≠ .float f) (hinside : ∀ b ∈ h.held a, h.FloatFree b) :
    h.FloatFree a := by
  rintro f (_ | ⟨hb, hpart⟩)
  · exact ha f rfl
  · exact hinside _ hb f hpart

theorem FloatFree.of_held_nil (ha : ∀ f, a ≠ .float f) (hheld : h.held a = []) : h.FloatFree a :=
  .intro ha (hheld ▸ forall_mem_nil _)

theorem FloatFree.tuple {vs : List Value} (hvs : ∀ v ∈ vs, h.FloatFree v) :
    h.FloatFree (.tuple i vs) :=
  .intro (fun _ => Value.noConfusion) hvs

/-- `(None, [1], False)`, `(None, [True], 1)` and `(None, [1], 2)`: the first items are equal but in
no order. -/
theorem order_lawful_nested :
    let h : Heap := ((default : Heap).newList [.int 1]).2.newList [.bool true] |>.2
    let x : Value := .tuple 0 [.none, .list ⟨0⟩, .bool false]
    let y : Value := .tuple 1 [.none, .list ⟨1⟩, .int 1]
    let z : Value := .tuple 2 [.none, .list ⟨0⟩, .int 2]
    (h.order .none .none).isOk = false ∧ h.order y x = .ok (some .gt) ∧
    h.order x z = .ok (some .lt) := by
  intro h x y z
  have hlist : ∀ i < 2, h.FloatFree (.list ⟨i⟩)
    | 0, _ => .intro nofun (forall_mem_singleton.2 (.of_held_nil nofun rfl))
    | 1, _ => .intro nofun (forall_mem_singleton.2 (.of_held_nil nofun rfl))
  have htuple (i j : Nat) (hj : j < 2) (v : Value) (hv : h.FloatFree v) :
      h.FloatFree (.tuple i [.none, .list ⟨j⟩, v]) := by
    refine .tuple ?_
    rw [forall_mem_cons, forall_mem_cons, forall_mem_singleton]
    exact ⟨.of_held_nil nofun rfl, hlist j hj, hv⟩
  have hx : h.FloatFree x := htuple 0 0 (by decide) _ (.of_held_nil nofun rfl)
  have hy : h.FloatFree y := htuple 1 1 (by decide) _ (.of_held_nil nofun rfl)
  have hz : h.FloatFree z := htuple 2 0 (by decide) _ (.of_held_nil nofun rfl)
  obtain ⟨o, ho, -, hyx⟩ := (order_lawful hx hy hz).1 _ (rfl : h.order x y = .ok (some .lt))
  cases ho
  exact ⟨rfl, hyx, (order_lawful hx hy hz).2 rfl rfl⟩

end Heap

end BlockScript
