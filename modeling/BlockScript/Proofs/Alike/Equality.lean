import BlockScript.Machine.Equality
import BlockScript.Proofs.Alike.Run

/-! Alike values are equal, and ordered, alike. -/

namespace BlockScript

variable {S : Setting} {w : World}

/-! ## Results of pure computations -/

namespace ExceptAlike

variable {α β γ δ : Type} {R : α → β → Prop} {P : γ → δ → Prop} {x : Except RuntimeError α}
  {y : Except RuntimeError β}

theorem bind {f : α → Except RuntimeError γ} {g : β → Except RuntimeError δ}
    (h : ExceptAlike S w R x y) (hfg : ∀ a b, R a b → ExceptAlike S w P (f a) (g b)) :
    ExceptAlike S w P (x >>= f) (y >>= g) := by
  cases h with
  | ok h => exact hfg _ _ h
  | error he => exact .error he

theorem map {f : α → γ} {g : β → δ} (h : ExceptAlike S w R x y)
    (hfg : ∀ a b, R a b → P (f a) (g b)) : ExceptAlike S w P (f <$> x) (g <$> y) := by
  cases h with
  | ok h => exact .ok (hfg _ _ h)
  | error he => exact .error he

theorem foldlM {f : γ → α → Except RuntimeError γ} {g : δ → β → Except RuntimeError δ} {c : γ}
    {d : δ} (hcd : P c d) {xs : List α} {ys : List β} (hxs : List.Forall₂ R xs ys)
    (hfg : ∀ c d, P c d → ∀ a b, R a b → ExceptAlike S w P (f c a) (g d b)) :
    ExceptAlike S w P (xs.foldlM f c) (ys.foldlM g d) := by
  induction hxs generalizing c d with
  | nil => exact .ok hcd
  | cons hx _ ih =>
    rw [List.foldlM_cons, List.foldlM_cons]
    exact (hfg _ _ hcd _ _ hx).bind fun c d hcd => ih hcd

end ExceptAlike

/-! ## Equality -/

def TestsAgree (S : Setting) (w : World) (t t' : Value → Value → Bool) : Prop :=
  ∀ ⦃a a' b b'⦄, a.Alike S w a' → b.Alike S w b' → t' a' b' = t a b

theorem Value.equalsPlain_agree : TestsAgree S w Value.equalsPlain Value.equalsPlain := by
  intro a a' b b' ha hb
  have hsame := ha.isSame_eq hb
  cases ha <;> cases hb <;> first
    | rfl
    | exact hsame

theorem Value.equalsBy_agree {same same' : Value → Value → Bool}
    (hsame : TestsAgree S w same same') :
    TestsAgree S w (Value.equalsBy same) (Value.equalsBy same') := by
  have h : Alike.Hereditary S w fun a a' => ∀ {b b'}, b.Alike S w b' →
      a'.equalsBy same' b' = a.equalsBy same b := by
    refine ⟨fun hi has ih b b' hb => ?_, fun ha hnot b b' hb => ?_⟩
    · cases hb with
      | @tuple _ _ bs bs' _ hbs =>
        rw [Value.equalsBy, Value.equalsBy]
        clear has
        induction ih generalizing bs bs' with
        | nil => cases hbs <;> rfl
        | cons ha _ ih =>
          cases hbs with
          | nil => rfl
          | cons hb hbs => rw [Value.equalsAllBy, Value.equalsAllBy, ha hb, ih hbs]
      | _ => exact hsame (.tuple hi has) (by constructor <;> assumption)
    · have hother := hsame ha hb
      cases ha <;> first
        | exact hother
        | exact (hnot _ _ rfl).elim
  exact fun _ _ _ _ ha hb => h.all ha hb

variable {equals equals' : Value → Value → Bool}

theorem MapAlike.matches_eq {κ : Type} [BEq κ] (he : TestsAgree S w equals equals')
    {m m' n n' : OrderedMap κ Value} (hm : MapAlike S w m m') (hn : MapAlike S w n n') :
    OrderedMap.matches equals' m' n' = OrderedMap.matches equals m n := by
  have hfound : ∀ key {v v' : Value}, v.Alike S w v' →
      (n'.get? key).any (equals' v') = (n.get? key).any (equals v) := by
    intro key v v' hv
    match n.get? key, n'.get? key, hn.get? key with
    | _, _, .none => rfl
    | _, _, .some hu => exact he hv hu
  have hall : List.Forall₂ (fun e e' => e'.1 = e.1 ∧ e.2.Alike S w e'.2) m.entries m'.entries := hm
  rw [OrderedMap.matches, OrderedMap.matches, OrderedMap.AlikeBy.size_eq hm,
    OrderedMap.AlikeBy.size_eq hn]
  congr 1
  generalize m.entries = entries, m'.entries = entries' at hall
  induction hall with
  | nil => rfl
  | @cons e e' es es' h _ ih =>
    obtain ⟨k, v⟩ := e
    obtain ⟨k', v'⟩ := e'
    obtain ⟨rfl, hv⟩ := h
    rw [List.all_cons, List.all_cons, ih]
    exact congrArg (· && _) (hfound _ hv)

theorem listsMatch_eq (he : TestsAgree S w equals equals') {as as' bs bs' : List Value}
    (has : Values.Alike S w as as') (hbs : Values.Alike S w bs bs') :
    listsMatch equals' as' bs' = listsMatch equals as bs := by
  induction has generalizing bs bs' with
  | nil => cases hbs <;> rfl
  | cons ha _ ih =>
    cases hbs with
    | nil => rfl
    | cons hb hbs => rw [listsMatch, listsMatch, he ha hb, ih hbs]

namespace Heap.Alike

variable {h h' : Heap}

theorem equalsTo_agree (hh : h.Alike S w h') (n : Nat) :
    TestsAgree S w (h.equalsTo n) (h'.equalsTo n) := by
  induction n with
  | zero => exact fun _ _ _ _ _ _ => rfl
  | succ n ih =>
    intro a a' b b' ha hb
    rw [Heap.equalsTo, Heap.equalsTo]
    refine Value.equalsBy_agree (fun a a' b b' ha hb => ?_) ha hb
    have hplain := Value.equalsPlain_agree ha hb
    cases ha <;> cases hb <;> first
      | exact hplain
      | skip
    · next r s =>
      dsimp only
      rw [listsMatch_eq ih (hh.list r) (hh.list s)]
    · next r s => exact (hh.dict r).matches_eq ih (hh.dict s)
    · next r s => exact (hh.space r).matches_eq ih (hh.space s)

theorem equals_agree (hh : h.Alike S w h') : TestsAgree S w h.equals h'.equals := by
  intro a a' b b' ha hb
  rw [Heap.equals, Heap.equals, hh.size_eq]
  exact hh.equalsTo_agree _ ha hb

end Heap.Alike

/-! ## Order -/

/-- Two orders that agree on alike values, in the error too if there is none. -/
def OrdersAgree (S : Setting) (w : World) (t t' : Value → Value → OrderResult) : Prop :=
  ∀ ⦃a a' b b'⦄, a.Alike S w a' → b.Alike S w b' → ExceptAlike S w Eq (t a b) (t' a' b')

theorem Value.orderPlain_agree : OrdersAgree S w Value.orderPlain Value.orderPlain := by
  intro a a' b b' ha hb
  cases ha <;> cases hb <;> first
    | exact .ok rfl
    | exact .error (.same rfl)

variable {order order' : Value → Value → OrderResult} (he : TestsAgree S w equals equals')
  (ho : OrdersAgree S w order order')

include he ho

theorem Value.orderBy_agree :
    OrdersAgree S w (Value.orderBy equals order) (Value.orderBy equals' order') := by
  have h : Alike.Hereditary S w fun a a' => ∀ {b b'}, b.Alike S w b' →
      ExceptAlike S w Eq (a.orderBy equals order b) (a'.orderBy equals' order' b') := by
    refine ⟨fun hi has ih b b' hb => ?_, fun ha hnot b b' hb => ?_⟩
    · cases hb with
      | @tuple _ _ bs bs' _ hbs =>
        rw [Value.orderBy, Value.orderBy]
        induction ih generalizing bs bs' with
        | nil => cases hbs <;> exact .ok rfl
        | cons ha' _ ih =>
          cases has with
          | cons ha has =>
            cases hbs with
            | nil => exact .ok rfl
            | cons hb hbs =>
              rw [Value.orderAllBy, Value.orderAllBy, he ha hb]
              split
              · exact ih has hbs
              · exact ha' hb
      | _ => exact ho (.tuple hi has) (by constructor <;> assumption)
    · have hother := ho ha hb
      cases ha <;> first
        | exact hother
        | exact (hnot _ _ rfl).elim
  exact fun _ _ _ _ ha hb => h.all ha hb

theorem orderLists_agree {as as' bs bs' : List Value} (has : Values.Alike S w as as')
    (hbs : Values.Alike S w bs bs') :
    ExceptAlike S w Eq (orderLists equals order as bs) (orderLists equals' order' as' bs') := by
  induction has generalizing bs bs' with
  | nil => cases hbs <;> exact .ok rfl
  | cons ha _ ih =>
    cases hbs with
    | nil => exact .ok rfl
    | cons hb hbs =>
      rw [orderLists, orderLists, he ha hb]
      split
      · exact ih hbs
      · exact ho ha hb

omit he ho

theorem isOrdering_agree {c c' : OrderResult} (hc : ExceptAlike S w Eq c c') (o : Ordering) :
    ExceptAlike S w Eq (isOrdering c o) (isOrdering c' o) :=
  hc.bind fun _ _ hab => hab ▸ .ok rfl

abbrev PairAlike (S : Setting) (w : World) (e e' : Value × Value) : Prop :=
  e.1.Alike S w e'.1 ∧ e.2.Alike S w e'.2

theorem mono_pair : World.Mono (PairAlike S) := fun _ _ hw _ _ h => ⟨h.1.mono hw, h.2.mono hw⟩

section

variable {α : Type} {R : α → α → Prop} {less less' : α → α → Except RuntimeError Bool}
  (hless : ∀ a a' b b', R a a' → R b b' → ExceptAlike S w Eq (less a b) (less' a' b'))

include hless

theorem insertBy_alike {a a' : α} (ha : R a a') {bs bs' : List α} (hbs : List.Forall₂ R bs bs') :
    ExceptAlike S w (List.Forall₂ R) (insertBy less a bs) (insertBy less' a' bs') := by
  induction hbs with
  | nil => exact .ok (.cons ha .nil)
  | cons hb hbs ih =>
    refine (hless _ _ _ _ ha hb).bind fun c c' hc => ?_
    cases hc
    cases c with
    | true => exact ih.bind fun _ _ hcs => .ok (.cons hb hcs)
    | false => exact .ok (.cons ha (.cons hb hbs))

theorem sortBy_alike {as as' : List α} (has : List.Forall₂ R as as') :
    ExceptAlike S w (List.Forall₂ R) (sortBy less as) (sortBy less' as') := by
  refine ExceptAlike.bind (R := List.Forall₂ R) (ExceptAlike.foldlM .nil has ?_) ?_
  · exact fun _ _ hsorted _ _ ha => insertBy_alike hless ha hsorted
  · exact fun _ _ hsorted => .ok (List.rel_reverse hsorted)

end

namespace Heap.Alike

variable {h h' : Heap}

theorem orderTo_agree (hh : h.Alike S w h') (n : Nat) :
    OrdersAgree S w (h.orderTo n) (h'.orderTo n) := by
  induction n with
  | zero =>
    intro a a' b b' ha hb
    rw [Heap.orderTo, Heap.orderTo, ha.typeName_eq, hb.typeName_eq]
    exact .error (.same rfl)
  | succ n ih =>
    intro a a' b b' ha hb
    rw [Heap.orderTo, Heap.orderTo]
    refine Value.orderBy_agree (hh.equalsTo_agree _) (fun a a' b b' ha hb => ?_) ha hb
    have hplain := Value.orderPlain_agree ha hb
    cases ha <;> cases hb <;> first
      | exact hplain
      | skip
    next r s => exact orderLists_agree (hh.equalsTo_agree n) ih (hh.list r) (hh.list s)

theorem order_agree (hh : h.Alike S w h') : OrdersAgree S w h.order h'.order := by
  intro a a' b b' ha hb
  rw [Heap.order, Heap.order, hh.size_eq]
  exact hh.orderTo_agree _ ha hb

theorem sortKeyed_alike (hh : h.Alike S w h') (reverse : Bool) {keyed keyed' : List (Value × Value)}
    (hk : List.Forall₂ (PairAlike S w) keyed keyed') :
    ExceptAlike S w (Values.Alike S w) (h.sortKeyed reverse keyed)
      (h'.sortKeyed reverse keyed') := by
  refine ExceptAlike.bind (sortBy_alike ?_ hk) fun _ _ hsorted => ?_
  · exact fun _ _ _ _ ha hb => isOrdering_agree (hh.order_agree ha.1 hb.1) _
  · exact .ok (List.rel_map (fun _ _ he => he.2) hsorted)

end Heap.Alike

end BlockScript
