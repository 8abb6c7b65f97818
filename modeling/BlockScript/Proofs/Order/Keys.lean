import BlockScript.Proofs.Balance.Run
import BlockScript.Proofs.Order

/-! Equal values are the same key of a dict, unless a truth value in one stands where the other has
an integer: `True` equals `1`, but is another key. -/

namespace BlockScript

open List

namespace Key

/-- Somewhere one of the keys has a truth value and the other an integer. -/
inductive Crosses : Key → Key → Prop
  | boolInt (b : Bool) (i : Int64) : Crosses (.bool b) (.int i)
  | intBool (i : Int64) (b : Bool) : Crosses (.int i) (.bool b)
  | first {k l : Key} {ks ls : List Key} :
      Crosses k l → Crosses (.tuple (k :: ks)) (.tuple (l :: ls))
  | later {k l : Key} {ks ls : List Key} : Crosses (.tuple ks) (.tuple ls) →
      Crosses (.tuple (k :: ks)) (.tuple (l :: ls))

theorem not_crosses_self {k l : Key} (h : Crosses k l) : k ≠ l := by
  induction h with
  | boolInt | intBool => nofun
  | first _ ih =>
    intro heq
    simp only [tuple.injEq, List.cons.injEq] at heq
    exact ih heq.1
  | later _ ih =>
    intro heq
    simp only [tuple.injEq, List.cons.injEq] at heq
    exact ih (congrArg tuple heq.2)

mutual

inductive Stands : Value → Key → Prop
  | none : Stands .none .none
  | bool (b : Bool) : Stands (.bool b) (.bool b)
  | int (i : Int64) : Stands (.int i) (.int i)
  | str (s : String) : Stands (.str s) (.str s)
  | tuple (id : Nat) {vs : List Value} {ks : List Key} : StandAll vs ks →
      Stands (.tuple id vs) (.tuple ks)

inductive StandAll : List Value → List Key → Prop
  | nil : StandAll [] []
  | cons {v : Value} {k : Key} {vs : List Value} {ks : List Key} : Stands v k → StandAll vs ks →
      StandAll (v :: vs) (k :: ks)

end

mutual

theorem stands_of_ofValue {h : Heap} : ∀ {v : Value} {k : Key}, h.FloatFree v →
    ofValue v = .ok k → Stands v k
  | .none, _, _, rfl => .none
  | .bool b, _, _, rfl => .bool b
  | .int i, _, _, rfl => .int i
  | .float f, _, hv, _ => absurd rfl (hv.ne_float f)
  | .str s, _, _, rfl => .str s
  | .tuple id vs, k, hv, hk => by
    rw [ofValue] at hk
    cases hks : ofValues vs with
    | error e => rw [hks] at hk; cases hk
    | ok ks =>
      rw [hks] at hk
      cases hk
      exact .tuple id (standAll_of_ofValues hv.inside hks)

theorem standAll_of_ofValues {h : Heap} :
    ∀ {vs : List Value} {ks : List Key}, (∀ v ∈ vs, h.FloatFree v) → ofValues vs = .ok ks →
      StandAll vs ks
  | [], _, _, rfl => .nil
  | v :: vs, ks, hv, hks => by
    rw [ofValues] at hks
    cases hk : ofValue v with
    | error e => rw [hk] at hks; cases hks
    | ok k =>
      cases hrest : ofValues vs with
      | error e => rw [hk, hrest] at hks; cases hks
      | ok rest =>
        rw [hk, hrest] at hks
        cases hks
        rw [forall_mem_cons] at hv
        exact .cons (stands_of_ofValue hv.1 hk) (standAll_of_ofValues hv.2 hrest)

end

mutual

theorem stands_toValue : ∀ (next : Nat) (k : Key), Stands (toValue next k).1 k
  | _, none => .none
  | _, bool b => .bool b
  | _, int i => .int i
  | _, str s => .str s
  | next, tuple ks => .tuple _ (standAll_toValues next ks)

theorem standAll_toValues : ∀ (next : Nat) (ks : List Key), StandAll (toValues next ks).1 ks
  | _, [] => .nil
  | next, k :: ks => .cons (stands_toValue next k) (standAll_toValues _ ks)

end

theorem Stands.ne_float {v : Value} {k : Key} (hv : Stands v k) (f : Float) : v ≠ .float f := by
  rintro rfl
  cases hv

variable {h : Heap} {n : Nat}

mutual

theorem eq_of_equalsTo {k l : Key} {a b : Value} (ha : Stands a k) (hb : Stands b l)
    (he : h.equalsTo (n + 1) a b = true) (hc : ¬ Crosses k l) : k = l := by
  rw [Heap.equalsTo_iff ha.ne_float hb.ne_float] at he
  cases he with
  | tuple he =>
    cases ha with | tuple _ has => cases hb with | tuple _ hbs =>
    exact congrArg tuple (eq_of_listsMatch has hbs he hc)
  | plain hx hy =>
    cases ha <;> cases hx <;> cases hb
    case bool.refl.int b i => exact absurd (.boolInt b i) hc
    case int.refl.bool i b => exact absurd (.intBool i b) hc
    case bool.refl.bool b c => cases b <;> cases c <;> simp_all [Value.identity?]
    all_goals simp_all [Value.identity?]
  | _ => cases ha

theorem eq_of_listsMatch {ks ls : List Key} {as bs : List Value} (has : StandAll as ks)
    (hbs : StandAll bs ls) (he : listsMatch (h.equalsTo (n + 1)) as bs = true)
    (hc : ¬ Crosses (.tuple ks) (.tuple ls)) : ks = ls := by
  cases has with
  | nil => cases hbs with
    | nil => rfl
    | cons => cases he
  | cons ha has => cases hbs with
    | nil => cases he
    | cons hb hbs =>
      rw [listsMatch_cons] at he
      rw [eq_of_equalsTo ha hb he.1 fun h => hc (.first h),
        eq_of_listsMatch has hbs he.2 fun h => hc (.later h)]

end

mutual

theorem equalsTo_of_stands {k : Key} {a b : Value} (ha : Stands a k) (hb : Stands b k) :
    h.equalsTo (n + 1) a b = true := by
  rw [Heap.equalsTo_iff ha.ne_float hb.ne_float]
  cases ha <;> cases hb
  case tuple _ has _ _ hbs => exact .tuple (listsMatch_of_standAll has hbs)
  all_goals exact .plain rfl rfl

theorem listsMatch_of_standAll {ks : List Key} {as bs : List Value} (has : StandAll as ks)
    (hbs : StandAll bs ks) : listsMatch (h.equalsTo (n + 1)) as bs = true := by
  cases has with
  | nil => cases hbs; rfl
  | cons ha has =>
    cases hbs with
    | cons hb hbs =>
      exact (listsMatch_cons _ _).2 ⟨equalsTo_of_stands ha hb, listsMatch_of_standAll has hbs⟩

end

theorem equals_iff {k l : Key} {a b : Value} (ha : Stands a k) (hb : Stands b l)
    (hc : ¬ Crosses k l) : h.equals a b = true ↔ k = l :=
  ⟨fun he => eq_of_equalsTo ha hb he hc, fun heq => equalsTo_of_stands ha (heq ▸ hb)⟩

theorem any_equals_iff {keys : List Key} {vs : List Value} {k : Key} {a : Value}
    (hvs : StandAll vs keys) (ha : Stands a k) (hc : ∀ key ∈ keys, ¬ Crosses key k) :
    vs.any (h.equals · a) = true ↔ k ∈ keys := by
  induction vs generalizing keys with
  | nil => cases hvs; simp
  | cons v vs ih =>
    cases hvs with
    | cons hv hvs =>
      rw [forall_mem_cons] at hc
      rw [any_cons, Bool.or_eq_true, equals_iff hv ha hc.1, ih hvs hc.2, mem_cons, eq_comm]

end Key

namespace Evaluator

/-- Values that are keys are the same key if and only if they are equal and no truth value in one
stands where the other has an integer. With no such pair, a value is in a dict exactly if it is in
the list of its keys, and what is stored under a value is found under an equal one. -/
theorem key_eq_iff_equals (ev : Evaluator) {m : Machine} {a b : Value} {k l : Key}
    (ha : m.heap.FloatFree a) (hb : m.heap.FloatFree b)
    (hk : Key.ofValue a = .ok k) (hl : Key.ofValue b = .ok l) :
    ((k == l) = true ↔ m.heap.equals a b = true ∧ ¬ k.Crosses l) ∧
    (∀ r, (∀ key ∈ (m.heap.dict r).keys, ¬ key.Crosses k) →
    ∃ keys m', ev.items (.dict r) m = .ok keys m' ∧
        ev.contains (.dict r) a m = .ok (keys.any (m'.heap.equals · a)) m) ∧
    (m.heap.equals a b = true → ¬ k.Crosses l → ∀ r v, ∃ m',
      (do ev.setItem (.dict r) a v; ev.getItem (.dict r) b) m = .ok v m') := by
  have hak : Key.Stands a k := Key.stands_of_ofValue ha hk
  have hbl : Key.Stands b l := Key.stands_of_ofValue hb hl
  refine ⟨?_, fun r hc => ?_, fun he hc r v => ?_⟩
  · rw [beq_iff_eq]
    refine ⟨fun heq => ?_, fun ⟨he, hc⟩ => (Key.equals_iff hak hbl hc).1 he⟩
    have hc : ¬ k.Crosses l := fun hc => Key.not_crosses_self hc heq
    exact ⟨(Key.equals_iff hak hbl hc).2 heq, hc⟩
  · refine ⟨_, _, rfl, ?_⟩
    have hcontains : ev.contains (.dict r) a m = .ok ((m.heap.dict r).contains k) m := by
      rw [Evaluator.contains, Run.key, hk]
      rfl
    rw [hcontains]
    refine congrArg (EStateM.Result.ok · m) (Bool.eq_iff_iff.2 ?_)
    rw [Key.any_equals_iff (Key.standAll_toValues _ _) hak hc, OrderedMap.mem_keys_iff]
    exact Option.isSome_iff_exists
  · obtain rfl := (Key.equals_iff hak hbl hc).1 he
    let h := m.heap.setDict r ((m.heap.dict r).insert k v)
    have hset : ev.setItem (.dict r) a v m = .ok () { m with heap := h } := by
      rw [setItem, Run.key, hk]
      rfl
    have hentry : (h.dict r).get? k = some v := by
      rw [show h.dict r = (m.heap.dict r).insert k v from Cells.get_set_self ..]
      exact OrderedMap.get?_insert_self _ (beq_self_eq_true k) v
    refine ⟨{ m with heap := h }, (Run.bind_of_ok hset).trans ?_⟩
    rw [getItem, Run.key, hl]
    rw [pure_bind, Run.heap_bind]
    simp only [hentry]
    rfl

/-- `(True, (1, 'x'))` in a dict, twice made. -/
theorem key_eq_iff_equals_nested :
    let a : Value := .tuple 0 [.bool true, .tuple 1 [.int 1, .str "x"]]
    let b : Value := .tuple 2 [.bool true, .tuple 3 [.int 1, .str "x"]]
    (default : Machine).heap.equals a b = true ∧
    ∃ m', (do (ofDepth .none 0).setItem (.dict ⟨0⟩) a .none
              (ofDepth .none 0).getItem (.dict ⟨0⟩) b) default = .ok .none m' := by
  intro a b
  have hfree (i j : Nat) : (default : Machine).heap.FloatFree
      (.tuple i [.bool true, .tuple j [.int 1, .str "x"]]) := by
    refine .tuple (forall_mem_cons.2 ⟨.of_held_nil nofun rfl, ?_⟩)
    refine forall_mem_singleton.2 (.tuple (forall_mem_cons.2 ⟨?_, ?_⟩))
    · exact .of_held_nil nofun rfl
    · exact forall_mem_singleton.2 (.of_held_nil nofun rfl)
  have h := key_eq_iff_equals (ofDepth .none 0) (hfree 0 1) (hfree 2 3) rfl rfl
  exact ⟨(h.1.1 rfl).1, h.2.2 rfl (h.1.1 rfl).2 ⟨0⟩ .none⟩

/-- `True` equals `1`, but what is stored under one is not found under the other. -/
theorem bool_key_ne_int_key : (default : Heap).equals (.bool true) (.int 1) = true ∧
    Key.ofValue (.bool true) = .ok (.bool true) ∧ Key.ofValue (.int 1) = .ok (.int 1) ∧
    (Key.bool true == Key.int 1) = false :=
  ⟨rfl, rfl, rfl, rfl⟩

end Evaluator

end BlockScript
