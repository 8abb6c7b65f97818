import Mathlib.Data.List.Perm.Subperm
import BlockScript.Machine.Equality

/-! Laws of an equality together with an order that may refuse, and how lists compared item by item
and maps compared key by key inherit them from their items. -/

namespace BlockScript

open List

/-- On the values in `P`, equality is symmetric and transitive, and an order that does not refuse
agrees with it, can be turned around and is transitive. -/
structure Lawful {α : Type} (P : α → Prop) (equals : α → α → Bool) (order : α → α → OrderResult) :
    Prop where
  symm {a b : α} : P a → P b → equals a b = true → equals b a = true
  trans {a b c : α} : P a → P b → P c → equals a b = true → equals b c = true → equals a c = true
  congr {a a' b : α} {r : Option Ordering} : P a → P a' → P b → equals a a' = true →
    order a b = .ok r → order a' b = .ok r
  swap {a b : α} {r : Option Ordering} :
    P a → P b → order a b = .ok r → order b a = .ok (r.map Ordering.swap)
  decides {a b : α} {r : Option Ordering} : P a → P b → order a b = .ok r →
    ∃ o, r = some o ∧ (o = .eq ↔ equals a b = true)
  lt_trans {a b c : α} : P a → P b → P c → order a b = .ok (some .lt) → order b c = .ok (some .lt) →
    order a c = .ok (some .lt)

namespace Lawful

variable {α : Type} {P : α → Prop} {equals : α → α → Bool} {order : α → α → OrderResult}
  {a a' b b' c : α} {r : Option Ordering}

theorem mono {Q : α → Prop} (L : Lawful P equals order) (h : ∀ a, Q a → P a) :
    Lawful Q equals order where
  symm ha hb := L.symm (h _ ha) (h _ hb)
  trans ha hb hc := L.trans (h _ ha) (h _ hb) (h _ hc)
  congr ha ha' hb := L.congr (h _ ha) (h _ ha') (h _ hb)
  swap ha hb := L.swap (h _ ha) (h _ hb)
  decides ha hb := L.decides (h _ ha) (h _ hb)
  lt_trans ha hb hc := L.lt_trans (h _ ha) (h _ hb) (h _ hc)

variable (L : Lawful P equals order)
include L

theorem congr_right (ha : P a) (hb : P b) (hb' : P b') (he : equals b b' = true)
    (h : order a b = .ok r) : order a b' = .ok r := by
  have hswap := L.swap hb' ha (L.congr hb hb' ha he (L.swap ha hb h))
  cases r with
  | none => exact hswap
  | some o => rwa [Option.map_some, Option.map_some, Ordering.swap_swap] at hswap

theorem equals_congr (ha : P a) (ha' : P a') (hb : P b) (he : equals a a' = true) :
    equals a b = equals a' b :=
  Bool.eq_iff_iff.2 ⟨L.trans ha' ha hb (L.symm ha ha' he), L.trans ha ha' hb he⟩

theorem equals_comm (ha : P a) (hb : P b) : equals a b = equals b a :=
  Bool.eq_iff_iff.2 ⟨L.symm ha hb, L.symm hb ha⟩

theorem not_equals_of_lt (ha : P a) (hb : P b) (h : order a b = .ok (some .lt)) :
    equals a b = false := by
  obtain ⟨o, ho, heq⟩ := L.decides ha hb h
  cases ho
  exact Bool.eq_false_iff.2 fun he => nomatch heq.2 he

end Lawful

section Lists

variable {P : Value → Prop} {equals : Value → Value → Bool} {order : Value → Value → OrderResult}
  {as as' bs cs : List Value} {r : Option Ordering}

/-- The order of two lists after one more item on each side. -/
theorem orderLists_cons (a b : Value) : orderLists equals order (a :: as) (b :: bs) =
    if equals a b then orderLists equals order as bs else order a b := rfl

theorem listsMatch_cons (a b : Value) : listsMatch equals (a :: as) (b :: bs) = true ↔
    equals a b = true ∧ listsMatch equals as bs = true := by
  rw [listsMatch, Bool.and_eq_true]

variable (L : Lawful P equals order)
include L

theorem listsMatch_symm (ha : ∀ a ∈ as, P a) (hb : ∀ b ∈ bs, P b)
    (h : listsMatch equals as bs = true) : listsMatch equals bs as = true := by
  induction as generalizing bs with
  | nil => cases bs with
    | nil => rfl
    | cons => cases h
  | cons a as ih => cases bs with
    | nil => cases h
    | cons b bs =>
      rw [forall_mem_cons] at ha hb
      rw [listsMatch_cons] at h ⊢
      exact ⟨L.symm ha.1 hb.1 h.1, ih ha.2 hb.2 h.2⟩

theorem listsMatch_trans (ha : ∀ a ∈ as, P a) (hb : ∀ b ∈ bs, P b) (hc : ∀ c ∈ cs, P c)
    (hab : listsMatch equals as bs = true) (hbc : listsMatch equals bs cs = true) :
    listsMatch equals as cs = true := by
  induction as generalizing bs cs with
  | nil => cases bs with
    | nil => exact hbc
    | cons => cases hab
  | cons a as ih => cases bs with
    | nil => cases hab
    | cons b bs => cases cs with
      | nil => cases hbc
      | cons c cs =>
        rw [forall_mem_cons] at ha hb hc
        rw [listsMatch_cons] at hab hbc ⊢
        exact ⟨L.trans ha.1 hb.1 hc.1 hab.1 hbc.1, ih ha.2 hb.2 hc.2 hab.2 hbc.2⟩

theorem orderLists_congr (ha : ∀ a ∈ as, P a) (ha' : ∀ a ∈ as', P a) (hb : ∀ b ∈ bs, P b)
    (he : listsMatch equals as as' = true) (h : orderLists equals order as bs = .ok r) :
    orderLists equals order as' bs = .ok r := by
  induction as generalizing as' bs with
  | nil => cases as' with
    | nil => exact h
    | cons => cases he
  | cons a as ih => cases as' with
    | nil => cases he
    | cons a' as' => cases bs with
      | nil => exact h
      | cons b bs =>
        rw [forall_mem_cons] at ha ha' hb
        rw [listsMatch_cons] at he
        rw [orderLists_cons, L.equals_congr ha.1 ha'.1 hb.1 he.1] at h
        rw [orderLists_cons]
        split
        · next hab =>
          rw [if_pos hab] at h
          exact ih ha.2 ha'.2 hb.2 he.2 h
        · next hab =>
          rw [if_neg hab] at h
          exact L.congr ha.1 ha'.1 hb.1 he.1 h

theorem orderLists_swap (ha : ∀ a ∈ as, P a) (hb : ∀ b ∈ bs, P b)
    (h : orderLists equals order as bs = .ok r) :
    orderLists equals order bs as = .ok (r.map Ordering.swap) := by
  induction as generalizing bs with
  | nil => cases bs <;> cases h <;> rfl
  | cons a as ih => cases bs with
    | nil => cases h; rfl
    | cons b bs =>
      rw [forall_mem_cons] at ha hb
      rw [orderLists_cons, L.equals_comm ha.1 hb.1] at h
      rw [orderLists_cons]
      split
      · next hab =>
        rw [if_pos hab] at h
        exact ih ha.2 hb.2 h
      · next hab =>
        rw [if_neg hab] at h
        exact L.swap ha.1 hb.1 h

theorem orderLists_decides (ha : ∀ a ∈ as, P a) (hb : ∀ b ∈ bs, P b)
    (h : orderLists equals order as bs = .ok r) :
    ∃ o, r = some o ∧ (o = .eq ↔ listsMatch equals as bs = true) := by
  induction as generalizing bs with
  | nil => cases bs <;> cases h <;> exact ⟨_, rfl, by simp [listsMatch]⟩
  | cons a as ih => cases bs with
    | nil => cases h; exact ⟨_, rfl, by simp [listsMatch]⟩
    | cons b bs =>
      rw [forall_mem_cons] at ha hb
      rw [orderLists_cons] at h
      simp only [listsMatch_cons]
      split at h
      · next hab =>
        obtain ⟨o, ho, heq⟩ := ih ha.2 hb.2 h
        exact ⟨o, ho, heq.trans (and_iff_right hab).symm⟩
      · next hab =>
        obtain ⟨o, ho, heq⟩ := L.decides ha.1 hb.1 h
        exact ⟨o, ho, heq.trans ⟨fun he => absurd he hab, And.left⟩⟩

theorem orderLists_lt_trans (ha : ∀ a ∈ as, P a) (hb : ∀ b ∈ bs, P b) (hc : ∀ c ∈ cs, P c)
    (hab : orderLists equals order as bs = .ok (some .lt))
    (hbc : orderLists equals order bs cs = .ok (some .lt)) :
    orderLists equals order as cs = .ok (some .lt) := by
  induction as generalizing bs cs with
  | nil => cases cs with
    | nil => cases bs <;> cases hbc
    | cons => rfl
  | cons a as ih => cases bs with
    | nil => cases hab
    | cons b bs => cases cs with
      | nil => cases hbc
      | cons c cs =>
        rw [forall_mem_cons] at ha hb hc
        rw [orderLists_cons] at hab hbc ⊢
        -- Unless both pairs of first items are equal, one of the two decides for the outer lists.
        have hdecided (h : order a c = .ok (some .lt)) :
            (if equals a c then orderLists equals order as cs else order a c) = .ok (some .lt) := by
          rw [L.not_equals_of_lt ha.1 hc.1 h, if_neg Bool.false_ne_true, h]
        split at hab
        · next eab =>
          rw [L.equals_congr ha.1 hb.1 hc.1 eab]
          split at hbc
          · next ebc =>
            rw [if_pos ebc]
            exact ih ha.2 hb.2 hc.2 hab hbc
          · next ebc =>
            rw [if_neg ebc]
            exact L.congr hb.1 ha.1 hc.1 (L.symm ha.1 hb.1 eab) hbc
        · split at hbc
          · next ebc => exact hdecided (L.congr_right ha.1 hb.1 hc.1 ebc hab)
          · exact hdecided (L.lt_trans ha.1 hb.1 hc.1 hab hbc)

theorem Lawful.lists : Lawful (fun as => ∀ a ∈ as, P a) (listsMatch equals)
    (orderLists equals order) where
  symm := listsMatch_symm L
  trans := listsMatch_trans L
  congr := orderLists_congr L
  swap := orderLists_swap L
  decides := orderLists_decides L
  lt_trans := orderLists_lt_trans L

end Lists

namespace Key

mutual

theorem beq_iff : ∀ a b : Key, a.beq b = true ↔ a = b
  | .none, b | .bool _, b | .int _, b | .str _, b => by cases b <;> simp [beq]
  | .tuple as, b => by cases b <;> simp [beq, beqAll_iff as]

theorem beqAll_iff : ∀ as bs : List Key, beqAll as bs = true ↔ as = bs
  | [], bs => by cases bs <;> simp [beqAll]
  | a :: as, bs => by cases bs <;> simp [beqAll, beq_iff a, beqAll_iff as]

end

instance : LawfulBEq Key where
  rfl := (beq_iff _ _).2 rfl
  eq_of_beq := (beq_iff _ _).1

end Key

namespace OrderedMap

section

variable {κ α : Type} [BEq κ] [LawfulBEq κ]

theorem nodup_keys (m : OrderedMap κ α) : m.keys.Nodup :=
  pairwise_map.2 <| m.distinct.imp fun h e => by rw [e, beq_self_eq_true] at h; cases h

theorem mem_entries_iff {m : OrderedMap κ α} {k : κ} {a : α} :
    (k, a) ∈ m.entries ↔ m.get? k = some a := by
  refine ⟨fun h => ?_, fun h => ?_⟩
  · obtain ⟨before, after, heq⟩ := append_of_mem h
    have hd := m.distinct
    rw [heq, pairwise_append] at hd
    refine lookup_eq_some_iff.2 ⟨before, after, heq, fun entry hentry => ?_⟩
    rw [bne, hd.2.2 entry hentry (k, a) mem_cons_self]
    rfl
  · obtain ⟨before, after, heq, -⟩ := lookup_eq_some_iff.1 h
    exact heq ▸ mem_append_right _ mem_cons_self

theorem mem_keys_iff {m : OrderedMap κ α} {k : κ} : k ∈ m.keys ↔ ∃ a, m.get? k = some a := by
  simp only [keys, mem_map, Prod.exists, mem_entries_iff]
  exact ⟨fun ⟨_, a, h, heq⟩ => ⟨a, heq ▸ h⟩, fun ⟨a, h⟩ => ⟨k, a, h, rfl⟩⟩

theorem mem_values_of_get? {m : OrderedMap κ α} {k : κ} {a : α} (h : m.get? k = some a) :
    a ∈ m.values :=
  mem_map_of_mem (mem_entries_iff.2 h)

end

variable {κ : Type} [BEq κ] [LawfulBEq κ] {m n p : OrderedMap κ Value}
  {equals : Value → Value → Bool}

theorem matches_iff : m.matches equals n = true ↔
    m.size = n.size ∧ ∀ k a, m.get? k = some a → ∃ b, n.get? k = some b ∧ equals a b = true := by
  simp only [OrderedMap.matches, Bool.and_eq_true, beq_iff_eq, all_eq_true, Prod.forall,
    mem_entries_iff, Option.any_eq_true]

variable {P : Value → Prop} {order : Value → Value → OrderResult} (L : Lawful P equals order)
include L

/-- As many distinct keys, all among those of the other map, are all of its keys. -/
theorem matches_symm (hm : ∀ a ∈ m.values, P a) (hn : ∀ b ∈ n.values, P b)
    (h : m.matches equals n = true) : n.matches equals m = true := by
  obtain ⟨hsize, hentries⟩ := matches_iff.1 h
  have hsub : m.keys ⊆ n.keys := fun k hk => by
    obtain ⟨a, ha⟩ := mem_keys_iff.1 hk
    obtain ⟨b, hb, -⟩ := hentries k a ha
    exact mem_keys_iff.2 ⟨b, hb⟩
  have hlength : n.keys.length ≤ m.keys.length := by
    simp only [keys, length_map]
    exact Nat.le_of_eq hsize.symm
  have hperm := (subperm_of_subset m.nodup_keys hsub).perm_of_length_le hlength
  refine matches_iff.2 ⟨hsize.symm, fun k b hb => ?_⟩
  obtain ⟨a, ha⟩ := mem_keys_iff.1 (hperm.mem_iff.2 (mem_keys_iff.2 ⟨b, hb⟩))
  obtain ⟨b', hb', he⟩ := hentries k a ha
  obtain rfl : b' = b := Option.some.inj (hb'.symm.trans hb)
  exact ⟨a, ha, L.symm (hm a (mem_values_of_get? ha)) (hn b' (mem_values_of_get? hb)) he⟩

theorem matches_trans (hm : ∀ a ∈ m.values, P a) (hn : ∀ b ∈ n.values, P b)
    (hp : ∀ c ∈ p.values, P c) (hmn : m.matches equals n = true)
    (hnp : n.matches equals p = true) : m.matches equals p = true := by
  obtain ⟨hsize, hentries⟩ := matches_iff.1 hmn
  obtain ⟨hsize', hentries'⟩ := matches_iff.1 hnp
  refine matches_iff.2 ⟨hsize.trans hsize', fun k a ha => ?_⟩
  obtain ⟨b, hb, hab⟩ := hentries k a ha
  obtain ⟨c, hc, hbc⟩ := hentries' k b hb
  exact ⟨c, hc, L.trans (hm a (mem_values_of_get? ha)) (hn b (mem_values_of_get? hb))
    (hp c (mem_values_of_get? hc)) hab hbc⟩

end OrderedMap

end BlockScript
