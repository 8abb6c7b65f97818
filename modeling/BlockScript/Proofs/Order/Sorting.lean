import Mathlib.Data.List.Induction
import Mathlib.Data.List.Sort
import BlockScript.Proofs.Order.Later

/-! Sorting by keys is stable, and the least and the greatest item are what it puts first. Sorting
keeps a list in falling order, into which items go one after the other; the item at its end is the
one that a search for the least holds at that moment. -/

namespace BlockScript

open List

/-! ## Insertion -/

section Insertion

variable {α : Type}

/-- Put an item before the first one that it is not below. -/
def place (below : α → α → Bool) (a : α) (l : List α) : List α :=
  l.orderedInsert (fun a b => below a b = false) a

def fall (below : α → α → Bool) (items : List α) : List α :=
  items.foldl (fun l a => place below a l) []

/-- On the items in `P`, `below` is a strict order in which those that `Comparable` relates are on
one side of each other or level. -/
structure Ranks (P : α → Prop) (Comparable : α → α → Prop) (below : α → α → Bool) : Prop where
  asymm {a b : α} : P a → P b → below a b = true → below b a = false
  left {a b c : α} : P a → P b → P c → Comparable a b → below a c = true → below a b = false →
    below b c = true
  right {a b c : α} : P a → P b → P c → Comparable b c → below a c = true → below b c = false →
    below a b = true

variable {below : α → α → Bool} {P : α → Prop} {Comparable : α → α → Prop} {a z : α}
  {l items : List α} {p : α → Bool} {less : α → α → Except RuntimeError Bool}

theorem place_cons (a b : α) (l : List α) : place below a (b :: l) =
    if below a b = false then a :: b :: l else b :: place below a l := rfl

theorem perm_place (a : α) (l : List α) : (place below a l).Perm (a :: l) :=
  perm_orderedInsert _ a l

theorem fall_snoc (items : List α) (a : α) :
    fall below (items ++ [a]) = place below a (fall below items) :=
  foldl_concat ..

theorem perm_fall (items : List α) : (fall below items).Perm items := by
  induction items using reverseRecOn with
  | nil => exact .refl _
  | append_singleton items a ih =>
    rw [fall_snoc]
    exact ((perm_place a _).trans (ih.cons a)).trans (perm_append_singleton a items).symm

theorem filter_place (hp : ∀ b ∈ l, p a = true → p b = true → below a b = false) :
    (place below a l).filter p = (a :: l).filter p := by
  induction l with
  | nil => rfl
  | cons b l ih =>
    rw [forall_mem_cons] at hp
    rw [place_cons]
    split
    · rfl
    · next hab =>
      rw [filter_cons, ih hp.2]
      cases ha : p a <;> cases hb : p b <;> simp_all

theorem place_of_below (h : ∀ b ∈ l, below a b = true) : place below a l = l ++ [a] := by
  induction l with
  | nil => rfl
  | cons b l ih =>
    rw [forall_mem_cons] at h
    rw [place_cons, h.1, if_neg Bool.noConfusion, ih h.2, cons_append]

theorem getLast?_place_of_not_below (h : below a z = false) :
    (place below a (l ++ [z])).getLast? = some z := by
  induction l with
  | nil => rw [nil_append, place_cons, if_pos h]; rfl
  | cons b l ih =>
    rw [cons_append, place_cons]
    split
    · exact getLast?_concat (l := a :: b :: l)
    · rw [getLast?_cons, ih]; rfl

section

variable (hr : Ranks P Comparable below)
include hr

theorem pairwise_place (ha : P a) (hl : ∀ b ∈ l, P b) (hc : ∀ b ∈ l, Comparable a b)
    (h : l.Pairwise fun b c => below b c = false) :
    (place below a l).Pairwise fun b c => below b c = false := by
  induction h with
  | nil => exact pairwise_singleton ..
  | @cons b l hb h ih =>
    rw [forall_mem_cons] at hl hc
    rw [place_cons]
    split
    · next hab =>
      refine .cons (forall_mem_cons.2 ⟨hab, fun c hmem => ?_⟩) (.cons hb h)
      refine Bool.eq_false_iff.2 fun hac => Bool.eq_false_iff.1 (hb c hmem) ?_
      exact hr.left ha hl.1 (hl.2 c hmem) hc.1 hac hab
    · next hab =>
      refine .cons (fun c hmem => ?_) (ih hl.2 hc.2)
      rcases mem_cons.1 ((perm_place a l).mem_iff.1 hmem) with rfl | hmem
      · exact hr.asymm ha hl.1 (Bool.not_eq_false _ ▸ hab)
      · exact hb c hmem

/-- At the end stands the new item if it is below the one that stood there. -/
theorem getLast?_place (ha : P a) (hl : ∀ b ∈ l ++ [z], P b) (hc : (l ++ [z]).Pairwise Comparable)
    (h : (l ++ [z]).Pairwise fun b c => below b c = false) :
    (place below a (l ++ [z])).getLast? = some (if below a z then a else z) := by
  rw [pairwise_append] at hc h
  split
  · next haz =>
    have hbelow : ∀ b ∈ l ++ [z], below a b = true := by
      intro b hmem
      rcases mem_append.1 hmem with hb | hb
      · have hz : P z := hl z (mem_append_right _ mem_cons_self)
        have hbz := h.2.2 b hb z mem_cons_self
        exact hr.right ha (hl b hmem) hz (hc.2.2 b hb z mem_cons_self) haz hbz
      · rwa [mem_singleton.1 hb]
    rw [place_of_below hbelow, getLast?_concat]
  · next haz => exact getLast?_place_of_not_below (Bool.eq_false_iff.2 haz)

theorem pairwise_fall (hsymm : ∀ {a b}, Comparable a b → Comparable b a) (hP : ∀ a ∈ items, P a)
    (hc : items.Pairwise Comparable) : (fall below items).Pairwise fun b c =>
    below b c = false := by
  induction items using reverseRecOn with
  | nil => exact .nil
  | append_singleton items a ih =>
    rw [fall_snoc]
    rw [forall_mem_append, forall_mem_singleton] at hP
    rw [pairwise_append] at hc
    have hmem {b : α} (hb : b ∈ fall below items) : b ∈ items := (perm_fall items).mem_iff.1 hb
    exact pairwise_place hr hP.2 (fun b hb => hP.1 b (hmem hb))
      (fun b hb => hsymm (hc.2.2 b (hmem hb) a mem_cons_self)) (ih hP.1 hc.1)

end

theorem filter_fall (hp : ∀ a ∈ items, ∀ b ∈ items, p a = true → p b = true → below a b = false) :
    (fall below items).filter p = (items.filter p).reverse := by
  induction items using reverseRecOn with
  | nil => rfl
  | append_singleton items a ih =>
    rw [fall_snoc, filter_place fun b hb => hp a (mem_append_right _ mem_cons_self) b
        (mem_append_left _ ((perm_fall items).mem_iff.1 hb)), filter_append,
      reverse_append, filter_cons,
      ih fun a ha b hb => hp a (mem_append_left _ ha) b (mem_append_left _ hb)]
    cases ha : p a <;> simp [ha]

theorem insertBy_eq_place (h : ∀ b ∈ l, less a b = .ok (below a b)) :
    insertBy less a l = .ok (place below a l) := by
  induction l with
  | nil => rfl
  | cons b l ih =>
    rw [forall_mem_cons] at h
    rw [insertBy, h.1, place_cons, ih h.2]
    cases below a b <;> rfl

variable (below) in
theorem sortBy_eq_fall (h : items.Pairwise fun a b => less b a = .ok (below b a)) :
    sortBy less items = .ok (fall below items).reverse := by
  have hfold : items.foldlM (fun sorted a => insertBy less a sorted) [] =
      .ok (fall below items) := by
    induction items using reverseRecOn with
    | nil => rfl
    | append_singleton items a ih =>
      rw [pairwise_append] at h
      rw [foldlM_append, ih h.1, fall_snoc]
      have hplace := insertBy_eq_place (l := fall below items) fun b hb =>
        h.2.2 b ((perm_fall items).mem_iff.1 hb) a mem_cons_self
      change (insertBy less a (fall below items) >>= pure) = _
      rw [hplace]
      rfl
  rw [sortBy, hfold]
  rfl

end Insertion

/-! ## Keys -/

variable {side : Ordering}

namespace Heap

variable {h h' : Heap} {entries : List (Value × Value)}

def isBeside (h : Heap) (side : Ordering) (a b : Value × Value) : Bool :=
  match h.order a.1 b.1 with
  | .ok o => o == some side
  | .error _ => false

/-- Two keys are in an order, whichever is first. -/
def Comparable (h : Heap) (a b : Value × Value) : Prop :=
  (∃ o, h.order a.1 b.1 = .ok o) ∧ ∃ o, h.order b.1 a.1 = .ok o

theorem Comparable.symm {a b : Value × Value} (hab : h.Comparable a b) : h.Comparable b a :=
  ⟨hab.2, hab.1⟩

theorem isBeside_iff {a b : Value × Value} :
    h.isBeside side a b = true ↔ h.order a.1 b.1 = .ok (some side) := by
  unfold isBeside
  cases h.order a.1 b.1 <;> simp

theorem ranks_lt (h : Heap) : Ranks (fun e => h.FloatFree e.1) h.Comparable (h.isBeside .lt) where
  asymm {a b} ha hb hab := by
    rw [isBeside_iff] at hab
    rw [← Bool.not_eq_true, isBeside_iff, h.lawful.swap ha hb hab]
    nofun
  left {a b c} ha hb hc hcomp hac hab := by
    rw [isBeside_iff] at hac ⊢
    rw [← Bool.not_eq_true, isBeside_iff] at hab
    obtain ⟨⟨r, ho⟩, -⟩ := hcomp
    obtain ⟨o, rfl, heq⟩ := h.lawful.decides ha hb ho
    cases o with
    | lt => exact absurd ho hab
    | eq => exact h.lawful.congr ha hb hc (heq.1 rfl) hac
    | gt => exact h.lawful.lt_trans hb ha hc (h.lawful.swap ha hb ho) hac
  right {a b c} ha hb hc hcomp hac hbc := by
    rw [isBeside_iff] at hac ⊢
    rw [← Bool.not_eq_true, isBeside_iff] at hbc
    obtain ⟨⟨r, ho⟩, -⟩ := hcomp
    obtain ⟨o, rfl, heq⟩ := h.lawful.decides hb hc ho
    cases o with
    | lt => exact absurd ho hbc
    | eq => exact h.lawful.congr_right ha hc hb (h.lawful.symm hb hc (heq.1 rfl)) hac
    | gt => exact h.lawful.lt_trans ha hc hb hac (h.lawful.swap hb hc ho)

theorem isBeside_gt {a b : Value × Value} (ha : h.FloatFree a.1) (hb : h.FloatFree b.1) :
    h.isBeside .gt a b = h.isBeside .lt b a := by
  rw [Bool.eq_iff_iff, isBeside_iff, isBeside_iff]
  exact ⟨h.lawful.swap ha hb, h.lawful.swap hb ha⟩

theorem ranks_gt (h : Heap) : Ranks (fun e => h.FloatFree e.1) h.Comparable (h.isBeside .gt) where
  asymm ha hb := by
    rw [isBeside_gt ha hb, isBeside_gt hb ha]
    exact h.ranks_lt.asymm hb ha
  left ha hb hc hcomp := by
    rw [isBeside_gt ha hc, isBeside_gt ha hb, isBeside_gt hb hc]
    exact h.ranks_lt.right hc hb ha hcomp.symm
  right ha hb hc hcomp := by
    rw [isBeside_gt ha hc, isBeside_gt hb hc, isBeside_gt ha hb]
    exact h.ranks_lt.left hc hb ha hcomp.symm

theorem ranks (h : Heap) (hside : side ≠ .eq) :
    Ranks (fun e => h.FloatFree e.1) h.Comparable (h.isBeside side) := by
  cases side with
  | lt => exact h.ranks_lt
  | eq => exact absurd rfl hside
  | gt => exact h.ranks_gt

/-- Entries whose keys can be put in order. -/
structure Orderable (h : Heap) (entries : List (Value × Value)) : Prop where
  plain : ∀ e ∈ entries, h.Plain e.1
  comparable : entries.Pairwise h.Comparable

theorem Orderable.nil (h : Heap) : h.Orderable [] := ⟨nofun, .nil⟩

theorem Comparable.later {a b : Value × Value} (hab : h.Comparable a b) (hk : h.Keeps h')
    (ha : h.Plain a.1) (hb : h.Plain b.1) : h'.Comparable a b :=
  ⟨hab.1.imp fun _ => hk.order ha hb, hab.2.imp fun _ => hk.order hb ha⟩

theorem Orderable.snoc {e : Value × Value} (ho : h.Orderable entries) (hk : h.Keeps h')
    (he : h'.Plain e.1)
    (hc : ∀ e' ∈ entries, ∃ o, h'.order e.1 e'.1 = .ok o) : h'.Orderable (entries ++ [e]) where
  plain := forall_mem_append.2
    ⟨fun e' hmem => hk.plain (ho.plain e' hmem), forall_mem_singleton.2 he⟩
  comparable := by
    refine pairwise_append.2 ⟨?_, pairwise_singleton .., fun e' hmem _ hlast => ?_⟩
    · exact ho.comparable.imp_of_mem fun ha hb hab => hab.later hk (ho.plain _ ha) (ho.plain _ hb)
    · obtain rfl := mem_singleton.1 hlast
      obtain ⟨r, hr⟩ := hc e' hmem
      exact ⟨⟨_, h'.lawful.swap he.floatFree (hk.plain (ho.plain e' hmem)).floatFree hr⟩, r, hr⟩

theorem Orderable.left {more : List (Value × Value)} (ho : h.Orderable (entries ++ more)) :
    h.Orderable entries :=
  ⟨(forall_mem_append.1 ho.plain).1, (pairwise_append.1 ho.comparable).1⟩

/-- Placing entries in falling order keeps them orderable, and puts none below a later one. -/
theorem Orderable.fallen (ho : h.Orderable entries) (hside : side ≠ .eq) :
    h.Orderable (fall (h.isBeside side) entries) ∧
      (fall (h.isBeside side) entries).Pairwise fun a b => h.isBeside side a b = false :=
  ⟨⟨fun e he => ho.plain e ((perm_fall entries).mem_iff.1 he),
    ((perm_fall entries).pairwise_iff Comparable.symm).2 ho.comparable⟩,
    pairwise_fall (h.ranks hside) Comparable.symm (fun e he => (ho.plain e he).floatFree)
      ho.comparable⟩

/-- The entries in order of their keys, the given side first: the order of two never is the other
way around, and entries of equal keys keep their order. -/
structure Sorts (h : Heap) (side : Ordering) (entries result : List (Value × Value)) : Prop where
  perm : result.Perm entries
  ordered : result.Pairwise fun a b => ∃ o, h.order a.1 b.1 = .ok (some o) ∧ o ≠ side.swap
  stable : ∀ e ∈ entries, result.filter (h.equals e.1 ·.1) = entries.filter (h.equals e.1 ·.1)

theorem Orderable.sorts (ho : h.Orderable entries) (hside : side ≠ .eq) :
    h.Sorts side entries (fall (h.isBeside side) entries).reverse where
  perm := (reverse_perm _).trans (perm_fall _)
  ordered := by
    obtain ⟨hfall, hfalling⟩ := ho.fallen hside
    rw [pairwise_reverse]
    refine (hfalling.and hfall.comparable).imp_of_mem fun {b a} hb ha hpair => ?_
    obtain ⟨hbeside, -, r, hr⟩ := hpair
    have ha := (hfall.plain a ha).floatFree
    have hb := (hfall.plain b hb).floatFree
    obtain ⟨o, rfl, -⟩ := h.lawful.decides ha hb hr
    refine ⟨o, hr, ?_⟩
    rintro rfl
    have hswap := h.lawful.swap ha hb hr
    rw [Option.map_some, Ordering.swap_swap] at hswap
    rw [isBeside_iff.2 hswap] at hbeside
    cases hbeside
  stable e he := by
    rw [filter_reverse, filter_fall, reverse_reverse]
    intro a ha b hb hea heb
    have hfree : ∀ e ∈ entries, h.FloatFree e.1 := fun e he => (ho.plain e he).floatFree
    have hae := h.lawful.symm (hfree e he) (hfree a ha) hea
    have hab := h.lawful.trans (hfree a ha) (hfree e he) (hfree b hb) hae heb
    refine Bool.eq_false_iff.2 fun hbeside => ?_
    obtain ⟨o, ⟨⟩, heq⟩ := h.lawful.decides (hfree a ha) (hfree b hb) (isBeside_iff.1 hbeside)
    exact hside (heq.2 hab)

end Heap

namespace Evaluator

variable {ev : Evaluator} {key : Value}

/-- The keys of items are computed one after the other, after those of `done`: each call returns a
key without floats that can be put in order with the keys before it, and writes to no cell. -/
inductive Keyed (ev : Evaluator) (key : Value) :
    List (Value × Value) → Machine → List Value → List (Value × Value) → Machine → Prop
  | nil {done : List (Value × Value)} {m : Machine} : Keyed ev key done m [] [] m
  | cons {done rest : List (Value × Value)} {m m' m'' : Machine} {item k : Value}
      {items : List Value} :
      ev.keyOf key item m = .ok k m' → m.heap.Keeps m'.heap → m'.heap.Plain k →
      (∀ e ∈ done, ∃ o, m'.heap.order k e.1 = .ok o) →
      Keyed ev key (done ++ [(k, item)]) m' items rest m'' →
      Keyed ev key done m (item :: items) ((k, item) :: rest) m''

variable {done rest : List (Value × Value)} {m m' : Machine} {items : List Value}

theorem Keyed.keeps (h : Keyed ev key done m items rest m') : m.heap.Keeps m'.heap := by
  induction h with
  | nil => exact .refl _
  | cons _ hk _ _ _ ih => exact hk.trans ih

theorem Keyed.orderable (h : Keyed ev key done m items rest m') (ho : m.heap.Orderable done) :
    m'.heap.Orderable (done ++ rest) := by
  induction h with
  | nil => rwa [append_nil]
  | cons _ hk hplain hc _ ih =>
    rw [append_cons]
    exact ih (ho.snoc hk hplain hc)

theorem Keyed.mapM (h : Keyed ev key done m items rest m') :
    (items.mapM fun item => return (← ev.keyOf key item, item)) m = .ok rest m' := by
  induction h with
  | nil => rfl
  | @cons _ _ _ _ _ item _ _ hkey _ _ _ _ ih =>
    rw [mapM_cons]
    have hentry := Run.bind_of_ok (f := fun k => pure (k, item)) hkey
    exact (Run.bind_of_ok hentry).trans (Run.bind_of_ok ih)

theorem Keyed.extremumFrom (hside : side ≠ .eq) (h : Keyed ev key done m items rest m')
    (ho : m.heap.Orderable done) :
    ev.extremumFrom key side (fall (m'.heap.isBeside side) done).getLast? items m =
      .ok ((fall (m'.heap.isBeside side) (done ++ rest)).getLast?.map (·.2)) m' := by
  induction h with
  | nil => rw [append_nil]; rfl
  | @cons done rest m m1 m' item k items hkey hk hplain hc hrest ih =>
    have ho1 := ho.snoc (e := (k, item)) hk hplain hc
    rw [append_cons, ← ih ho1, fall_snoc]
    have hdone : m'.heap.Orderable done := (hrest.orderable ho1).left.left
    obtain ⟨hfall, hfalling⟩ := hdone.fallen hside
    rcases eq_nil_or_concat (fall (m'.heap.isBeside side) done) with hnil | ⟨l, z, hl⟩
    · rw [hnil]
      exact Run.bind_of_ok hkey
    · rw [concat_eq_append] at hl
      have hz : z ∈ done :=
        (perm_fall done).mem_iff.1 (hl ▸ mem_append_right _ mem_cons_self)
      -- The keys are compared in the heap of the moment, in which they are in the order they stay
      -- in.
      have hless : isOrdering (m1.heap.order k z.1) side =
          .ok (m'.heap.isBeside side (k, item) z) := by
        obtain ⟨o, hfound⟩ := hc z hz
        have hstays := hrest.keeps.order hplain (hk.plain (ho.plain z hz)) hfound
        rw [Heap.isBeside, hfound, hstays]
        rfl
      rw [hl] at hfall hfalling ⊢
      rw [getLast?_place (m'.heap.ranks hside) (hrest.keeps.plain hplain).floatFree
        (fun e he => (hfall.plain e he).floatFree) hfall.comparable hfalling, getLast?_concat]
      refine (Run.bind_of_ok hkey).trans ?_
      change (Run.ofExcept (isOrdering (m1.heap.order k z.1) side) >>= _) m1 = _
      rw [hless]
      cases m'.heap.isBeside side (k, item) z <;> rfl

theorem Keyed.sorted (h : Keyed ev key [] m items rest m') {reverse : Bool}
    (hside : side = if reverse then .gt else .lt) : ev.sorted items key reverse m =
      .ok ((fall (m'.heap.isBeside side) rest).reverse.map (·.2)) m' := by
  have ho : m'.heap.Orderable rest := h.orderable (.nil _)
  have hsort : m'.heap.sortKeyed reverse rest =
      .ok ((fall (m'.heap.isBeside side) rest).reverse.map (·.2)) := by
    rw [Heap.sortKeyed, ← hside, sortBy_eq_fall (m'.heap.isBeside side)]
    · rfl
    · refine ho.comparable.imp fun {a b} hab => ?_
      obtain ⟨-, o, hfound⟩ := hab
      rw [Heap.isBeside, hfound]
      rfl
  refine (Run.bind_of_ok h.mapM).trans ?_
  change Run.ofExcept (m'.heap.sortKeyed reverse rest) m' = _
  rw [hsort]
  rfl

theorem Keyed.map_snd (h : Keyed ev key done m items rest m') : rest.map (·.2) = items := by
  induction h with
  | nil => rfl
  | cons _ _ _ _ _ ih => exact congrArg _ ih

/-- The search gives the item that sorting puts first. -/
theorem Keyed.first (h : Keyed ev key [] m items rest m') (hne : items ≠ []) (hside : side ≠ .eq) :
    ∃ first, (fall (m'.heap.isBeside side) rest).reverse.head? = some first ∧
      ev.extremumFrom key side none items m = .ok (some first.2) m' := by
  have hrest : (fall (m'.heap.isBeside side) rest).reverse ≠ [] := by
    intro hnil
    have hperm : (fall (m'.heap.isBeside side) rest).Perm rest := perm_fall rest
    rw [reverse_eq_nil_iff.1 hnil, nil_perm] at hperm
    exact hne (h.map_snd.symm.trans (congrArg _ hperm))
  obtain ⟨first, hfirst⟩ := Option.ne_none_iff_exists'.1 (mt head?_eq_none_iff.1 hrest)
  refine ⟨first, hfirst, (h.extremumFrom hside (.nil _)).trans ?_⟩
  rw [nil_append, ← head?_reverse, hfirst]
  rfl

/-- The keyword arguments for a key function, `None` for no function. -/
def byKey (key : Value) : List (String × Value) := if key.isNone then [] else [("key", key)]

theorem byKey_cases (key : Value) : key = .none ∧ byKey key = [] ∨ byKey key = [("key", key)] := by
  cases key
  case none => exact .inl ⟨rfl, rfl⟩
  all_goals exact .inr rfl

section

variable {host : Host} {n : Nat} {r : ListRef} {vs : List Value}

theorem callNative_sorted (reverse : Bool)
    (hs : (ofDepth host (n + 1)).sorted (m.heap.list r) key reverse m = .ok vs m') :
    (ofDepth host (n + 1)).callNative .sorted ⟨[.list r],
      if reverse then byKey key ++ [("reverse", .bool true)] else byKey key⟩ m =
        Run.newList vs m' := by
  cases reverse <;> rcases byKey_cases key with ⟨rfl, hby⟩ | hby <;> rw [hby] <;>
    exact Run.bind_of_ok hs

theorem callNative_extremum {fn : Native} {v : Value}
    (hfn : fn = .min ∧ side = .lt ∨ fn = .max ∧ side = .gt)
    (hs : (ofDepth host (n + 1)).extremumFrom key side none (m.heap.list r) m = .ok (some v) m') :
    (ofDepth host (n + 1)).callNative fn ⟨[.list r], byKey key⟩ m = .ok v m' := by
  rcases hfn with ⟨rfl, rfl⟩ | ⟨rfl, rfl⟩ <;> rcases byKey_cases key with ⟨rfl, hby⟩ | hby <;>
    rw [hby] <;> exact Run.bind_of_ok hs

end

/-- `sorted` puts the items of a list in rising order of their keys and with `reverse` in falling
order, and keeps the order of items of equal keys. `min` and `max` give the item that comes
first. -/
theorem extrema_sorted_first {host : Host} {n : Nat} {key : Value} {m m' : Machine} {r : ListRef}
    {keyed : List (Value × Value)} (hne : m.heap.list r ≠ [])
    (h : Keyed (ofDepth host (n + 1)) key [] m (m.heap.list r) keyed m') :
    keyed.map (·.2) = m.heap.list r ∧
    ∃ rising falling, m'.heap.Sorts .lt keyed rising ∧ m'.heap.Sorts .gt keyed falling ∧
      (ofDepth host (n + 1)).callNative .sorted ⟨[.list r], byKey key⟩ m =
        Run.newList (rising.map (·.2)) m' ∧
      (ofDepth host (n + 1)).callNative .sorted ⟨[.list r], byKey key ++ [("reverse", .bool true)]⟩
        m = Run.newList (falling.map (·.2)) m' ∧
      (∃ first, rising.head? = some first ∧
        (ofDepth host (n + 1)).callNative .min ⟨[.list r], byKey key⟩ m = .ok first.2 m') ∧
      ∃ first, falling.head? = some first ∧
        (ofDepth host (n + 1)).callNative .max ⟨[.list r], byKey key⟩ m = .ok first.2 m' := by
  have ho : m'.heap.Orderable keyed := h.orderable (.nil _)
  obtain ⟨least, hleast, hmin⟩ := h.first hne (nofun : Ordering.lt ≠ .eq)
  obtain ⟨greatest, hgreatest, hmax⟩ := h.first hne (nofun : Ordering.gt ≠ .eq)
  refine ⟨h.map_snd, _, _, ho.sorts nofun, ho.sorts nofun, callNative_sorted false (h.sorted rfl),
    callNative_sorted true (h.sorted rfl), ⟨least, hleast, ?_⟩, greatest, hgreatest, ?_⟩
  · exact callNative_extremum (.inl ⟨rfl, rfl⟩) hmin
  · exact callNative_extremum (.inr ⟨rfl, rfl⟩) hmax

/-- Texts by their length, of which the first and the last have the same. -/
theorem extrema_sorted_first_lengths :
    let ev := ofDepth .none 2
    let m : Machine :=
      { (default : Machine) with
        heap := ((default : Heap).newList [.str "bb", .str "a", .str "cc"]).2 }
    let keyed : List (Value × Value) :=
      [(.int 2, .str "bb"), (.int 1, .str "a"), (.int 2, .str "cc")]
    Keyed ev (.native 0 .len) [] m (m.heap.list ⟨0⟩) keyed m ∧
    ∃ falling first, m.heap.Sorts .gt keyed falling ∧ falling.head? = some first ∧
      ev.callNative .max ⟨[.list ⟨0⟩], [("key", .native 0 .len)]⟩ m = .ok first.2 m := by
  intro ev m keyed
  have hplain (i : Int64) : m.heap.Plain (.int i) := .of_held_nil nofun rfl trivial
  have hkeyed : Keyed ev (.native 0 .len) [] m (m.heap.list ⟨0⟩) keyed m := by
    refine .cons rfl (.refl _) (hplain 2) nofun (.cons rfl (.refl _) (hplain 1) ?_
      (.cons rfl (.refl _) (hplain 2) ?_ .nil))
    · exact forall_mem_singleton.2 ⟨_, rfl⟩
    · exact forall_mem_cons.2 ⟨⟨_, rfl⟩, forall_mem_singleton.2 ⟨_, rfl⟩⟩
  have hne : m.heap.list ⟨0⟩ ≠ [] := cons_ne_nil _ _
  obtain ⟨-, -, falling, -, hsorts, -, -, -, first, hfirst, hmax⟩ := extrema_sorted_first hne hkeyed
  exact ⟨hkeyed, falling, first, hsorts, hfirst, hmax⟩

end Evaluator

end BlockScript
