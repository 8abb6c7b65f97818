import BlockScript.Eval.Stmt
import BlockScript.Proofs.Names.Heap
import Mathlib.Algebra.Group.Int.Defs
import Mathlib.Algebra.Group.Nat.Defs
import Mathlib.Data.List.Basic

/-! Slices. A slice goes in steps from its first place and ends before its stop; all its places are
in the sequence, so that each gives an item. -/

namespace BlockScript.Sequence

/-! ## What a slice selects -/

/-- Whether a place comes before the stop, in the direction of the step. -/
def Precedes (step i stop : Int) : Prop := if 0 < step then i < stop else stop < i

/-- A bound of a slice as a place of the sequence or its edge: it counts from the end if it is
negative, and one that lies outside is moved to the edge, which for a step backwards is one place
further left. -/
def edge (length : Nat) (step i : Int) : Int :=
  let i := if i < 0 then i + length else i
  if 0 < step then max 0 (min length i) else max (-1) (min (length - 1) i)

/-- Where a slice starts. -/
def first (length : Nat) (lower : Option Int64) (step : Int) : Int :=
  lower.elim (if 0 < step then 0 else length - 1) fun i => edge length step i.toInt

/-- Where it stops. -/
def last (length : Nat) (upper : Option Int64) (step : Int) : Int :=
  upper.elim (if 0 < step then length else -1) fun i => edge length step i.toInt

/-- The `k`-th place of a slice. -/
def IsPlace (length : Nat) (lower upper : Option Int64) (step : Int) (k i : Nat) : Prop :=
  (i : Int) = first length lower step + k * step ∧ Precedes step i (last length upper step)

/-- The step from a place before the stop leads to a word, for places from `i` on. -/
def Advances (step stop i : Int) : Prop :=
  ∀ k : Nat, Precedes step (i + k * step) stop →
    -2 ^ 63 ≤ i + (k + 1) * step ∧ i + (k + 1) * step < 2 ^ 63

variable {α β : Type} {length : Nat} {lower upper : Option Int64} {i step stop : Int}

/-- The places before the stop are in the sequence. -/
theorem Precedes.isPlace {k : Nat}
    (h : Precedes step (first length lower step + k * step) (last length upper step)) :
    0 ≤ first length lower step + k * step ∧ first length lower step + k * step < length := by
  unfold Precedes at h
  split at h
  · next hs =>
    have hsteps := Int.mul_nonneg (Int.natCast_nonneg k) (Int.le_of_lt hs)
    have hfirst : 0 ≤ first length lower step := by
      cases lower <;> simp only [first, Option.elim, edge, if_pos hs] <;> omega
    have hlast : last length upper step ≤ length := by
      cases upper <;> simp only [last, Option.elim, edge, if_pos hs] <;> omega
    omega
  · next hs =>
    have hsteps := Int.mul_nonneg (Int.natCast_nonneg k) (b := -step) (by omega)
    have hfirst : first length lower step ≤ length - 1 := by
      cases lower <;> simp only [first, Option.elim, edge, if_neg hs] <;> omega
    have hlast : -1 ≤ last length upper step := by
      cases upper <;> simp only [last, Option.elim, edge, if_neg hs] <;> omega
    rw [Int.mul_neg] at hsteps
    omega

/-! ## Words -/

section

variable {a b s : Int64}

theorem toInt_add_of_le (hlow : -2 ^ 63 ≤ a.toInt + b.toInt) (hhigh : a.toInt + b.toInt < 2 ^ 63) :
    (a + b).toInt = a.toInt + b.toInt := by
  rw [Int64.toInt_add]
  exact Int.bmod_eq_of_le hlow hhigh

theorem toInt_lengthWord (hlength : length < 2 ^ 63) : (lengthWord length).toInt = length := by
  have hfits : Number.leastInt ≤ (length : Int) ∧ (length : Int) ≤ Number.greatestInt := by
    simp only [Number.leastInt, Number.greatestInt]
    omega
  rw [lengthWord, Number.word?, if_pos hfits]
  exact Int64.toInt_ofInt_of_le (by omega) (by omega)

theorem toInt_fromEnd (ha : 0 ≤ a.toInt) :
    (fromEnd a b).toInt = if b.toInt < 0 then b.toInt + a.toInt else b.toInt := by
  have hneg : b < 0 ↔ b.toInt < 0 := Int64.lt_iff_toInt_lt
  have hlow := b.le_toInt
  have hhigh := a.toInt_lt
  simp only [fromEnd, hneg]
  split
  · exact toInt_add_of_le (by omega) (by omega)
  · rfl

theorem toInt_clamp (h : a.toInt ≤ b.toInt) :
    (clamp a b s).toInt = max a.toInt (min b.toInt s.toInt) := by
  simp only [clamp, Int64.lt_iff_toInt_lt]
  split
  · omega
  · split <;> omega

theorem pos_iff : 0 < s ↔ 0 < s.toInt := Int64.lt_iff_toInt_lt

theorem toInt_bounds (hlength : length < 2 ^ 63) (lower upper : Option Int64) (s : Int64) :
    (bounds (lengthWord length) lower upper s).1.toInt = first length lower s.toInt ∧
      (bounds (lengthWord length) lower upper s).2.toInt = last length upper s.toInt := by
  have hlen := toInt_lengthWord hlength
  have hpred : (lengthWord length - 1).toInt = length - 1 := by
    rw [Int64.toInt_sub, hlen]
    exact Int.bmod_eq_of_le (by change _ ≤ _ - (1 : Int); omega)
      (by change _ - (1 : Int) < _; omega)
  have hedge (i : Int64) (hs : 0 < s.toInt) :
      (clamp 0 (lengthWord length) (fromEnd (lengthWord length) i)).toInt =
        edge length s.toInt i.toInt := by
    rw [toInt_clamp (by rw [hlen]; exact Int.natCast_nonneg _), toInt_fromEnd (by omega), hlen]
    simp only [edge, if_pos hs]
    rfl
  have hback (i : Int64) (hs : ¬ 0 < s.toInt) :
      (clamp (-1) (lengthWord length - 1) (fromEnd (lengthWord length) i)).toInt =
        edge length s.toInt i.toInt := by
    rw [toInt_clamp (by rw [hpred]; change (-1 : Int) ≤ _; omega),
      toInt_fromEnd (by omega), hlen, hpred]
    simp only [edge, if_neg hs]
    rfl
  unfold bounds first last
  simp only [pos_iff]
  split
  · next hs => cases lower <;> cases upper <;> simp [hs, hlen, hedge]
  · next hs => cases lower <;> cases upper <;> simp [hs, hpred, hback]

theorem isBefore_iff : isBefore s a b = true ↔ Precedes s.toInt a.toInt b.toInt := by
  simp only [isBefore, Precedes, ← pos_iff]
  split <;> simp [Int64.lt_iff_toInt_lt]

end

/-! ## The loop -/

theorem not_precedes_add (h : ¬ Precedes step i stop) (k : Nat) :
    ¬ Precedes step (i + k * step) stop := by
  unfold Precedes at h ⊢
  split at h
  · next hs =>
    have := Int.mul_nonneg (Int.natCast_nonneg k) (Int.le_of_lt hs)
    rw [if_pos hs]
    omega
  · next hs =>
    have := Int.mul_nonneg (Int.natCast_nonneg k) (b := -step) (by omega)
    rw [Int.mul_neg] at this
    rw [if_neg hs]
    omega

theorem Advances.next (h : Advances step stop i) : Advances step stop (i + step) := by
  intro k hk
  have hsum (n : Int) : i + step + n * step = i + (n + 1) * step := by rw [Int.add_mul]; omega
  rw [hsum] at hk ⊢
  exact h (k + 1) hk

/-- The loop takes the numbers from where it starts, by the step, before the stop. -/
theorem stepsFrom_eq (put : Int64 → Option β) {s t : Int64} (hs : s ≠ 0) (out : List β) (i : Int64)
    (h : Advances s.toInt t.toInt i.toInt) :
    ∃ ns : List Int64, stepsFrom put s t hs out i = some (out.reverse ++ ns.filterMap put) ∧
      ∀ (k : Nat) n, ns[k]? = some n ↔
        n.toInt = i.toInt + k * s.toInt ∧ Precedes s.toInt n.toInt t.toInt := by
  revert h
  fun_induction stepsFrom put s t hs out i with
  | case1 out i hi next hnext ih =>
    intro h
    have hsum := Number.toInt_of_word? hnext
    obtain ⟨ns, hrest, hget⟩ := ih (hsum ▸ h.next)
    refine ⟨i :: ns, ?_, fun k n => ?_⟩
    · rw [hrest]
      cases hput : put i <;> simp [hput]
    · cases k with
      | zero =>
        rw [List.getElem?_cons_zero, Option.some_inj, ← Int64.toInt_inj]
        have := isBefore_iff.1 hi
        grind
      | succ k =>
        rw [List.getElem?_cons_succ, hget, hsum, Int.natCast_succ, Int.add_mul]
        grind
  | case2 out i hi hnext =>
    intro h
    have hfits := h 0 (by simpa using isBefore_iff.1 hi)
    rw [Number.word?, if_pos] at hnext
    · cases hnext
    · simp only [Number.leastInt, Number.greatestInt]
      omega
  | case3 out i hi =>
    intro _
    refine ⟨[], by simp, fun k n => ?_⟩
    have := not_precedes_add (mt isBefore_iff.2 hi) k
    grind

theorem slicePlaces_eq (hlength : length < 2 ^ 63) (step : Option Int64) (hstep : step.getD 1 ≠ 0)
    (h : Advances (step.getD 1).toInt (last length upper (step.getD 1).toInt)
      (first length lower (step.getD 1).toInt)) :
    ∃ places, slicePlaces length lower upper step = .ok (some places) ∧
      ∀ k i, places[k]? = some i ↔ IsPlace length lower upper (step.getD 1).toInt k i := by
  obtain ⟨hfirst, hlast⟩ := toInt_bounds hlength lower upper (step.getD 1)
  obtain ⟨ns, heq, hget⟩ := stepsFrom_eq index? hstep [] _ (hfirst ▸ hlast ▸ h)
  rw [hfirst, hlast] at hget
  have hplaces : ns.filterMap index? = ns.map (·.toInt.toNat) := by
    refine List.filterMap_eq_map_iff_forall_eq_some.2 fun n hn => ?_
    obtain ⟨k, hk⟩ := List.getElem?_of_mem hn
    obtain ⟨hsum, hbefore⟩ := (hget k n).1 hk
    have hplace := (hsum ▸ hbefore).isPlace
    exact if_neg (mt Int64.lt_iff_toInt_lt.1 (Int.not_lt.2 (hsum ▸ hplace.1)))
  refine ⟨_, (dif_neg hstep).trans (congrArg Except.ok heq), fun k i => ?_⟩
  rw [hplaces, List.reverse_nil, List.nil_append, List.getElem?_map, Option.map_eq_some_iff]
  constructor
  · rintro ⟨n, hn, rfl⟩
    obtain ⟨hsum, hbefore⟩ := (hget k n).1 hn
    have hplace := (hsum ▸ hbefore).isPlace
    rw [IsPlace, Int.toNat_of_nonneg (by omega)]
    exact ⟨hsum, hbefore⟩
  · rintro ⟨hsum, hbefore⟩
    have hplace := (hsum ▸ hbefore).isPlace
    have hword : (Int64.ofInt i).toInt = i := Int64.toInt_ofInt_of_le (by omega) (by omega)
    refine ⟨Int64.ofInt i, (hget k _).2 ?_, by rw [hword]; exact Int.toNat_natCast i⟩
    rw [hword]
    exact ⟨hsum, hbefore⟩

theorem lt_of_isPlace {places : List Nat}
    (h : ∀ k i, places[k]? = some i ↔ IsPlace length lower upper step k i) :
    ∀ i ∈ places, i < length := by
  intro i hi
  obtain ⟨k, hk⟩ := List.getElem?_of_mem hi
  obtain ⟨hsum, hbefore⟩ := (h k i).1 hk
  have := (hsum ▸ hbefore).isPlace
  omega

theorem map_filterMap_places {items : List α} {places : List Nat}
    (hmem : ∀ i ∈ places, i < items.length) :
    (places.filterMap (items[·]?)).map some = places.map (items[·]?) := by
  induction places with
  | nil => rfl
  | cons i places ih =>
    have hi := List.getElem?_eq_getElem (hmem i List.mem_cons_self)
    simpa [hi] using ih fun j hj => hmem j (List.mem_cons_of_mem _ hj)

theorem filterMap_places_eq {items expected : List α} {places : List Nat}
    (h : ∀ k i, places[k]? = some i ↔ IsPlace items.length lower upper step k i)
    (hexpected : ∀ k x, expected[k]? = some x ↔
      ∃ i, IsPlace items.length lower upper step k i ∧ items[i]? = some x) :
    places.filterMap (items[·]?) = expected := by
  refine List.ext_getElem? fun k => Option.ext fun x => ?_
  have hk := congrArg (·[k]?) (map_filterMap_places (lt_of_isPlace h))
  simp only [List.getElem?_map] at hk
  simp only [hexpected, ← h]
  constructor
  · intro hx
    rw [hx] at hk
    exact Option.map_eq_some_iff.1 hk.symm
  · rintro ⟨i, hi, hx⟩
    rw [hi] at hk
    simpa [hx] using hk

section

variable (items : List α) (hlength : items.length < 2 ^ 63)
include hlength

theorem slicePlaces_reverse : ∃ places, slicePlaces items.length none none (some (-1)) =
    .ok (some places) ∧ places.filterMap (items[·]?) = items.reverse := by
  have hadvances : Advances (-1) (last items.length none (-1)) (first items.length none (-1)) := by
    intro k hk
    have := hk.isPlace
    omega
  obtain ⟨places, hplaces, hget⟩ := slicePlaces_eq hlength (some (-1)) (by decide) hadvances
  refine ⟨places, hplaces, filterMap_places_eq hget fun k x => ?_⟩
  change _ ↔ ∃ i, IsPlace _ _ _ (-1) k i ∧ _
  by_cases hk : k < items.length
  · rw [List.getElem?_reverse hk]
    grind [IsPlace, first, last, Precedes]
  · grind [IsPlace, first]

theorem slicePlaces_parts (k : Int64) : ∃ before after,
    slicePlaces items.length none (some k) none = .ok (some before) ∧
    slicePlaces items.length (some k) none none = .ok (some after) ∧
    before.filterMap (items[·]?) ++ after.filterMap (items[·]?) = items := by
  have hadvances (lower upper : Option Int64) :
      Advances 1 (last items.length upper 1) (first items.length lower 1) := by
    intro k hk
    have := hk.isPlace
    omega
  obtain ⟨before, hbefore, hgetb⟩ :=
    slicePlaces_eq hlength none (by decide) (hadvances none (some k))
  obtain ⟨after, hafter, hgeta⟩ := slicePlaces_eq hlength none (by decide) (hadvances (some k) none)
  have hedge : 0 ≤ edge items.length 1 k.toInt ∧ edge items.length 1 k.toInt ≤ items.length := by
    simp only [edge]
    omega
  have htake : before.filterMap (items[·]?) = items.take (edge items.length 1 k.toInt).toNat := by
    refine filterMap_places_eq hgetb fun j x => ?_
    change _ ↔ ∃ i, IsPlace _ _ _ 1 j i ∧ _
    rw [List.getElem?_take]
    grind [IsPlace, first, last, Precedes]
  have hdrop : after.filterMap (items[·]?) = items.drop (edge items.length 1 k.toInt).toNat := by
    refine filterMap_places_eq hgeta fun j x => ?_
    change _ ↔ ∃ i, IsPlace _ _ _ 1 j i ∧ _
    rw [List.getElem?_drop]
    grind [IsPlace, first, last, Precedes]
  exact ⟨before, after, hbefore, hafter, by rw [htake, hdrop, List.take_append_drop]⟩

end

end BlockScript.Sequence

namespace BlockScript

open Sequence

/-! ## Slices of values -/

/-- The items of a value that has slices. -/
def Heap.sequence? (h : Heap) : Value → Option (List Value)
  | .list r => some (h.list r)
  | .tuple _ items => some items
  | .str s => some (charValues s)
  | _ => none

theorem Heap.Keeps.sequence? {h h' : Heap} (hkeeps : h.Keeps h') {v : Value} (hv : h.HasCell v) :
    h'.sequence? v = h.sequence? v := by
  cases v with
  | list r => exact congrArg some (Contents.items.inj (hkeeps.contents _ hv))
  | _ => rfl

/-- A run that gives a sequence of a type, and writes nothing that there is. -/
def Run.Makes (p : Run Value) (m : Machine) (type : String) (items : List Value) : Prop :=
  ∃ w h, p m = .ok w { m with heap := h } ∧ m.heap.Keeps h ∧ h.HasCell w ∧ w.typeName = type ∧
    h.sequence? w = some items

namespace Run.Makes

variable {m : Machine}

theorem list (items : List Value) : Makes (Run.newList items) m "list" items := by
  refine ⟨_, _, rfl, .newList .., ?_, rfl, ?_⟩
  · exact Nat.lt_of_lt_of_eq (Nat.lt_succ_self _) (Cells.size_push ..).symm
  · exact congrArg some ((Cells.get_push ..).trans (if_pos rfl))

theorem tuple (items : List Value) : Makes (Run.newTuple items) m "tuple" items :=
  ⟨_, _, rfl, .fresh .., trivial, rfl, rfl⟩

theorem str (s : String) : Makes (return .str s) m "str" (charValues s) :=
  ⟨_, _, rfl, .refl _, trivial, rfl, rfl⟩

theorem bind {p : Run Value} {f : Value → Run Value} {type type' : String}
    {items items' : List Value}
    (hp : p.Makes m type items) (hf : ∀ w h, m.heap.Keeps h → h.HasCell w → w.typeName = type →
      h.sequence? w = some items → (f w).Makes { m with heap := h } type' items') :
    (p >>= f).Makes m type' items' := by
  obtain ⟨w, h, hrun, hkeeps, hcell, htype, hitems⟩ := hp
  obtain ⟨w', h', hrun', hkeeps', hw'⟩ := hf w h hkeeps hcell htype hitems
  refine ⟨w', h', ?_, hkeeps.trans hkeeps', hw'⟩
  change EStateM.bind p f m = _
  rw [EStateM.bind, hrun]
  exact hrun'

end Run.Makes

namespace Evaluator

variable {v : Value} {m : Machine} {items : List Value} {lower upper step : Option Int64}

theorem charValues_filterMap (s : String) (places : List Nat) :
    charValues (String.ofList (places.filterMap (s.toList[·]?))) =
      places.filterMap ((charValues s)[·]?) := by
  rw [charValues, String.toList_ofList, charValues, List.map_filterMap]
  simp only [List.getElem?_map]

theorem makes_slice {places : List Nat} (hv : m.heap.sequence? v = some items)
    (hplaces : slicePlaces items.length lower upper step = .ok (some places)) :
    (slice v lower upper step).Makes m v.typeName (places.filterMap (items[·]?)) := by
  have hselected {α : Type} (xs : List α) (hlength : xs.length = items.length) :
      selected (Sequence.slice xs lower upper step) = pure (places.filterMap (xs[·]?)) := by
    rw [Sequence.slice, hlength, hplaces]
    simp only [List.getElem?_toArray]
    rfl
  cases v with
  | list r =>
    cases hv
    have hrun : slice (.list r) lower upper step m =
        Run.newList (places.filterMap ((m.heap.list r)[·]?)) m := by
      change (do Run.newList (← selected (Sequence.slice (m.heap.list r) lower upper step))) m = _
      rw [hselected _ rfl, pure_bind]
    rw [Run.Makes, hrun]
    exact Run.Makes.list _
  | tuple id items =>
    cases hv
    rw [slice, hselected _ rfl, pure_bind]
    exact .tuple _
  | str s =>
    cases hv
    rw [slice, hselected _ (List.length_map _).symm, pure_bind, ← charValues_filterMap]
    exact .str _
  | _ => cases hv

theorem makes_add (ev : Evaluator) {w : Value} {others : List Value}
    (hv : m.heap.sequence? v = some items)
    (hw : m.heap.sequence? w = some others) (htype : w.typeName = v.typeName) :
    (ev.binary .add v w).Makes m v.typeName (items ++ others) := by
  cases v with
  | list r =>
    cases w with
    | list s =>
      cases hv
      cases hw
      exact .list _
    | tuple | str => simp [Value.typeName] at htype
    | _ => cases hw
  | tuple id items =>
    cases w with
    | tuple id others =>
      cases hv
      cases hw
      exact .tuple _
    | list | str => simp [Value.typeName] at htype
    | _ => cases hw
  | str s =>
    cases w with
    | str t =>
      cases hv
      cases hw
      rw [charValues, charValues, ← List.map_append, ← String.toList_append]
      exact .str _
    | list | tuple => simp [Value.typeName] at htype
    | _ => cases hw
  | _ => cases hv

/-- A slice of a list, a tuple or a string has the items at the places from its start, by its step,
before its stop: each of these places is in the sequence. So stepping back through all of it
reverses it, and the parts before and after a bound make up the whole. -/
theorem slices (ev : Evaluator) (hv : m.heap.sequence? v = some items) (hcell : m.heap.HasCell v)
    (hlength : items.length < 2 ^ 63) :
    (∀ lower upper step, step.getD 1 ≠ 0 → Advances (step.getD 1).toInt
        (last items.length upper (step.getD 1).toInt)
          (first items.length lower (step.getD 1).toInt) →
      ∃ places selected, slicePlaces items.length lower upper step = .ok (some places) ∧
        (∀ k i, places[k]? = some i ↔ IsPlace items.length lower upper (step.getD 1).toInt k i) ∧
        (∀ i ∈ places, i < items.length) ∧ (slice v lower upper step).Makes m v.typeName selected ∧
        selected.map some = places.map (items[·]?)) ∧
    (slice v none none (some (-1))).Makes m v.typeName items.reverse ∧
    ∀ k, Run.Makes (do ev.binary .add (← slice v none (some k) none) (← slice v (some k) none none))
      m
      v.typeName items := by
  refine ⟨fun lower upper step hstep hadvances => ?_, ?_, fun k => ?_⟩
  · obtain ⟨places, hplaces, hget⟩ := slicePlaces_eq hlength step hstep hadvances
    exact ⟨places, _, hplaces, hget, lt_of_isPlace hget, makes_slice hv hplaces,
      map_filterMap_places (lt_of_isPlace hget)⟩
  · obtain ⟨places, hplaces, hreverse⟩ := slicePlaces_reverse items hlength
    exact hreverse ▸ makes_slice hv hplaces
  · obtain ⟨before, after, hbefore, hafter, hparts⟩ := slicePlaces_parts items hlength k
    refine (makes_slice hv hbefore).bind fun b h hkeeps hcellb htypeb hitemsb => ?_
    refine (makes_slice ((hkeeps.sequence? hcell).trans hv) hafter).bind
      fun a h' hkeeps' _ htypea hitemsa => ?_
    rw [← hparts, ← htypeb]
    exact makes_add ev ((hkeeps'.sequence? hcellb).trans hitemsb) hitemsa (htypea.trans htypeb.symm)

/-- Backwards from the fourth character by twos: the place after the first is the second
character. -/
theorem slices_backwards : ∃ places, slicePlaces 5 (some 3) none (some (-2)) = .ok (some places) ∧
    places[1]? = some 1 := by
  have hadvances : Advances (-2) (last 5 none (-2)) (first 5 (some 3) (-2)) := by
    intro k hk
    have := hk.isPlace
    omega
  obtain ⟨places, -, hplaces, hget, -⟩ :=
    (slices (m := {}) (v := .str "abcde") (ofDepth .none 1) rfl trivial
    (by decide)).1 (some 3) none (some (-2)) (by decide) hadvances
  exact ⟨places, hplaces, (hget 1 1).2 ⟨rfl, by simp [Precedes, last]⟩⟩

end Evaluator

end BlockScript
