import BlockScript.Machine.Basic

/-! Guards of the scope stack that are dropped in any order. A guard knows only how deep the stack
was, so all rests on how the depths of the guards that are left relate to the stack. -/

namespace BlockScript.ScopeStack

/-- What can happen to a scope stack. A guard is named by the number of the push that made it. -/
inductive Event where
  | push (e : ScopeEntry)
  | drop (guard : Nat)

/-- A scope stack and what has happened to it. -/
structure History where
  stack : ScopeStack := {}
  /-- One for each push; a guard that was dropped is gone. -/
  guards : List (Option ScopeGuard) := []
  /-- The layers of the stack with the numbers of their pushes. -/
  layers : List (Nat × ScopeEntry) := []

namespace History

/-- A guard that is gone cannot be dropped again. -/
def step (h : History) : Event → History
  | .push e => {
    stack := (h.stack.push e).2
    guards := h.guards ++ [some (h.stack.push e).1]
    layers := (h.guards.length, e) :: h.layers }
  | .drop i =>
    match h.guards[i]?.join with
    | some g => {
      stack := h.stack.drop g
      guards := h.guards.set i none
      layers := h.layers.drop (h.stack.depth - g.depth) }
    | none => h

def run (h : History) (events : List Event) : History := events.foldl step h

variable {h : History} {i n : Nat} {g : ScopeGuard} {event : Event} {base : ScopeStack}

/-- The guard made by the push of number `i` has not been dropped. -/
def Alive (h : History) (i : Nat) (g : ScopeGuard) : Prop := h.guards[i]? = some (some g)

theorem step_drop_of_alive (hg : h.Alive i g) : h.step (.drop i) = {
    stack := h.stack.drop g
    guards := h.guards.set i none
    layers := h.layers.drop (h.stack.depth - g.depth) } := by
  have : h.guards[i]?.join = some g := by rw [hg]; rfl
  simp only [step, this]

/-- What one event does: a push, the drop of a guard that is left, or nothing. -/
theorem step_cases (h : History) (event : Event) :
    (∃ e, event = .push e) ∨ (∃ i g, event = .drop i ∧ h.Alive i g) ∨ h.step event = h := by
  cases event with
  | push e => exact .inl ⟨e, rfl⟩
  | drop i =>
    cases hg : h.guards[i]?.join with
    | some g => exact .inr (.inl ⟨i, g, rfl, Option.join_eq_some_iff.1 hg⟩)
    | none => exact .inr (.inr (by simp only [step, hg]))

theorem alive_push {e : ScopeEntry} : (h.step (.push e)).Alive i g ↔
    h.Alive i g ∨ i = h.guards.length ∧ g = ⟨h.stack.depth⟩ := by
  simp only [Alive, step, push, List.getElem?_append, List.getElem?_singleton]
  grind

theorem alive_set_none {j : Nat} (hg : (h.guards.set j none)[i]? = some (some g)) :
    h.Alive i g ∧ i ≠ j := by
  unfold Alive
  grind

theorem alive_lt (hg : h.Alive i g) : i < h.guards.length := (List.getElem?_eq_some_iff.1 hg).1

/-- The stack has grown from `base`, on which the push of number `n` was made. The guards from that
push on cut off nothing of `base`. -/
structure Above (n : Nat) (base : ScopeStack) (h : History) : Prop where
  grown : base.entries <:+ h.stack.entries
  guards : ∀ i g, n ≤ i → h.Alive i g → base.depth ≤ g.depth
  own : h.Alive n ⟨base.depth⟩

theorem above_push (h : History) (e : ScopeEntry) :
    Above h.guards.length h.stack (h.step (.push e)) where
  grown := List.suffix_cons e h.stack.entries
  guards i g hi hg := by
    rcases alive_push.1 hg with hg | ⟨-, rfl⟩
    · exact absurd (alive_lt hg) (Nat.not_lt.2 hi)
    · exact Nat.le_refl _
  own := alive_push.2 (.inr ⟨rfl, rfl⟩)

theorem Above.step (ha : Above n base h) (hnewer : ∀ i, event = .drop i → n < i) :
    Above n base (h.step event) := by
  obtain ⟨e, rfl⟩ | ⟨j, d, rfl, hd⟩ | hsame := h.step_cases event
  · refine ⟨ha.grown.trans (List.suffix_cons e _), fun i g hi hg => ?_, alive_push.2 (.inl ha.own)⟩
    rcases alive_push.1 hg with hg | ⟨-, rfl⟩
    · exact ha.guards i g hi hg
    · exact ha.grown.length_le
  · have hj := hnewer j rfl
    have hdeep := ha.guards j d (Nat.le_of_lt hj) hd
    rw [step_drop_of_alive hd]
    refine ⟨?_, fun i g hi hg => ha.guards i g hi (alive_set_none hg).1, ?_⟩
    · -- What is cut off lies above the depth of the guard, so above the layers of `base`.
      obtain ⟨new, hnew⟩ := ha.grown
      have hlen := congrArg List.length hnew
      rw [List.length_append] at hlen
      unfold depth at hdeep
      refine ⟨new.drop (h.stack.depth - d.depth), ?_⟩
      change _ = h.stack.entries.drop (h.stack.depth - d.depth)
      rw [← hnew, List.drop_append_of_le_length (by unfold depth; omega)]
    · change (h.guards.set j none)[n]? = _
      rw [List.getElem?_set_ne (Nat.ne_of_gt hj)]
      exact ha.own
  · rwa [hsame]

theorem Above.run {events : List Event} (ha : Above n base h)
    (hnewer : ∀ i, .drop i ∈ events → n < i) : Above n base (h.run events) := by
  induction events generalizing h with
  | nil => exact ha
  | cons event events ih =>
    exact ih (ha.step fun i hi => hnewer i (hi ▸ List.mem_cons_self))
      fun i hi => hnewer i (List.mem_cons_of_mem _ hi)

theorem Above.drop (ha : Above n base h) : (h.step (.drop n)).stack = base := by
  obtain ⟨new, hnew⟩ := ha.grown
  rw [step_drop_of_alive ha.own]
  have hlen : h.stack.depth - base.depth = new.length := by
    simp [depth, ← hnew]
  simp only [ScopeStack.drop, hlen, ← hnew, List.drop_left]

/-- The layers above the depth of a guard were pushed with it or after it. -/
structure Ordered (h : History) : Prop where
  entries : h.layers.map Prod.snd = h.stack.entries
  later : ∀ i g, h.Alive i g → ∀ layer ∈ h.layers.take (h.stack.depth - g.depth), i ≤ layer.1

theorem Ordered.step (ho : h.Ordered) (event : Event) : (h.step event).Ordered := by
  obtain ⟨e, rfl⟩ | ⟨j, d, rfl, hd⟩ | hsame := h.step_cases event
  · refine ⟨congrArg (e :: ·) ho.entries, fun i g hg layer hmem => ?_⟩
    change layer ∈ (_ :: h.layers).take (h.stack.depth + 1 - g.depth) at hmem
    rcases alive_push.1 hg with hg | ⟨rfl, rfl⟩
    · by_cases hd : g.depth ≤ h.stack.depth
      · rw [Nat.succ_sub hd, List.take_succ_cons, List.mem_cons] at hmem
        rcases hmem with rfl | hmem
        · exact Nat.le_of_lt (alive_lt hg)
        · exact ho.later i g hg layer hmem
      · rw [Nat.sub_eq_zero_of_le (by omega)] at hmem
        cases hmem
    · simp only [Nat.add_sub_cancel_left, List.take_succ_cons, List.take_zero,
        List.mem_singleton] at hmem
      exact Nat.le_of_eq (congrArg Prod.fst hmem.symm)
  · rw [step_drop_of_alive hd]
    have hdepth : (h.stack.drop d).depth = h.stack.depth - (h.stack.depth - d.depth) :=
      List.length_drop
    refine ⟨List.map_drop.trans (congrArg _ ho.entries), fun i g hg layer hmem => ?_⟩
    refine ho.later i g (alive_set_none hg).1 layer ?_
    dsimp only at hmem
    rw [hdepth, List.take_drop] at hmem
    by_cases hcut : g.depth ≤ d.depth
    · exact List.take_subset_take_left _ (by omega) (List.mem_of_mem_drop hmem)
    · have hnone : h.stack.depth - (h.stack.depth - d.depth) - g.depth = 0 := by omega
      rw [hnone, Nat.add_zero, List.drop_take_self] at hmem
      cases hmem
  · rwa [hsame]

theorem ordered_run (events : List Event) : (run {} events).Ordered := by
  suffices ∀ h : History, h.Ordered → (h.run events).Ordered from
    this {} ⟨rfl, fun i g hg => by simp [Alive] at hg⟩
  induction events with
  | nil => exact fun h ho => ho
  | cons event events ih => exact fun h ho => ih _ (ho.step event)

theorem Ordered.filter_layers_drop (ho : h.Ordered) (i : Nat) :
    (h.step (.drop i)).layers.filter (·.1 < i) = h.layers.filter (·.1 < i) := by
  obtain ⟨e, he⟩ | ⟨j, g, hj, hg⟩ | hsame := h.step_cases (.drop i)
  · cases he
  · cases hj
    have hcut : (h.layers.take (h.stack.depth - g.depth)).filter (·.1 < i) = [] :=
      List.filter_eq_nil_iff.2 fun layer hmem => by simpa using ho.later i g hg layer hmem
    rw [step_drop_of_alive hg]
    conv => rhs; rw [← List.take_append_drop (h.stack.depth - g.depth) h.layers]
    rw [List.filter_append, hcut, List.nil_append]
  · rw [hsame]

end History

open History

/-- A guard is made after any events, and then anything happens but that it or an older guard is
dropped. Dropping it then gives back exactly the stack it was made for. And whatever has happened,
no drop of a guard takes away a layer that was pushed before it. -/
theorem guards_nest (before between : List Event) (e : ScopeEntry)
    (hnewer : ∀ i, .drop i ∈ between → (run {} before).guards.length < i) :
    (run {} (before ++ .push e :: between ++ [.drop (run {} before).guards.length])).stack =
      (run {} before).stack ∧
    ∀ events, (run {} events).layers.map Prod.snd = (run {} events).stack.entries ∧
      ∀ i, (run {} (events ++ [.drop i])).layers.filter (·.1 < i) =
        (run {} events).layers.filter (·.1 < i) := by
  refine ⟨?_, fun events => ⟨(ordered_run events).entries, fun i => ?_⟩⟩
  · have ha := (above_push (run {} before) e).run hnewer
    rw [run, List.foldl_append, List.foldl_append]
    exact ha.drop
  · rw [run, List.foldl_append]
    exact (ordered_run events).filter_layers_drop i

/-- The inner guards are dropped in the order in which they were made, with a push in between. -/
theorem guards_nest_inner : ∃ e : ScopeEntry, (run {} ([.push e] ++ .push (.object (.int 2)) ::
      [.push e, .push e, .drop 2, .push (.object (.int 3)), .drop 3] ++ [.drop 1])).stack =
      (run {} [.push e]).stack ∧ (run {} [.push e]).guards.length = 1 :=
  ⟨.object .none, (guards_nest [.push (.object .none)] _ _ (by
    simp only [List.mem_cons, List.not_mem_nil, or_false, reduceCtorEq, false_or, Event.drop.injEq]
    rintro i (rfl | rfl)
    · decide
    · decide)).1, rfl⟩

end BlockScript.ScopeStack
