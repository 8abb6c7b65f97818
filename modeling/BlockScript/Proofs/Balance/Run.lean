import BlockScript.Eval.Stmt
import BlockScript.Proofs.Names.Heap

/-! Balance of a run: the stacks of the machine are afterwards what they were before, however the
run ends. Only the innermost collector of a generator may have grown, by what the run yields.

Balance is a class, so that a run put together from balanced ones is seen to be balanced by its
shape. Where a run looks at a value, its cases are split. -/

namespace BlockScript

/-- What the active generators have collected when the innermost of them has got the values `new`,
which are last first. -/
def Collected (new : List Value) : List (List Value) → List (List Value)
  | [] => []
  | innermost :: outer => (new ++ innermost) :: outer

theorem ScopeStack.drop_push (s : ScopeStack) (e : ScopeEntry) :
    (s.push e).2.drop (s.push e).1 = s := by
  simp [push, drop, depth]

namespace Machine

/-- The stacks of two machines agree, those of the collectors aside. -/
structure Aligned (before after : Machine) : Prop where
  frames : after.frames = before.frames
  handling : after.handling = before.handling
  depth : after.depth = before.depth
  scopes : after.scopes = before.scopes

/-- The stacks agree, but for the values `new` that the innermost generator has collected since. -/
structure Balanced (new : List Value) (before after : Machine) :
    Prop extends before.Aligned after where
  yields : after.yields = Collected new before.yields

/-- The stacks agree, those of the collectors aside unless there are none. -/
structure Restores (before after : Machine) : Prop extends before.Aligned after where
  idle : before.yields = [] → after.yields = []

theorem Restores.trans {a b c : Machine} (h1 : a.Restores b) (h2 : b.Restores c) :
    a.Restores c where
  frames := h2.frames.trans h1.frames
  handling := h2.handling.trans h1.handling
  depth := h2.depth.trans h1.depth
  scopes := h2.scopes.trans h1.scopes
  idle h := h2.idle (h1.idle h)

def Keeps (before after : Machine) : Prop := before.heap.Keeps after.heap

def withYields (m : Machine) (ys : List (List Value)) : Machine := { m with yields := ys }

/-- The machine with its innermost collector put on top of another one. -/
def onto (m : Machine) (y : List Value) (ys : List (List Value)) : Machine :=
  m.withYields ((m.yields.headD [] ++ y) :: ys)

end Machine

namespace Run

variable {α β : Type} {p : Run α} {f : α → Run β} {m m' : Machine} {e : Halt RuntimeError}

theorem bind_of_ok {a : α} (hp : p m = .ok a m') : (p >>= f) m = f a m' := by
  change EStateM.bind p f m = f a m'
  rw [EStateM.bind, hp]

theorem heap_bind (f : Heap → Run β) (m : Machine) : (Run.heap >>= f) m = f m.heap m := rfl

theorem get_bind (f : Machine → Run β) (m : Machine) : ((get : Run Machine) >>= f) m = f m m := rfl

theorem bind_of_error (hp : p m = .error e m') : (p >>= f) m = .error e m' := by
  change EStateM.bind p f m = .error e m'
  rw [EStateM.bind, hp]

/-- The machine at the end of a run, with a result or without. -/
def after (p : Run α) (m : Machine) : Machine :=
  match p m with
  | .ok _ m' | .error _ m' => m'

theorem after_of_ok {a : α} (h : p m = .ok a m') : p.after m = m' := by rw [after, h]

theorem after_of_error (h : p m = .error e m') : p.after m = m' := by rw [after, h]

theorem after_bind_of_ok {a : α} (h : p m = .ok a m') : (p >>= f).after m = (f a).after m' := by
  rw [after, bind_of_ok h, after]

theorem after_bind_of_error (h : p m = .error e m') : (p >>= f).after m = p.after m :=
  (after_of_error (bind_of_error h)).trans (after_of_error h).symm

theorem after_ensuring (p : Run α) (f : Machine → Machine) (m : Machine) :
    (ensuring p f).after m = f (p.after m) := by
  unfold after ensuring
  cases p m with
  | ok a m' => rfl
  | error e m' => rfl

/-! ## Properties of runs -/

/-- A property that a run has if its steps have it, and each step that only makes cells. -/
class Lasting (P : (α : Type) → Run α → Prop) : Prop where
  pure {α : Type} (a : α) : P α (pure a)
  throw {α : Type} (e : Halt RuntimeError) : P α (throw e)
  heap : P Heap heap
  made {α : Type} {f : Heap → α × Heap} : (∀ h : Heap, h.Keeps (f h).2) → P α (alloc f)
  bind {α β : Type} {p : Run α} {f : α → Run β} :
    P α p → (∀ a m m', p m = .ok a m' → P β (f a)) → P β (p >>= f)

/-- A run with such a property. -/
class Follows (P : (α : Type) → Run α → Prop) (p : Run α) : Prop where
  holds : P α p

section

variable {P : (α : Type) → Run α → Prop} [Lasting P]

instance follows_pure (a : α) : Follows P (pure a : Run α) := ⟨Lasting.pure a⟩

instance follows_throw (e : Halt RuntimeError) : Follows P (throw e : Run α) := ⟨Lasting.throw e⟩

/-- What follows the run needs the property for results of the run only. -/
theorem Follows.andThenOf [hp : Follows P p] (hf : ∀ a m m', p m = .ok a m' → Follows P (f a)) :
    Follows P (p >>= f) := ⟨Lasting.bind hp.holds fun a m m' h => (hf a m m' h).holds⟩

theorem Follows.andThen [Follows P p] (hf : ∀ a, Follows P (f a)) : Follows P (p >>= f) :=
  .andThenOf fun a _ _ _ => hf a

instance follows_bind (p : Run α) (f : α → Run β) [Follows P p] [hf : ∀ a, Follows P (f a)] :
    Follows P (p >>= f) := .andThen hf

instance follows_ite (c : Prop) [Decidable c] (p q : Run α) [Follows P p] [Follows P q] :
    Follows P (if c then p else q) := by
  split
  · infer_instance
  · infer_instance

instance follows_heap : Follows P heap := ⟨Lasting.heap⟩

instance follows_fail (e : RuntimeError) : Follows P (fail e : Run α) := follows_throw _

instance follows_typeError (fault : TypeFault) : Follows P (typeError fault : Run α) :=
  follows_throw _

instance follows_valueError (fault : ValueFault) : Follows P (valueError fault : Run α) :=
  follows_throw _

instance follows_ofExcept (r : Except RuntimeError α) : Follows P (Run.ofExcept r) := by
  cases r with
  | ok a => exact follows_pure a
  | error e => exact follows_fail e

instance follows_orExhausted (a : Option α) : Follows P (Run.orExhausted a) := by
  cases a with
  | some a => exact follows_pure a
  | none => exact follows_throw _

instance follows_fresh : Follows P fresh := ⟨Lasting.made fun h => .fresh h _⟩

instance follows_newList (items : List Value) : Follows P (newList items) :=
  have : Follows P (alloc (·.newList items)) := ⟨Lasting.made fun h => .newList h items⟩
  follows_bind _ _

instance follows_newTuple (items : List Value) : Follows P (newTuple items) := by
  unfold Run.newTuple
  infer_instance

instance follows_newDict (d : Dict) : Follows P (newDict d) :=
  have : Follows P (alloc (·.newDict d)) := ⟨Lasting.made fun h => .newDict h d⟩
  follows_bind _ _

instance follows_keyValues (keys : List Key) : Follows P (keyValues keys) :=
  ⟨Lasting.made fun h => .fresh h _⟩

instance follows_key (v : Value) : Follows P (key v) := by
  unfold Run.key
  split
  · infer_instance
  · infer_instance

theorem Follows.mapM {as : List α} (hf : ∀ a ∈ as, Follows P (f a)) : Follows P (as.mapM f) := by
  induction as with
  | nil => exact follows_pure []
  | cons a as ih =>
    obtain ⟨ha, has⟩ := List.forall_mem_cons.1 hf
    have := ih has
    rw [List.mapM_cons]
    infer_instance

instance follows_mapM (f : α → Run β) [hf : ∀ a, Follows P (f a)] (as : List α) :
    Follows P (as.mapM f) :=
  .mapM fun a _ => hf a

instance follows_forM (f : α → Run PUnit) [hf : ∀ a, Follows P (f a)] (as : List α) :
    Follows P (as.forM f) := by
  induction as with
  | nil => exact follows_pure _
  | cons a as ih =>
    change Follows P (f a >>= fun _ => as.forM f)
    infer_instance

instance follows_foldlM (f : β → α → Run β) [hf : ∀ b a, Follows P (f b a)] (b : β) (as : List α) :
    Follows P (as.foldlM f b) := by
  induction as generalizing b with
  | nil => exact follows_pure b
  | cons a as ih =>
    rw [List.foldlM_cons]
    infer_instance

instance follows_allM (f : α → Run Bool) [hf : ∀ a, Follows P (f a)] (as : List α) :
    Follows P (as.allM f) := by
  induction as with
  | nil => exact follows_pure true
  | cons a as ih =>
    rw [List.allM_cons]
    refine .andThen fun b => ?_
    split
    · infer_instance
    · infer_instance

end

def MakesCells (α : Type) (p : Run α) : Prop := ∀ m : Machine, m.Keeps (p.after m)

/-- The run makes cells at most. -/
abbrev Keeps (p : Run α) : Prop := Follows MakesCells p

theorem Keeps.ok [h : Keeps p] {a : α} (hp : p m = .ok a m') : m.Keeps m' :=
  after_of_ok hp ▸ h.holds m

theorem Keeps.error [h : Keeps p] (hp : p m = .error e m') : m.Keeps m' :=
  after_of_error hp ▸ h.holds m

instance : Lasting MakesCells where
  pure _ m := .refl m.heap
  throw _ m := .refl m.heap
  heap m := .refl m.heap
  made hf m := hf m.heap
  bind {_ _ p _} hp hf m := by
    cases h : p m with
    | ok a m' =>
      have hm : m.Keeps m' := after_of_ok h ▸ hp m
      rw [after_bind_of_ok h]
      exact hm.trans (hf a m m' h m')
    | error e m' =>
      rw [after_bind_of_error h]
      exact hp m

/-! ## Balance -/

/-- What a run yields, last value first: what it collects for a generator that has nothing yet. -/
def yielded (p : Run α) (m : Machine) : List Value := (p.after (m.withYields [[]])).yields.headD []

/-- From every machine the run ends with the stacks it started with. It does not see what has been
collected, and adds what it yields to the innermost collector; where `quiet` holds, that is
nothing. -/
structure IsBalanced (quiet : Prop) (α : Type) (p : Run α) : Prop where
  restores : ∀ m : Machine, m.Restores (p.after m)
  collects : ∀ (m : Machine) y ys, p (m.withYields (y :: ys)) =
    ensuring p (·.onto y ys) (m.withYields [[]])
  silent : quiet → ∀ m, (p.after m).yields = m.yields

abbrev Balanced (quiet : Prop) (p : Run α) : Prop := Follows (IsBalanced quiet) p

variable {quiet : Prop}

theorem after_eq_of_collects (h : IsBalanced quiet α p) (m : Machine) (y : List Value)
    (ys : List (List Value)) :
    p.after (m.withYields (y :: ys)) = (p.after (m.withYields [[]])).onto y ys := by
  rw [← after_ensuring p (·.onto y ys), after, h.collects m y ys]
  rfl

theorem Balanced.keeps (quiet : Prop) [h : Balanced quiet p] (m : Machine) :
    m.Balanced (p.yielded m) (p.after m) where
  toAligned := (h.holds.restores m).toAligned
  yields := by
    cases hy : m.yields with
    | nil => exact (h.holds.restores m).idle hy
    | cons y ys =>
      have heq : m = m.withYields (y :: ys) := by rw [← hy]; rfl
      rw [heq, after_eq_of_collects h.holds]
      rfl

theorem Balanced.ok (quiet : Prop) [h : Balanced quiet p] {a : α} (hp : p m = .ok a m') :
    m.Balanced (p.yielded m) m' :=
  after_of_ok hp ▸ keeps quiet m

theorem IsBalanced.of_apart (hp : ∀ (m : Machine) ys, p (m.withYields ys) =
      ensuring p (·.withYields ys) m)
    (haligned : ∀ m : Machine, m.Aligned (p.after m)) : IsBalanced quiet α p := by
  have hyields (m : Machine) : (p.after m).yields = m.yields := by
    have h := after_ensuring p (·.withYields m.yields) m
    rw [after, ← hp m m.yields] at h
    change p.after m = _ at h
    rw [h]
    rfl
  refine ⟨fun m => ⟨haligned m, fun h => (hyields m).trans h⟩, fun m y ys => ?_, fun _ => hyields⟩
  have hone := hp m [[]]
  unfold ensuring at *
  rw [hone, hp m (y :: ys)]
  cases p m with
  | ok a m' | error e m' => rfl

theorem IsBalanced.bind (hp : IsBalanced quiet α p)
    (hf : ∀ a m m', p m = .ok a m' → IsBalanced quiet β (f a)) : IsBalanced quiet β (p >>= f) where
  restores m := by
    cases h : p m with
    | ok a m' =>
      have hm : m.Restores m' := after_of_ok h ▸ hp.restores m
      rw [after_bind_of_ok h]
      exact hm.trans ((hf a m m' h).restores m')
    | error e m' =>
      rw [after_bind_of_error h]
      exact hp.restores m
  collects m y ys := by
    have hone := hp.collects m [] []
    have hys := hp.collects m y ys
    unfold ensuring at hone hys ⊢
    cases h : p (m.withYields [[]]) with
    | ok a m1 =>
      rw [h] at hone hys
      -- the collector with which the second run starts has what the first one yields
      have hm1 : m1 = m1.withYields [m1.yields.headD []] := by
        have heq : m1 = m1.withYields [m1.yields.headD [] ++ []] := (EStateM.Result.ok.inj hone).2
        rwa [List.append_nil] at heq
      have hfa := hf a _ _ h
      rw [bind_of_ok hys, bind_of_ok h]
      change f a (m1.withYields _) = _
      rw [hfa.collects]
      have hrun := hfa.collects m1 (m1.yields.headD []) []
      rw [← hm1] at hrun
      rw [hrun]
      unfold ensuring
      cases f a (m1.withYields [[]]) with
      | ok b m2 | error e m2 => simp [Machine.onto, Machine.withYields]
    | error e m1 =>
      rw [h] at hys
      rw [bind_of_error hys, bind_of_error h]
  silent hq m := by
    cases h : p m with
    | ok a m' =>
      have hm : m'.yields = m.yields := after_of_ok h ▸ hp.silent hq m
      rw [after_bind_of_ok h]
      exact ((hf a m m' h).silent hq m').trans hm
    | error e m' =>
      rw [after_bind_of_error h]
      exact hp.silent hq m

instance : Lasting (IsBalanced quiet) where
  pure _ := .of_apart (fun _ _ => rfl) fun _ => ⟨rfl, rfl, rfl, rfl⟩
  throw _ := .of_apart (fun _ _ => rfl) fun _ => ⟨rfl, rfl, rfl, rfl⟩
  heap := .of_apart (fun _ _ => rfl) fun _ => ⟨rfl, rfl, rfl, rfl⟩
  made _ := .of_apart (fun _ _ => rfl) fun _ => ⟨rfl, rfl, rfl, rfl⟩
  bind := .bind

theorem Follows.read {f : Machine → Run β} (hread : ∀ (m : Machine) ys, f (m.withYields ys) = f m)
    (hf : ∀ m, Balanced quiet (f m)) : Balanced quiet (get >>= f) := by
  refine ⟨fun m => (hf m).holds.restores m, fun m y ys => ?_, fun hq m => (hf m).holds.silent hq m⟩
  change f (m.withYields (y :: ys)) _ = ensuring (f (m.withYields [[]])) _ _
  rw [hread, hread]
  exact (hf m).holds.collects m y ys

/-! ## Errors -/

instance balanced_attempt (p : Run α) [h : Balanced quiet p] : Balanced quiet (attempt p) := by
  have hafter (m : Machine) : (attempt p).after m = p.after m := by
    unfold after attempt
    rcases p m with _ | _ | _ <;> rfl
  refine ⟨fun m => ?_, fun m y ys => ?_, fun hq m => ?_⟩
  · rw [hafter]
    exact h.holds.restores m
  · have hc := h.holds.collects m y ys
    unfold ensuring attempt at *
    rw [hc]
    rcases p (m.withYields [[]]) with _ | _ | _ <;> rfl
  · rw [hafter]
    exact h.holds.silent hq m

instance balanced_atLine (line : Nat) (p : Run α) [h : Balanced quiet p] :
    Balanced quiet (atLine line p) := by
  refine ⟨fun m => ?_, fun m y ys => ?_, fun hq m => ?_⟩
  · have hm := h.holds.restores m
    unfold after atLine at *
    rcases heq : p m with _ | ⟨_ | _⟩ <;> rw [heq] at hm <;>
      exact ⟨⟨hm.1.1, hm.1.2, hm.1.3, hm.1.4⟩, hm.2⟩
  · have hc := h.holds.collects m y ys
    unfold ensuring atLine at *
    rw [hc]
    rcases p (m.withYields [[]]) with _ | ⟨_ | _⟩ <;> rfl
  · have hm := h.holds.silent hq m
    unfold after atLine at *
    rcases heq : p m with _ | ⟨_ | _⟩ <;> rw [heq] at hm <;> exact hm

theorem Balanced.modify {f : Machine → Machine}
    (hf : ∀ m ys, f (m.withYields ys) = (f m).withYields ys)
    (haligned : ∀ m : Machine, m.Aligned (f m)) : Balanced quiet (modify f : Run Unit) :=
  ⟨.of_apart (fun m ys => congrArg (EStateM.Result.ok ()) (hf m ys)) haligned⟩

instance balanced_setErrorLine (line : Option Nat) : Balanced quiet (setErrorLine line) :=
  .modify (fun _ _ => rfl) fun _ => ⟨rfl, rfl, rfl, rfl⟩

/-! ## Heap and output -/

instance balanced_modifyHeap (f : Heap → Heap) : Balanced quiet (modifyHeap f) :=
  .modify (fun _ _ => rfl) fun _ => ⟨rfl, rfl, rfl, rfl⟩

instance balanced_alloc (f : Heap → α × Heap) : Balanced quiet (alloc f) :=
  ⟨.of_apart (fun _ _ => rfl) fun _ => ⟨rfl, rfl, rfl, rfl⟩⟩

instance balanced_newSpace (attrs : Attrs) : Balanced quiet (newSpace attrs) := by
  unfold Run.newSpace
  infer_instance

instance balanced_print (text : String) : Balanced quiet (print text) :=
  .modify (fun _ _ => rfl) fun _ => ⟨rfl, rfl, rfl, rfl⟩

/-! ## Pushing and popping -/

/-- A run between a change and its undoing: it is enough that undoing after a balanced run gives
back the stacks from before the change, and that neither has to do with collectors. -/
theorem Balanced.between (before : Machine → Machine) (undo : Machine → Machine → Machine)
    (p : Run α) [h : Balanced quiet p] (hbefore : ∀ m ys, before (m.withYields ys) =
      (before m).withYields ys)
    (hstart : ∀ m ys, undo (m.withYields ys) = undo m)
    (hundo : ∀ m m' ys, undo m (m'.withYields ys) = (undo m m').withYields ys)
    (hrestores : ∀ m m' : Machine, (before m).Restores m' → m.Restores (undo m m')) :
    Balanced quiet (fun m => ensuring p (undo m) (before m) : Run α) := by
  have hyields (m m' : Machine) : (undo m m').yields = m'.yields := by
    have h : undo m m' = (undo m m').withYields m'.yields := hundo m m' m'.yields
    rw [h]
    rfl
  refine ⟨fun m => ?_, fun m y ys => ?_, fun hq m => ?_⟩
  · change m.Restores ((ensuring p (undo m)).after (before m))
    rw [after_ensuring]
    exact hrestores m _ (h.holds.restores (before m))
  · have hc := h.holds.collects (before m) y ys
    simp only [ensuring, hbefore, hstart] at hc ⊢
    rw [hc]
    cases p ((before m).withYields [[]]) with
    | ok a m' | error e m' => simp only [Machine.onto, hundo, hyields]
  · change ((ensuring p (undo m)).after (before m)).yields = _
    have hm : before m = (before m).withYields m.yields := hbefore m m.yields
    rw [after_ensuring, hyields, h.holds.silent hq, hm]
    rfl

instance balanced_withFrame (call : Activation) (p : Run α) [Balanced quiet p] :
    Balanced quiet (withFrame call p) :=
  Balanced.between (fun m => { m with frames := call :: m.frames })
    (fun _ m => { m with frames := m.frames.tail }) p (fun _ _ => rfl) (fun _ _ => rfl)
      (fun _ _ _ => rfl)
      fun _ _ h => ⟨⟨congrArg List.tail h.frames, h.handling, h.depth, h.scopes⟩, h.idle⟩

instance balanced_withScope (e : ScopeEntry) (p : Run α) [Balanced quiet p] :
    Balanced quiet (withScope e p) :=
  Balanced.between (fun m => { m with scopes := (m.scopes.push e).2 })
    (fun m m' => { m' with scopes := m'.scopes.drop (m.scopes.push e).1 }) p (fun _ _ => rfl)
      (fun _ _ => rfl) (fun _ _ _ => rfl) fun m m' h => ⟨⟨h.frames, h.handling, h.depth, by
        rw [show m'.scopes = (m.scopes.push e).2 from h.scopes]
        exact m.scopes.drop_push e⟩, h.idle⟩

instance balanced_deeper (p : Run α) [Balanced quiet p] : Balanced quiet (deeper p) :=
  Balanced.between (fun m => { m with depth := m.depth + 1 })
    (fun _ m => { m with depth := m.depth - 1 }) p (fun _ _ => rfl) (fun _ _ => rfl)
      (fun _ _ _ => rfl)
      fun _ _ h => ⟨⟨h.frames, h.handling, congrArg (· - 1) h.depth, h.scopes⟩, h.idle⟩

instance balanced_handling (e : RuntimeError) (p : Run α) [Balanced quiet p] :
    Balanced quiet (handling e p) :=
  Balanced.between (fun m => { m with handling := e :: m.handling })
    (fun _ m => { m with handling := m.handling.tail }) p (fun _ _ => rfl) (fun _ _ => rfl)
      (fun _ _ _ => rfl)
      fun _ _ h => ⟨⟨h.frames, congrArg List.tail h.handling, h.depth, h.scopes⟩, h.idle⟩

theorem collecting_eq (p : Run α) [h : Balanced False p] (m : Machine) :
    collecting p m = match p (m.withYields [[]]) with
      | .ok _ m' => .ok (m'.yields.headD []).reverse (m'.withYields m.yields)
      | .error e m' => .error e (m'.withYields m.yields) := by
  have hrun : p { m with yields := [] :: m.yields } =
      ensuring p (·.onto [] m.yields) (m.withYields [[]]) :=
    h.holds.collects m [] m.yields
  rw [collecting, hrun, ensuring]
  cases p (m.withYields [[]]) with
  | ok a m' => simp [Machine.onto, Machine.withYields]
  | error e m' => rfl

/-- What a generator runs may yield: it yields to a collector of its own. -/
instance balanced_collecting (p : Run α) [h : Balanced False p] :
    Balanced quiet (collecting p) := by
  have hafter (m : Machine) :
      (collecting p).after m = (p.after (m.withYields [[]])).withYields m.yields := by
    rw [after, after, collecting_eq]
    cases p (m.withYields [[]]) with
    | ok a m' | error e m' => rfl
  refine ⟨.of_apart (fun m ys => ?_) fun m => ?_⟩
  · rw [ensuring, collecting_eq, collecting_eq]
    have hstart : (m.withYields ys).withYields [[]] = m.withYields [[]] := rfl
    rw [hstart]
    cases p (m.withYields [[]]) with
    | ok a m' | error e m' => rfl
  · rw [hafter]
    obtain ⟨hframes, hhandling, hdepth, hscopes⟩ := (h.holds.restores (m.withYields [[]])).toAligned
    exact ⟨hframes, hhandling, hdepth, hscopes⟩

/-- Only here a collector grows. -/
theorem balanced_yields (vs : List Value) (hq : ¬ quiet) : Balanced quiet (yields vs) := by
  refine ⟨fun m => ?_, fun m y ys => ?_, fun h => absurd h hq⟩
  · change m.Restores (after (match m.yields with
      | [] => fail (.runtime .yieldOutsideFunction)
      | collected :: outer =>
        modify fun m => { m with yields := (vs.reverse ++ collected) :: outer }) m)
    cases hy : m.yields with
    | nil => exact ⟨⟨rfl, rfl, rfl, rfl⟩, id⟩
    | cons collected outer =>
      refine ⟨⟨rfl, rfl, rfl, rfl⟩, fun h => ?_⟩
      rw [hy] at h
      cases h
  · change EStateM.Result.ok () (m.withYields ((vs.reverse ++ y) :: ys)) =
      .ok () (m.withYields ((vs.reverse ++ [] ++ y) :: ys))
    rw [List.append_nil]

end Run

end BlockScript
