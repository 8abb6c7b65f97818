import BlockScript.Proofs.Balance.Evaluation
import BlockScript.Proofs.Order

/-! Methods of lists and dicts that fail. Whatever can fail comes before the first write: the
arguments are checked, iterated, converted and compared, and only then the receiver is changed. -/

namespace BlockScript

/-- A value whose items are known without running code of the program or of the application. -/
def Value.isBuiltIn : Value → Bool
  | .inst .. | .object _ => false
  | _ => true

def Args.BuiltIn (args : Args) (h : Heap) : Prop :=
  ∀ v ∈ args.positional, v.isBuiltIn = true ∧ ∀ item ∈ h.held v, item.isBuiltIn = true

theorem Args.BuiltIn.get {args : Args} {h : Heap} (hargs : args.BuiltIn h) (i : Nat) :
    (args.get i).isBuiltIn = true := by
  unfold Args.get Args.get?
  cases hv : args.positional[i]? with
  | none => rfl
  | some v => exact (hargs v (List.mem_of_getElem? hv)).1

namespace Run

variable {α β : Type} {p : Run α} {f : α → Run β} {m : Machine}

/-- If the run fails from this machine, all cells have in them what they had. -/
class Atomic (m : Machine) (p : Run α) : Prop where
  error : ∀ {e m'}, p m = .error e m' → m.Keeps m'

instance atomic_of_keeps (p : Run α) [Keeps p] : Atomic m p := ⟨Keeps.error⟩

theorem Atomic.bind [Keeps p] (hf : ∀ a m', p m = .ok a m' → Atomic m' (f a)) :
    Atomic m (p >>= f) := by
  refine ⟨fun {e m'} hrun => ?_⟩
  cases hp : p m with
  | ok a m'' =>
    rw [bind_of_ok hp] at hrun
    exact .trans (Keeps.ok hp) ((hf a m'' hp).error hrun)
  | error e' m'' =>
    rw [bind_of_error hp] at hrun
    cases hrun
    exact Keeps.error hp

theorem Atomic.andThen [Keeps p] (hf : ∀ a m', Atomic m' (f a)) : Atomic m (p >>= f) :=
  .bind fun a m' _ => hf a m'

instance atomic_bind (p : Run α) (f : α → Run β) [Keeps p] [hf : ∀ a m', Atomic m' (f a)] :
    Atomic m (p >>= f) := .andThen hf

/-- A write is the last thing that a method does. -/
instance atomic_write (f : Heap → Heap) (a : α) : Atomic m (modifyHeap f >>= fun _ => pure a) :=
  ⟨fun hrun => by cases hrun⟩

end Run

open Run

namespace Evaluator

variable {host : Host} {n : Nat} {v : Value} {m : Machine} {args : Args} {name : String}

theorem keeps_iterate (host : Host) (n : Nat) (hv : v.isBuiltIn = true) :
    Keeps ((ofDepth host n).iterate v) := by
  cases n with
  | zero => exact follows_throw _
  | succ n =>
    change Keeps ((ofDepth host n).items v)
    cases v with
    | inst | object => cases hv
    | _ =>
      unfold items
      infer_instance

/-- The items of a built-in value other than a dict: what it holds, or characters. -/
theorem isBuiltIn_of_iterate {items : List Value} {m' : Machine} (hv : v.isBuiltIn = true)
    (hheld : ∀ item ∈ m.heap.held v, item.isBuiltIn = true) (hdict : ∀ r, v ≠ .dict r)
    (hrun : (ofDepth host n).iterate v m = .ok items m') :
    ∀ item ∈ items, item.isBuiltIn = true := by
  cases n with
  | zero => cases hrun
  | succ n =>
    change (ofDepth host n).items v m = .ok items m' at hrun
    cases v with
    | inst | object => cases hv
    | dict r => exact absurd rfl (hdict r)
    | list | tuple =>
      cases hrun
      exact hheld
    | str s =>
      cases hrun
      exact List.forall_mem_map.2 fun _ _ => rfl
    | _ => cases hrun

theorem keeps_pairOf (host : Host) (n : Nat) (hv : v.isBuiltIn = true) :
    Keeps ((ofDepth host n).pairOf v) := by
  have := keeps_iterate host n hv
  unfold pairOf
  refine .andThen fun items => ?_
  split
  · infer_instance
  · infer_instance

theorem keeps_sorted (ev : Evaluator) (items : List Value) {key : Value} (hkey : key.isNone = true)
    (reverse : Bool) : Keeps (ev.sorted items key reverse) := by
  have (item : Value) : Keeps (ev.keyOf key item) := by
    unfold keyOf
    rw [if_pos hkey]
    infer_instance
  unfold sorted
  infer_instance

theorem atomic_listMethod (r : ListRef) (hargs : (args.get 0).isBuiltIn = true)
    (hkey : name = "sort" → ((args.keyword? "key").getD .none).isNone = true) :
    Atomic m ((ofDepth host n).listMethod r name args) := by
  have := keeps_iterate host n hargs
  unfold listMethod
  split
  case h_8 =>
    have (items : List Value) := (ofDepth host n).keeps_sorted items (hkey rfl)
    dsimp only [modifyList]
    split
    · infer_instance
    · infer_instance
  all_goals
    dsimp only [listPop, listInsert, modifyList]
    repeat' first | infer_instance | split | refine .andThen fun _ _ => ?_

/-- The pairs are collected before the first of them is written. -/
theorem atomic_update (hargs : args.BuiltIn m.heap) (r : DictRef) :
    Atomic m ((ofDepth host n).dictMethod r "update" args) := by
  change Atomic m ((ofDepth host n).pairsOfArgs "update" args >>= fun pairs =>
    modifyHeap (fun h => h.setDict r ((h.dict r).insertAll pairs)) >>= fun _ => pure Value.none)
  unfold pairsOfArgs pairsOf
  cases hget : args.get? 0 with
  | none => infer_instance
  | some v =>
    obtain ⟨hv, hheld⟩ := hargs v (List.mem_of_getElem? hget)
    dsimp only
    split
    · exact ⟨fun hrun => by cases hrun; exact .refl _⟩
    simp only [bind_assoc]
    split
    · infer_instance
    · infer_instance
    · next hdict _ =>
      have := keeps_iterate host n hv
      simp only [bind_assoc]
      refine .bind fun items m' hrun => ?_
      have hitems := isBuiltIn_of_iterate hv hheld hdict hrun
      have := Follows.mapM fun item hitem => keeps_pairOf host n (hitems item hitem)
      infer_instance

theorem atomic_dictMethod (hname : name ≠ "update") (r : DictRef) :
    Atomic m ((ofDepth host n).dictMethod r name args) := by
  unfold dictMethod modifyDict
  split
  case h_5 => exact absurd rfl hname
  all_goals repeat' first | infer_instance | split | refine .andThen fun _ _ => ?_

/-- A call of a method of a list or a dict that fails, with built-in arguments and for `sort`
without a key function, leaves the receiver with the contents it had, in their order. -/
theorem failed_method_changes_nothing {receiver : Value} {m' : Machine} {e : Halt RuntimeError}
    (hreceiver : (∃ r, receiver = .list r) ∨ ∃ r, receiver = .dict r)
    (hcell : m.heap.HasCell receiver)
    (hargs : args.BuiltIn m.heap)
    (hkey : name = "sort" → ((args.keyword? "key").getD .none).isNone = true)
    (hrun : (ofDepth host n).callMethod receiver name args m = .error e m') :
    m'.heap.contents receiver = m.heap.contents receiver := by
  refine Heap.Keeps.contents ?_ receiver hcell
  rcases hreceiver with ⟨r, rfl⟩ | ⟨r, rfl⟩
  · exact (atomic_listMethod r (hargs.get 0) hkey).error hrun
  · by_cases hname : name = "update"
    · subst hname
      exact (atomic_update hargs r).error hrun
    · exact (atomic_dictMethod hname r).error hrun

/-- An empty dict, and a list of two pairs of which the second has one item. -/
def halfPaired : Machine :=
  { heap := {
      lists := ⟨#[[.tuple 0 [.str "a", .int 1], .tuple 1 [.str "b"]]]⟩
      dicts := ⟨#[.empty]⟩ } }

theorem failed_method_changes_nothing_update : ∃ e m',
    (ofDepth .none 2).callMethod (.dict ⟨0⟩) "update" { positional := [.list ⟨0⟩] } halfPaired =
      .error (.error e) m' ∧ m'.heap.contents (.dict ⟨0⟩) = .entries .empty := by
  have hargs : Args.BuiltIn { positional := [.list ⟨0⟩] } halfPaired.heap := by
    unfold Args.BuiltIn
    decide
  have hrun : (ofDepth .none 2).callMethod (.dict ⟨0⟩) "update" { positional := [.list ⟨0⟩] }
      halfPaired = .error (.error (.value (.pairLength 1))) halfPaired := rfl
  have hcell : halfPaired.heap.HasCell (.dict ⟨0⟩) := Nat.zero_lt_one
  refine ⟨_, _, hrun, failed_method_changes_nothing (.inr ⟨⟨0⟩, rfl⟩) hcell hargs ?_ hrun⟩
  exact fun hname => absurd hname (by decide)

end Evaluator

end BlockScript
