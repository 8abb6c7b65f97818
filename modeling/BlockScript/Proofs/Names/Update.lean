import BlockScript.Proofs.Names.OnePlace

/-! An augmented assignment to a free name whose write is refused. The operator has been applied by
then, so what the name refers to is as it was before only if the operator leaves its operand alone:
those of built-in values do, except that `+=` extends a list in its place. -/

namespace BlockScript

open Program

/-! ## Operators -/

namespace Evaluator

variable (ev : Evaluator) {op : BinaryOp} {left right v : Value} {m' m : Machine} {p : Run Value}

def Answers (h : Heap) (op : BinaryOp) : Value → Prop
  | .inst _ c => (h.classAttr? c (operatorMethod op)).isSome
  | _ => False

theorem binary_eq_plainBinary (right : Value) (hanswers : ¬ Answers m.heap op left) :
    ev.binary op left right m = ev.plainBinary op left right m := by
  cases left with
  | inst r c =>
    have hattr : m.heap.classAttr? c (operatorMethod op) = none :=
      Option.not_isSome_iff_eq_none.1 hanswers
    unfold binary
    dsimp only
    rw [Run.heap_bind]
    simp only [hattr]
  | _ => rfl

def Extends (op : BinaryOp) (left : Value) : Prop := op = .add ∧ ∃ r, left = .list r

theorem keeps_of_binaryInPlace (hrun : ev.binaryInPlace op left right m = .ok v m')
    (hextends : ¬ Extends op left) (hanswers : ¬ Answers m.heap op left) :
    m.heap.Keeps m'.heap := by
  have hbinary : ev.binaryInPlace op left right = ev.binary op left right := by
    unfold binaryInPlace
    split
    · next r => exact absurd ⟨rfl, r, rfl⟩ hextends
    · rfl
  rw [hbinary, ev.binary_eq_plainBinary right hanswers] at hrun
  exact Run.Keeps.ok hrun

theorem list_of_binaryInPlace {r : ListRef}
    (hrun : ev.binaryInPlace .add (.list r) right m = .ok v m') :
    ∃ extra m1, ev.iterate right m = .ok extra m1 ∧ m'.heap.list r = m1.heap.list r ++ extra := by
  unfold binaryInPlace at hrun
  dsimp only at hrun
  cases hiterate : ev.iterate right m with
  | error e m1 =>
    rw [Run.bind_of_error hiterate] at hrun
    cases hrun
  | ok extra m1 =>
    rw [Run.bind_of_ok hiterate] at hrun
    cases hrun
    exact ⟨extra, m1, rfl, Cells.get_set_self _ _ _⟩

/-! ## Refused writes -/

/-- Why the write of a name is refused. -/
inductive Barred (m : Machine) (name : String) : AssignBar → Prop
  | layer {bar : AssignBar} : m.heap.hasVar m.frame name = false →
    ev.findTarget m.heap name m.scopes.entries = .error (.cannotAssign name bar) →
    Barred m name bar
  /-- The name is a variable of a function around the running code. -/
  | enclosing : m.heap.hasVar m.frame name = false →
    ev.findTarget m.heap name m.scopes.entries = .ok none → m.frame.kind ≠ .module →
    (m.heap.enclosing? name m.env.tail).isSome → Barred m name (.isOuter "nonlocal")
  | module : m.heap.hasVar m.frame name = false →
    ev.findTarget m.heap name m.scopes.entries = .ok none → m.frame.kind ≠ .module →
    m.heap.enclosing? name m.env.tail = none → m.heap.hasVar m.globals name = true →
    Barred m name (.isOuter "global")

variable {ev} {name : String} {m : Machine}

theorem Barred.set_eq {bar : AssignBar} (hbar : ev.Barred m name bar) (v : Value) :
    ev.set name v m = .error (.error (.cannotAssign name bar)) m := by
  have hget : (get : Run Machine) m = .ok m m := rfl
  unfold Evaluator.set
  rw [Run.bind_of_ok hget]
  cases hbar with
  | layer hvar hfind =>
    rw [hvar, hfind]
    rfl
  | enclosing hvar hfind hkind hsome =>
    rw [hvar, hfind]
    change ev.setNew m name v m = _
    unfold setNew
    rw [if_pos (bne_iff_ne.2 hkind), if_pos hsome]
    rfl
  | module hvar hfind hkind hnone hglobal =>
    rw [hvar, hfind]
    change ev.setNew m name v m = _
    unfold setNew
    rw [if_pos (bne_iff_ne.2 hkind), hnone, if_pos hglobal]
    rfl

/-- The operands of `object[index] op= value`, where the object is the runtime object and the index
a name: the value of the name, the value on the right, and the machine once they are there. -/
inductive Operands (ev : Evaluator) (m : Machine) (object index value : Expr) :
    String → Value → Value → Machine → Prop
  | intro {i : Nat} {name : String} {current right : Value} {m₁ m₂ m₃ m₄ : Machine} :
    ev.eval object m = .ok (.object ⟨i, .runtime⟩) m₁ → ev.eval index m₁ = .ok (.str name) m₂ →
    ev.lookup name m₂ = .ok current m₃ → ev.eval value m₃ = .ok right m₄ →
    Operands ev m object index value name current right m₄

theorem getItem_runtime (i : Nat) (name : String) (m : Machine) :
    ev.getItem (.object ⟨i, .runtime⟩) (.str name) m = ev.lookup name m := rfl

theorem setItem_runtime (i : Nat) (name : String) (v : Value) (m : Machine) :
    ev.setItem (.object ⟨i, .runtime⟩) (.str name) v m = ev.set name v m := by
  have hmethod : ev.hasMethod m.heap (.object ⟨i, .runtime⟩) "__setitem__" = true := rfl
  have hcall : ev.callMethod (.object ⟨i, .runtime⟩) "__setitem__"
      { positional := [.str name, v] } = (ev.set name v >>= fun _ => pure .none) := rfl
  unfold setItem
  dsimp only
  rw [Run.heap_bind, if_pos hmethod, hcall, bind_assoc]
  simp only [pure_bind, bind_pure_unit]

theorem Operands.augAssign_eq {object index value : Expr} {current : Value}
    (ho : Operands ev m object index value name current right m') (span : Span) (op : BinaryOp) :
    ev.augAssign (.subscript span object index) op value m =
      (ev.binaryInPlace op current right >>= ev.set name) m' := by
  cases ho with
  | @intro i _ _ _ m1 m2 m3 _ hobject hindex hcurrent hright =>
    rw [← getItem_runtime i] at hcurrent
    unfold augAssign
    dsimp only
    rw [Run.bind_of_ok hobject, Run.bind_of_ok hindex, Run.bind_of_ok hcurrent,
      Run.bind_of_ok hright]
    exact congrArg (fun f => (ev.binaryInPlace op current right >>= f) m')
      (funext fun v => funext fun m => setItem_runtime i name v m)

/-- An augmented assignment whose write is barred ends in that error, with the operator applied.
What built-in operators give is new, so all values keep their contents; only the items that are
added to a list stay in it. -/
theorem refused_update {object index value : Expr} {op : BinaryOp} {current right updated : Value}
    {m₁ m₂ : Machine} {bar : AssignBar} (span : Span)
    (ho : Operands ev m object index value name current right m₁)
    (hop : ev.binaryInPlace op current right m₁ = .ok updated m₂) (hbar : ev.Barred m₂ name bar) :
    ev.augAssign (.subscript span object index) op value m =
      .error (.error (.cannotAssign name bar)) m₂ ∧
      (¬ Extends op current → ¬ Answers m₁.heap op current →
        ∀ v, m₁.heap.HasCell v → m₂.heap.contents v = m₁.heap.contents v) ∧
      ∀ r, op = .add → current = .list r → ∃ extra m', ev.iterate right m₁ = .ok extra m' ∧
        m₂.heap.list r = m'.heap.list r ++ extra := by
  refine ⟨?_, fun hextends hanswers => ?_, ?_⟩
  · rw [ho.augAssign_eq, Run.bind_of_ok hop]
    exact hbar.set_eq updated
  · exact (ev.keeps_of_binaryInPlace hop hextends hanswers).contents
  · rintro r rfl rfl
    exact ev.list_of_binaryInPlace hop

/-- A function is running that binds nothing. The module has a list and a dict, each under two
names. -/
def sharedMachine : Machine where
  heap := {
    lists := ⟨#[[.int 1], [.int 2]]⟩
    dicts := ⟨#[.ofList [(.str "a", .int 1)], .ofList [(.str "b", .int 2)]]⟩
    frames := ⟨#[{ vars := .ofList [("runtime", .object ⟨0, .runtime⟩), ("xs", .list ⟨0⟩),
      ("ys", .list ⟨1⟩), ("d", .dict ⟨0⟩), ("e", .dict ⟨1⟩)] }, {}]⟩ }
  frames := [{ env := [⟨1, .function⟩, ⟨0, .module⟩] }]

/-- `runtime[name] op= value` in the function. -/
def update (name : String) (op : BinaryOp) (value : String) : Run Unit :=
  (ofDepth .none 2).augAssign
    (.subscript default (.name default "runtime") (.str default name)) op (.name default value)

/-- `d |= e` -/
theorem refused_update_dict : ∃ m₂, update "d" .bitOr "e" sharedMachine =
        .error (.error (.cannotAssign "d" (.isOuter "global"))) m₂ ∧
      m₂.heap.contents (.dict ⟨0⟩) = sharedMachine.heap.contents (.dict ⟨0⟩) := by
  have ho : Operands (ofDepth .none 2) sharedMachine (.name default "runtime") (.str default "d")
      (.name default "e") "d" (.dict ⟨0⟩) (.dict ⟨1⟩) sharedMachine := .intro rfl rfl rfl rfl
  have hop : ∃ updated m₂, (ofDepth .none 2).binaryInPlace .bitOr (.dict ⟨0⟩) (.dict ⟨1⟩)
      sharedMachine = .ok updated m₂ ∧ (ofDepth .none 2).Barred m₂ "d" (.isOuter "global") :=
    ⟨_, _, rfl, .module rfl rfl (by decide) rfl rfl⟩
  obtain ⟨updated, m₂, hop, hbar⟩ := hop
  obtain ⟨hend, hkept, -⟩ := refused_update default ho hop hbar
  have hextends : ¬ Extends .bitOr (.dict ⟨0⟩) := fun h => by cases h.1
  exact ⟨m₂, hend, hkept hextends id _ Nat.zero_lt_two⟩

/-- A refused assignment may have had an effect: `xs += ys` -/
theorem refused_update_extends_list : ∃ m₂, update "xs" .add "ys" sharedMachine =
        .error (.error (.cannotAssign "xs" (.isOuter "global"))) m₂ ∧
      sharedMachine.heap.list ⟨0⟩ = [.int 1] ∧ m₂.heap.list ⟨0⟩ = [.int 1, .int 2] :=
  ⟨_, rfl, rfl, rfl⟩

end Evaluator

end BlockScript
