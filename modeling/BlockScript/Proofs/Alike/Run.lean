import BlockScript.Machine.Basic
import BlockScript.Proofs.Alike.Heap

/-! Two runs that keep their machines alike. -/

namespace Option.Rel

open List

variable {α β : Type} {R R' : α → β → Prop} {a a1 : Option α} {b b1 : Option β}

theorem imp (h : Option.Rel R a b) (himp : ∀ a b, R a b → R' a b) : Option.Rel R' a b := by
  cases h with
  | none => exact .none
  | some h => exact .some (himp _ _ h)

theorem isSome_eq (h : Option.Rel R a b) : b.isSome = a.isSome := by
  cases h <;> rfl

theorem isNone_eq (h : Option.Rel R a b) : b.isNone = a.isNone := by
  cases h <;> rfl

theorem orElse (h : Option.Rel R a b) (h1 : Option.Rel R a1 b1) :
    Option.Rel R (a.orElse fun _ => a1) (b.orElse fun _ => b1) := by
  cases h with
  | none => exact h1
  | some h => exact .some h

theorem getD (h : Option.Rel R a b) {x : α} {y : β} (hxy : R x y) : R (a.getD x) (b.getD y) := by
  cases h with
  | none => exact hxy
  | some h => exact h

end Option.Rel

namespace BlockScript

open Program List

variable {e e' : RuntimeError}

section Machines

variable {S : Setting} {w w' : World} {α β : Type}

theorem rel_tail {R : α → β → Prop} {as : List α} {bs : List β} (h : List.Forall₂ R as bs) :
    List.Forall₂ R as.tail bs.tail := by
  cases h with
  | nil => exact .nil
  | cons _ hrest => exact hrest

/-! ## Machines -/

/-- How the lines that two runs have for an error are related. -/
structure Marks where
  Rel : Option Nat → Option Nat → Prop
  unset : Rel none none
  /-- An error that no statement has marked gets the line of the statement it comes out of. -/
  atLine (line : Nat) {a b : Option Nat} :
    Rel a b → Rel (a.orElse fun _ => some line) (b.orElse fun _ => some line)

def Marks.same : Marks := ⟨Eq, rfl, fun _ _ _ h => congrArg (Option.orElse · _) h⟩

namespace RuntimeError

def isRaised : RuntimeError → Bool
  | raised .. => true
  | _ => false

inductive Alike (S : Setting) (w : World) : RuntimeError → RuntimeError → Prop
  | same {e : RuntimeError} : e.isRaised = false → Alike S w e e
  | raised {className message : String} {v v' : Value} : v.Alike S w v' →
    Alike S w (.raised className message v) (.raised className message v')

theorem Alike.mono (hw : w ≤ w') (h : e.Alike S w e') : e.Alike S w' e' := by
  cases h with
  | same he => exact .same he
  | raised hv => exact .raised (hv.mono hw)

end RuntimeError

structure Activation.Alike (S : Setting) (w : World) (a a' : Activation) : Prop where
  env_eq : a'.env = a.env
  env : w.HasEnv a.env
  delegate : Option.Rel (Value.Alike S w) a.delegate a'.delegate

inductive ScopeEntry.Alike (S : Setting) (w : World) : ScopeEntry → ScopeEntry → Prop
  | object {v v' : Value} : v.Alike S w v' → Alike S w (.object v) (.object v')
  | locals {r : FrameRef} : w.HasFrame r → Alike S w (.locals r) (.locals r)

structure Machine.Alike (S : Setting) (w : World) (m m' : Machine) (marks : Marks := .same) :
    Prop where
  heap : m.heap.Alike S w m'.heap
  builtins : MapAlike S w m.builtins m'.builtins
  globals : m.globals = w.globals
  globals' : m'.globals = w.globals
  frames : List.Forall₂ (Activation.Alike S w) m.frames m'.frames
  scopes : List.Forall₂ (ScopeEntry.Alike S w) m.scopes.entries m'.scopes.entries
  modules : MapAlike S w m.modules m'.modules
  output_eq : m'.output = m.output
  yields : List.Forall₂ (List.Forall₂ (Value.Alike S w)) m.yields m'.yields
  handling : List.Forall₂ (RuntimeError.Alike S w) m.handling m'.handling
  depth_eq : m'.depth = m.depth
  errorLine : marks.Rel m.errorLine m'.errorLine

theorem Activation.Alike.mono (hw : w ≤ w') {a a' : Activation} (h : a.Alike S w a') :
    a.Alike S w' a' :=
  ⟨h.env_eq, h.env.mono hw, h.delegate.imp fun _ _ => Value.Alike.mono hw⟩

theorem ScopeEntry.Alike.mono (hw : w ≤ w') {e e' : ScopeEntry} (h : e.Alike S w e') :
    e.Alike S w' e' := by
  cases h with
  | object hv => exact .object (hv.mono hw)
  | locals hr => exact .locals (hr.mono hw)

namespace Machine.Alike

variable {m m' : Machine} {marks : Marks} (hm : m.Alike S w m' marks)

include hm

theorem withHeap (hw : w ≤ w') {h h' : Heap} (hh : h.Alike S w' h') :
    Machine.Alike S w' { m with heap := h } { m' with heap := h' } marks where
  heap := hh
  builtins := hm.builtins.mono hw
  globals := hm.globals.trans hw.globals.symm
  globals' := hm.globals'.trans hw.globals.symm
  frames := hm.frames.imp fun _ _ => Activation.Alike.mono hw
  scopes := hm.scopes.imp fun _ _ => ScopeEntry.Alike.mono hw
  modules := hm.modules.mono hw
  output_eq := hm.output_eq
  yields := hm.yields.imp fun _ _ => Value.Alike.mono_all hw
  handling := hm.handling.imp fun _ _ => RuntimeError.Alike.mono hw
  depth_eq := hm.depth_eq
  errorLine := hm.errorLine

theorem withLine {marks' : Marks} {line line' : Option Nat} (h : marks'.Rel line line') :
    Machine.Alike S w { m with errorLine := line } { m' with errorLine := line' } marks' :=
  { hm with errorLine := h }

theorem env_eq : m'.env = m.env := by
  rw [Machine.env, Machine.env, hm.globals, hm.globals']
  match m.frames, m'.frames, hm.frames with
  | _, _, .nil => rfl
  | _, _, .cons ha _ => exact ha.env_eq

theorem env : w.HasEnv m.env := by
  rw [Machine.env, hm.globals]
  match m.frames, m'.frames, hm.frames with
  | _, _, .nil =>
    refine ⟨fun r hr => ?_, pairwise_singleton .., mem_singleton_self _⟩
    rw [mem_singleton.1 hr]
    exact hm.heap.module
  | _, _, .cons ha _ => exact ha.env

theorem frame_eq : m'.frame = m.frame := by
  rw [Machine.frame, Machine.frame, hm.env_eq, hm.globals, hm.globals']

theorem frame : w.HasFrame m.frame := by
  have henv := hm.env
  rw [Machine.frame]
  generalize m.env = env at henv
  cases env with
  | nil => cases henv.module
  | cons r rest => exact henv.frames r mem_cons_self

theorem delegate? : Option.Rel (Value.Alike S w) m.delegate? m'.delegate? := by
  rw [Machine.delegate?, Machine.delegate?]
  match m.frames, m'.frames, hm.frames with
  | _, _, .nil => exact .none
  | _, _, .cons ha _ => exact ha.delegate

end Machine.Alike

/-- Results of pure computations that are alike. -/
inductive ExceptAlike (S : Setting) (w : World) {α β : Type} (R : α → β → Prop) :
    Except RuntimeError α → Except RuntimeError β → Prop
  | ok {a : α} {b : β} : R a b → ExceptAlike S w R (.ok a) (.ok b)
  | error {e e' : RuntimeError} : e.Alike S w e' → ExceptAlike S w R (.error e) (.error e')

/-- What holds later if it holds now. -/
def World.Mono {α β : Type} (R : World → α → β → Prop) : Prop :=
  ∀ ⦃w w' : World⦄, w ≤ w' → ∀ ⦃a b⦄, R w a b → R w' a b

theorem World.mono_value : World.Mono (Value.Alike S) := fun _ _ hw _ _ hv => hv.mono hw

theorem World.mono_const {R : α → β → Prop} : World.Mono fun _ => R :=
  fun _ _ _ _ _ h => h

end Machines

/-! ## Runs -/

/-- Where two runs are compared, which of them the bound on recursion may cut off alone, and how the
lines they have for errors are related. -/
structure Pairing extends Setting where
  firstCut : Prop := False
  secondCut : Prop := False
  marks : Marks := .same

instance : Coe Pairing Setting := ⟨Pairing.toSetting⟩

namespace Run

open List

variable {S : Pairing} {w w' : World} {α β γ δ : Type}

/-- How alike runs end: with alike results, with alike errors, or cut off. -/
inductive EndAlike (S : Pairing) (w : World) (Q : World → α → β → Prop) :
    Run.Result α → Run.Result β → Prop
  | ok {w' : World} {a : α} {b : β} {m m' : Machine} : w ≤ w' →
    m.Alike S w' m' S.marks → Q w' a b →
    EndAlike S w Q (.ok a m) (.ok b m')
  | error {w' : World} {e e' : RuntimeError} {m m' : Machine} : w ≤ w' →
    m.Alike S w' m' S.marks → e.Alike S w' e' → EndAlike S w Q (.error (.error e) m)
      (.error (.error e') m')
  | cut {m m' : Machine} : EndAlike S w Q (.error .exhausted m) (.error .exhausted m')
  | firstCut {m : Machine} {r : Run.Result β} : S.firstCut →
    EndAlike S w Q (.error .exhausted m) r
  | secondCut {r : Run.Result α} {m : Machine} : S.secondCut →
    EndAlike S w Q r (.error .exhausted m)

def isCut : Run.Result α → Bool
  | .error .exhausted _ => true
  | _ => false

/-- Runs that end alike from alike machines. -/
def Alike (S : Pairing) (w : World) (Q : World → α → β → Prop) (p : Run α) (q : Run β) : Prop :=
  ∀ m m', m.Alike S w m' S.marks → EndAlike S w Q (p m) (q m')

abbrev ValueAlike (S : Pairing) (w : World) (p q : Run Value) : Prop :=
  Alike S w (Value.Alike S) p q

abbrev EqAlike (S : Pairing) (w : World) (p q : Run α) : Prop := Alike S w (fun _ => Eq) p q

/-- Runs that read alike machines and leave them as they are, also where they fail. -/
def ReadAlike (S : Pairing) (w : World) (Q : α → β → Prop) (p : Run α) (q : Run β) : Prop :=
  ∀ m m', m.Alike S w m' S.marks → ∃ x y, p m = ofExcept x m ∧ q m' = ofExcept y m' ∧
    ExceptAlike S w Q x y

variable {Q Q' : World → α → β → Prop} {p : Run α} {q : Run β} {x : Except RuntimeError α}
  {y : Except RuntimeError β}

theorem EndAlike.le (hw : w ≤ w') {r : Run.Result α}
    {r' : Run.Result β} (h : EndAlike S w' Q r r') :
    EndAlike S w Q r r' := by
  cases h with
  | ok hle hm hq => exact .ok (World.le_trans hw hle) hm hq
  | error hle hm he => exact .error (World.le_trans hw hle) hm he
  | cut => exact .cut
  | firstCut h => exact .firstCut h
  | secondCut h => exact .secondCut h

namespace ReadAlike

variable {P : α → β → Prop} {p p' : Run α} {q q' : Run β}

theorem ofExcept (h : ExceptAlike S w P x y) : ReadAlike S w P (Run.ofExcept x) (Run.ofExcept y) :=
  fun _ _ _ => ⟨x, y, rfl, rfl, h⟩

theorem pure {a : α} {b : β} (h : P a b) : ReadAlike S w P (pure a) (pure b) := ofExcept (.ok h)

theorem fail (h : e.isRaised = false) :
    ReadAlike S w P (Run.fail e) (Run.fail e) := ofExcept (.error (.same h))

end ReadAlike

namespace Alike

theorem pure {a : α} {b : β} (h : Q w a b) : Alike S w Q (pure a) (pure b) :=
  fun _ _ hm => .ok w.le_refl hm h

variable {R P : World → γ → δ → Prop} {f : α → Run γ} {g : β → Run δ} {e : RuntimeError}
  {xs : List α}

theorem bind (h : Alike S w Q p q) (hfg : ∀ w', w ≤ w' → ∀ a b, Q w' a b →
      Alike S w' R (f a) (g b)) :
    Alike S w R (p >>= f) (q >>= g) := by
  intro m m' hm
  change EndAlike S w R (EStateM.bind p f m) (EStateM.bind q g m')
  unfold EStateM.bind
  generalize p m = r, q m' = r', h m m' hm = hr
  cases hr with
  | ok hw hm hq => exact (hfg _ hw _ _ hq _ _ hm).le hw
  | error hw hm he => exact .error hw hm he
  | cut => exact .cut
  | firstCut h => exact .firstCut h
  | secondCut h => cases r <;> exact .secondCut h

theorem bind_eq {q : Run α} {g : α → Run δ} (h : EqAlike S w p q)
    (hfg : ∀ w', w ≤ w' → ∀ a, Alike S w' R (f a) (g a)) : Alike S w R (p >>= f) (q >>= g) :=
  h.bind fun w' hw a _ hab => hab ▸ hfg w' hw a

theorem andThen {p q : Run Unit} {p' : Run γ} {q' : Run δ} (h : EqAlike S w p q)
    (h' : ∀ w', w ≤ w' → Alike S w' R p' q') :
    Alike S w R (p >>= fun _ => p') (q >>= fun _ => q') :=
  h.bind_eq fun w' hw _ => h' w' hw

theorem ite {c : Prop} [Decidable c] {p' : Run α} {q' : Run β} (h : c → Alike S w Q p q)
    (h' : ¬c → Alike S w Q p' q') : Alike S w Q (if c then p else p') (if c then q else q') := by
  split
  · exact h ‹_›
  · exact h' ‹_›

/-! ### Errors -/

theorem fail (h : e.Alike S w e') : Alike S w Q (Run.fail e) (Run.fail e') :=
  fun _ _ hm => .error w.le_refl hm h

theorem fail_same (h : e.isRaised = false) : Alike S w Q (Run.fail e) (Run.fail e) := fail (.same h)

theorem fail_bind (h : e.Alike S w e') : Alike S w R (Run.fail e >>= f) (Run.fail e' >>= g) :=
  bind (Q := fun _ _ _ => False) (fail h) fun _ _ _ _ h => h.elim

theorem typeError (fault : TypeFault) : Alike S w Q (Run.typeError fault) (Run.typeError fault) :=
  fail_same rfl

theorem valueError (fault : ValueFault) :
    Alike S w Q (Run.valueError fault) (Run.valueError fault) := fail_same rfl

theorem attempt (h : Alike S w Q p q) :
    Alike S w (fun w => ExceptAlike S w (Q w)) (Run.attempt p) (Run.attempt q) := by
  intro m m' hm
  unfold Run.attempt
  generalize p m = r, q m' = r', h m m' hm = hr
  cases hr with
  | ok hw hm hq => exact .ok hw hm (.ok hq)
  | error hw hm he => exact .ok hw hm (.error he)
  | cut => exact .cut
  | firstCut h => exact .firstCut h
  | secondCut h => exact .secondCut h

theorem ensuring {after after' : Machine → Machine} (h : Alike S w Q p q)
    (hafter : ∀ w', w ≤ w' → ∀ m m', m.Alike S w' m' S.marks →
      (after m).Alike S w' (after' m') S.marks) :
    Alike S w Q (Run.ensuring p after) (Run.ensuring q after') := by
  intro m m' hm
  unfold Run.ensuring
  generalize p m = r, q m' = r', h m m' hm = hr
  cases hr with
  | ok hw hm hq => exact .ok hw (hafter _ hw _ _ hm) hq
  | error hw hm he => exact .error hw (hafter _ hw _ _ hm) he
  | cut => exact .cut
  | firstCut h => exact .firstCut h
  | secondCut h => cases r <;> exact .secondCut h

/-! ### Reading -/

theorem get_bind {f : Machine → Run γ} {g : Machine → Run δ}
    (h : ∀ m m', m.Alike S w m' S.marks → Alike S w R (f m) (g m')) :
    Alike S w R (get >>= f) (get >>= g) := fun m m' hm => h m m' hm m m' hm

theorem heap_bind {f : Heap → Run γ} {g : Heap → Run δ}
    (h : ∀ h h', h.Alike S w h' → Alike S w R (f h) (g h')) :
    Alike S w R (Run.heap >>= f) (Run.heap >>= g) := fun m m' hm => h _ _ hm.heap m m' hm

theorem read_bind {P : α → β → Prop} (hpq : ReadAlike S w P p q)
    (h : ∀ a b, P a b → Alike S w R (f a) (g b)) : Alike S w R (p >>= f) (q >>= g) := by
  intro m m' hm
  obtain ⟨x, y, hp, hq, hxy⟩ := hpq m m' hm
  change EndAlike S w R (EStateM.bind p f m) (EStateM.bind q g m')
  unfold EStateM.bind
  rw [hp, hq]
  cases hxy with
  | ok hab => exact h _ _ hab m m' hm
  | error he => exact .error w.le_refl hm he

theorem read_bind_eq {q : Run α} {g : α → Run δ} (hpq : ReadAlike S w Eq p q)
    (h : ∀ a, Alike S w R (f a) (g a)) :
    Alike S w R (p >>= f) (q >>= g) := read_bind hpq fun a _ hab => hab ▸ h a

theorem of_read (hpq : ReadAlike S w (Q w) p q) : Alike S w Q p q := by
  intro m m' hm
  obtain ⟨x, y, hp, hq, hxy⟩ := hpq m m' hm
  rw [hp, hq]
  cases hxy with
  | ok hab => exact .ok w.le_refl hm hab
  | error he => exact .error w.le_refl hm he

theorem ofExcept (h : ExceptAlike S w (Q w) x y) : Alike S w Q (Run.ofExcept x) (Run.ofExcept y) :=
  of_read (.ofExcept h)

theorem orExhausted {x : Option α} {y : Option β} (h : Option.Rel (Q w) x y) :
    Alike S w Q (Run.orExhausted x) (Run.orExhausted y) := by
  cases h with
  | none => exact fun _ _ _ => .cut
  | some h => exact .pure h

theorem orExhausted_same (x : Option α) : EqAlike S w (Run.orExhausted x) (Run.orExhausted x) := by
  cases x with
  | none => exact .orExhausted .none
  | some a => exact .orExhausted (.some rfl)

/-! ### Changing the machine -/

theorem modify {Q : World → Unit → Unit → Prop} {f g : Machine → Machine} (hQ : Q w () ())
    (h : ∀ m m', m.Alike S w m' S.marks → (f m).Alike S w (g m') S.marks) :
    Alike S w Q (modify f) (modify g) := fun m m' hm => .ok w.le_refl (h m m' hm) hQ

theorem modifyHeap {Q : World → Unit → Unit → Prop} {f g : Heap → Heap} (hQ : Q w () ())
    (h : ∀ h h', h.Alike S w h' → (f h).Alike S w (g h')) :
    Alike S w Q (Run.modifyHeap f) (Run.modifyHeap g) :=
  modify hQ fun _ _ hm => hm.withHeap w.le_refl (h _ _ hm.heap)

theorem alloc {f : Heap → α × Heap} {g : Heap → β × Heap}
    (h : ∀ h h', h.Alike S w h' → Q w (f h).1 (g h').1 ∧ (f h).2.Alike S w (g h').2) :
    Alike S w Q (Run.alloc f) (Run.alloc g) := fun _ _ hm =>
  .ok w.le_refl (hm.withHeap w.le_refl (h _ _ hm.heap).2) (h _ _ hm.heap).1

theorem fresh : Alike S w World.ids Run.fresh Run.fresh := by
  intro m m' hm
  have hlater := hm.heap.later w.le_next rfl
  refine .ok w.le_next (hm.withHeap w.le_next ?_) ?_
  · change Heap.Alike S w.next { m.heap with fresh := m.heap.fresh + 1 }
      { m'.heap with fresh := m'.heap.fresh + 1 }
    rw [hm.heap.fresh, hm.heap.fresh']
    exact hlater
  · rw [hm.heap.fresh, hm.heap.fresh']
    exact w.ids_next

/-- Both runs make a cell at the same place, and give a value that refers to it. -/
theorem made {f g : Heap → α × Heap} {v : α → Value}
    (h : ∀ h h', h.Alike S w h' → (g h').1 = (f h).1 ∧ (f h).2.Alike S w (g h').2)
    (hv : ∀ w r, (v r).Alike S w (v r)) :
    ValueAlike S w (do return v (← Run.alloc f)) (do return v (← Run.alloc g)) :=
  .bind_eq (alloc fun _ _ hh => (h _ _ hh).imp Eq.symm id) fun w _ r => pure (hv w r)

variable {items items' : List Value} {ys : List β} {c : γ} {d : δ}

theorem newList (hi : Values.Alike S w items items') :
    ValueAlike S w (Run.newList items) (Run.newList items') :=
  made (fun _ _ hh => hh.newList hi) fun _ => .list

theorem newDict {d d' : Dict} (hd : MapAlike S w d d') :
    ValueAlike S w (Run.newDict d) (Run.newDict d') :=
  made (fun _ _ hh => hh.newDict hd) fun _ => .dict

theorem newSpace {a a' : Attrs} (ha : MapAlike S w a a') :
    ValueAlike S w (Run.newSpace a) (Run.newSpace a') :=
  made (fun _ _ hh => hh.newSpace ha) fun _ => .space

theorem newTuple (hi : Values.Alike S w items items') :
    ValueAlike S w (Run.newTuple items) (Run.newTuple items') :=
  bind fresh fun _ hw _ _ hids => pure (.tuple hids (Value.Alike.mono_all hw hi))

theorem print (text : String) : EqAlike S w (Run.print text) (Run.print text) :=
  modify rfl fun _ _ hm => { hm with output_eq := congrArg (text :: ·) hm.output_eq }

theorem withFrame {call call' : Activation} (hcall : call.Alike S w call') (h : Alike S w Q p q) :
    Alike S w Q (Run.withFrame call p) (Run.withFrame call' q) := by
  intro m m' hm
  refine (ensuring h fun w' _ m m' hm => ?_) _ _ { hm with frames := .cons hcall hm.frames }
  exact { hm with frames := rel_tail hm.frames }

theorem withScope {e e' : ScopeEntry} (he : e.Alike S w e') (h : Alike S w Q p q) :
    Alike S w Q (Run.withScope e p) (Run.withScope e' q) := by
  intro m m' hm
  have hdepth := hm.scopes.length_eq
  have hpushed : Machine.Alike S w { m with scopes := (m.scopes.push e).2 }
      { m' with scopes := (m'.scopes.push e').2 } S.marks :=
      { hm with scopes := .cons he hm.scopes }
  refine (ensuring h fun w' _ n n' hn => ?_) _ _ hpushed
  refine { hn with scopes := ?_ }
  change List.Forall₂ _ (n.scopes.entries.drop (n.scopes.entries.length - m.scopes.entries.length))
    (n'.scopes.entries.drop (n'.scopes.entries.length - m'.scopes.entries.length))
  rw [← hdepth, ← hn.scopes.length_eq]
  exact forall₂_drop _ hn.scopes

/-! ### Lists -/

theorem mapM {R : World → α → β → Prop} (hR : World.Mono R) (hP : World.Mono P)
    (hxs : List.Forall₂ (R w) xs ys) (hfg : ∀ w', w ≤ w' → ∀ a b, R w' a b →
      Alike S w' P (f a) (g b)) :
    Alike S w (fun w => List.Forall₂ (P w)) (xs.mapM f) (ys.mapM g) := by
  induction xs generalizing w ys with
  | nil =>
    cases hxs
    exact pure .nil
  | cons x xs ih =>
    obtain ⟨y, ys, hx, hrest, rfl⟩ := forall₂_cons_left_iff.1 hxs
    rw [mapM_cons, mapM_cons]
    refine bind (hfg w w.le_refl _ _ hx) fun w1 hw1 c d hcd => ?_
    refine bind (ih (hrest.imp fun _ _ => @hR _ _ hw1 _ _) fun w' hw' =>
      hfg w' (World.le_trans hw1 hw'))
      fun w2 hw2 cs ds hcds => ?_
    exact pure (.cons (hP hw2 hcd) hcds)

theorem foldlM {R : World → α → β → Prop} (hR : World.Mono R) {f : γ → α → Run γ}
    {g : δ → β → Run δ} (hcd : P w c d) (hxs : List.Forall₂ (R w) xs ys)
    (hfg : ∀ w', w ≤ w' → ∀ c d, P w' c d → ∀ a b, R w' a b → Alike S w' P (f c a) (g d b)) :
    Alike S w P (xs.foldlM f c) (ys.foldlM g d) := by
  induction xs generalizing w c d ys with
  | nil =>
    cases hxs
    exact pure hcd
  | cons x xs ih =>
    obtain ⟨y, ys, hx, hrest, rfl⟩ := forall₂_cons_left_iff.1 hxs
    rw [foldlM_cons, foldlM_cons]
    refine bind (hfg w w.le_refl _ _ hcd _ _ hx) fun w1 hw1 c d hcd => ?_
    exact ih hcd (hrest.imp fun _ _ => @hR _ _ hw1 _ _) fun w' hw' =>
      hfg w' (World.le_trans hw1 hw')

theorem mapM_mem (hP : World.Mono P) {g : α → Run δ}
    (hfg : ∀ w', w ≤ w' → ∀ x ∈ xs, Alike S w' P (f x) (g x)) :
    Alike S w (fun w => List.Forall₂ (P w)) (xs.mapM f) (xs.mapM g) :=
  mapM (R := fun _ a b => b = a ∧ a ∈ xs) World.mono_const hP
    (forall₂_same.2 fun _ hx => ⟨rfl, hx⟩) fun w' hw a _ h => h.1 ▸ hfg w' hw a h.2

theorem foldlM_mem {f : γ → α → Run γ} {g : δ → α → Run δ} (hcd : P w c d)
    (hfg : ∀ w', w ≤ w' → ∀ c d, P w' c d → ∀ x ∈ xs, Alike S w' P (f c x) (g d x)) :
    Alike S w P (xs.foldlM f c) (xs.foldlM g d) :=
  foldlM (R := fun _ a b => b = a ∧ a ∈ xs) World.mono_const hcd
    (forall₂_same.2 fun _ hx => ⟨rfl, hx⟩) fun w' hw c d hcd a _ h => h.1 ▸ hfg w' hw c d hcd a h.2

theorem forM {P : World → Unit → Unit → Prop} (hP : ∀ w, P w () ()) {f g : α → Run Unit}
    (hfg : ∀ w', w ≤ w' → ∀ x ∈ xs, Alike S w' P (f x) (g x)) :
    Alike S w P (xs.forM f) (xs.forM g) := by
  induction xs generalizing w with
  | nil => exact pure (hP w)
  | cons x xs ih =>
    refine bind (hfg w w.le_refl x mem_cons_self) fun w1 hw1 _ _ _ => ?_
    exact ih fun w' hw' y hy => hfg w' (World.le_trans hw1 hw') y (mem_cons_of_mem x hy)

theorem allM {f g : α → Run Bool} (hfg : ∀ w', w ≤ w' → ∀ x ∈ xs, EqAlike S w' (f x) (g x)) :
    EqAlike S w (xs.allM f) (xs.allM g) := by
  induction xs generalizing w with
  | nil => exact pure rfl
  | cons x xs ih =>
    refine bind (hfg w w.le_refl x mem_cons_self) fun w1 hw1 a b hab => ?_
    cases hab
    cases a with
    | true =>
      exact ih fun w' hw' y hy => hfg w' (World.le_trans hw1 hw') y (mem_cons_of_mem x hy)
    | false => exact pure rfl

end Alike

end Run

end BlockScript
