import Mathlib.Data.List.Perm.Basic
import BlockScript.Proofs.Outline.Definition
import BlockScript.Proofs.Outline.Order

/-! How often closures are defined in a compiled program. A closure is defined once for every
statement that mentions it, and every definition brings the statements of the closure with it. -/

namespace BlockScript.Compile

open Program Stmt List

/-! ## Unfolding of calls -/

section

variable (calls : String → List String)

/-- `id` and what it calls, directly or not, as often as there are ways of calling it. -/
def unfolding : Nat → String → List String
  | 0, _ => []
  | n + 1, id => id :: (calls id).flatMap (unfolding n)

/-- Calls that end within `n` steps. -/
def Settled : Nat → String → Prop
  | 0, _ => False
  | n + 1, id => ∀ x ∈ calls id, Settled n x

/-- What is called from `roots`, directly or not. -/
inductive Reached (roots : List String) : String → Prop where
  | root {id : String} : id ∈ roots → Reached roots id
  | call {id caller : String} : Reached roots caller → id ∈ calls caller → Reached roots id

variable {calls}

/-- All that is unfolded from `zs` is `zs` itself and what is called by what is unfolded. -/
theorem perm_unfolding {n : Nat} {zs : List String} (h : ∀ id ∈ zs, Settled calls n id) :
    (zs.flatMap (unfolding calls n)).Perm
      (zs ++ (zs.flatMap (unfolding calls n)).flatMap calls) := by
  induction n generalizing zs with
  | zero =>
    cases zs with
    | nil => rfl
    | cons z zs => exact (h z mem_cons_self).elim
  | succ n ih =>
    have hcalls : ∀ id ∈ zs.flatMap calls, Settled calls n id := by
      intro x hx
      obtain ⟨id, hid, hx⟩ := mem_flatMap.1 hx
      exact h id hid x hx
    have hstep : (zs.flatMap (unfolding calls (n + 1))).Perm
        (zs ++ (zs.flatMap calls).flatMap (unfolding calls n)) := by
      have := (map_append_flatMap_perm zs id fun id => (calls id).flatMap (unfolding calls n)).symm
      rwa [map_id, ← flatMap_assoc] at this
    have hmore : ((zs.flatMap (unfolding calls (n + 1))).flatMap calls).Perm
        (zs.flatMap calls ++ ((zs.flatMap calls).flatMap (unfolding calls n)).flatMap calls) := by
      rw [← flatMap_append]
      exact hstep.flatMap_right calls
    exact hstep.trans (((ih hcalls).trans hmore.symm).append_left zs)

theorem reached_of_mem_unfolding {roots : List String} {n : Nat} {id x : String}
    (hid : Reached calls roots id) (hx : x ∈ unfolding calls n id) : Reached calls roots x := by
  induction n generalizing id with
  | zero => cases hx
  | succ n ih =>
    rcases mem_cons.1 hx with rfl | hx
    · exact hid
    · obtain ⟨y, hy, hx⟩ := mem_flatMap.1 hx
      exact ih (.call hid hy) hx

theorem count_flatMap_eq {xs : List String} {id caller : String} (hcaller : xs.count caller = 1)
    (hothers : ∀ x ∈ xs, x ≠ caller → id ∉ calls x) :
    (xs.flatMap calls).count id = (calls caller).count id := by
  have hmem : caller ∈ xs := count_pos_iff.1 (by omega)
  have hperm := (perm_cons_erase hmem).flatMap_right calls
  rw [hperm.count_eq, flatMap_cons, List.count_append, Nat.add_eq_left, count_eq_zero]
  intro hid
  obtain ⟨x, hx, hid⟩ := mem_flatMap.1 hid
  refine hothers x (mem_of_mem_erase hx) ?_ hid
  rintro rfl
  have := count_pos_iff.2 hx
  rw [count_erase_self, hcaller] at this
  omega

section

variable {roots keys unfolded : List String}
  (hunfolded : unfolded.Perm (roots ++ unfolded.flatMap calls)) (hsub : unfolded ⊆ keys)

include hunfolded hsub

theorem count_calls_of_unfolded (hkeys : keys.Nodup) (hone : ∀ id ∈ keys, unfolded.count id = 1)
    {id : String} (hid : id ∈ keys) : (roots ++ keys.flatMap calls).count id = 1 := by
  have hperm : unfolded.Perm keys := by
    refine perm_iff_count.2 fun x => ?_
    by_cases hx : x ∈ keys
    · rw [hone x hx, count_eq_one_of_mem hkeys hx]
    · rw [count_eq_zero.2 hx, count_eq_zero.2 fun h => hx (hsub h)]
  rw [← ((hperm.flatMap_right calls).append_left roots).count_eq, ← hunfolded.count_eq, hone id hid]

theorem count_unfolded_of_reached (hcalls : ∀ x ∈ keys, calls x ⊆ keys) (hroots : roots ⊆ keys)
    (hone : ∀ id ∈ keys, (roots ++ keys.flatMap calls).count id = 1) {id : String}
    (hreached : Reached calls roots id) : id ∈ keys ∧ unfolded.count id = 1 := by
  induction hreached with
  | @root id hid =>
    refine ⟨hroots hid, ?_⟩
    have htotal := hone id (hroots hid)
    have hroot := count_pos_iff.2 hid
    rw [List.count_append] at htotal
    have hnone : id ∉ unfolded.flatMap calls := fun h => by
      obtain ⟨x, hx, h⟩ := mem_flatMap.1 h
      have := count_pos_iff.2 (mem_flatMap.2 ⟨x, hsub hx, h⟩)
      omega
    rw [hunfolded.count_eq, List.count_append, count_eq_zero.2 hnone]
    omega
  | @call id caller _ hid ih =>
    obtain ⟨hcaller, hcount⟩ := ih
    have hmem := hcalls caller hcaller hid
    refine ⟨hmem, ?_⟩
    have htotal := hone id hmem
    have hcall := count_pos_iff.2 hid
    have hsplit := (perm_cons_erase hcaller).flatMap_right calls
    rw [List.count_append, hsplit.count_eq, flatMap_cons, List.count_append] at htotal
    have hothers : ∀ x ∈ unfolded, x ≠ caller → id ∉ calls x := by
      intro x hx hne h
      have := count_pos_iff.2 (mem_flatMap.2 ⟨x, (mem_erase_of_ne hne).2 (hsub hx), h⟩)
      omega
    rw [hunfolded.count_eq, List.count_append, count_flatMap_eq hcount hothers]
    omega

end

end

/-! ## The definitions of a trace -/

def mentionsIn (closures : ClosureRegistry) (ss : List Stmt) : List String :=
  (withinAll ss).flatMap (mentioned closures)

def closureBody (filename : String) (closures : ClosureRegistry) (id : String) : List Stmt :=
  ((definition? filename closures id).map Prod.snd).getD []

def callsOf (filename : String) (closures : ClosureRegistry) (id : String) : List String :=
  mentionsIn closures (closureBody filename closures id)

namespace Traced

def defined? : Traced → Option String
  | (.definition id, _) => some id
  | (.statement _, _) => none

def own? : Traced → Option Head
  | (.definition _, _) => none
  | (.statement _, h) => some h

def Marked : Traced → Prop
  | (.definition id, h) => h = ⟨h.span, some id, some h.span⟩
  | (.statement _, _) => True

end Traced

open Traced

section

variable {closures : ClosureRegistry} {closure? : Option String}
  {definitions : String → List Traced}

theorem defined_traceText (ss : List Stmt) :
    (traceText closures closure? definitions ss).filterMap defined? =
      (mentionsIn closures ss).flatMap fun id => (definitions id).filterMap defined? := by
  simp [traceText, mentionsIn, filterMap_flatMap, flatMap_assoc, filterMap_cons, defined?]

theorem mem_own_traceText {ss : List Stmt} {h : Head} :
    h ∈ (traceText closures closure? definitions ss).filterMap own? ↔
      h ∈ outlineAll ss ∨ ∃ id ∈ mentionsIn closures ss, h ∈ (definitions id).filterMap own? := by
  have hstatement (s : Stmt) : h ∈ ((mentioned closures s).flatMap definitions ++
      [(Origin.statement closure?, s.head)]).filterMap own? ↔
        s.head = h ∨ ∃ id ∈ mentioned closures s, h ∈ (definitions id).filterMap own? := by
    rw [filterMap_append, mem_append, filterMap_flatMap, mem_flatMap, or_comm]
    simp [own?, eq_comm]
  rw [traceText, filterMap_flatMap, mem_flatMap]
  constructor
  · rintro ⟨s, hs, hmem⟩
    rcases (hstatement s).1 hmem with hhead | ⟨id, hid, hmem⟩
    · exact .inl (mem_map.2 ⟨s, hs, hhead⟩)
    · exact .inr ⟨id, mem_flatMap.2 ⟨s, hs, hid⟩, hmem⟩
  · rintro (hmem | ⟨id, hid, hmem⟩)
    · obtain ⟨s, hs, hhead⟩ := mem_map.1 hmem
      exact ⟨s, hs, (hstatement s).2 (.inl hhead)⟩
    · obtain ⟨s, hs, hid⟩ := mem_flatMap.1 hid
      exact ⟨s, hs, (hstatement s).2 (.inr ⟨id, hid, hmem⟩)⟩

end

/-- Functions of one name are definitions of the closure, or statements of the script. -/
theorem countP_of_marked {xs : List Traced} (hxs : ∀ x ∈ xs, x.Marked) (id : String) :
    (xs.map Prod.snd).countP (·.function? = some id) =
      (xs.filterMap defined?).count id + (xs.filterMap own?).countP (·.function? = some id) := by
  induction xs with
  | nil => rfl
  | cons x xs ih =>
    obtain ⟨hx, hrest⟩ := forall_mem_cons.1 hxs
    obtain ⟨origin, h⟩ := x
    cases origin with
    | definition other =>
      have hname : h.function? = some other := by
        have hx : h = ⟨h.span, some other, some h.span⟩ := hx
        rw [hx]
      rw [map_cons, countP_cons, ih hrest]
      simp [filterMap_cons, defined?, own?, count_cons, hname]
      omega
    | statement closure? =>
      rw [map_cons, countP_cons, ih hrest]
      simp [filterMap_cons, defined?, own?, countP_cons]
      omega

section

variable {closures : ClosureRegistry} {options : Options} {filename : String}

variable {n : Nat} {id : String} {ss out : List Stmt}

theorem exists_body_of_define {s : Stmt} (h : define options filename closures (n + 1) id = .ok s) :
    ∃ span name params body body', definition? filename closures id = some (span, body) ∧
      blockWithClosures closures (define options filename closures n) body = .ok body' ∧
      ∃ decorators, s = .functionDef span name params body'
        (closureMark options.runtimeName span :: decorators) := by
  rw [define] at h
  rw [definition?]
  cases hget : closures.get? id with
  | none => rw [hget] at h; cases h
  | some c =>
    rw [hget] at h
    obtain ⟨m, hm, h⟩ := except_bind_ok h
    dsimp only
    rw [hm]
    split at h
    · next span name params body decorators =>
      obtain ⟨body', hbody, h⟩ := except_bind_ok h
      cases h
      exact ⟨span, name, params, body, body', rfl, hbody, decorators, rfl⟩
    · cases h

theorem exists_define_of_mem {define : String → Except SyntaxError Stmt}
    (h : blockWithClosures closures define ss = .ok out) (hid : id ∈ mentionsIn closures ss) :
    ∃ d, define id = .ok d ∧ Before (· = d) (id ∈ ·.names) out := by
  obtain ⟨s, hs, hid⟩ := mem_flatMap.1 hid
  exact before_blockWithClosures (in_of_mem_withinAll ss hs) hid h

/-- What holds of a closure if it holds of those that its body mentions, holds of all that are
mentioned in what can be completed. -/
@[elab_as_elim]
theorem mentions_induct {P : Nat → String → Prop} (hstep : ∀ n id span body,
      definition? filename closures id = some (span, body) →
      (∀ x ∈ mentionsIn closures body, P n x) → P (n + 1) id)
    (h : blockWithClosures closures (define options filename closures n) ss = .ok out) :
    ∀ x ∈ mentionsIn closures ss, P n x := by
  intro x hx
  obtain ⟨d, hd, -⟩ := exists_define_of_mem h hx
  induction n generalizing ss out x d with
  | zero => cases hd
  | succ n ih =>
    obtain ⟨span, _, _, body, _, hdefinition, hbody, -⟩ := exists_body_of_define hd
    refine hstep n x span body hdefinition fun y hy => ?_
    obtain ⟨d', hd', -⟩ := exists_define_of_mem hbody hy
    exact ih hbody y hy d' hd'

theorem settled_of_mem (h : blockWithClosures closures
      (define options filename closures n) ss = .ok out) :
    ∀ x ∈ mentionsIn closures ss, Settled (callsOf filename closures) n x := by
  refine fun x hx => mentions_induct (fun n id span body hdefinition ih => ?_) h x hx
  rwa [Settled, callsOf, closureBody, hdefinition]

theorem defined_completed (closure? : Option String)
    (h : blockWithClosures closures (define options filename closures n) ss = .ok out) :
    (traceText closures closure? (traceDefinition filename closures n) ss).filterMap defined? =
      (mentionsIn closures ss).flatMap (unfolding (callsOf filename closures) n) := by
  rw [defined_traceText]
  refine flatMap_congr fun y hy => mentions_induct ?_ h y hy
  intro n id span body hdefinition ih
  rw [traceDefinition, hdefinition, unfolding, callsOf, closureBody, hdefinition]
  dsimp only
  rw [filterMap_cons, defined_traceText, flatMap_congr ih]
  rfl

theorem mem_own_completed {x : Head} (closure? : Option String)
    (h : blockWithClosures closures (define options filename closures n) ss = .ok out) :
    x ∈ (traceText closures closure? (traceDefinition filename closures n) ss).filterMap own? ↔
      x ∈ outlineAll ss ∨ ∃ y ∈ (mentionsIn closures ss).flatMap
        (unfolding (callsOf filename closures) n),
          x ∈ outlineAll (closureBody filename closures y) := by
  have hunfold {ids : List String} {n : Nat} (hids : ∀ y ∈ ids,
      (x ∈ (traceDefinition filename closures n y).filterMap own? ↔
        ∃ z ∈ unfolding (callsOf filename closures) n y,
          x ∈ outlineAll (closureBody filename closures z))) :
      (∃ y ∈ ids, x ∈ (traceDefinition filename closures n y).filterMap own?) ↔
        ∃ z ∈ ids.flatMap (unfolding (callsOf filename closures) n),
          x ∈ outlineAll (closureBody filename closures z) := by
    simp only [mem_flatMap]
    grind
  rw [mem_own_traceText]
  refine or_congr_right (hunfold fun y hy => mentions_induct ?_ h y hy)
  intro n id span body hdefinition ih
  have hself : closureBody filename closures id = body := by
    rw [closureBody, hdefinition]
    rfl
  rw [traceDefinition, hdefinition, unfolding, callsOf, exists_mem_cons_iff, hself, ← hunfold ih]
  exact mem_own_traceText

end

end BlockScript.Compile
