import BlockScript.Desugar
import BlockScript.Proofs.Scanner

/-! What reading adds to a state. Reading extends the stack of open closures at its top and the
registry at its end, and never registers a closure under an id that is taken, since the numbers of
complete closures are used up. So a state that is cut down to its former sizes is the former state.

That a reading extends the state, whether it succeeds or fails, is a class, so that it is seen from
the shape of a reading. So is that it keeps to the source of its script and fails at a place of it,
if it starts there. -/

namespace BlockScript

open List

/-! ## Ids of closures

An id holds the ids around it and ends with the number of its closure, so closures with different
numbers have different ids and a closure inside another has the longer id. -/

theorem OrderedMap.insertEntry_of_not_mem {κ α : Type} [BEq κ] [LawfulBEq κ] {key : κ} (value : α)
    {entries : List (κ × α)} (h : key ∉ entries.map Prod.fst) :
    insertEntry key value entries = entries ++ [(key, value)] := by
  refine insertEntry_of_new value fun entry hentry => beq_eq_false_iff_ne.2 fun heq => h ?_
  exact heq ▸ mem_map_of_mem hentry

namespace Desugar

/-- The id of a closure: the ids around it, innermost first in `stack`, and its number. -/
def closureId (stack : List String) (n : Nat) : String :=
  String.join stack.reverse ++ "_closure_" ++ toString (n + 1)

theorem State.nextId_eq (s : State) : s.nextId = closureId s.stack s.counter := rfl

theorem toList_closureId (stack : List String) (n : Nat) : (closureId stack n).toList =
      (String.join stack.reverse).toList ++ ("_closure_".toList ++ Nat.toDigits 10 (n + 1)) := by
  rw [closureId, String.toList_append, String.toList_append, append_assoc]
  exact congrArg _ (congrArg _ Nat.toList_repr)

theorem toDigits_eq_takeWhile (stack : List String) (n : Nat) :
    Nat.toDigits 10 (n + 1) =
      ((closureId stack n).toList.reverse.takeWhile Char.isDigit).reverse := by
  have hdigits : ∀ c ∈ (Nat.toDigits 10 (n + 1)).reverse, c.isDigit = true := by
    intro c hc
    exact Nat.isDigit_of_mem_toDigits (by decide) (by decide) (mem_reverse.1 hc)
  have hlow : "_closure_".toList.reverse = '_' :: "_closure".toList.reverse := by decide
  rw [toList_closureId, reverse_append, reverse_append, append_assoc,
    takeWhile_append_of_pos hdigits, hlow]
  simp

theorem eq_of_closureId_eq {stack stack' : List String} {m n : Nat}
    (h : closureId stack m = closureId stack' n) : m = n := by
  have hdigits : Nat.toDigits 10 (m + 1) = Nat.toDigits 10 (n + 1) := by
    rw [toDigits_eq_takeWhile stack, toDigits_eq_takeWhile stack', h]
  have := congrArg (Nat.ofDigitChars 10 · 0) hdigits
  simpa [Nat.ofDigitChars_ten_toDigits] using this

theorem length_lt_closureId {stack : List String} {id : String} (h : id ∈ stack) (n : Nat) :
    id.length < (closureId stack n).length := by
  have hle : id.toList.length ≤ (String.join stack.reverse).toList.length := by
    rw [String.toList_join]
    exact (sublist_flatten_of_mem (mem_map_of_mem (mem_reverse.2 h))).length_le
  have hlt : (String.join stack.reverse).toList.length < (closureId stack n).toList.length := by
    simp [toList_closureId]
  rw [← String.length_toList, ← String.length_toList]
  exact Nat.lt_of_le_of_lt hle hlt

/-! ## Growth of a state -/

namespace State

/-- Every id in the registry ends with the number of a closure that is complete. -/
def Numbered (s : State) : Prop := ∀ id ∈ s.closures.keys, ∃ stack n, id = closureId stack n ∧
    n < s.counter

variable {closure : Closure} {n : Nat}

theorem Numbered.register {s : State} (h : s.Numbered) {stack : List String}
    (hid : closure.id = closureId stack n) (hn : n ≤ s.counter) :
    Numbered { s with counter := s.counter + 1, closures := s.closures.register closure } := by
  intro id hmem
  rcases OrderedMap.mem_keys_insertEntry hmem with rfl | hmem
  · exact ⟨stack, n, hid, Nat.lt_succ_of_le hn⟩
  · obtain ⟨stack', k, rfl, hk⟩ := h id hmem
    exact ⟨stack', k, rfl, Nat.lt_succ_of_lt hk⟩

/-- What reading adds to a state: closures opened on top of the stack, and closures registered at
the end under ids that have the stack around them and a number not used before. -/
structure Extends (s t : State) : Prop where
  stack : s.stack <:+ t.stack
  counter : s.counter ≤ t.counter
  closures : s.Numbered → ∃ added, t.closures.entries = s.closures.entries ++ added ∧
    ∀ entry ∈ added, ∃ inner n, entry.1 = closureId (inner ++ s.stack) n ∧ s.counter ≤ n ∧
      n < t.counter

namespace Extends

variable {s t u : State} {scanner : Scanner}

theorem opened (s : State) (scanner : Scanner) (inner : List String) :
    s.Extends { s with scanner, stack := inner ++ s.stack } where
  stack := suffix_append _ _
  counter := Nat.le_refl _
  closures _ := ⟨[], (append_nil _).symm, nofun⟩

theorem moved (s : State) (scanner : Scanner) : s.Extends { s with scanner } := opened s scanner []

theorem refl (s : State) : s.Extends s := moved s s.scanner

theorem numbered (h : s.Extends t) (hs : s.Numbered) : t.Numbered := by
  obtain ⟨added, hentries, hadded⟩ := h.closures hs
  intro id hid
  rw [OrderedMap.keys, hentries, map_append, mem_append] at hid
  rcases hid with hid | hid
  · obtain ⟨stack, n, rfl, hn⟩ := hs id hid
    exact ⟨stack, n, rfl, Nat.lt_of_lt_of_le hn h.counter⟩
  · obtain ⟨entry, hentry, rfl⟩ := mem_map.1 hid
    obtain ⟨inner, n, hid, -, hn⟩ := hadded entry hentry
    exact ⟨_, n, hid, hn⟩

theorem trans (h1 : s.Extends t) (h2 : t.Extends u) : s.Extends u where
  stack := h1.stack.trans h2.stack
  counter := Nat.le_trans h1.counter h2.counter
  closures hs := by
    obtain ⟨added1, hentries1, hadded1⟩ := h1.closures hs
    obtain ⟨added2, hentries2, hadded2⟩ := h2.closures (h1.numbered hs)
    obtain ⟨top, htop⟩ := h1.stack
    refine ⟨added1 ++ added2, by rw [hentries2, hentries1, append_assoc], fun entry he => ?_⟩
    rcases mem_append.1 he with he | he
    · obtain ⟨inner, n, hid, hlo, hhi⟩ := hadded1 entry he
      exact ⟨inner, n, hid, hlo, Nat.lt_of_lt_of_le hhi h2.counter⟩
    · obtain ⟨inner, n, hid, hlo, hhi⟩ := hadded2 entry he
      refine ⟨inner ++ top, n, ?_, Nat.le_trans h1.counter hlo, hhi⟩
      rw [hid, ← htop, append_assoc]

/-- An id that was next is not taken while its closure is read: what is registered meanwhile has the
closure around it, so its id is longer. -/
theorem nextId_not_mem (h : Extends { s with scanner, stack := s.nextId :: s.stack } t)
    (hs : s.Numbered) : s.nextId ∉ t.closures.keys := by
  obtain ⟨added, hentries, hadded⟩ := h.closures hs
  intro hid
  rw [OrderedMap.keys, hentries, map_append, mem_append] at hid
  rcases hid with hid | hid
  · obtain ⟨stack, n, heq, hn⟩ := hs _ hid
    have hcounter : s.counter = n := eq_of_closureId_eq heq
    exact Nat.lt_irrefl _ (hcounter ▸ hn)
  · obtain ⟨entry, hentry, heq⟩ := mem_map.1 hid
    obtain ⟨inner, n, hlong, -, -⟩ := hadded entry hentry
    have hmem : s.nextId ∈ inner ++ s.nextId :: s.stack := by simp
    have hlt := length_lt_closureId hmem n
    rw [← hlong, heq] at hlt
    exact Nat.lt_irrefl _ hlt

theorem closed (h : Extends { s with scanner, stack := s.nextId :: s.stack } t)
    (hn : t.counter ≤ n) : s.Extends { t with stack := s.stack, counter := n } where
  stack := suffix_refl _
  counter := Nat.le_trans h.counter hn
  closures hs := by
    obtain ⟨added, hentries, hadded⟩ := h.closures hs
    refine ⟨added, hentries, fun entry he => ?_⟩
    obtain ⟨inner, k, hid, hlo, hhi⟩ := hadded entry he
    exact ⟨inner ++ [s.nextId], k, by rw [hid]; simp, hlo, Nat.lt_of_lt_of_le hhi hn⟩

theorem registered (h : s.Extends t) (hid : closure.id = s.nextId)
    (hcounter : s.counter < t.counter) (hnew : s.Numbered → closure.id ∉ t.closures.keys) :
    s.Extends { t with closures := t.closures.register closure } where
  stack := h.stack
  counter := h.counter
  closures hs := by
    obtain ⟨added, hentries, hadded⟩ := h.closures hs
    have hregistry := OrderedMap.insertEntry_of_not_mem closure (hnew hs)
    refine ⟨added ++ [(closure.id, closure)], ?_, fun entry he => ?_⟩
    · rw [← append_assoc, ← hentries]
      exact hregistry
    rcases mem_append.1 he with he | he
    · exact hadded entry he
    · obtain rfl := mem_singleton.1 he
      exact ⟨[], s.counter, hid, Nat.le_refl _, hcounter⟩

/-! ## Going back -/

theorem drop_stack (h : s.Extends t) : t.stack.drop (t.stack.length - s.stack.length) = s.stack :=
  (suffix_iff_eq_drop.1 h.stack).symm

theorem truncate_closures (h : s.Extends t) (hs : s.Numbered) :
    t.closures.truncate s.closures.size = s.closures := by
  obtain ⟨added, hentries, -⟩ := h.closures hs
  refine OrderedMap.ext ?_
  change t.closures.entries.take s.closures.entries.length = s.closures.entries
  rw [hentries, take_left]

/-- Going back gives the state from before. -/
theorem rollback_checkpoint (h : s.Extends t) (hs : s.Numbered) : t.rollback s.checkpoint = s := by
  unfold rollback checkpoint
  dsimp only
  rw [h.drop_stack, h.truncate_closures hs]

theorem extends_rollback (h : s.Extends t) : s.Extends (t.rollback s.checkpoint) where
  stack := ⟨[], h.drop_stack.symm⟩
  counter := Nat.le_refl _
  closures hs := by
    rw [h.rollback_checkpoint hs]
    exact ⟨[], (append_nil _).symm, nofun⟩

end Extends

end State

/-! ## Places of a script -/

variable {K : Prop} {script : Script}

/-- Where `K` holds, the scanner stands in the source of the script and skips nothing. -/
class Inside (K : Prop) (script : Script) (s : Scanner) : Prop where
  skipped : K → s.skipped = []
  within : K → s.Within script.source

/-- Where `K` holds, the position is a place of the source. -/
class Stands (K : Prop) (script : Script) (pos : Position) : Prop where
  place : K → PlaceIn script.source pos

section

variable {s t : Scanner}

instance Stands.ite {pos pos' : Position} (c : Prop) [Decidable c] [h : Stands K script pos]
    [h' : Stands K script pos'] : Stands K script (if c then pos else pos') := by
  split
  · exact h
  · exact h'

instance Inside.current [h : Inside K script s] : Stands K script s.current.pos :=
  ⟨fun hK => (h.within hK).place⟩

theorem Inside.anywhere (script : Script) (s : Scanner) : Inside False script s := ⟨nofun, nofun⟩

theorem Inside.copies {text : List Char} (h : Inside K script s) (hst : s.Copies text t) :
    Inside K script t where
  skipped hK := (hst (h.skipped hK)).1
  within hK := by
    obtain ⟨before, hat⟩ := h.within hK
    exact ⟨_, (hst (h.skipped hK)).2 _ _ hat⟩

instance Inside.bump [h : Inside K script s] : Inside K script s.bump := h.copies s.copies_bump

instance Inside.passHeader [h : Inside K script s] : Inside K script s.passHeader.2 where
  skipped hK := by
    obtain ⟨before, hat⟩ := h.within hK
    exact (Scanner.passHeader_at (h.skipped hK) hat).1
  within hK := by
    obtain ⟨before, hat⟩ := h.within hK
    obtain ⟨-, header, hat', -⟩ := Scanner.passHeader_at (h.skipped hK) hat
    exact ⟨_, hat'⟩

end

/-! ## Readings that extend the state -/

variable {α β : Type} {s t : State} {p : Reading α}

variable {f : α → Reading β} {a : α} {e : Halt SyntaxError}

theorem bind_ok (h : p s = .ok a t) : (p >>= f) s = f a t := by
  change EStateM.bind p f s = _
  rw [EStateM.bind, h]

theorem bind_error (h : p s = .error e t) : (p >>= f) s = .error e t := by
  change EStateM.bind p f s = _
  rw [EStateM.bind, h]

/-- The error, if it is one of the script, stands in its source. -/
def Blames (K : Prop) (script : Script) (e : Halt SyntaxError) : Prop :=
  ∀ e', e = .error e' → K → e'.IsOf script.source

/-- However the reading ends, it has extended the state; if it succeeds, it has closed what it
opened. If it starts inside the source, it stays there and fails at a place of it. -/
class Extending (K : Prop) (script : Script) {α : Type} (p : Reading α) : Prop where
  ok : ∀ {s t a}, Inside K script s.scanner → p s = .ok a t →
    s.Extends t ∧ t.stack = s.stack ∧ Inside K script t.scanner
  error : ∀ {s t e}, Inside K script s.scanner → p s = .error e t →
    s.Extends t ∧ Inside K script t.scanner ∧ Blames K script e

namespace Extending

variable {result : State → α}

theorem of_run {next : State → State} (hp : ∀ s, p s = .ok (result s) (next s))
    (hnext : ∀ s, Inside K script s.scanner →
      s.Extends (next s) ∧ (next s).stack = s.stack ∧ Inside K script (next s).scanner) :
    Extending K script p where
  ok {s t a} hs h := by
    rw [hp] at h
    cases h
    exact hnext s hs
  error {s t e} _ h := by
    rw [hp] at h
    cases h

theorem of_move {next : State → Scanner}
    (hp : ∀ s, p s = .ok (result s) { s with scanner := next s })
    (hnext : ∀ s, Inside K script s.scanner → Inside K script (next s)) : Extending K script p :=
  of_run hp fun s hs => ⟨.moved s _, rfl, hnext s hs⟩

instance pure (a : α) : Extending K script (pure a : Reading α) :=
  of_move (fun _ => rfl) fun _ => id

instance get : Extending K script (get : Reading State) := of_move (fun _ => rfl) fun _ => id

instance current : Extending K script current := of_move (fun _ => rfl) fun _ => id

instance bump : Extending K script bump := of_move (fun _ => rfl) fun _ _ => inferInstance

instance moveTo (scanner : Scanner) [h : Inside K script scanner] :
    Extending K script (moveTo scanner) :=
  of_move (fun _ => rfl) fun _ _ => h

theorem throw (he : Blames K script e) : Extending K script (throw e : Reading α) where
  ok _ h := by cases h
  error hs h := by
    cases h
    exact ⟨.refl _, hs, he⟩

instance fail (fault : SyntaxFault) (pos : Position) [h : Stands K script pos] :
    Extending K script (fail script fault pos : Reading α) :=
  throw <| by
    rintro _ ⟨⟩ hK
    exact ⟨fault, script.filename, pos, h.place hK, rfl⟩

/-- After a failure nothing is run. -/
instance failThen (fault : SyntaxFault) (pos : Position) (f : α → Reading β) [Stands K script pos] :
    Extending K script (Desugar.fail script fault pos >>= f) :=
  fail fault pos

/-- After a step whose value has a property. -/
theorem bindWith {P : α → Prop} (hp : Extending K script p)
    (hP : ∀ {s t a}, Inside K script s.scanner → p s = .ok a t → P a)
    (hf : ∀ a, P a → Extending K script (f a)) : Extending K script (p >>= f) where
  ok {s u b} hs h := by
    change EStateM.bind p f s = _ at h
    unfold EStateM.bind at h
    split at h
    · next a t hrun =>
      obtain ⟨h1, hstack1, ht⟩ := hp.ok hs hrun
      obtain ⟨h2, hstack2, hu⟩ := (hf a (hP hs hrun)).ok ht h
      exact ⟨h1.trans h2, hstack2.trans hstack1, hu⟩
    · cases h
  error {s u e} hs h := by
    change EStateM.bind p f s = _ at h
    unfold EStateM.bind at h
    split at h
    · next a t hrun =>
      obtain ⟨h1, -, ht⟩ := hp.ok hs hrun
      obtain ⟨h2, hu⟩ := (hf a (hP hs hrun)).error ht h
      exact ⟨h1.trans h2, hu⟩
    · next hrun =>
      cases h
      exact hp.error hs hrun

theorem andThen [hp : Extending K script p] (hf : ∀ a, Extending K script (f a)) :
    Extending K script (p >>= f) :=
  hp.bindWith (P := fun _ => True) (fun _ _ => trivial) fun a _ => hf a

instance bind (p : Reading α) (f : α → Reading β) [Extending K script p]
    [hf : ∀ a, Extending K script (f a)] : Extending K script (p >>= f) := andThen hf

instance scannerInside (s : { s : State // Inside K script s.scanner }) :
    Inside K script s.1.scanner := s.2

instance tokenStands (t : { t : Token // Stands K script t.pos }) : Stands K script t.1.pos := t.2

instance (priority := high) getBind (f : State → Reading α)
    [hf : ∀ s : { s : State // Inside K script s.scanner }, Extending K script (f s.1)] :
    Extending K script ((MonadState.get : Reading State) >>= f) :=
  get.bindWith (P := fun s => Inside K script s.scanner)
    (by rintro s _ _ hs ⟨⟩; exact hs) fun s hs => hf ⟨s, hs⟩

instance (priority := high) currentBind (f : Token → Reading α)
    [hf : ∀ t : { t : Token // Stands K script t.pos }, Extending K script (f t.1)] :
    Extending K script (Desugar.current >>= f) :=
  current.bindWith (P := fun t : Token => Stands K script t.pos)
    (by rintro s _ _ hs ⟨⟩; exact Inside.current) fun t ht => hf ⟨t, ht⟩

instance ite (c : Prop) [Decidable c] (p q : Reading α) [hp : Extending K script p]
    [hq : Extending K script q] : Extending K script (if c then p else q) := by
  split
  · exact hp
  · exact hq

end Extending

/-! ## Attempts -/

/-- The state `t` was reached from `s` by going back there. -/
def State.RolledBack (s t : State) : Prop := ∃ u, s.Extends u ∧ t = u.rollback s.checkpoint

namespace State.RolledBack

theorem refl (s : State) : s.RolledBack s := by
  refine ⟨s, .refl s, ?_⟩
  unfold rollback checkpoint
  simp [OrderedMap.truncate, OrderedMap.size]

theorem eq (h : s.RolledBack t) (hs : s.Numbered) : t = s := by
  obtain ⟨u, hu, rfl⟩ := h
  exact hu.rollback_checkpoint hs

theorem scanner_eq (h : s.RolledBack t) : t.scanner = s.scanner := by
  obtain ⟨u, -, rfl⟩ := h
  rfl

theorem extends_ (h : s.RolledBack t) (hs : Inside K script s.scanner) :
    s.Extends t ∧ t.stack = s.stack ∧ Inside K script t.scanner := by
  obtain ⟨u, hu, rfl⟩ := h
  exact ⟨hu.extends_rollback, hu.drop_stack, hs⟩

end State.RolledBack

theorem tryReading_ok (h : tryReading p s = .ok a t) : p s = .ok a t := by
  unfold tryReading at h
  split at h
  · next hrun => rw [hrun, h]
  · cases h

section

variable [hp : Extending K script p] (hs : Inside K script s.scanner)

include hs

theorem tryReading_error (h : tryReading p s = .error e t) :
    s.RolledBack t ∧ Blames K script e := by
  unfold tryReading at h
  split at h
  · cases h
  · next u hrun =>
    cases h
    obtain ⟨hu, -, he⟩ := hp.error hs hrun
    exact ⟨⟨u, hu, rfl⟩, he⟩

end

theorem succeeds_ok {p : Reading Bool} [hp : Extending K script p] (hs : Inside K script s.scanner)
    {b : Bool} (h : succeeds p s = .ok b t) : s.RolledBack t := by
  unfold succeeds at h
  split at h
  · next u hrun =>
    cases h
    exact ⟨u, (hp.ok hs hrun).1, rfl⟩
  · next u hrun =>
    cases h
    exact ⟨u, (hp.error hs hrun).1, rfl⟩
  · cases h

namespace Extending

instance tryReading (p : Reading α) [hp : Extending K script p] :
    Extending K script (tryReading p) where
  ok hs h := hp.ok hs (tryReading_ok h)
  error hs h := by
    obtain ⟨hback, he⟩ := tryReading_error hs h
    obtain ⟨ht, -, hinside⟩ := hback.extends_ hs
    exact ⟨ht, hinside, he⟩

instance succeeds (p : Reading Bool) [hp : Extending K script p] :
    Extending K script (succeeds p) where
  ok hs h := (succeeds_ok hs h).extends_ hs
  error hs h := by
    unfold Desugar.succeeds at h
    split at h
    · cases h
    · cases h
    · next hrun =>
      cases h
      exact hp.error hs hrun

/-! ## Layout -/

instance layout (newlines : Bool) : Extending K script (layout newlines) :=
  of_move (fun _ => rfl) fun s h => h.copies (s.scanner.layout_copies newlines).1

instance layoutToIndent : Extending K script layoutToIndent := by
  unfold Desugar.layoutToIndent
  refine @getBind _ _ _ _ fun ⟨s, hs⟩ => ?_
  have hcopies := s.scanner.layout_copies true
  dsimp only
  split
  · next heq =>
    have := hs.copies (hcopies.2 _ _ (congrArg (·.2.2) heq))
    infer_instance
  · next heq =>
    rw [heq] at hcopies
    have := hs.copies hcopies.1
    infer_instance

instance layoutIn (mode : Mode) : Extending K script (layoutIn mode) := layout _

instance copyUntil (stop : Token → Bool) : Extending K script (copyUntil stop) :=
  of_move (fun _ => rfl) fun s h => h.copies (s.scanner.copyUntil_copies stop)

end Extending

theorem copyHeader_copies (depth : Nat) (s : BlockScript.Scanner) :
    s.Copies (String.join (Scanner.copyHeader depth s).1).toList
      (Scanner.copyHeader depth s).2 := by
  fun_induction Scanner.copyHeader depth s with
  | case1 depth s h => exact .refl s
  | case2 depth s h depth' texts t heq ih =>
    rw [heq] at ih
    rw [String.toList_join, List.flatMap_cons, ← String.toList_join]
    exact s.copies_bump.trans ih

end Desugar

end BlockScript
