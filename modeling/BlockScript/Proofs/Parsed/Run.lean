import BlockScript.Proofs.RoundTrip.Takes
import BlockScript.Proofs.RoundTrip.Valid
import BlockScript.Proofs.Scanner

/-! What a run of the parser can give, if it gives something: facts about the result that follow
from facts about the tokens that are left. If it fails, it does so at a place of its text. -/

namespace BlockScript

namespace Program.Parse

open List

/-- Tokens that the parser of a source may meet. They stand at places of its text, as all its tokens
do; names are words, and no number is negative. -/
structure Lexical (src : Source) where
  Mem : Token → Prop
  place : ∀ t, Mem t → PlaceIn src.text t.pos
  places : ∀ t ∈ src.tokens, PlaceIn src.text t.pos
  word : ∀ t, Mem t → t.kind = .name → Token.IsWord t.text.toList
  number : ∀ t, Mem t → t.kind = .literal → Literal.splitQuoted? t.text.toList = none →
    ∀ i, Literal.number t.text = .ok (.int i) → 0 ≤ i.toInt

instance {src : Source} : CoeFun (Lexical src) fun _ => Token → Prop := ⟨Lexical.Mem⟩

instance {src : Source} : CoeOut (Lexical src) (Token → Prop) := ⟨Lexical.Mem⟩

variable {α β : Type} {src : Source} {I : Lexical src} {P Q : α → Prop} {R : β → Prop}

variable {p q item : Parsing α} {f : α → Parsing β} {s s'' s' : List Token} {t : Token}
  {glyph word : String} {a : α} {c : Prop}

theorem exists_of_run_bind {b : β} (h : (p >>= f) s = .ok b s'') :
    ∃ a s', p s = .ok a s' ∧ f a s' = .ok b s'' := by
  rw [run_bind] at h
  split at h
  · next a s' ha => exact ⟨a, s', ha, h⟩
  · cases h

/-- Two tokens at different places. An indentation may be empty. -/
def Apart (a b : Token) : Prop := a.kind = .indent ∨ Span.ofPosition a.pos ≠ .ofPosition b.pos

/-- The end of the text, which is never consumed, is among the tokens. -/
def HasEnd (s : List Token) : Prop := ∃ t ∈ s, t.isEof = true

/-- Some of the tokens `s` are left, among them the end of the text. -/
structure Leaves (s s' : List Token) : Prop where
  sublist : s'.Sublist s
  hasEnd : HasEnd s'

theorem Leaves.trans (h : Leaves s' s'') (h' : Leaves s s') : Leaves s s'' :=
  ⟨h.sublist.trans h'.sublist, h.hasEnd⟩

/-- Nothing comes after the end of the text. -/
def EndsLast (s : List Token) : Prop := ∀ ⦃t s'⦄, (t :: s').Sublist s → t.isEof = true → s' = []

/-- Every token that is left satisfies `I`. -/
structure All (I : Lexical src) (s : List Token) : Prop where
  left : ∀ t ∈ s, I t
  apart : s.Pairwise Apart
  hasEnd : HasEnd s
  endsLast : EndsLast s

theorem All.head (h : All I (t :: s)) : I t := h.left t mem_cons_self

theorem All.exists_cons (h : All I s) (hhead : s.headD noToken = t) : ∃ s', s = t :: s' := by
  cases s with
  | nil =>
    obtain ⟨_, ht, _⟩ := h.hasEnd
    cases ht
  | cons t s => exact ⟨s, by rw [← hhead, headD_cons]⟩

theorem All.current (h : All I s) : I (s.headD noToken) := by
  obtain ⟨s', hs⟩ := h.exists_cons rfl
  exact h.left _ (hs ▸ mem_cons_self)

theorem All.refl (h : All I s) : Leaves s s := ⟨.refl s, h.hasEnd⟩

theorem All.leaves (h : All I s) (hs : Leaves s s') : All I s' :=
  ⟨fun x hx => h.left x (hs.sublist.mem hx), h.apart.sublist hs.sublist, hs.hasEnd,
    fun _ _ h' heof => h.endsLast (h'.trans hs.sublist) heof⟩

/-- At the end of the text nothing else is left. -/
theorem All.eq_singleton (h : All I s) (heof : (s.headD noToken).isEof = true) :
    s = [s.headD noToken] := by
  obtain ⟨s', hs⟩ := h.exists_cons rfl
  generalize s.headD noToken = t at *
  subst hs
  rw [h.endsLast (.refl (t :: s')) heof]

theorem All.tail (h : All I (t :: s)) (ht : t.isEof = false) : Leaves (t :: s) s := by
  refine ⟨sublist_cons_self t s, ?_⟩
  obtain ⟨x, hx, heof⟩ := h.hasEnd
  rcases mem_cons.1 hx with rfl | hx
  · rw [ht] at heof
    cases heof
  · exact ⟨x, hx, heof⟩

/-- From tokens that satisfy `I`, of which `t` is the current one, the parser gives only what
satisfies `P`, and leaves some of the tokens; or it fails at a place of the text. -/
structure GivesAt (I : Lexical src) (t : Token) (p : Parsing α) (P : α → Prop) : Prop where
  ok : ∀ ⦃s a s'⦄, All I s → s.headD noToken = t → p s = .ok a s' → P a ∧ Leaves s s'
  error : ∀ ⦃s e s'⦄, All I s → s.headD noToken = t → p s = .error (.error e) s' → e.IsOf src.text

def Gives (I : Lexical src) (p : Parsing α) (P : α → Prop) : Prop := ∀ t, GivesAt I t p P

theorem Gives.ok (h : Gives I p P) (hs : All I s) (hrun : p s = .ok a s') :
    P a ∧ Leaves s s' := (h _).ok hs rfl hrun

/-- Going on from what the first step has left. -/
theorem GivesAt.bindRun (hp : GivesAt I t p P)
    (hf : ∀ s a s', All I s → p s = .ok a s' → P a → GivesAt I (s'.headD noToken) (f a) R) :
    GivesAt I t (p >>= f) R where
  ok s b s'' hs ht hrun := by
    obtain ⟨a, s', ha, hrun⟩ := exists_of_run_bind hrun
    obtain ⟨hPa, hs'⟩ := hp.ok hs ht ha
    obtain ⟨hRb, hs''⟩ := (hf s a s' hs ha hPa).ok (hs.leaves hs') rfl hrun
    exact ⟨hRb, hs''.trans hs'⟩
  error s e s'' hs ht hrun := by
    rw [run_bind] at hrun
    split at hrun
    · next a s' ha =>
      obtain ⟨hPa, hs'⟩ := hp.ok hs ht ha
      exact (hf s a s' hs ha hPa).error (hs.leaves hs') rfl hrun
    · next ha =>
      cases hrun
      exact hp.error hs ht ha

theorem GivesAt.bind (hp : GivesAt I t p P) (hf : ∀ a, P a → Gives I (f a) R) :
    GivesAt I t (p >>= f) R :=
  hp.bindRun fun _ a _ _ _ ha => hf a ha _

theorem GivesAt.ite [Decidable c] (hp : c → GivesAt I t p P) (hq : ¬c → GivesAt I t q P) :
    GivesAt I t (if c then p else q) P := by
  split
  · next h => exact hp h
  · next h => exact hq h

theorem GivesAt.ofMem (h : I t → GivesAt I t p P) : GivesAt I t p P where
  ok _ _ _ hs ht hrun := (h (ht ▸ hs.current)).ok hs ht hrun
  error _ _ _ hs ht hrun := (h (ht ▸ hs.current)).error hs ht hrun

theorem GivesAt.look {look : Parsing α} (result : Token → α)
    (hlook : ∀ s, look s = .ok (result (s.headD noToken)) s) (h : GivesAt I t (f (result t)) R) :
    GivesAt I t (look >>= f) R := by
  have hrun (s : List Token) : (look >>= f) s = f (result (s.headD noToken)) s := by
    rw [run_bind, hlook]
  constructor
  · rintro s a s' hs rfl hok
    exact h.ok hs rfl (hrun s ▸ hok)
  · rintro s e s' hs rfl herror
    exact h.error hs rfl (hrun s ▸ herror)

theorem GivesAt.peek {f : Token → Parsing α} (h : GivesAt I t (f t) P) :
    GivesAt I t (peek >>= f) P := .look id (fun _ => rfl) h

theorem GivesAt.isAt {f : Bool → Parsing α} (h : GivesAt I t (f (t.isControl glyph)) P) :
    GivesAt I t (isAt glyph >>= f) P := .look (·.isControl glyph) (fun _ => rfl) h

namespace Gives

theorem of_run {result : List Token → α} {next : List Token → List Token}
    (hp : ∀ s, p s = .ok (result s) (next s))
    (h : ∀ s, All I s → P (result s) ∧ Leaves s (next s)) : Gives I p P := by
  refine fun t => ⟨fun s a s' hs _ hrun => ?_, fun s e s' hs _ hrun => ?_⟩
  · rw [hp] at hrun
    cases hrun
    exact h s hs
  · rw [hp] at hrun
    cases hrun

theorem pure (h : P a) : Gives I (pure a) P := of_run (fun _ => rfl) fun _ hs => ⟨h, hs.refl⟩

theorem bind (hp : Gives I p P) (hf : ∀ a, P a → Gives I (f a) R) : Gives I (p >>= f) R :=
  fun t => (hp t).bind hf

theorem map {f : α → β} (hp : Gives I p P) (hf : ∀ a, P a → R (f a)) : Gives I (f <$> p) R := by
  rw [map_eq_pure_bind]
  exact hp.bind fun a ha => pure (hf a ha)

theorem mono (hp : Gives I p P) (h : ∀ a, P a → Q a) : Gives I p Q :=
  fun t => ⟨fun _ _ _ hs ht hrun => ((hp t).ok hs ht hrun).imp_left (h _), (hp t).error⟩

theorem exhausted : Gives I (throw .exhausted : Parsing α) P := by
  refine fun t => ⟨?_, ?_⟩
  · rintro s _ _ _ _ ⟨⟩
  · rintro s _ _ _ _ ⟨⟩

variable {fault : SyntaxFault} {pos : Position}

theorem fail (h : PlaceIn src.text pos) : Gives I (fail src fault pos : Parsing α) P := by
  refine fun t => ⟨?_, ?_⟩
  · rintro s _ _ _ _ ⟨⟩
  · rintro s _ _ _ _ ⟨⟩
    exact ⟨fault, src.filename, pos, h, rfl⟩

theorem failBind (h : PlaceIn src.text pos) {f : β → Parsing α} :
    Gives I (Parse.fail src fault pos >>= f) P :=
  bind (P := fun _ => False) (fail h) fun _ h => h.elim

theorem ite [Decidable c] (hp : c → Gives I p P) (hq : ¬c → Gives I q P) :
    Gives I (if c then p else q) P :=
  fun t => .ite (fun h => hp h t) fun h => hq h t

theorem peek {f : Token → Parsing α} (h : ∀ t, I t → GivesAt I t (f t) P) :
    Gives I (peek >>= f) P :=
  fun t => .peek (.ofMem (h t))

theorem none : Gives I (return none) fun r => ∀ a ∈ r, P a := pure nofun

theorem some {f : α → β} (hp : Gives I p fun a => R (f a)) :
    Gives I (return some (f (← p))) fun r => ∀ b ∈ r, R b := by
  refine hp.bind fun a ha => pure ?_
  rintro _ ⟨⟩
  exact ha

end Gives

/-! ## Tokens -/

theorem gives_peek : Gives I peek I := .peek fun t ht => Gives.pure ht t

theorem gives_peekNext : Gives I peekNext I := by
  refine .of_run (show ∀ s, peekNext s = .ok (s.tail.headD (s.headD noToken))
    (id s) from fun s => ?_)
    fun s hs => ⟨?_, hs.refl⟩
  · match s with
    | [] | [_] | _ :: _ :: _ => rfl
  · match s with
    | [] | [_] => exact hs.current
    | _ :: t :: _ => exact hs.left t (by simp)

theorem gives_advance : Gives I advance fun _ => True := by
  refine .of_run (fun _ => rfl) fun s hs => ⟨trivial, ?_⟩
  cases s with
  | nil => exact hs.refl
  | cons t s =>
    change Leaves (t :: s) (if t.isEof then t :: s else s)
    split
    · exact hs.refl
    · next heof => exact hs.tail (Bool.eq_false_iff.2 heof)

theorem Gives.advance (hp : Gives I p P) : Gives I (advance >>= fun _ => p) P :=
  gives_advance.bind fun _ _ => hp

theorem gives_spanHere : Gives I spanHere fun _ => True := gives_peek.bind fun _ _ => .pure trivial

theorem gives_isAt (glyph : String) : Gives I (isAt glyph) fun _ => True :=
  gives_peek.bind fun _ _ => .pure trivial

theorem gives_isAtWord (word : String) : Gives I (isAtWord word) fun _ => True :=
  gives_peek.bind fun _ _ => .pure trivial

theorem gives_eat (glyph : String) : Gives I (eat glyph) fun _ => True :=
  (gives_isAt glyph).bind fun _ _ => .ite (fun _ => .advance (.pure trivial)) fun _ => .pure trivial

theorem gives_eatWord (word : String) : Gives I (eatWord word) fun _ => True :=
  (gives_isAtWord word).bind fun _ _ => .ite (fun _ => .advance (.pure trivial)) fun _ =>
  .pure trivial

theorem Gives.test {look : Parsing Bool} (hlook : Gives I look fun _ => True) (hp : Gives I p P)
    (hq : Gives I q P) : Gives I (do if ← look then p else q) P :=
  hlook.bind fun _ _ => .ite (fun _ => hp) fun _ => hq

theorem Gives.ifAt (hp : Gives I p P) (hq : Gives I q P) :
    Gives I (do if ← isAt glyph then p else q) P := .test (gives_isAt glyph) hp hq

theorem Gives.ifEat (hp : Gives I p P) (hq : Gives I q P) :
    Gives I (do if ← eat glyph then p else q) P := .test (gives_eat glyph) hp hq

theorem Gives.ifEatWord (hp : Gives I p P) (hq : Gives I q P) :
    Gives I (do if ← eatWord word then p else q) P := .test (gives_eatWord word) hp hq

theorem givesAt_eatWord : GivesAt I t (eatWord word) fun b => b = t.isName word := by
  refine .look (·.isName word) (fun _ => rfl) (.ite (fun h => ?_) fun h => ?_)
  · exact .bind (gives_advance t) fun _ _ => .pure h.symm
  · refine Gives.pure ?_ t
    exact (Bool.eq_false_iff.2 h).symm

/-- A look at the next token tells the branch that is taken if it succeeds what the token is. -/
theorem Gives.ifLook {look : Parsing Bool} {f : Bool → Parsing α} (test : Token → Bool)
    (hlook : ∀ s, look s = .ok (test (s.headD noToken)) s) (htrue : ∀ t, test t = true →
      GivesAt I t (f true) P)
    (hfalse : Gives I (f false) P) : Gives I (look >>= f) P := by
  refine fun t => .look test hlook ?_
  cases h : test t with
  | true => exact htrue t h
  | false => exact hfalse t

theorem isName_of_isControl (h : t.isControl glyph = true) : t.isName word = false := by
  simp only [Token.isControl, Bool.and_eq_true, beq_iff_eq] at h
  simp [Token.isName, h.1]

theorem gives_expect (glyph : String) : Gives I (expect src glyph) fun _ => True :=
  gives_peek.bind fun t ht => .ite (fun _ => gives_advance) fun _ => .fail (I.place t ht)

theorem gives_expectWord (word : String) : Gives I (expectWord src word) fun _ => True :=
  gives_peek.bind fun t ht => .ite (fun _ => gives_advance) fun _ => .fail (I.place t ht)

theorem Gives.expect (hp : Gives I p P) : Gives I (expect src glyph >>= fun _ => p) P :=
  (gives_expect glyph).bind fun _ _ => hp

theorem gives_startsExpr : Gives I startsExpr fun _ => True :=
  gives_peek.bind fun _ _ => .pure trivial

theorem gives_skipKinds {kinds : List Token.Kind} (hkinds : .eof ∉ kinds) :
    Gives I (skipKinds kinds) fun _ => True := by
  refine .of_run (fun _ => rfl) fun s hs => ⟨trivial, dropWhile_sublist _, ?_⟩
  obtain ⟨t, ht, heof⟩ := hs.hasEnd
  rw [← takeWhile_append_dropWhile (p := fun t => kinds.contains t.kind) (l := s)] at ht
  rcases mem_append.1 ht with ht | ht
  · have hkind := all_eq_true.1 all_takeWhile t ht
    simp only [Token.isEof, beq_iff_eq] at heof
    rw [heof] at hkind
    exact absurd (contains_iff_mem.1 hkind) hkinds
  · exact ⟨t, ht, heof⟩

theorem gives_name : Gives I (identifier src) IsName := by
  refine gives_peek.bind fun t ht => .ite (fun h => ?_) fun _ => .fail (I.place t ht)
  simp only [Bool.and_eq_true, beq_iff_eq, Bool.not_eq_true'] at h
  exact .advance (.pure ⟨I.word t ht h.1, h.2⟩)

/-! ## The end of the text -/

/-- The parser needs a token: at the end of the text it fails. -/
def FailsAtEnd (I : Lexical src) (p : Parsing α) : Prop :=
  ∀ ⦃t⦄, t.isEof = true → GivesAt I t p fun _ => False

theorem FailsAtEnd.bind (hp : FailsAtEnd I p) : FailsAtEnd I (p >>= f) :=
  fun _ ht => (hp ht).bind fun _ h => h.elim

theorem FailsAtEnd.advance (hp : FailsAtEnd I p) : FailsAtEnd I (advance >>= fun _ => p) := by
  intro t ht
  have hstays {s : List Token} (hs : s.headD noToken = t) :
      (Parse.advance >>= fun _ => p) s = p s := by
    cases s with
    | nil => rfl
    | cons x s =>
      obtain rfl : x = t := hs
      rw [run_bind, run_advance, ht]
      rfl
  exact ⟨fun s a s' hs hhead hrun => (hp ht).ok hs hhead (hstays hhead ▸ hrun),
    fun s e s' hs hhead hrun => (hp ht).error hs hhead (hstays hhead ▸ hrun)⟩

theorem FailsAtEnd.peek {f : Token → Parsing α}
    (hf : ∀ t, I t → t.isEof = true → FailsAtEnd I (f t)) : FailsAtEnd I (peek >>= f) :=
  fun t ht => .peek (.ofMem fun hmem => hf t hmem ht ht)

theorem FailsAtEnd.spanHere {f : Span → Parsing α} (hf : ∀ span, FailsAtEnd I (f span)) :
    FailsAtEnd I (spanHere >>= f) :=
  fun _ ht => .look (.ofPosition ·.pos) (fun _ => rfl) (hf _ ht)

theorem failsAtEnd_expect (glyph : String) : FailsAtEnd I (expect src glyph) := by
  refine .peek fun t hmem ht => ?_
  have hkind : t.kind = .eof := by simpa [Token.isEof] using ht
  have hglyph : t.isControl glyph = false := by simp [Token.isControl, hkind]
  rw [hglyph]
  exact fun u _ => Gives.fail (I.place t hmem) u

theorem failsAtEnd_identifier : FailsAtEnd I (identifier src) := by
  refine .peek fun t hmem ht => ?_
  have hkind : t.kind = .eof := by simpa [Token.isEof] using ht
  have hname : (t.kind == .name && !isKeyword t.text) = false := by simp [hkind]
  rw [hname]
  exact fun u _ => Gives.fail (I.place t hmem) u

def IsPlace (I : Token → Prop) (span : Span) : Prop :=
  ∃ t, I t ∧ t.isEof = false ∧ span = .ofPosition t.pos

theorem GivesAt.ofSpanHere {f : Span → Parsing α} (hend : ∀ span, FailsAtEnd I (f span))
    (h : IsPlace I (.ofPosition t.pos) → GivesAt I t (f (.ofPosition t.pos)) P) :
    GivesAt I t (spanHere >>= f) P := by
  refine .look (.ofPosition ·.pos) (fun _ => rfl) (.ofMem fun ht => ?_)
  cases heof : t.isEof with
  | true =>
    exact ⟨fun _ _ _ hs hhead hrun => ((hend _ heof).ok hs hhead hrun).1.elim, (hend _ heof).error⟩
  | false => exact h ⟨t, ht, heof, rfl⟩

theorem Gives.ofSpanHere {f : Span → Parsing α} (hend : ∀ span, FailsAtEnd I (f span))
    (h : ∀ span, IsPlace I span → Gives I (f span) P) : Gives I (spanHere >>= f) P :=
  fun t => .ofSpanHere hend fun hspan => h _ hspan t

/-! ## Repetition -/

theorem gives_manyTo {p : Parsing (Option α)} (hp : Gives I p fun r => ∀ a ∈ r, P a) (n : Nat) :
    Gives I (manyTo p n) fun as => ∀ a ∈ as, P a := by
  induction n with
  | zero => exact .exhausted
  | succ n ih =>
    refine hp.bind fun r hr => ?_
    cases r with
    | none => exact .pure nofun
    | some a => exact ih.map fun as has => forall_mem_cons.2 ⟨hr a rfl, has⟩

theorem gives_bound : Gives I bound fun n => 0 < n :=
  .of_run (fun _ => rfl) fun _ hs => ⟨Nat.succ_pos _, hs.refl⟩

theorem gives_many {p : Parsing (Option α)} (hp : Gives I p fun r => ∀ a ∈ r, P a) :
    Gives I (many p) fun as => ∀ a ∈ as, P a :=
  gives_bound.bind fun n _ => gives_manyTo hp n

theorem gives_grow {p : α → Parsing (Option α)}
    (hp : ∀ a, P a → Gives I (p a) fun r => ∀ b ∈ r, P b) (ha : P a) : Gives I (grow p a) P := by
  have hgrow (n : Nat) : ∀ a, P a → Gives I (growTo p n a) P := by
    induction n with
    | zero => exact fun _ _ => .exhausted
    | succ n ih =>
      intro a ha
      refine (hp a ha).bind fun r hr => ?_
      cases r with
      | none => exact .pure ha
      | some b => exact ih b (hr b rfl)
  exact gives_bound.bind fun n _ => hgrow n a ha

variable {ends : Parsing Bool}

theorem gives_moreItems (hends : Gives I ends fun _ => True) (hitem : Gives I item P) :
    Gives I (moreItems ends item) fun as => ∀ a ∈ as, P a := by
  exact gives_many (.ifEat (.test hends .none hitem.some) .none)

theorem gives_items {close : String} (hitem : Gives I item P) :
    Gives I (items close item) fun as => ∀ a ∈ as, P a := by
  refine .ifAt (.pure nofun) (hitem.bind fun a ha => ?_)
  exact (gives_moreItems (gives_isAt close) hitem).bind fun as has =>
    .pure (forall_mem_cons.2 ⟨ha, has⟩)

theorem givesAt_many {p : Parsing (Option α)}
    (hfirst : GivesAt I t p fun r => ∃ a, r = some a ∧ P a) (hp : Gives I p fun r => ∀ a ∈ r, P a) :
    GivesAt I t (many p) fun as => as ≠ [] ∧ ∀ a ∈ as, P a := by
  have hfirsts (n : Nat) : GivesAt I t (manyTo p (n + 1)) fun as => as ≠ [] ∧ ∀ a ∈ as, P a := by
    refine hfirst.bind fun r hr => ?_
    obtain ⟨a, rfl, ha⟩ := hr
    refine (gives_manyTo hp n).map fun as has => ?_
    exact ⟨cons_ne_nil a as, forall_mem_cons.2 ⟨ha, has⟩⟩
  exact ⟨fun s _ _ hs ht hrun => (hfirsts s.length).ok hs ht (run_many p s ▸ hrun),
    fun s _ _ hs ht hrun => (hfirsts s.length).error hs ht (run_many p s ▸ hrun)⟩

theorem gives_mapM {ys : List β} {f : β → Parsing α} (hf : ∀ y ∈ ys, Gives I (f y) P) :
    Gives I (ys.mapM f) fun as => ∀ a ∈ as, P a := by
  induction ys with
  | nil => exact .pure nofun
  | cons y ys ih =>
    rw [mapM_cons]
    refine (hf y mem_cons_self).bind fun a ha => ?_
    refine (ih fun z hz => hf z (mem_cons_of_mem y hz)).bind fun as has => ?_
    exact .pure (forall_mem_cons.2 ⟨ha, has⟩)

theorem gives_commaSeparated (hends : Gives I ends fun _ => True) (hitem : Gives I item P) :
    Gives I (commaSeparated ends item) fun as => as ≠ [] ∧ ∀ a ∈ as, P a := by
  refine hitem.bind fun a ha => (gives_moreItems hends hitem).bind fun as has => ?_
  exact .pure ⟨cons_ne_nil a as, forall_mem_cons.2 ⟨ha, has⟩⟩

end Program.Parse

end BlockScript
