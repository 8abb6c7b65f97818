import BlockScript.Proofs.Growth.Rules
import BlockScript.Proofs.Pieces

/-! What a successful reading does, stated over the pieces it reads. `Reads script s code t` says
that the state moved from `s` to `t` over some pieces and that their code is `code`; it composes, so
each rule of the grammar follows its own sequence of reads. -/

namespace BlockScript

open List

variable {c : Char}

namespace Text

variable {p : Char → Bool}

theorem dropTrailing_append_cons (hc : p c = false) (a b : List Char) :
    dropTrailing p (a ++ c :: b) = a ++ c :: dropTrailing p b := by
  have : (b.reverse ++ c :: a.reverse).dropWhile p = b.reverse.dropWhile p ++ c :: a.reverse := by
    rw [dropWhile_append]
    split
    · next h => simp [hc, List.isEmpty_iff.1 h]
    · rfl
  simp [dropTrailing, this]

theorem dropTrailing_append (a b : List Char) : dropTrailing p (a ++ b) =
      if dropTrailing p b = [] then dropTrailing p a else a ++ dropTrailing p b := by
  simp only [dropTrailing, reverse_append, dropWhile_append, reverse_eq_nil_iff, List.isEmpty_iff]
  split <;> simp

theorem dropTrailing_prefix (cs : List Char) :
    ∃ trail, dropTrailing p cs ++ trail = cs ∧ ∀ c ∈ trail, p c = true := by
  refine ⟨(cs.reverse.takeWhile p).reverse, ?_, fun c hc => ?_⟩
  · rw [dropTrailing, ← reverse_append, takeWhile_append_dropWhile, reverse_reverse]
  · exact Token.forall_mem_takeWhile c (mem_reverse.1 hc)

end Text

/-- Statements in braces that are not all blank. -/
def Closure.Solid (c : Closure) : Prop :=
  ∀ code, c.body = .block code → (Text.trim code.toList).isEmpty = false

namespace Desugar

def isGap (c : Char) : Bool := c == ' ' || c == '\t'

theorem closureId_eq_append (stack : List String) (n : Nat) :
    ∃ lead c, (closureId stack n).toList = lead ++ [c] ∧ c.isDigit = true := by
  have hne : Nat.toDigits 10 (n + 1) ≠ [] := Nat.toDigits_ne_nil
  refine ⟨(String.join stack.reverse ++ "_closure_").toList ++ (Nat.toDigits 10 (n + 1)).dropLast,
    (Nat.toDigits 10 (n + 1)).getLast hne, ?_, ?_⟩
  · simp only [toList_closureId, String.toList_append, append_assoc, dropLast_concat_getLast]
  · exact Nat.isDigit_of_mem_toDigits (by decide) (by decide) (getLast_mem hne)

theorem isGap_eq_false_of_isDigit (h : c.isDigit = true) : isGap c = false := by
  simp only [isGap, Bool.or_eq_false_iff, beq_eq_false_iff_ne]
  exact ⟨fun hc => by simp [hc] at h, fun hc => by simp [hc] at h⟩

namespace Pieces

variable {n : Nat} {stack : List String}

theorem count_eq_zero_of_code {p : Pieces} (h : p.code stack n = []) : p.count = 0 := by
  induction p generalizing n with
  | done => rfl
  | copied _ _ ih | replaced _ _ _ ih =>
    rw [code, append_eq_nil_iff] at h
    exact ih h.2
  | call => simp [code] at h
  | closure _ _ _ _ body rest =>
    obtain ⟨lead, c, hid, -⟩ := closureId_eq_append stack n
    simp [code, hid] at h

theorem closures_eq_nil {p : Pieces} (h : p.count = 0) (stack : List String) (n : Nat)
    (pos : Position) : p.closures stack n pos = [] :=
  eq_nil_of_length_eq_zero ((p.length_closures ..).trans h)

theorem Plain.newline_notMem_source {mark? : Option String} {p : Pieces} (hp : p.Plain mark?)
    (hcode : ∀ c ∈ p.code stack n, isGap c = true) : '\n' ∉ p.source := by
  induction p generalizing n with
  | done => simp [source]
  | copied text rest ih =>
    obtain ⟨htext, hrest⟩ := forall_mem_append.1 hcode
    rw [source, mem_append, not_or]
    exact ⟨fun h => absurd (htext _ h) (by decide), ih hp hrest⟩
  | replaced text code rest ih =>
    obtain ⟨-, hrest⟩ := forall_mem_append.1 hcode
    rw [source, mem_append, not_or]
    exact ⟨hp.1.1, ih hp.2 hrest⟩
  | call => exact absurd (hcode '(' (by simp [code])) (by decide)
  | closure =>
    obtain ⟨lead, c, hid, hc⟩ := closureId_eq_append stack n
    have hgap := hcode c (by simp [code, hid])
    rw [isGap_eq_false_of_isDigit hc] at hgap
    cases hgap

/-- The blanks at the end of the code can be left out: they stand at the end of the text. -/
theorem exists_dropTrailing (p : Pieces) (stack : List String) (n : Nat) :
    ∃ (q : Pieces) (blanks : List Char), q.source ++ blanks = p.source ∧ q.count = p.count ∧
      q.code stack n = Text.dropTrailing isGap (p.code stack n) ∧
      (∀ pos, q.closures stack n pos = p.closures stack n pos) ∧
      ∀ mark?, p.Plain mark? → q.Plain mark? ∧ '\n' ∉ blanks := by
  -- Blanks at the end of a piece, with all that comes after it.
  have hends {rest : Pieces} {mark? : Option String} {n : Nat} {trail : List Char}
      (htrail : ∀ c ∈ trail, isGap c = true)
      (hrest : Text.dropTrailing isGap (rest.code stack n) = []) (hplain : rest.Plain mark?) :
      '\n' ∉ trail ++ rest.source := by
    obtain ⟨all, hall, hgap⟩ := Text.dropTrailing_prefix (p := isGap) (rest.code stack n)
    rw [hrest, nil_append] at hall
    rw [mem_append, not_or]
    exact ⟨fun h => absurd (htrail _ h) (by decide), hplain.newline_notMem_source (hall ▸ hgap)⟩
  induction p generalizing n with
  | done => exact ⟨done, [], rfl, rfl, rfl, fun _ => rfl, fun _ h => ⟨h, not_mem_nil⟩⟩
  | copied text rest ih =>
    obtain ⟨q, blanks, hsource, hcount, hcode, hclosures, hplain⟩ := ih n
    by_cases hq : q.code stack n = []
    · obtain ⟨trail, ht, hgap⟩ := Text.dropTrailing_prefix (p := isGap) text
      have hz := (hcount ▸ count_eq_zero_of_code hq : rest.count = 0)
      refine ⟨copied (Text.dropTrailing isGap text) done, trail ++ rest.source, ?_, hz.symm, ?_, ?_,
        fun _ h => ⟨trivial, hends hgap (hcode ▸ hq) h⟩⟩
      · simp only [source, append_nil, ← append_assoc, ht]
      · simp [code, Text.dropTrailing_append, ← hcode, hq]
      · exact fun pos => (closures_eq_nil hz ..).symm
    · refine ⟨copied text q, blanks, ?_, hcount, ?_, fun pos => hclosures _, fun _ h => hplain _ h⟩
      · simp only [source, append_assoc, hsource]
      · rw [code, code, Text.dropTrailing_append, ← hcode, if_neg hq]
  | replaced text written rest ih =>
    obtain ⟨q, blanks, hsource, hcount, hcode, hclosures, hplain⟩ := ih n
    by_cases hq : q.code stack n = []
    · have hz := (hcount ▸ count_eq_zero_of_code hq : rest.count = 0)
      obtain ⟨trail, ht, -⟩ := Text.dropTrailing_prefix (p := isGap) written
      refine ⟨replaced text (Text.dropTrailing isGap written) done, rest.source, ?_,
        hz.symm, ?_, ?_, ?_⟩
      · simp only [source, append_nil]
      · simp [code, Text.dropTrailing_append, ← hcode, hq]
      · exact fun pos => (closures_eq_nil hz ..).symm
      · rintro mark? ⟨⟨htext, mark, hmark, hlead⟩, hrest⟩
        have hnone : ∀ c ∈ ([] : List Char), isGap c = true := forall_mem_nil _
        refine ⟨⟨⟨htext, mark, hmark, ?_⟩, trivial⟩, hends hnone (hcode ▸ hq) hrest⟩
        exact List.IsPrefix.trans ⟨trail, ht⟩ hlead
    · refine ⟨replaced text written q, blanks, ?_, hcount, ?_, fun pos => hclosures _,
        fun _ h => ⟨⟨h.1, (hplain _ h.2).1⟩, (hplain _ h.2).2⟩⟩
      · simp only [source, append_assoc, hsource]
      · rw [code, code, Text.dropTrailing_append, ← hcode, if_neg hq]
  | call gap arguments rest _ ih =>
    obtain ⟨q, blanks, hsource, hcount, hcode, hclosures, hplain⟩ := ih (n + arguments.count)
    refine ⟨call gap arguments q, blanks, ?_, ?_, ?_, ?_, fun _ h =>
      ⟨⟨h.1, h.2.1, (hplain _ h.2.2).1⟩, (hplain _ h.2.2).2⟩⟩
    · simp only [source, append_assoc, hsource]
    · simp only [count, hcount]
    · rw [code, code, hcode, ← cons_append, ← cons_append,
        Text.dropTrailing_append_cons (by decide)]
    · intro pos
      simp only [closures, hclosures]
  | closure opening hne parameters braced body rest _ ih =>
    obtain ⟨q, blanks, hsource, hcount, hcode, hclosures, hplain⟩ := ih (n + (body.count + 1))
    obtain ⟨lead, c, hid, hc⟩ := closureId_eq_append stack n
    refine ⟨closure opening hne parameters braced body q, blanks, ?_, ?_, ?_, ?_, fun _ h =>
      ⟨⟨h.1, h.2.1, (hplain _ h.2.2).1⟩, (hplain _ h.2.2).2⟩⟩
    · simp only [source, append_assoc, hsource]
    · simp only [count, hcount]
    · simp only [code, hcode, hid, append_assoc, singleton_append,
        Text.dropTrailing_append_cons (isGap_eq_false_of_isDigit hc)]
    · intro pos
      simp only [closures, hclosures]

end Pieces

/-! ## Moves over pieces -/

/-- The state stands after the text `before` of `source`, no token is skipped, and the ids
registered are those of complete closures. -/
structure State.At (s : State) (source before : List Char) : Prop where
  skipped : s.scanner.skipped = []
  scanner : s.scanner.At source before
  numbered : s.Numbered

def State.bumped (s : State) : State := { s with scanner := s.scanner.bump }

/-- Reading the pieces leads from `s`, which stands after `before`, to `t`. -/
structure Pieces.Leads (p : Pieces) (source before : List Char) (s t : State) : Prop where
  place : t.At source (before ++ p.source)
  stack : t.stack = s.stack
  counter : t.counter = s.counter + p.count
  closures : t.closures =
    (p.closures s.stack s.counter (Position.start.advance before)).foldl .register s.closures
  solid : ∀ c ∈ p.closures s.stack s.counter (Position.start.advance before), c.Solid

variable {s t : State}

theorem Pieces.Leads.append {p q : Pieces} {source before : List Char} {u : State}
    (hp : p.Leads source before s t) (hq : q.Leads source (before ++ p.source) t u) :
    (p.append q).Leads source before s u where
  place := by
    rw [source_append, ← append_assoc]
    exact hq.place
  stack := hq.stack.trans hp.stack
  counter := by rw [hq.counter, hp.counter, count_append, Nat.add_assoc]
  closures := by
    rw [hq.closures, hp.closures, hp.stack, hp.counter, closures_append, foldl_append,
      Position.advance_append]
  solid := by
    have hsolid := hq.solid
    rw [hp.stack, hp.counter, Position.advance_append] at hsolid
    rw [closures_append]
    exact forall_mem_append.2 ⟨hp.solid, hsolid⟩

/-- The state moves from `s` to `t` over pieces of the script with this code. -/
def Reads (script : Script) (s : State) (code : String) (t : State) : Prop :=
  ∀ before, s.At script.source before →
    ∃ p : Pieces, p.Leads script.source before s t ∧ code.toList = p.code s.stack s.counter ∧
      (script.plugins = [] → p.Plain script.localPrefix)

namespace Reads

variable {script : Script} {s t u : State} {a b code : String}

theorem refl (s : State) : Reads script s "" s :=
  fun before h => ⟨.done, ⟨by rwa [Pieces.source, append_nil], rfl, rfl, rfl, nofun⟩,
    rfl, fun _ => trivial⟩

theorem trans (h1 : Reads script s a t) (h2 : Reads script t b u) : Reads script s (a ++ b) u := by
  intro before h
  obtain ⟨p, hp, ha, hpp⟩ := h1 before h
  obtain ⟨q, hq, hb, hqp⟩ := h2 _ hp.place
  refine ⟨p.append q, hp.append hq, ?_, fun h => (hpp h).append (hqp h)⟩
  rw [String.toList_append, Pieces.code_append, ha, hb, hp.stack, hp.counter]

variable {scanner : Scanner} {parameters : Option (List String)} {text : List Char}

theorem of_copies (h : s.scanner.Copies code.toList scanner) :
    Reads script s code { s with scanner } := by
  intro before ⟨hk, hs, hn⟩
  obtain ⟨hk', h'⟩ := h hk
  refine ⟨.copied code.toList .done, ⟨⟨hk', ?_, hn⟩, rfl, rfl, rfl, nofun⟩, ?_, fun _ => trivial⟩
  · rw [Pieces.source, Pieces.source, append_nil]
    exact h' script.source before hs
  · rw [Pieces.code, Pieces.code, append_nil]

theorem token (s : State) : Reads script s s.scanner.current.text s.bumped :=
  of_copies s.scanner.copies_bump

theorem control {glyph : String} (h : s.scanner.current.isControl glyph = true) :
    Reads script s glyph s.bumped :=
  Token.text_eq_of_isControl h ▸ token s

theorem name {word : String} (h : s.scanner.current.isName word = true) :
    Reads script s word s.bumped := by
  have : s.scanner.current.text = word := by
    simpa using (Bool.and_eq_true_iff.1 h).2
  exact this ▸ token s

theorem replaced (code : String) (h : ∀ before, s.At script.source before →
      scanner.skipped = [] ∧ ∃ text, scanner.At script.source (before ++ text) ∧
      (script.plugins = [] →
          '\n' ∉ text ∧ ∃ mark ∈ script.localPrefix, code.toList <+: mark.toList)) :
    Reads script s code { s with scanner } := by
  intro before hs
  obtain ⟨hk, text, htext, hplain⟩ := h before hs
  refine ⟨.replaced text code.toList .done, ⟨⟨hk, ?_, hs.numbered⟩, rfl, rfl, rfl, nofun⟩, ?_,
    fun h => ⟨hplain h, trivial⟩⟩
  · rwa [Pieces.source, Pieces.source, append_nil]
  · rw [Pieces.code, Pieces.code, append_nil]

theorem marked {mark : String} (hmark : script.localPrefix = some mark)
    (h : s.scanner.Copies text scanner)
    (htext : s.scanner.Scanned → '\n' ∉ text) : Reads script s mark { s with scanner } := by
  refine replaced mark fun before hs => ?_
  obtain ⟨hk, hat⟩ := h hs.skipped
  exact ⟨hk, text, hat script.source before hs.scanner, fun _ =>
    ⟨htext hs.scanner.scanned, mark, hmark, prefix_rfl⟩⟩

theorem of_passed (hplugins : script.plugins ≠ []) (code : String)
    (h : s.scanner.Copies text scanner) : Reads script s code { s with scanner } := by
  refine replaced code fun before hs => ?_
  obtain ⟨hk, hat⟩ := h hs.skipped
  exact ⟨hk, text, hat script.source before hs.scanner, fun h => absurd h hplugins⟩

theorem written (hplugins : script.plugins ≠ []) (s : State) (code : String) :
    Reads script s code s :=
  of_passed hplugins code (.refl s.scanner)

theorem dropped (hplugins : script.plugins ≠ []) (s : State) : Reads script s "" s.bumped :=
  of_passed hplugins "" s.scanner.copies_bump

theorem of_rolledBack (h : s.RolledBack t) (h' : Reads script t code u) :
    Reads script s code u := by
  intro before hs
  obtain rfl := h.eq hs.numbered
  exact h' before hs

/-- Arguments get parentheses; the blanks between them and what they are applied to are left
out. -/
theorem call (h1 : Reads script s a t) (h2 : Reads script t b u) :
    Reads script s (String.ofList (Text.dropTrailing isGap a.toList) ++ "(" ++ b ++ ")") u := by
  intro before h
  obtain ⟨p, hp, ha, hpp⟩ := h1 before h
  obtain ⟨q, hq, hb, hqp⟩ := h2 _ hp.place
  obtain ⟨p', blanks, hsource, hcount, hcode, hclosures, hplain⟩ :=
    p.exists_dropTrailing s.stack s.counter
  refine ⟨p'.append (.call blanks q .done),
    ⟨?_, hq.stack.trans hp.stack, ?_, ?_, ?_⟩, ?_, fun h => ?_⟩
  · have := hq.place
    rw [← hsource] at this
    simpa [Pieces.source_append, Pieces.source] using this
  · rw [hq.counter, hp.counter, Pieces.count_append, hcount]
    simp only [Pieces.count, Nat.add_zero, Nat.add_assoc]
  · rw [hq.closures, hp.closures, hp.stack, hp.counter, Pieces.closures_append, hclosures, hcount,
      foldl_append, ← hsource]
    simp only [Pieces.closures, append_nil, Position.advance_append]
  · have hsolid := hq.solid
    rw [hp.stack, hp.counter, ← hsource, Position.advance_append, Position.advance_append] at hsolid
    rw [Pieces.closures_append, hclosures, hcount]
    simp only [Pieces.closures, append_nil]
    exact forall_mem_append.2 ⟨hp.solid, hsolid⟩
  · simp [Pieces.code_append, Pieces.code, hcode, hcount, ha, hb, hp.stack, hp.counter]
  · obtain ⟨hp', hblanks⟩ := hplain _ (hpp h)
    exact hp'.append ⟨hblanks, hqp h, trivial⟩

theorem closure {body : ClosureBody} (braced : Bool) (h : Reads script t code u)
    (hopen : ∀ before, s.At script.source before →
      ∃ opening, opening ≠ [] ∧ t.At script.source (before ++ opening))
    (hwords : s.scanner.Scanned → ∀ names ∈ parameters, ∀ name ∈ names, Token.IsWord name.toList)
    (hstack : t.stack = s.nextId :: s.stack) (hcounter : t.counter = s.counter)
    (hclosures : t.closures = s.closures)
    (hclose : u.scanner.Copies (Pieces.closing braced) scanner)
    (hbody : body = Pieces.body braced code.toList)
    (hsolid : ∀ text, body = .block text → (Text.trim text.toList).isEmpty = false) :
    Reads script s s.nextId { u with
      scanner, stack := u.stack.drop 1, counter := u.counter + 1,
      closures := u.closures.register
        ⟨s.nextId, s.scanner.current.pos.line,
          s.scanner.current.pos.column, parameters, body⟩ } := by
  intro before hs
  obtain ⟨opening, hne, ht⟩ := hopen before hs
  obtain ⟨p, hp, hcode, hplain⟩ := h _ ht
  obtain ⟨hk, hat⟩ := hclose hp.place.skipped
  refine ⟨.closure opening hne parameters braced p .done, ⟨⟨hk, ?_, ?_⟩, ?_, ?_, ?_, ?_⟩, ?_,
    fun h => ⟨hwords hs.scanner.scanned, hplain h, trivial⟩⟩
  · have := hat script.source _ hp.place.scanner
    simpa [Pieces.source] using this
  · exact hp.place.numbered.register s.nextId_eq (by rw [hp.counter, hcounter]; omega)
  · simp [hp.stack, hstack]
  · simp [hp.counter, hcounter, Pieces.count, Nat.add_assoc]
  · simp only [hp.closures, hstack, hcounter, hclosures, Pieces.closures, ← s.nextId_eq,
      foldl_append, foldl_cons, foldl_nil, hs.scanner.pos, hbody, hcode,
      Position.advance_append]
  · have hinner := hp.solid
    rw [hstack, hcounter, s.nextId_eq, Position.advance_append] at hinner
    refine forall_mem_append.2 ⟨hinner, forall_mem_cons.2 ⟨fun text htext => ?_, forall_mem_nil _⟩⟩
    refine hsolid text ?_
    rw [hbody, hcode, hstack, hcounter, s.nextId_eq]
    exact htext
  · simp [Pieces.code, s.nextId_eq]

/-- A closure in braces, which `scanner` reaches after its header. -/
theorem block (hopen : ∀ before, s.At script.source before →
      scanner.skipped = [] ∧ ∃ header, scanner.At script.source (before ++ header))
    (hwords : s.scanner.Scanned → ∀ names ∈ parameters, ∀ name ∈ names, Token.IsWord name.toList)
    (hbrace : scanner.current.isControl "\x7b" = true)
    (h : Reads script (State.bumped { s with scanner, stack := s.nextId :: s.stack }) code t)
    (hclose : t.scanner.current.isControl "\x7d" = true)
    (hsolid : (Text.trim code.toList).isEmpty = false) :
    Reads script s s.nextId { t.bumped with
      stack := t.stack.drop 1, counter := t.counter + 1,
      closures := t.closures.register ⟨s.nextId, s.scanner.current.pos.line,
        s.scanner.current.pos.column, parameters, .block code⟩ } := by
  refine closure true h ?_ hwords rfl rfl rfl ?_ (by simp [Pieces.body]) ?_
  · intro before hs
    obtain ⟨hk, header, hat⟩ := hopen before hs
    refine ⟨header ++ scanner.current.text.toList, ?_, ?_, ?_, hs.numbered⟩
    · simp [Token.text_eq_of_isControl hbrace]
    · exact (scanner.skipped_bump).trans hk
    · rw [← append_assoc]
      exact hat.bump_all hk
  · have := t.scanner.copies_bump
    rwa [Token.text_eq_of_isControl hclose] at this
  · rintro _ ⟨⟩
    exact hsolid

/-- A closure with an arrow, whose body `scanner` reaches after its header. -/
theorem arrow (hopen : ∀ before, s.At script.source before →
      scanner.skipped = [] ∧ ∃ header, header ≠ [] ∧ scanner.At script.source (before ++ header))
    (hwords : s.scanner.Scanned → ∀ names ∈ parameters, ∀ name ∈ names, Token.IsWord name.toList)
    (h : Reads script { s with scanner, stack := s.nextId :: s.stack } code t) :
    Reads script s s.nextId { t with
      stack := t.stack.drop 1, counter := t.counter + 1,
      closures := t.closures.register ⟨s.nextId, s.scanner.current.pos.line,
        s.scanner.current.pos.column, parameters, .expr code⟩ } := by
  refine closure false h ?_ hwords rfl rfl rfl (.refl _) (by simp [Pieces.body]) nofun
  intro before hs
  obtain ⟨hk, header, hne, hat⟩ := hopen before hs
  exact ⟨header, hne, hk, hat, hs.numbered⟩

end Reads

/-! ## Results of readings -/

/-- If `p` succeeds from `s`, its result and the state after it satisfy `post`. -/
def Yields {α : Type} (p : Reading α) (s : State) (post : α → State → Prop) : Prop :=
  ∀ a t, p s = .ok a t → post a t

namespace Yields

variable {α β : Type} {s : State} {p : Reading α} {f : α → Reading β} {post : β → State → Prop}
variable {f' : Token → Reading β} {g : Unit → Reading β} {k : State → Reading β}

theorem pure {b : β} (h : post b s) : Yields (Pure.pure b) s post := by
  rintro _ _ ⟨⟩
  exact h

theorem andThen {mid : α → State → Prop} (hp : Yields p s mid)
    (hf : ∀ a t, mid a t → Yields (f a) t post) : Yields (p >>= f) s post := by
  intro b u h
  change EStateM.bind p f s = _ at h
  unfold EStateM.bind at h
  split at h
  · next a t heq => exact hf a t (hp a t heq) b u h
  · cases h

theorem runThen (hf : ∀ a t, p s = .ok a t → Yields (f a) t post) : Yields (p >>= f) s post :=
  andThen (fun _ _ h => h) hf

theorem anyThen (hf : ∀ a t, Yields (f a) t post) : Yields (p >>= f) s post :=
  runThen fun a t _ => hf a t

theorem fail (script : Script) (fault : SyntaxFault) (pos : Position) :
    Yields (Desugar.fail script fault pos) s post := by
  intro _ _ h
  cases h

theorem failThen (script : Script) (fault : SyntaxFault) (pos : Position) :
    Yields (Desugar.fail script fault pos >>= f) s post := by
  intro _ _ h
  cases h

theorem current (h : Yields (f' s.scanner.current) s post) :
    Yields (Desugar.current >>= f') s post := h

theorem bump (h : Yields (g ()) s.bumped post) : Yields (Desugar.bump >>= g) s post := h

theorem get (h : Yields (k s) s post) : Yields (MonadState.get >>= k) s post := h

theorem moveTo {scanner : Scanner} (h : Yields (g ()) { s with scanner } post) :
    Yields (Desugar.moveTo scanner >>= g) s post := h

end Yields

/-- Reading returns the code of the pieces it reads. -/
def Faithful (script : Script) (p : Reading String) : Prop := ∀ s, Yields p s (Reads script s)

/-- The state moves over `text`, and only the scanner moves. -/
def Moves (s : State) (text : String) (t : State) : Prop :=
  t = { s with scanner := t.scanner } ∧ s.scanner.Copies text.toList t.scanner

theorem Moves.reads {text : String} (h : Moves s text t) (script : Script) :
    Reads script s text t := by
  obtain ⟨ht, hcopies⟩ := h
  exact ht ▸ .of_copies hcopies

/-- Where only the scanner moved, putting it back gives the state from before. -/
theorem Moves.back {text : String} (h : Moves s text t) : { t with scanner := s.scanner } = s := by
  rw [h.1]

theorem layout_yields (newlines : Bool) (s : State) : Yields (layout newlines) s (Moves s) := by
  rintro _ _ ⟨⟩
  exact ⟨rfl, (s.scanner.layout_copies newlines).1⟩

theorem layoutToIndent_yields (s : State) : Yields layoutToIndent s (Moves s) := by
  have hcopies := s.scanner.layout_copies true
  unfold layoutToIndent
  refine .get ?_
  rcases heq : s.scanner.layout true with ⟨texts, stop, _ | ⟨texts', stop'⟩⟩
  · rw [heq] at hcopies
    exact .moveTo (.pure ⟨rfl, hcopies.1⟩)
  · rw [heq] at hcopies
    exact .moveTo (.pure ⟨rfl, hcopies.2 _ _ rfl⟩)

theorem copyUntil_yields (stop : Token → Bool) (s : State) :
    Yields (copyUntil stop) s (Moves s) := by
  rintro _ _ ⟨⟩
  exact ⟨rfl, s.scanner.copyUntil_copies stop⟩

variable (script : Script)

theorem layout_faithful (newlines : Bool) : Faithful script (layout newlines) :=
  fun s code t h => (layout_yields newlines s code t h).reads script

theorem layoutToIndent_faithful : Faithful script layoutToIndent :=
  fun s code t h => (layoutToIndent_yields s code t h).reads script

theorem copyUntil_faithful (stop : Token → Bool) : Faithful script (copyUntil stop) :=
  fun s code t h => (copyUntil_yields stop s code t h).reads script

structure Grammar.Faithful (script : Script) (grammar : Grammar) : Prop where
  extending : grammar.Extending False script
  expr : ∀ mode, Desugar.Faithful script (grammar.expr mode)
  exprTail : ∀ mode, Desugar.Faithful script (grammar.exprTail mode)
  items : ∀ mode, Desugar.Faithful script (grammar.items mode)
  dictEntries : Desugar.Faithful script grammar.dictEntries
  simpleStatements : Desugar.Faithful script grammar.simpleStatements
  inlineStatements : Desugar.Faithful script grammar.inlineStatements
  assignments : Desugar.Faithful script grammar.assignments
  block : ∀ parent, Desugar.Faithful script (grammar.block parent)
  statements : ∀ width, Desugar.Faithful script (grammar.statements width)
  program : Desugar.Faithful script grammar.program

end Desugar

end BlockScript
