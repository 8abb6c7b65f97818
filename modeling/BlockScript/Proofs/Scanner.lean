import BlockScript.Desugar.State
import BlockScript.Proofs.Lexemes

/-! Where a scanner stands in its source. A scanner stands after the text that was read: its current
token is what the source goes on with, its cursor comes after that token, and both know their
positions. Moves lead from such a place to a later one. -/

namespace BlockScript

open List

/-- A place in a text, after one of its beginnings. -/
class PlaceIn (text : List Char) (pos : Position) : Prop where
  split : ∃ before after, text = before ++ after ∧ pos = Position.start.advance before

instance PlaceIn.start {text : List Char} : PlaceIn text .start := ⟨[], text, rfl, rfl⟩

/-- A fault at a place of the text. -/
def SyntaxError.IsOf (e : SyntaxError) (text : List Char) : Prop :=
  ∃ fault filename pos, PlaceIn text pos ∧ e = .ofFault fault filename text pos

namespace Position

theorem advance_append (p : Position) (a b : List Char) :
    p.advance (a ++ b) = (p.advance a).advance b :=
  foldl_append ..

theorem offset_advance (p : Position) (text : List Char) :
    (p.advance text).offset = p.offset + Text.byteSize text := by
  induction text generalizing p with
  | nil => rfl
  | cons c cs ih =>
    have hn : (p.next c).offset = p.offset + c.utf8Size := by
      unfold next
      split <;> rfl
    change ((p.next c).advance cs).offset = p.offset + (c.utf8Size + Text.byteSize cs)
    rw [ih, hn, Nat.add_assoc]

theorem offset_start_advance (text : List Char) :
    (Position.start.advance text).offset = Text.byteSize text := by
  rw [offset_advance]
  exact Nat.zero_add _

theorem line_advance (p : Position) (text : List Char) :
    (p.advance text).line = p.line + text.count '\n' := by
  induction text generalizing p with
  | nil => rfl
  | cons c cs ih =>
    change ((p.next c).advance cs).line = _
    rw [ih, next, count_cons]
    split
    · next h => simp [h]; omega
    · next h => simp [h]

end Position

variable {a b : List Char}

namespace Text

theorem byteSize_append (a b : List Char) : byteSize (a ++ b) = byteSize a + byteSize b := by
  induction a with
  | nil => simp [byteSize]
  | cons c cs ih =>
    change c.utf8Size + byteSize (cs ++ b) = c.utf8Size + byteSize cs + byteSize b
    rw [ih, Nat.add_assoc]

theorem byteSize_toList (s : String) : byteSize s.toList = s.utf8ByteSize := by
  suffices h : ∀ cs : List Char, byteSize cs = (String.ofList cs).utf8ByteSize by
    rw [h, String.ofList_toList]
  intro cs
  induction cs with
  | nil => rfl
  | cons c cs ih =>
    rw [String.ofList_cons, String.utf8ByteSize_append, String.utf8ByteSize_singleton, ← ih]
    rfl

theorem splitAtOffset?_add (a b : List Char) (k : Nat) : splitAtOffset? (byteSize a + k) (a ++ b) =
      (splitAtOffset? k b).map fun (before, after) => (a ++ before, after) := by
  induction a with
  | nil =>
    rw [show byteSize [] + k = k from Nat.zero_add k]
    cases hb : splitAtOffset? k b <;> simp [hb]
  | cons c cs ih =>
    obtain ⟨n, hn⟩ : ∃ n, c.utf8Size + byteSize cs + k = n + 1 :=
      ⟨c.utf8Size + byteSize cs + k - 1, by have := c.utf8Size_pos; omega⟩
    have hrest : n + 1 - c.utf8Size = byteSize cs + k := by omega
    change splitAtOffset? (c.utf8Size + byteSize cs + k) (c :: (cs ++ b)) = _
    rw [hn, splitAtOffset?, if_pos (by omega), hrest, ih, Option.map_map]
    rfl

theorem splitAtOffset?_byteSize (a b : List Char) :
    splitAtOffset? (byteSize a) (a ++ b) = some (a, b) := by
  have h := splitAtOffset?_add a b 0
  rw [Nat.add_zero] at h
  rw [h]
  cases b <;> simp [splitAtOffset?]

variable {text : List Char}

theorem splitAtOffset?_eq_some {n : Nat} (h : splitAtOffset? n text = some (a, b)) :
    text = a ++ b ∧ byteSize a = n := by
  fun_induction splitAtOffset? n text generalizing a b with
  | case1 text =>
    cases h
    exact ⟨rfl, rfl⟩
  | case2 => cases h
  | case3 n c cs hle ih =>
    simp only [Option.map_eq_some_iff, Prod.mk.injEq, Prod.exists] at h
    obtain ⟨a', b', hsplit, rfl, rfl⟩ := h
    obtain ⟨rfl, hsize⟩ := ih hsplit
    refine ⟨rfl, ?_⟩
    change c.utf8Size + byteSize a' = n + 1
    omega
  | case4 => cases h

theorem byteSize_eq_zero (h : byteSize text = 0) : text = [] := by
  cases text with
  | nil => rfl
  | cons c cs =>
    have hc := c.utf8Size_pos
    change c.utf8Size + byteSize cs = 0 at h
    omega

/-- Of two places in a text, the one with the smaller offset comes first. -/
theorem exists_eq_append_of_byteSize_le {c d : List Char} (h : a ++ b = c ++ d)
    (hle : byteSize a ≤ byteSize c) : ∃ between, c = a ++ between ∧ b = between ++ d := by
  rcases append_eq_append_iff.1 h with ⟨m, hc, hb⟩ | ⟨m, rfl, rfl⟩
  · exact ⟨m, hc, hb⟩
  · rw [byteSize_append] at hle
    have hm : byteSize m = 0 := by omega
    obtain rfl := byteSize_eq_zero hm
    exact ⟨[], by simp, rfl⟩

theorem slice?_byteSize (a between b : List Char) :
    slice? (byteSize a) (byteSize (a ++ between)) (a ++ (between ++ b)) = some between := by
  rw [slice?, splitAtOffset?_byteSize, byteSize_append, Nat.add_sub_cancel_left]
  simp [splitAtOffset?_byteSize]

end Text

namespace Token.Cursor

theorem scan_rest (c : Cursor) : c.rest = c.scan.1.text.toList ++ c.scan.2.rest := by
  simp [scan]

theorem scan_pos (c : Cursor) :
    c.scan.1.pos = c.pos ∧ c.scan.2.pos = c.pos.advance c.scan.1.text.toList := by
  simp [scan]

theorem scan_rest_of_isEof {c : Cursor} (h : c.scan.1.isEof = true) : c.rest = [] := by
  simpa [scan_isEof] using h

/-- Stepping over tokens passes their text; the next token comes right after it. -/
theorem advance_rest (skipped : List Kind) (c : Cursor) :
    ∃ gap, c.rest = gap ++ ((c.advance skipped).1.text.toList ++ (c.advance skipped).2.rest) ∧
      (c.advance skipped).1.pos = c.pos.advance gap ∧
      (c.advance skipped).2.pos = c.pos.advance (gap ++ (c.advance skipped).1.text.toList) ∧
      ((c.advance skipped).1.isEof = true →
        (c.advance skipped).1.text = "" ∧ (c.advance skipped).2.rest = []) ∧
        (skipped = [] → gap = []) := by
  fun_induction advance skipped c with
  | case1 c h =>
    have hr := scan_rest_of_isEof h
    have hs := scan_rest c
    rw [hr, eq_comm, append_eq_nil_iff] at hs
    exact ⟨[], scan_rest c, (scan_pos c).1, (scan_pos c).2,
      fun _ => ⟨by simpa using hs.1, hs.2⟩, fun _ => rfl⟩
  | case2 c h hk ih =>
    obtain ⟨gap, hrest, hpos, hnext, heof, -⟩ := ih
    refine ⟨c.scan.1.text.toList ++ gap, ?_, ?_, ?_, heof, ?_⟩
    · rw [append_assoc, ← hrest]
      exact scan_rest c
    · rw [Position.advance_append, ← (scan_pos c).2]
      exact hpos
    · rw [append_assoc, Position.advance_append, ← (scan_pos c).2]
      exact hnext
    · rintro rfl
      simp at hk
  | case3 c h hk =>
    exact ⟨[], scan_rest c, (scan_pos c).1, (scan_pos c).2, fun h' => absurd h' h, fun _ => rfl⟩

theorem exists_scan_eq_advance (skipped : List Kind) (c : Cursor) :
    ∃ c' : Cursor, c'.scan = c.advance skipped := by
  fun_induction advance skipped c with
  | case1 c h => exact ⟨c, rfl⟩
  | case2 c h hk ih => exact ih
  | case3 c h hk => exact ⟨c, rfl⟩

end Token.Cursor

theorem Token.text_eq_of_isControl {t : Token} {glyph : String} (h : t.isControl glyph = true) :
    t.text = glyph :=
  eq_of_beq (Bool.and_eq_true_iff.1 h).2

namespace Scanner

/-- The current token was read at some place, and the cursor comes after it. -/
def Scanned (s : Scanner) : Prop := ∃ c : Token.Cursor, c.scan = (s.current, s.cursor)

theorem scanned_readFrom (s : Scanner) (cursor : Token.Cursor) : (s.readFrom cursor).Scanned :=
  cursor.exists_scan_eq_advance s.skipped

variable {s : Scanner}

theorem Scanned.bump (h : s.Scanned) : s.bump.Scanned := by
  unfold Scanner.bump
  split
  · exact h
  · exact scanned_readFrom ..

theorem Scanned.setSkipped (h : s.Scanned) (kinds : List Token.Kind) :
    (s.setSkipped kinds).Scanned := by
  unfold Scanner.setSkipped
  dsimp only
  split
  · exact scanned_readFrom ..
  · exact h

theorem Scanned.exists_scan (h : s.Scanned) : ∃ c : Token.Cursor, c.scan.1 = s.current :=
  h.imp fun _ hc => congrArg Prod.fst hc

theorem Scanned.isWord (h : s.Scanned) (hname : s.current.kind = .name) :
    Token.IsWord s.current.text.toList := by
  obtain ⟨c, hc⟩ := h.exists_scan
  exact hc ▸ Token.Cursor.isWord_scan (hc ▸ hname)

theorem Scanned.newline_notMem (h : s.Scanned) (hlayout : s.current.isIgnorable false = true) :
    '\n' ∉ s.current.text.toList := by
  obtain ⟨c, hc⟩ := h.exists_scan
  exact hc ▸ Token.Cursor.newline_notMem_scan (hc ▸ hlayout)

/-- The scanner stands after the text `before` of `source`. -/
structure At (s : Scanner) (source before : List Char) : Prop where
  whole : s.source = source
  split : source = before ++ (s.current.text.toList ++ s.cursor.rest)
  pos : s.current.pos = Position.start.advance before
  next : s.cursor.pos = Position.start.advance (before ++ s.current.text.toList)
  /-- Nothing comes after the end of input. -/
  eof : s.current.isEof = true → s.current.text = "" ∧ s.cursor.rest = []
  scanned : s.Scanned

theorem readFrom_at (s : Scanner) (cursor : Token.Cursor) {source : List Char}
    (before : List Char) (hw : s.source = source) (hs : source = before ++ cursor.rest)
    (hp : cursor.pos = Position.start.advance before) :
    ∃ gap, (s.readFrom cursor).At source (before ++ gap) ∧ (s.skipped = [] → gap = []) := by
  obtain ⟨gap, hrest, hpos, hnext, heof, hgap⟩ := cursor.advance_rest s.skipped
  refine ⟨gap, ⟨hw, ?_, ?_, ?_, heof, scanned_readFrom s cursor⟩, hgap⟩
  · rw [append_assoc]
    exact hs.trans (congrArg (before ++ ·) hrest)
  · rw [Position.advance_append, ← hp]
    exact hpos
  · rw [append_assoc, Position.advance_append, ← hp]
    exact hnext

theorem ofSource_at (source : List Char) : (ofSource source).At source [] := by
  obtain ⟨gap, h, hgap⟩ :=
    readFrom_at ⟨source, .atStart source, ⟨.eof, "", .start⟩, []⟩ (.atStart source) [] rfl rfl rfl
  rw [hgap rfl] at h
  exact h

@[simp] theorem skipped_bump (s : Scanner) : s.bump.skipped = s.skipped := by
  unfold bump
  split <;> rfl

@[simp] theorem skipped_setSkipped (s : Scanner) (kinds : List Token.Kind) :
    (s.setSkipped kinds).skipped = kinds := by
  unfold setSkipped
  dsimp only
  split <;> rfl

@[simp] theorem current_setSkipped_nil (s : Scanner) : (s.setSkipped []).current = s.current := rfl

variable {s t u : Scanner} {source before passed rest : List Char}

/-- Going on from a token passes it, and the tokens that are skipped after it. -/
theorem At.bump (h : s.At source before) :
    ∃ gap, s.bump.At source (before ++ s.current.text.toList ++ gap) ∧
      (s.skipped = [] → gap = []) := by
  unfold Scanner.bump
  split
  · next he =>
    refine ⟨[], ?_, fun _ => rfl⟩
    simpa [(h.eof he).1] using h
  · exact readFrom_at s s.cursor _ h.whole (by rw [append_assoc]; exact h.split) h.next

theorem At.setSkipped (h : s.At source before) (kinds : List Token.Kind) :
    ∃ gap, (s.setSkipped kinds).At source (before ++ gap) ∧ (kinds = [] → gap = []) := by
  unfold Scanner.setSkipped
  dsimp only
  split
  · next hk =>
    obtain ⟨gap, h', -⟩ := readFrom_at { s with skipped := kinds } s.cursor
      (before ++ s.current.text.toList) h.whole (by rw [append_assoc]; exact h.split) h.next
    refine ⟨s.current.text.toList ++ gap, by rwa [← append_assoc], ?_⟩
    rintro rfl
    simp at hk
  · exact ⟨[], by rw [append_nil]; exact ⟨h.whole, h.split, h.pos, h.next, h.eof, h.scanned⟩,
      fun _ => rfl⟩

/-- With nothing skipped, going on from a token passes just that token. -/
theorem At.bump_all (h : s.At source before) (hk : s.skipped = []) :
    s.bump.At source (before ++ s.current.text.toList) := by
  obtain ⟨gap, h', hgap⟩ := h.bump
  rw [hgap hk, append_nil] at h'
  exact h'

theorem At.setSkipped_nil (h : s.At source before) : (s.setSkipped []).At source before := by
  obtain ⟨gap, h', hgap⟩ := h.setSkipped []
  rw [hgap rfl, append_nil] at h'
  exact h'

/-- From wherever `s` stands, `t` stands after some more text. -/
def Before (s t : Scanner) : Prop :=
  ∀ source before, s.At source before → ∃ text, t.At source (before ++ text)

theorem Before.refl (s : Scanner) : s.Before s :=
  fun _ _ h => ⟨[], by rwa [append_nil]⟩

theorem Before.trans (h1 : s.Before t) (h2 : t.Before u) : s.Before u := by
  intro source before h
  obtain ⟨a, ha⟩ := h1 source before h
  obtain ⟨b, hb⟩ := h2 source _ ha
  exact ⟨a ++ b, by rwa [← append_assoc]⟩

theorem before_bump (s : Scanner) : s.Before s.bump := by
  intro source before h
  obtain ⟨gap, h', -⟩ := h.bump
  exact ⟨_, by rwa [append_assoc] at h'⟩

theorem before_setSkipped (s : Scanner) (kinds : List Token.Kind) :
    s.Before (s.setSkipped kinds) := by
  intro source before h
  obtain ⟨gap, h', -⟩ := h.setSkipped kinds
  exact ⟨gap, h'⟩

/-- A jump comes to a place in the source, from whichever side, and to the one with the offset if
there is one. -/
theorem At.exists_jumpTo_eq (h : s.At source before) (offset : Nat) :
    ∃ passed rest, source = passed ++ rest ∧
    s.jumpTo offset = s.readFrom ⟨rest, Position.start.advance passed, startsLine source offset⟩ ∧
    ∀ a b, source = a ++ b → Text.byteSize a = offset → passed = a := by
  obtain ⟨origin, behind, hsource, horigin, hle⟩ : ∃ origin behind, source = origin ++ behind ∧
      (if s.current.pos.offset ≤ offset then s.current.pos else .start) =
        Position.start.advance origin ∧
      Text.byteSize origin ≤ offset := by
    split
    · next hle => exact ⟨before, _, h.split,
        h.pos, by rwa [h.pos, Position.offset_start_advance] at hle⟩
    · exact ⟨[], source, rfl, rfl, Nat.zero_le _⟩
  obtain ⟨passed, rest, hpassed, hslice, hexact⟩ : ∃ passed rest, behind = passed ++ rest ∧
      (Text.slice? (Text.byteSize origin) offset source).getD [] = passed ∧
      ∀ a b, behind = a ++ b → Text.byteSize a = offset - Text.byteSize origin → passed = a := by
    rw [hsource, Text.slice?, Text.splitAtOffset?_byteSize]
    cases hsplit : Text.splitAtOffset? (offset - Text.byteSize origin) behind with
    | none =>
      refine ⟨[], behind, rfl, by simp [hsplit], ?_⟩
      rintro a b rfl heq
      simp [← heq, Text.splitAtOffset?_byteSize] at hsplit
    | some parts =>
      refine ⟨parts.1, parts.2, (Text.splitAtOffset?_eq_some hsplit).1, by simp [hsplit], ?_⟩
      rintro a b rfl heq
      rw [← heq, Text.splitAtOffset?_byteSize] at hsplit
      cases hsplit
      rfl
  have hall : source = origin ++ passed ++ rest := by rw [hsource, hpassed, append_assoc]
  refine ⟨origin ++ passed, rest, hall, ?_, ?_⟩
  · have hsplit : Text.splitAtOffset? (Text.byteSize (origin ++ passed)) source =
        some (origin ++ passed, rest) := by
      rw [hall, Text.splitAtOffset?_byteSize]
    simp only [Scanner.jumpTo, horigin, Position.offset_start_advance, h.whole, hslice,
      ← Position.advance_append, hsplit, Option.map_some, Option.getD_some]
  · rintro a b hab rfl
    obtain ⟨m, rfl, hbehind⟩ := Text.exists_eq_append_of_byteSize_le (hsource.symm.trans hab) hle
    rw [hexact m b hbehind (by rw [Text.byteSize_append, Nat.add_sub_cancel_left])]

theorem At.jumpTo_eq (h : s.At source before) (hs : source = passed ++ rest) :
    s.jumpTo (Text.byteSize passed) = s.readFrom ⟨rest, Position.start.advance passed,
      startsLine source (Text.byteSize passed)⟩ := by
  obtain ⟨_, rest', hsource, hread, hexact⟩ := h.exists_jumpTo_eq (Text.byteSize passed)
  obtain rfl := hexact passed rest hs rfl
  rw [hread, append_cancel_left (hsource.symm.trans hs)]

theorem At.jumpTo (h : s.At source before) (hk : s.skipped = []) (hs : source = passed ++ rest) :
    (s.jumpTo (Text.byteSize passed)).At source passed := by
  rw [h.jumpTo_eq hs]
  obtain ⟨gap, hat, hgap⟩ := readFrom_at s ⟨rest, Position.start.advance passed,
    startsLine source (Text.byteSize passed)⟩ passed h.whole hs rfl
  rw [hgap hk, append_nil] at hat
  exact hat

def Within (source : List Char) (s : Scanner) : Prop := ∃ before, s.At source before

theorem Within.place (h : s.Within source) : PlaceIn source s.current.pos := by
  obtain ⟨before, hat⟩ := h
  exact ⟨before, _, hat.split, hat.pos⟩

theorem Before.within (h : s.Before t) (hs : Within source s) : Within source t := by
  obtain ⟨before, hs⟩ := hs
  obtain ⟨text, ht⟩ := h source before hs
  exact ⟨_, ht⟩

theorem Within.bump (h : Within source s) : Within source s.bump := (before_bump s).within h

theorem Within.setSkipped (h : Within source s) (kinds : List Token.Kind) :
    Within source (s.setSkipped kinds) := (before_setSkipped s kinds).within h

theorem Within.jumpTo (h : Within source s) (offset : Nat) : Within source (s.jumpTo offset) := by
  obtain ⟨before, h⟩ := h
  obtain ⟨passed, rest, hs, hread, -⟩ := h.exists_jumpTo_eq offset
  obtain ⟨gap, hat, -⟩ := readFrom_at s ⟨rest, Position.start.advance passed,
    startsLine source offset⟩
    passed h.whole hs rfl
  exact ⟨_, hread ▸ hat⟩

theorem At.splitAtOffset? (h : s.At source before) : Text.splitAtOffset? s.current.stop source =
      some (before ++ s.current.text.toList, s.cursor.rest) := by
  have hstop : s.current.stop = Text.byteSize (before ++ s.current.text.toList) := by
    rw [Token.stop, h.pos, Position.offset_start_advance, Text.byteSize_append,
      Text.byteSize_toList]
  rw [hstop]
  conv => lhs; rw [h.split, ← append_assoc]
  exact Text.splitAtOffset?_byteSize _ _

/-! ## Text that is copied -/

/-- With nothing skipped, `t` stands just after `s` and the text `text`. -/
def Copies (s : Scanner) (text : List Char) (t : Scanner) : Prop :=
  s.skipped = [] → t.skipped = [] ∧ ∀ source before, s.At source before →
  t.At source (before ++ text)

theorem Copies.refl (s : Scanner) : s.Copies [] s :=
  fun hk => ⟨hk, fun _ _ h => by rwa [append_nil]⟩

theorem Copies.trans (h1 : s.Copies a t) (h2 : t.Copies b u) : s.Copies (a ++ b) u := by
  intro hk
  obtain ⟨hk1, h1⟩ := h1 hk
  obtain ⟨hk2, h2⟩ := h2 hk1
  exact ⟨hk2, fun _ _ h => by rw [← append_assoc]; exact h2 _ _ (h1 _ _ h)⟩

theorem copies_bump (s : Scanner) : s.Copies s.current.text.toList s.bump :=
  fun hk => ⟨by rw [skipped_bump, hk], fun _ _ h => h.bump_all hk⟩

theorem layout_copies (newlines : Bool) (s : Scanner) :
    s.Copies (String.join (s.layout newlines).1).toList (s.layout newlines).2.1 ∧
      ∀ texts t, (s.layout newlines).2.2 = some (texts, t) →
        s.Copies (String.join texts).toList t := by
  fun_induction layout newlines s with
  | case1 s h texts stop indent heq here ih =>
    rw [heq] at ih
    obtain ⟨ih, ih'⟩ := ih
    refine ⟨?_, ?_⟩
    · rw [String.toList_join, flatMap_cons, ← String.toList_join]
      exact (copies_bump s).trans ih
    · intro texts' t ht
      dsimp only at ht
      split at ht
      · next before at_ =>
        obtain ⟨rfl, rfl⟩ : s.current.text :: before = texts' ∧ at_ = t := by simpa using ht
        rw [String.toList_join, flatMap_cons, ← String.toList_join]
        exact (copies_bump s).trans (ih' _ _ rfl)
      · dsimp only [here] at ht
        split at ht
        · obtain ⟨rfl, rfl⟩ : [] = texts' ∧ s = t := by simpa using ht
          exact .refl s
        · simp at ht
  | case2 s h => exact ⟨.refl s, by simp⟩

/-- Layout that never ends a statement has no line break. -/
theorem newline_notMem_layout (h : s.Scanned) : '\n' ∉ (String.join (s.layout false).1).toList := by
  rw [String.toList_join, mem_flatMap]
  fun_induction layout false s with
  | case1 s hlayout texts stop indent heq here ih =>
    rw [heq] at ih
    rintro ⟨text, htext, hmem⟩
    rcases mem_cons.1 htext with rfl | htext
    · exact h.newline_notMem hlayout hmem
    · exact ih h.bump ⟨text, htext, hmem⟩
  | case2 s hlayout => simp

theorem copyUntil_copies (stop : Token → Bool) (s : Scanner) :
    s.Copies (String.join (s.copyUntil stop).1).toList (s.copyUntil stop).2 := by
  fun_induction copyUntil stop s with
  | case1 s h => exact .refl s
  | case2 s h texts t heq ih =>
    rw [heq] at ih
    rw [String.toList_join, flatMap_cons, ← String.toList_join]
    exact (copies_bump s).trans ih

/-! ## Headers of closures -/

variable {names : List String}

/-- From wherever `s` stands, `t` stands after some more text, with words in it. -/
structure Names (s : Scanner) (names : List String) (t : Scanner) : Prop where
  before : s.Before t
  words : s.Scanned → ∀ name ∈ names, Token.IsWord name.toList

theorem names_of_parameterNames? (delimited : Bool) (s : Scanner)
    (h : s.parameterNames? delimited = some (names, t)) : s.Names names t := by
  fun_induction parameterNames? delimited s generalizing names with
  | case1 delimited s hc =>
    cases h
    exact ⟨.refl _, fun _ => nofun⟩
  | case2 delimited s hc hn u comma =>
    rename_i ih
    simp only [Option.map_eq_some_iff, Prod.mk.injEq, Prod.exists] at h
    obtain ⟨names', t', ht, rfl, rfl⟩ := h
    obtain ⟨hbefore, hwords⟩ := ih ht
    have hnext : u.Before (if comma then u.bump else u) ∧
        (u.Scanned → (if comma then u.bump else u).Scanned) := by
      split
      · exact ⟨before_bump u, .bump⟩
      · exact ⟨.refl u, id⟩
    refine ⟨(before_bump s).trans (hnext.1.trans hbefore), fun hs => forall_mem_cons.2 ⟨?_, ?_⟩⟩
    · exact hs.isWord (by simpa using (Bool.and_eq_true_iff.1 hn).2)
    · exact hwords (hnext.2 hs.bump)
  | case3 => simp at h

theorem names_of_headerNames? (h : s.headerNames? = some (names, t)) : s.Names names t := by
  unfold headerNames? at h
  split at h
  · simp only [parameterList?, Option.bind_eq_bind, Option.bind_eq_some_iff, Option.pure_def,
      Option.some.injEq, Prod.mk.injEq, Prod.exists] at h
    obtain ⟨names', u, hu, rfl, rfl⟩ := h
    obtain ⟨hbefore, hwords⟩ := names_of_parameterNames? true _ hu
    have hlist : s.Before u :=
      (before_setSkipped s Token.trivia).trans ((before_bump _).trans hbefore)
    refine ⟨?_, fun hs => hwords (hs.setSkipped _).bump⟩
    exact hlist.trans ((before_setSkipped u [.whitespace]).trans (before_bump _))
  · split at h
    · next hname =>
      cases h
      exact ⟨before_bump s, fun hs => by simpa using hs.isWord (by simpa using hname)⟩
    · cases h

theorem closureHeader?_eq_some : s.closureHeader? = some (names, t) ↔
      ∃ u, headerNames? (s.setSkipped [.whitespace]) = some (names, u) ∧
        u.current.isControl "->" = true ∧ t = u.bump.setSkipped s.skipped := by
  unfold closureHeader?
  cases hnames : headerNames? (s.setSkipped [.whitespace]) with
  | none => simp
  | some found =>
    obtain ⟨names', u⟩ := found
    by_cases harrow : u.current.isControl "->" = true
    · simp only [Option.bind_eq_bind, Option.bind_some, harrow, if_true,
        Option.some.injEq, Prod.mk.injEq]
      constructor
      · rintro ⟨rfl, rfl⟩
        exact ⟨u, ⟨rfl, rfl⟩, harrow, rfl⟩
      · rintro ⟨_, ⟨rfl, rfl⟩, -, rfl⟩
        exact ⟨rfl, rfl⟩
    · simp only [Option.bind_eq_bind, Option.bind_some, harrow, Bool.false_eq_true, if_false,
        Option.some.injEq, Prod.mk.injEq, reduceCtorEq, false_iff]
      rintro ⟨_, ⟨rfl, rfl⟩, h, -⟩
      exact harrow h

theorem closureHeader?_at (h : s.closureHeader? = some (names, t)) (hk : s.skipped = [])
    (hs : s.At source before) :
    t.skipped = [] ∧ ∃ header, header ≠ [] ∧ t.At source (before ++ header) := by
  obtain ⟨u, hnames, harrow, rfl⟩ := closureHeader?_eq_some.1 h
  rw [hk]
  have hu : s.Before u := (before_setSkipped s [.whitespace]).trans
    (names_of_headerNames? hnames).before
  obtain ⟨text, hat⟩ := hu source before hs
  obtain ⟨gap, hat', -⟩ := hat.bump
  refine ⟨skipped_setSkipped _ _, text ++ (u.current.text.toList ++ gap),
    by simp [Token.text_eq_of_isControl harrow], ?_⟩
  simpa [append_assoc] using hat'.setSkipped_nil

theorem isWord_of_passHeader (hs : s.Scanned) :
    ∀ names ∈ s.passHeader.1, ∀ name ∈ names, Token.IsWord name.toList := by
  unfold passHeader
  split
  · next names t heq =>
    obtain ⟨u, hnames, -, -⟩ := closureHeader?_eq_some.1 heq
    rintro _ ⟨⟩
    exact (names_of_headerNames? hnames).words (hs.setSkipped _)
  · rintro _ ⟨⟩

theorem passHeader_at (hk : s.skipped = []) (hs : s.At source before) :
    s.passHeader.2.skipped = [] ∧ ∃ header, s.passHeader.2.At source (before ++ header) ∧
      (s.passHeader.1.isSome = true → header ≠ []) := by
  unfold passHeader
  split
  · next names t heq =>
    obtain ⟨hk', header, hne, hat⟩ := closureHeader?_at heq hk hs
    exact ⟨hk', header, hat, fun _ => hne⟩
  · exact ⟨hk, [], by rwa [append_nil], fun h => absurd h Bool.false_ne_true⟩

end Scanner

end BlockScript
