import Mathlib.Data.List.Chain
import Mathlib.Data.List.TakeWhile
import BlockScript.Proofs.RoundTrip.Primaries

/-! F-strings. One that is taken apart again into its own fields is read, if the expressions of its
fields are. -/

namespace BlockScript

open Token List

/-! ## The literal -/

variable {body cs : List Char}

theorem Token.lexeme_fstring {rest : List Char} (h : Inside '"' body) (hrest : BoundsWord rest) :
    lexeme ('f' :: '"' :: (body ++ ['"']) ++ rest) =
      (.literal, ('f' :: '"' :: (body ++ ['"'])).length) := by
  have hword : lexeme ('f' :: '"' :: (body ++ ['"']) ++ rest) =
      stringLexeme 1 '"' (body ++ '"' :: rest) := by
    simp [lexeme, isDigit, isWordStart, isLetter, wordLexeme, isWord, isLead]
  rw [hword, stringLexeme_inside 1 (by decide) h hrest]
  simp only [length_cons, length_append, length_nil, Prod.mk.injEq, true_and]
  omega

theorem Token.Starts.trim_ne_nil (h : Starts cs) : Text.trim cs ≠ [] := by
  obtain ⟨c, hc, hstart⟩ := h
  obtain ⟨cs, rfl⟩ := head?_eq_some_iff.1 (Option.mem_def.1 hc)
  have hblank : Text.isBlank c = false := by simpa using (Bool.and_eq_true_iff.1 hstart).2
  rw [Text.trim, Text.trimEnd, Text.trimStart, dropWhile_cons_of_neg (by simp [hblank])]
  intro htrim
  have hall := dropWhile_eq_nil_iff.1 (reverse_eq_nil_iff.1 htrim)
  simp [hall c (by simp)] at hblank

namespace Program

/-! ## Parts in print -/

variable {value : Expr} {conversion : Option Char} {spec : Option String} {parts : List FStringPart}
  {raw : List Char}

theorem Print.toList_fstringParts_field :
    (fstringParts (.field value conversion spec :: parts)).toList =
      '{' :: ((expr 1 value).toList ++ (fieldTail conversion spec).toList ++
        '}' :: (fstringParts parts).toList) := by
  simp [fstringParts, Precedence.ternary]

theorem Print.toList_fstringParts_text (s : String) : (fstringParts (.text s :: parts)).toList =
      (Text.escape '"' s.toList).flatMap doubleBrace ++ (fstringParts parts).toList := by
  simp [fstringParts, fstringText]

theorem Print.length_le_fstringParts (h : .field value conversion spec ∈ parts) :
    (Print.expr 1 value).toList.length + 2 ≤ (Print.fstringParts parts).toList.length := by
  induction parts with
  | nil => cases h
  | cons part parts ih =>
    cases part with
    | text s =>
      have := ih (by simpa using h)
      rw [toList_fstringParts_text, length_append]
      omega
    | field value' conversion' spec' =>
      rw [toList_fstringParts_field]
      simp only [length_cons, length_append]
      rcases mem_cons.1 h with heq | h
      · cases heq
        omega
      · have := ih h
        omega

theorem inside_doubleBrace (h : Inside '"' cs) : Inside '"' (cs.flatMap Print.doubleBrace) := by
  induction h with
  | nil => exact .nil
  | plain h1 h2 h3 _ ih =>
    rw [flatMap_cons, Print.doubleBrace]
    split
    · exact .plain h1 h2 h3 (.plain h1 h2 h3 ih)
    · exact .plain h1 h2 h3 ih
  | @escaped c cs _ ih =>
    rw [flatMap_cons, flatMap_cons, Print.doubleBrace, if_neg (by decide), Print.doubleBrace]
    split
    · next hc =>
      have hbrace : c = '{' ∨ c = '}' := by simpa using hc
      exact .escaped (.plain (by rintro rfl; simp at hbrace) (by rintro rfl; simp at hbrace)
        (by rintro rfl; simp at hbrace) ih)
    · exact .escaped ih

theorem inside_fstringParts (h : ∀ p ∈ parts, p.IsRecovered) :
    Inside '"' (Print.fstringParts parts).toList := by
  induction parts with
  | nil =>
    rw [Print.fstringParts]
    exact .nil
  | cons part parts ih =>
    rw [forall_mem_cons] at h
    cases part with
    | text s =>
      rw [Print.toList_fstringParts_text]
      exact (inside_doubleBrace (inside_escape (by decide) _)).append (ih h.2)
    | field value conversion spec =>
      rw [Print.toList_fstringParts_field]
      exact .plain (by decide) (by decide) (by decide) ((Inside.of_closing? h.1.1).append
          (.plain (by decide) (by decide) (by decide) (ih h.2)))

namespace Literal

theorem segments_doubleBrace (pending cs rest : List Char) :
    segments pending (cs.flatMap Print.doubleBrace ++ rest) = segments (pending ++ cs) rest := by
  induction cs generalizing pending with
  | nil => simp
  | cons c cs ih =>
    have hstep : segments pending ((c :: cs).flatMap Print.doubleBrace ++ rest) =
        segments (pending ++ [c]) (cs.flatMap Print.doubleBrace ++ rest) := by
      rw [flatMap_cons, Print.doubleBrace]
      split
      · next hc =>
        have hbrace : c = '{' ∨ c = '}' := by simpa using hc
        rcases hbrace with rfl | rfl <;> exact segments.eq_def ..
      · next hc =>
        simp only [Bool.or_eq_true, decide_eq_true_eq, not_or] at hc
        rw [singleton_append, cons_append, segments] <;> simp_all
    rw [hstep, ih, append_assoc, singleton_append]

theorem splitTop?_append {needle : Char} {n : Nesting} {before after : List Char}
    (h : splitTop? needle n cs = some (before, after)) (rest : List Char) :
    splitTop? needle n (cs ++ rest) = some (before, after ++ rest) := by
  induction cs generalizing n before with
  | nil => cases h
  | cons c cs ih =>
    rw [splitTop?] at h
    rw [cons_append, splitTop?]
    split at h
    · next htop =>
      rw [if_pos htop]
      cases h
      rfl
    · next htop =>
      rw [if_neg htop]
      obtain ⟨⟨before', after'⟩, hsplit, heq⟩ := Option.map_eq_some_iff.1 h
      cases heq
      rw [ih hsplit]
      rfl

theorem segments_field (hhead : raw.head? ≠ some '{')
    (hsplit : splitTop? '}' {} (raw ++ ['}']) = some (raw, [])) (pending rest : List Char) :
    segments pending ('{' :: (raw ++ '}' :: rest)) =
      (textSegment pending ++ .field raw :: (segments [] rest).1, (segments [] rest).2) := by
  have hfield : splitTop? '}' {} (raw ++ '}' :: rest) = some (raw, rest) := by
    simpa using splitTop?_append hsplit rest
  have hopen : ∀ cs, raw ++ '}' :: rest ≠ '{' :: cs := by
    cases raw with
    | nil => simp
    | cons c raw => simpa using hhead
  rw [segments]
  · split
    · next h => rw [hfield] at h; cases h
    · next h =>
      rw [hfield] at h
      cases h
      rfl
  · exact fun cs h => hopen cs h

def segment : FStringPart → Segment
  | .text s => .text (Text.escape '"' s.toList)
  | .field value conversion spec =>
    .field ((Print.expr 1 value).toList ++ (Print.fieldTail conversion spec).toList)

theorem escape_ne_nil {s : String} (h : s ≠ "") : Text.escape '"' s.toList ≠ [] := by
  intro hnil
  have hread := unescape_escape (by decide : '"' ∈ ['\'', '"']) s.toList
  rw [hnil, unescape, Except.ok.injEq] at hread
  exact h (String.toList_eq_nil_iff.1 hread.symm)

theorem segments_fstringParts (h : FStringPart.AllRecovered parts)
    {pending : List Char} (hpending : pending = [] ∨ ∀ p ∈ parts.head?, p.isText = false) :
    segments pending (Print.fstringParts parts).toList =
      (textSegment pending ++ parts.map segment, none) := by
  induction parts generalizing pending with
  | nil => simp [Print.fstringParts, segments]
  | cons part parts ih =>
    obtain ⟨hnext, hapart⟩ := isChain_cons.1 h.apart
    have hrest : FStringPart.AllRecovered parts :=
      ⟨fun p hp => h.each p (mem_cons_of_mem _ hp), hapart⟩
    have hpart := h.each part mem_cons_self
    cases part with
    | text s =>
      obtain rfl : pending = [] := hpending.resolve_right fun hhead => by
        simp [FStringPart.isText] at hhead
      have hescape : Text.escape '"' s.toList ≠ [] := escape_ne_nil hpart
      rw [Print.toList_fstringParts_text, segments_doubleBrace, nil_append,
        ih hrest (.inr fun p hp => hnext p hp rfl)]
      simp [textSegment, segment, hescape]
    | field value conversion spec =>
      obtain ⟨-, hhead, hsplit, -⟩ := hpart
      rw [Print.toList_fstringParts_field, segments_field hhead hsplit, ih hrest (.inl rfl)]
      rfl

end Literal

theorem Ahead.nil {d : Nat} {s : List Token} (h : Ahead d [] s) : ∃ pos, s = [⟨.eof, "", pos⟩] := by
  obtain ⟨pos, last, -, rfl⟩ := h
  exact ⟨pos, by rw [Cursor.tokens_nil]; rfl⟩

namespace Parse

variable {n : Nat}

/-- Steps that leave the state as it is are taken one after the other. -/
theorem run_mapM {α β γ : Type} {f : α → Parsing β} {g : α → γ} {k : β → γ} {as : List α}
    (h : ∀ a ∈ as, ∃ b, k b = g a ∧ ∀ s, f a s = .ok b s) :
    ∃ bs, bs.map k = as.map g ∧ ∀ s, as.mapM f s = .ok bs s := by
  induction as with
  | nil => exact ⟨[], rfl, fun _ => rfl⟩
  | cons a as ih =>
    rw [forall_mem_cons] at h
    obtain ⟨⟨b, hb, hrun⟩, has⟩ := h
    obtain ⟨bs, hbs, hruns⟩ := ih has
    exact ⟨b :: bs, by rw [map_cons, map_cons, hb, hbs], fun s => by simp [hrun, hruns]⟩

variable [View] {span : Span}

theorem whole_reads {text : List Char} {e : Expr} (h : TextAt 1 text e)
    (hn : 4 * text.length + 5 ≤ n) (filename : String) :
    let src := Source.ofText text filename
    ∃ e', src.run (parseWhole src (.ofDepth n src)) = .ok e' ∧ e'.viewed = e.viewed := by
  have hfollow : Follow (binding · < 1) 0 [] := by
    refine ⟨nofun, fun s hs => ?_⟩
    obtain ⟨pos, rfl⟩ := hs.nil
    exact ⟨_, [], rfl, Nat.zero_lt_one⟩
  have hload := load_ofText_le text filename
  have hs : AheadLine ([] ++ text) (Source.ofText text filename).tokens := ⟨_, none, rfl⟩
  obtain ⟨pos, s, htokens, hs⟩ := hs.indent (by simp) h.starts
  rw [htokens, load] at hload
  rw [← append_nil text] at hs
  obtain ⟨e', s', hrun, he', hs', -⟩ :=
    h.expr (Source.ofText text filename) hn hfollow hs (by omega)
  obtain ⟨pos', rfl⟩ := hs'.nil
  obtain ⟨t, s, rfl, ht⟩ := (h.opens hfollow.bounds hs).first
  have hskip (k : Kind) (hk : k = .newline ∨ k = .indent) : t.kind ≠ k := by
    rcases hk with rfl | rfl <;> intro hkind <;> simp [opens, hkind] at ht
  have hcomma : Token.isControl ⟨.eof, "", pos'⟩ "," = false := rfl
  exact ⟨e', by simp [Source.run, htokens, parseWhole, parseExprList, hrun, hskip, hcomma], he'⟩

theorem field_reads (h : Readable value)
    (hvalue : (Literal.Field.ofText raw).value = (Print.expr 1 value).toList)
    (hn : 4 * (Print.expr 1 value).toList.length + 6 ≤ n) (src : Source) (pos : Position) :
    ∃ value', value'.viewed = value.viewed ∧ ∀ s, parseField src (.ofDepth n src) pos raw s =
      .ok (.field value' (Literal.Field.ofText raw).conversion (Literal.Field.ofText raw).spec)
        s := by
  obtain ⟨n, rfl⟩ : ∃ k, n = k + 1 := ⟨n - 1, by omega⟩
  obtain ⟨value', hrun, hvalue'⟩ := whole_reads (n := n) (h.whole) (by omega) src.filename
  have hfield : (Rules.ofDepth (n + 1) src).field (Print.expr 1 value).toList = .ok value' := hrun
  exact ⟨value', hvalue', fun s => by simp [parseField, hvalue, hfield, h.whole.starts.trim_ne_nil]⟩

def parseSegment (src : Source) (rules : Rules) (pos : Position) :
    Literal.Segment → Parsing FStringPart
  | .text raw => parseText src false pos raw
  | .field raw => parseField src rules pos raw

omit [View] in
theorem parseQuoted_eq (src : Source) (rules : Rules) (pos : Position)
    {segments : List Literal.Segment} (h : Literal.segments [] body = (segments, none)) :
    parseQuoted src rules pos ['f'] body = segments.mapM (parseSegment src rules pos) := by
  simp [parseQuoted, h]
  rfl

section

variable (hfields : ∀ x ∈ parts.flatMap FStringPart.exprs, Readable x)
  (hn : 4 * (Print.fstringParts parts).toList.length + 2 ≤ n) (src : Source) (pos : Position)

include hfields hn

theorem segment_reads {segment : Literal.Segment} (h : segment.isIn parts = true) :
    ∃ part, ∀ s, parseSegment src (.ofDepth n src) pos segment s = .ok part s := by
  cases segment with
  | text raw =>
    rw [Literal.Segment.isIn] at h
    cases hraw : Literal.unescape raw with
    | ok cs => exact ⟨.text (String.ofList cs), fun s => by simp [parseSegment, parseText, hraw]⟩
    | error fault => simp [hraw, Except.toBool] at h
  | field raw =>
    obtain ⟨part, hpart, hprinted⟩ := any_eq_true.1 h
    cases part with
    | text s => exact absurd hprinted Bool.false_ne_true
    | field value conversion spec =>
      have hlength := Print.length_le_fstringParts hpart
      obtain ⟨value', -, hrun⟩ := field_reads (n := n)
        (hfields value (mem_flatMap.2 ⟨_, hpart, mem_singleton_self value⟩)) (beq_iff_eq.1 hprinted)
        (by omega) src pos
      exact ⟨_, hrun⟩

theorem part_reads {part : FStringPart} (hpart : part ∈ parts) (h : part.IsRecovered) :
    ∃ part', part'.viewed = part.viewed ∧
      ∀ s, parseSegment src (.ofDepth n src) pos (Literal.segment part) s = .ok part' s := by
  cases part with
  | text s =>
    exact ⟨.text s, rfl, fun s' => by
      simp [parseSegment, Literal.segment, parseText, Literal.unescape_escape]⟩
  | field value conversion spec =>
    have hlength := Print.length_le_fstringParts hpart
    obtain ⟨-, -, -, hfield⟩ := h
    obtain ⟨value', hvalue', hrun⟩ := field_reads (n := n)
      (hfields value (mem_flatMap.2 ⟨_, hpart, mem_singleton_self value⟩)) (congrArg _ hfield)
      (by omega) src pos
    rw [hfield] at hrun
    exact ⟨_, by rw [FStringPart.viewed, FStringPart.viewed, hvalue'], hrun⟩

theorem quoted_reads (h : (Expr.fstring span parts).IsRead) :
    ∃ parts', (View.literals = true →
      parts'.map FStringPart.viewed = parts.map FStringPart.viewed) ∧
      ∀ s, parseQuoted src (.ofDepth n src) pos ['f'] (Print.fstringParts parts).toList s =
        .ok parts' s := by
  rw [Expr.IsRead] at h
  split at h
  · next hliterals =>
    have hsegments : Literal.segments [] (Print.fstringParts parts).toList =
        (parts.map Literal.segment, none) :=
      Literal.segments_fstringParts h (.inl rfl)
    obtain ⟨parts', hviewed, hparts⟩ := run_mapM fun part hpart =>
      part_reads hfields hn src pos hpart (h.each part hpart)
    refine ⟨parts', fun _ => hviewed, fun s => ?_⟩
    rw [parseQuoted_eq src _ pos hsegments, mapM_map]
    exact hparts s
  · next hliterals =>
    have hsplits : Expr.splitsBack parts = true := by simpa [Expr.isMisprinted] using h
    have hsegments := (Bool.and_eq_true_iff.1 hsplits).2
    split at hsegments
    case h_2 => exact absurd hsegments Bool.false_ne_true
    case h_1 segments hsplit =>
      rw [all_eq_true] at hsegments
      obtain ⟨parts', -, hparts⟩ :=
        run_mapM (g := fun _ => ()) (k := fun _ => ()) fun segment hsegment =>
        (segment_reads hfields hn src pos (hsegments segment hsegment)).imp
          fun _ hrun => ⟨rfl, hrun⟩
      exact ⟨parts', fun h => absurd h hliterals, parseQuoted_eq src _ pos hsplit ▸ hparts⟩

end

theorem plainText?_viewed (parts : List FStringPart) :
    plainText? (parts.map FStringPart.viewed) = plainText? parts := by
  induction parts with
  | nil => rfl
  | cons part parts ih => cases part <;> simp [FStringPart.viewed, plainText?, ih]

theorem inside_of_isRead (h : (Expr.fstring span parts).IsRead) :
    Inside '"' (Print.fstringParts parts).toList := by
  rw [Expr.IsRead] at h
  split at h
  · exact inside_fstringParts h.each
  · have hsplits : Expr.splitsBack parts = true := by simpa [Expr.isMisprinted] using h
    exact .of_closing? (beq_iff_eq.1 (Bool.and_eq_true_iff.1 hsplits).1)

/-- An f-string is read, as some literal if literals are not seen. -/
theorem readable_fstring (h : (Expr.fstring span parts).IsRead) (hfield : plainText? parts = none)
    (hfields : ∀ x ∈ parts.flatMap FStringPart.exprs, Readable x) :
    Readable (.fstring span parts) := by
  have hinside := inside_of_isRead h
  have htext : (Print.bare (.fstring span parts)).toList =
      'f' :: '"' :: ((Print.fstringParts parts).toList ++ ['"']) := by
    simp [Print.bare]
  refine .of_primary rfl (growsAt_token .literal rfl ?_ (fun _ => rfl) (fun d rest s hends hs => ?_)
    fun src n pos t s hn ht => ?_)
  · rw [htext]
    exact ⟨'f', rfl, rfl⟩
  · rw [htext] at hs
    rw [← String.ofList_toList (s := Print.bare _), htext]
    exact hs.token (cons_ne_nil _ _) (lexeme_fstring hinside hends.word) rfl
  have hlength := congrArg List.length htext
  rw [String.length_toList, length_cons, length_cons, length_append] at hlength
  obtain ⟨parts', hviewed, hparts⟩ := quoted_reads (n := n) hfields (by omega) src pos h
  have hsplit : Literal.splitQuoted? (Print.bare (.fstring span parts)).toList = _ :=
    (congrArg _ htext).trans (Literal.splitQuoted?_inside ['f'] (by decide) (by decide) hinside)
  have hadjacent : t.kind ≠ .literal := by
    intro hkind
    simp [binding, hkind, Precedence.atom] at ht
  cases hplain : plainText? parts' with
  | some text =>
    have hliterals : View.literals = false := by
      refine Bool.eq_false_iff.2 fun hliterals => ?_
      rw [← plainText?_viewed, hviewed hliterals, plainText?_viewed, hfield] at hplain
      cases hplain
    exact ⟨.str (.ofPosition pos) text, by
      simp [parsePrimary, parseLiteral, hsplit, hparts, run_many, manyTo, parseAdjacent,
        hadjacent, hplain],
      by simp [Expr.str, Constant.viewed, hliterals]⟩
  | none =>
    refine ⟨.fstring (.ofPosition pos) parts', by
      simp [parsePrimary, parseLiteral, hsplit, hparts, run_many, manyTo, parseAdjacent,
        hadjacent, hplain], ?_⟩
    cases hliterals : View.literals with
    | true => simp [hliterals, hviewed hliterals]
    | false => simp [hliterals]

end Parse

end Program

end BlockScript
