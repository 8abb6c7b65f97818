import BlockScript.Text.Search
import Mathlib.Data.List.SplitBy

/-! Searching for whole words. A word that stands alone in a text cannot overlap another occurrence
of itself, so going on after each occurrence misses none that counts: the words that are found are
the maximal runs of word characters. -/

namespace BlockScript.Text

open List

theorem splitFirst?_eq_some {needle text lead after : List Char}
    (h : splitFirst? needle text = some (lead, after)) : text = lead ++ (needle ++ after) ∧
      ∀ u v, text = u ++ (needle ++ v) → lead.length ≤ u.length := by
  induction text generalizing lead after with
  | nil =>
    simp only [splitFirst?, List.isEmpty_iff] at h
    split at h
    · next hn =>
      obtain ⟨rfl, rfl⟩ := Prod.mk.inj (Option.some.inj h)
      exact ⟨by simp [hn], fun _ _ _ => Nat.zero_le _⟩
    · cases h
  | cons c cs ih =>
    rw [splitFirst?] at h
    split at h
    · next hp =>
      obtain ⟨rfl, rfl⟩ := Prod.mk.inj (Option.some.inj h)
      obtain ⟨rest, hrest⟩ := isPrefixOf_iff_prefix.1 hp
      refine ⟨?_, fun _ _ _ => Nat.zero_le _⟩
      rw [← hrest, drop_left, nil_append]
    · next hp =>
      simp only [Option.map_eq_some_iff, Prod.mk.injEq, Prod.exists] at h
      obtain ⟨b, a, hs, rfl, rfl⟩ := h
      obtain ⟨htext, hfirst⟩ := ih hs
      refine ⟨by rw [htext]; rfl, fun u v huv => ?_⟩
      cases u with
      | nil => exact absurd ( isPrefixOf_iff_prefix.2 ⟨v, huv.symm⟩) hp
      | cons x u =>
        have := hfirst u v (List.cons.inj huv).2
        simpa using this

theorem splitFirst?_eq_none {needle text : List Char} (h : splitFirst? needle text = none)
    (u v : List Char) : text ≠ u ++ (needle ++ v) := by
  induction text generalizing u with
  | nil =>
    simp only [splitFirst?, List.isEmpty_iff] at h
    split at h
    · cases h
    · next hn =>
      intro huv
      simp [hn] at huv
  | cons c cs ih =>
    rw [splitFirst?] at h
    split at h
    · cases h
    · next hp =>
      intro huv
      cases u with
      | nil => exact hp ( isPrefixOf_iff_prefix.2 ⟨v, huv.symm⟩)
      | cons x u => exact ih (by simpa using h) u (List.cons.inj huv).2

/-- `word` stands at a place of `text` with no word character beside it; `before` is the character
in front of the text. -/
def StandsAlone (word : List Char) (before : Option Char) (text : List Char) : Prop :=
  ∃ u v, text = u ++ (word ++ v) ∧ isWordAt (u.getLast?.or before) = false ∧
    isWordAt v.head? = false

variable {word : List Char}

/-- If a word stands alone after its first occurrence, it does so after all of that occurrence. -/
theorem exists_after_of_standsAlone (hw : ∀ c ∈ word, Token.isWord c = true)
    {before : Option Char} {lead after u v : List Char}
    (hlead : lead.length < u.length) (h : lead ++ (word ++ after) = u ++ (word ++ v))
    (hu : isWordAt (u.getLast?.or before) = false) :
    ∃ u', u = lead ++ (word ++ u') ∧ after = u' ++ (word ++ v) := by
  obtain ⟨a, rfl, ha⟩ : ∃ a, u = lead ++ a ∧ word ++ after = a ++ (word ++ v) := by
    rcases append_eq_append_iff.1 h with ⟨a, hu, ha⟩ | ⟨c, hl, -⟩
    · exact ⟨a, hu, ha⟩
    · rw [hl, length_append] at hlead
      omega
  have hne : a ≠ [] := by
    rintro rfl
    simp at hlead
  rcases append_eq_append_iff.1 ha with ⟨u', ha', hafter⟩ | ⟨c, hword, -⟩
  · exact ⟨u', by rw [ha'], hafter⟩
  · -- Here the two occurrences overlap, and the character before the second is part of the first.
    have hlast : a.getLast hne ∈ word := hword ▸ mem_append_left _ (getLast_mem hne)
    simp [isWordAt, getLast?_eq_some_getLast hne, hw _ hlast] at hu

/-- The search finds a word exactly if it stands alone somewhere. -/
theorem containsWordFrom_iff (hne : word ≠ []) (hw : ∀ c ∈ word, Token.isWord c = true)
    (before : Option Char) (text : List Char) :
    containsWordFrom word before text = true ↔ StandsAlone word before text := by
  fun_induction containsWordFrom word before text with
  | case1 => exact absurd ‹_› hne
  | case2 before text _ h =>
    refine ⟨nofun, ?_⟩
    rintro ⟨u, v, huv, -, -⟩
    exact absurd huv (splitFirst?_eq_none h u v)
  | case3 before text _ lead after h ih =>
    obtain ⟨rfl, hfirst⟩ := splitFirst?_eq_some h
    have hlast (u : List Char) : ((lead ++ (word ++ u)).getLast?).or before =
        u.getLast?.or word.getLast? := by
      simp [getLast?_append, getLast?_eq_some_getLast hne]
    simp only [Bool.or_eq_true, Bool.and_eq_true, Bool.not_eq_true', ih]
    constructor
    · rintro (⟨hlead, hafter⟩ | ⟨u, v, rfl, hu, hv⟩)
      · exact ⟨lead, after, rfl, hlead, hafter⟩
      · exact ⟨lead ++ (word ++ u), v, by simp, by rw [hlast]; exact hu, hv⟩
    · rintro ⟨u, v, huv, hu, hv⟩
      rcases Nat.lt_or_eq_of_le (hfirst u v huv) with hlt | heq
      · obtain ⟨u', rfl, rfl⟩ := exists_after_of_standsAlone hw hlt huv hu
        rw [hlast] at hu
        exact .inr ⟨u', v, rfl, hu, hv⟩
      · obtain ⟨rfl, hrest⟩ := append_inj huv heq
        obtain rfl := append_cancel_left hrest
        exact .inl ⟨hu, hv⟩

/-! ## Runs of word characters -/

def sameKind (a b : Char) : Bool := Token.isWord a == Token.isWord b

/-- The maximal runs of word characters in a text. -/
def wordRuns (text : List Char) : List (List Char) :=
  (text.splitBy sameKind).filter (·.all Token.isWord)

theorem isWordAt_eq_false_iff {side : Option Char} :
    isWordAt side = false ↔ ∀ c ∈ side, Token.isWord c = false := by
  cases side <;> simp [isWordAt]

/-- A text made of word characters is one of the maximal runs exactly if it stands alone
somewhere. -/
theorem mem_wordRuns_iff (hne : word ≠ []) (hw : ∀ c ∈ word, Token.isWord c = true)
    (text : List Char) : word ∈ wordRuns text ↔ StandsAlone word none text := by
  have hall : word.all Token.isWord = true := by simpa using hw
  simp only [wordRuns, mem_filter, hall, and_true, StandsAlone, Option.or_none,
    isWordAt_eq_false_iff]
  constructor
  · intro h
    obtain ⟨us, vs, hruns⟩ := append_of_mem h
    have htext := flatten_splitBy sameKind text
    have hchain := isChain_getLast_head_splitBy sameKind text
    rw [hruns] at htext hchain
    obtain ⟨-, hright, hleft⟩ := isChain_append.1 hchain
    refine ⟨us.flatten, vs.flatten, by simpa using htext.symm, ?_, ?_⟩
    · rcases eq_nil_or_concat us with rfl | ⟨us, a, rfl⟩
      · exact nofun
      · obtain ⟨ha, hb, hdiff⟩ := hleft a (by simp) word rfl
        simpa [getLast?_append, getLast?_eq_some_getLast ha, sameKind,
          hw _ (head_mem hb)] using hdiff
    · cases vs with
      | nil => exact nofun
      | cons b vs =>
        obtain ⟨ha, hb, hdiff⟩ := (isChain_cons.1 hright).1 b rfl
        simpa [head?_append, head?_eq_some_head hb, sameKind, hw _ (getLast_mem ha)] using hdiff
  · rintro ⟨u, v, rfl, hu, hv⟩
    have hrun : word.splitBy sameKind = [word] := by
      refine splitBy_of_isChain hne (Pairwise.isChain ?_)
      exact pairwise_of_forall_mem_list fun a ha b hb => by simp [sameKind, hw a ha, hw b hb]
    rw [splitBy_append, splitBy_append, hrun]
    · simp
    · intro x hx y hy
      simp [sameKind, hw x (mem_of_mem_getLast? hx), hv y hy]
    · intro x hx y hy
      rw [head?_append_of_ne_nil _ hne] at hy
      simp [sameKind, hu x hx, hw y (mem_of_mem_head? hy)]

/-- Searching for a whole word is exact: it is found if and only if it is one of the maximal runs of
word characters, though the search does not go back into an occurrence that does not count. -/
theorem containsWord_iff_mem_wordRuns (text : String) {word : String} (hne : word ≠ "")
    (hw : ∀ c ∈ word.toList, Token.isWord c = true) :
    containsWord text word = true ↔ word.toList ∈ wordRuns text.toList := by
  have hne' : word.toList ≠ [] := by simpa using hne
  rw [containsWord, containsWordFrom_iff hne' hw, mem_wordRuns_iff hne' hw]

/-- The word also stands at the end and at the start of longer words, before and after it stands
alone. -/
theorem containsWord_iff_mem_wordRuns_behindPartial :
    containsWord "_closure_1_closure_1 = f(_closure_1, _closure_12)" "_closure_1" = true ∧
      containsWord "_closure_1_closure_1 = f(_closure_1, _closure_12)" "_1" = false := by
  constructor
  · exact (containsWord_iff_mem_wordRuns _ (by decide) (all_eq_true.1 (by decide))).2 (by decide)
  · rw [← Bool.not_eq_true, containsWord_iff_mem_wordRuns _ (by decide) (all_eq_true.1 (by decide))]
    decide

end BlockScript.Text
