import BlockScript.Proofs.Pieces.Statement

/-! Closures of a script have ids and places of their own. An id ends with a number; closures beside
each other take their numbers from ranges that do not meet, and a closure inside another has a
longer id, since the id around it is part of its own. -/

namespace BlockScript

open List

variable {p : Pieces} {stack : List String} {pos : Position} {c : Closure} {n : Nat}

namespace Desugar

namespace Pieces

/-- The closures of pieces are numbered on from the number of those complete before, and their ids
hold the ids around the pieces. -/
theorem exists_closureId (h : c ∈ p.closures stack n pos) :
    ∃ inner k, c.id = closureId (inner ++ stack) k ∧ n ≤ k ∧ k < n + p.count := by
  induction p generalizing stack n pos with
  | done => cases h
  | copied _ _ ih | replaced _ _ _ ih => exact ih h
  | call blanks arguments rest iha ih =>
    rcases mem_append.1 h with h | h
    · obtain ⟨inner, k, hid, hlo, hhi⟩ := iha h
      exact ⟨inner, k, hid, hlo, by simp only [count]; omega⟩
    · obtain ⟨inner, k, hid, hlo, hhi⟩ := ih h
      exact ⟨inner, k, hid, by omega, by simp only [count]; omega⟩
  | closure opening hne parameters braced body rest ihb ih =>
    rcases mem_append.1 h with h | h
    · obtain ⟨inner, k, hid, hlo, hhi⟩ := ihb h
      refine ⟨inner ++ [closureId stack n], k, ?_, hlo, by simp only [count]; omega⟩
      rw [hid, append_assoc]
      rfl
    rcases mem_cons.1 h with rfl | h
    · exact ⟨[], n, rfl, Nat.le_refl n, by simp only [count]; omega⟩
    · obtain ⟨inner, k, hid, hlo, hhi⟩ := ih h
      exact ⟨inner, k, hid, by omega, by simp only [count]; omega⟩

theorem id_ne_of_lt {q : Pieces} {stack' : List String} {m : Nat} {pos' : Position} {a b : Closure}
    (hmn : m + p.count ≤ n) (ha : a ∈ p.closures stack m pos) (hb : b ∈ q.closures stack' n pos') :
    a.id ≠ b.id := by
  obtain ⟨_, k, hk, -, hlt⟩ := exists_closureId ha
  obtain ⟨_, l, hl, hle, -⟩ := exists_closureId hb
  intro h
  have := eq_of_closureId_eq (hk.symm.trans (h.trans hl))
  omega

theorem closures_pairwise_id (p : Pieces) (stack : List String) (n : Nat) (pos : Position) :
    (p.closures stack n pos).Pairwise fun a b => a.id ≠ b.id := by
  induction p generalizing stack n pos with
  | done => exact .nil
  | copied _ _ ih | replaced _ _ _ ih => exact ih ..
  | call blanks arguments rest iha ih =>
    refine pairwise_append.2 ⟨iha .., ih .., fun a ha b hb => ?_⟩
    exact id_ne_of_lt (Nat.le_refl _) ha hb
  | closure opening hne parameters braced body rest ihb ih =>
    refine pairwise_append.2 ⟨ihb .., pairwise_cons.2 ⟨fun b hb => ?_, ih ..⟩, fun a ha b hb => ?_⟩
    · -- The closure itself has the first number of its range.
      obtain ⟨_, k, hk, hle, -⟩ := exists_closureId hb
      intro h
      have := eq_of_closureId_eq (h.trans hk)
      omega
    rcases mem_cons.1 hb with rfl | hb
    · -- A closure inside has the longer id.
      obtain ⟨inner, k, hk, -, -⟩ := exists_closureId ha
      intro h
      have hmem : closureId stack n ∈ inner ++ closureId stack n :: stack := by simp
      have hlt := length_lt_closureId hmem k
      rw [← hk, h] at hlt
      exact Nat.lt_irrefl _ hlt
    · exact id_ne_of_lt (by omega) ha hb

end Pieces

end Desugar

/-! ## Places -/

abbrev Place := Nat × Nat

/-- The order in which places come in a text. -/
def Place.Before (a b : Place) : Prop := a.1 < b.1 ∨ a.1 = b.1 ∧ a.2 < b.2

def Position.place (p : Position) : Place := (p.line, p.column)

def Closure.place (c : Closure) : Place := (c.line, c.column)

namespace Place

variable {a b c : Place}

theorem Before.trans (h1 : a.Before b) (h2 : b.Before c) : a.Before c := by
  unfold Before at *
  omega

theorem Before.trans_not (h1 : a.Before b) (h2 : ¬ c.Before b) : a.Before c := by
  unfold Before at *
  omega

theorem not_before_trans (h1 : ¬ b.Before a) (h2 : ¬ c.Before b) : ¬ c.Before a := by
  unfold Before at *
  omega

theorem before_of_ne (h : a ≠ b) (h' : ¬ b.Before a) : a.Before b := by
  obtain ⟨l, c⟩ := a
  obtain ⟨l', c'⟩ := b
  simp only [ne_eq, Prod.mk.injEq] at h
  unfold Before at *
  omega

theorem Before.ne (h : a.Before b) : a ≠ b := by
  rintro rfl
  unfold Before at h
  omega

end Place

namespace Position

theorem before_next (p : Position) (c : Char) : p.place.Before (p.next c).place := by
  unfold Place.Before next place
  split <;> simp

theorem before_advance (p : Position) {text : List Char} (h : text ≠ []) :
    p.place.Before (p.advance text).place := by
  induction text generalizing p with
  | nil => exact absurd rfl h
  | cons c cs ih =>
    change p.place.Before ((p.next c).advance cs).place
    by_cases hcs : cs = []
    · subst hcs
      exact p.before_next c
    · exact (p.before_next c).trans (ih _ hcs)

theorem not_advance_before (p : Position) (text : List Char) :
    ¬ (p.advance text).place.Before p.place := by
  intro hlt
  by_cases h : text = []
  · subst h
    change p.place.Before p.place at hlt
    unfold Place.Before at hlt
    omega
  · have := p.before_advance h
    unfold Place.Before at *
    omega

end Position

theorem Place.Before.advance {a : Place} {p : Position} (h : a.Before p.place) (text : List Char) :
    a.Before (p.advance text).place :=
  h.trans_not (p.not_advance_before text)

namespace Desugar.Pieces

theorem place_mem_closures (h : c ∈ p.closures stack n pos) :
    ¬ c.place.Before pos.place ∧ c.place.Before (pos.advance p.source).place := by
  induction p generalizing stack n pos with
  | done => cases h
  | copied text rest ih | replaced text _ rest ih =>
    obtain ⟨hfrom, huntil⟩ := ih h
    rw [source, Position.advance_append]
    exact ⟨fun hlt => hfrom (hlt.advance _), huntil⟩
  | call blanks arguments rest iha ih =>
    simp only [source, Position.advance_append]
    rcases mem_append.1 h with h | h
    · obtain ⟨hfrom, huntil⟩ := iha h
      exact ⟨fun hlt => hfrom (hlt.advance _), huntil.advance _⟩
    · obtain ⟨hfrom, huntil⟩ := ih h
      exact ⟨fun hlt => hfrom ((hlt.advance _).advance _), huntil⟩
  | closure opening hne parameters braced body rest ihb ih =>
    simp only [source, Position.advance_append]
    rcases mem_append.1 h with h | h
    · obtain ⟨hfrom, huntil⟩ := ihb h
      exact ⟨fun hlt => hfrom (hlt.advance _), (huntil.advance _).advance _⟩
    rcases mem_cons.1 h with rfl | h
    · exact ⟨fun hlt => hlt.ne rfl, (((pos.before_advance hne).advance _).advance _).advance _⟩
    · obtain ⟨hfrom, huntil⟩ := ih h
      exact ⟨fun hlt => hfrom (((hlt.advance _).advance _).advance _), huntil⟩

theorem closures_pairwise_place (p : Pieces) (stack : List String) (n : Nat) (pos : Position) :
    (p.closures stack n pos).Pairwise fun a b => a.place ≠ b.place := by
  induction p generalizing stack n pos with
  | done => exact .nil
  | copied _ _ ih | replaced _ _ _ ih => exact ih ..
  | call blanks arguments rest iha ih =>
    refine pairwise_append.2 ⟨iha .., ih .., fun a ha b hb => ?_⟩
    exact ((place_mem_closures ha).2.trans_not (place_mem_closures hb).1).ne
  | closure opening hne parameters braced body rest ihb ih =>
    have hself : pos.place.Before (pos.advance opening).place := pos.before_advance hne
    refine pairwise_append.2 ⟨ihb .., pairwise_cons.2 ⟨fun b hb => ?_, ih ..⟩, fun a ha b hb => ?_⟩
    · exact (((hself.advance _).advance _).trans_not (place_mem_closures hb).1).ne
    rcases mem_cons.1 hb with rfl | hb
    · exact (hself.trans_not (place_mem_closures ha).1).ne.symm
    · exact (((place_mem_closures ha).2.advance _).trans_not (place_mem_closures hb).1).ne

end Desugar.Pieces

/-! ## The registry -/

namespace ClosureRegistry

theorem entries_foldl_register (cs : List Closure) (r : ClosureRegistry)
    (hcs : cs.Pairwise fun a b => a.id ≠ b.id) (hr : ∀ c ∈ cs, c.id ∉ r.keys) :
    (cs.foldl register r).entries = r.entries ++ cs.map fun c => (c.id, c) := by
  induction cs generalizing r with
  | nil => simp
  | cons c cs ih =>
    obtain ⟨hc, hcs⟩ := pairwise_cons.1 hcs
    have hentries : (r.register c).entries = r.entries ++ [(c.id, c)] :=
      OrderedMap.insertEntry_of_not_mem c (hr c (by simp))
    rw [foldl_cons, ih _ hcs, hentries]
    · simp
    · intro b hb
      have : (r.register c).keys = r.keys ++ [c.id] := by simp [OrderedMap.keys, hentries]
      rw [this, mem_append, not_or]
      exact ⟨hr b (by simp [hb]), by simpa using (hc b hb).symm⟩

variable {cs : List Closure} {r : ClosureRegistry}

theorem values_of_entries (h : r.entries = cs.map fun c => (c.id, c)) : r.values = cs := by
  rw [OrderedMap.values, h, map_map]
  exact map_id' cs

theorem startsBefore_iff (a b : Closure) : a.startsBefore b = true ↔ ¬ b.place.Before a.place := by
  simp only [Closure.startsBefore, Bool.or_eq_true, Bool.and_eq_true, decide_eq_true_eq,
    beq_iff_eq, Place.Before, Closure.place]
  omega

theorem pairwise_sortByPosition (h : r.values.Pairwise fun a b => a.place ≠ b.place) :
    r.sortByPosition.values.Pairwise fun a b => a.place.Before b.place := by
  have hperm : r.sortByPosition.entries.Perm r.entries := mergeSort_perm ..
  have hdistinct : r.sortByPosition.entries.Pairwise fun a b => a.2.place ≠ b.2.place :=
    hperm.symm.pairwise ((pairwise_map (f := Prod.snd)).1 h) fun h => h.symm
  have hsorted : r.sortByPosition.entries.Pairwise fun a b => a.2.startsBefore b.2 = true := by
    refine pairwise_mergeSort ?_ ?_ r.entries
    · intro a b c hab hbc
      rw [startsBefore_iff] at *
      exact Place.not_before_trans hab hbc
    · intro a b
      rw [Bool.or_eq_true, startsBefore_iff, startsBefore_iff]
      unfold Place.Before
      omega
  refine pairwise_map.2 ((hdistinct.and hsorted).imp ?_)
  rintro a b ⟨hne, hle⟩
  exact Place.before_of_ne hne ((startsBefore_iff _ _).1 hle)

theorem mem_of_get? {closures : ClosureRegistry}
    (hentries : closures.entries = cs.map fun c => (c.id, c))
    {id : String} (h : closures.sortByPosition.get? id = some c) : c ∈ cs ∧ c.id = id := by
  obtain ⟨l1, l2, hsplit, -⟩ := lookup_eq_some_iff.1 h
  have hmem : (id, c) ∈ closures.sortByPosition.entries := hsplit ▸ by simp
  have hperm := mergeSort_perm closures.entries fun a b => a.2.startsBefore b.2
  have hmem := hperm.mem_iff.1 hmem
  rw [hentries] at hmem
  obtain ⟨c', hc, heq⟩ := mem_map.1 hmem
  obtain ⟨rfl, rfl⟩ := Prod.mk.inj heq
  exact ⟨hc, rfl⟩

end ClosureRegistry

/-! ## Closures of a script -/

open Desugar

/-- What a script is read as: pieces that make up its text, whose code is the plain code and whose
closures are the registry, none in place of another. -/
theorem desugar_registry {script : Desugar.Script} {d : Desugared} (h : desugar script = .ok d) :
    ∃ (p : Pieces) (t : State), (Grammar.ofDepth script script.depth).program script.start =
      .ok d.code t ∧
      p.source = script.source ∧ p.code [] 0 = d.code.toList ∧
      t.counter = (p.closures [] 0 .start).length ∧
      t.closures.entries = (p.closures [] 0 .start).map (fun c => (c.id, c)) ∧
      d.closures = t.closures.sortByPosition ∧ (∀ c ∈ p.closures [] 0 .start, c.Solid) ∧
      (script.plugins = [] → p.Plain script.localPrefix) := by
  unfold desugar Script.readTo at h
  cases hrun : (Grammar.ofDepth script script.depth).program script.start with
  | error e t =>
    rw [hrun] at h
    cases e <;> cases h
  | ok code t =>
    rw [hrun] at h
    cases h
    have hstart : script.start.At script.source [] :=
      ⟨rfl, Scanner.ofSource_at script.source, nofun⟩
    obtain ⟨p, hp, hcode, hplain⟩ :=
      (Grammar.ofDepth_faithful script _).program script.start code t hrun [] hstart
    have heof := hp.place.scanner.eof (Grammar.ofDepth_program_yields script _ _ code t hrun)
    have hsource := hp.place.scanner.split
    rw [heof.1, heof.2] at hsource
    refine ⟨p, t, rfl, by simpa using hsource.symm, hcode.symm, ?_, ?_, rfl, hp.solid, hplain⟩
    · rw [hp.counter, Pieces.length_closures]
      exact Nat.zero_add _
    · have hclosures : t.closures = (p.closures [] 0 .start).foldl .register .empty := hp.closures
      rw [hclosures, ClosureRegistry.entries_foldl_register _ _
        (p.closures_pairwise_id [] 0 .start)]
      · rfl
      · exact fun _ _ => not_mem_nil

/-- The closures that the reading of a script extracts have ids of their own, so each of them gets
an entry of its own in the registry, and in the registry that is returned their headers follow one
another in the text. -/
theorem closures_distinct {script : Desugar.Script} {d : Desugared} (h : desugar script = .ok d) :
    ∃ (p : Pieces) (t : State), (Grammar.ofDepth script script.depth).program script.start =
      .ok d.code t ∧ p.source = script.source ∧ p.code [] 0 = d.code.toList ∧
      t.counter = (p.closures [] 0 .start).length ∧
      ((p.closures [] 0 .start).map Closure.id).Nodup ∧
      t.closures.entries = (p.closures [] 0 .start).map (fun c => (c.id, c)) ∧
      d.closures.entries.Perm t.closures.entries ∧
      d.closures.values.Pairwise fun a b => a.place.Before b.place := by
  obtain ⟨p, t, hrun, hsource, hcode, hcounter, hentries, hsorted, -⟩ := desugar_registry h
  refine ⟨p, t, hrun, hsource, hcode, hcounter, ?_, hentries, ?_, ?_⟩
  · exact pairwise_map.2 (p.closures_pairwise_id [] 0 .start)
  · rw [hsorted]
    exact mergeSort_perm ..
  · rw [hsorted]
    apply ClosureRegistry.pairwise_sortByPosition
    rw [ClosureRegistry.values_of_entries hentries]
    exact p.closures_pairwise_place [] 0 .start

def nestedScript : Desugar.Script where
  source := "f \x7b g \x7b a \x7d \x7d\no = \x7bk: x -> !maybe \x7bw\x7d\x7d\n".toList
  filename := "nested"
  localPrefix := none
  plugins := [.maybe]

theorem closures_distinct_nestedScript : ∃ d, desugar nestedScript = .ok d ∧ d.closures.size = 4 ∧
      d.closures.values.Pairwise fun a b => a.place.Before b.place := by
  have hrun : (do
      let _ ← (Grammar.ofDepth nestedScript nestedScript.depth).program
      return (← get).counter : Reading Nat).run' nestedScript.start = some 4 := by
    with_unfolding_all decide
  obtain ⟨d, t, hd, hprogram, hfour⟩ := exists_desugar_of_run' hrun
  obtain ⟨p, t', hok, -, -, hcounter, -, hentries, hperm, hsorted⟩ := closures_distinct hd
  obtain ⟨-, rfl⟩ := EStateM.Result.ok.inj (hprogram.symm.trans hok)
  refine ⟨d, hd, ?_, hsorted⟩
  rw [OrderedMap.size, hperm.length_eq, hentries, length_map, ← hcounter, hfour]

end BlockScript
