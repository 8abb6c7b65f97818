import Mathlib.Data.List.Nodup
import BlockScript.Proofs.ClosureIds
import BlockScript.Proofs.Words

/-! Which closures are referenced. A closure gives way to its id, and whether the id can be seen as
a word depends on the characters beside it. -/

namespace BlockScript.Desugar

open List

/-- A part of a text: text that is written as it is, or the id of a closure. -/
inductive Part where
  | own (text : List Char)
  | closure (id : String)

variable {id : String}

namespace Part

def text : Part → List Char
  | own text => text
  | closure id => id.toList

/-- The text without ids, a blank in the place of each. -/
def ownText : Part → List Char
  | own text => text
  | closure _ => [' ']

def id? : Part → Option String
  | own _ => none
  | closure id => some id

@[simp] theorem filterMap_id?_own (t : List Char) (parts : List Part) :
    (own t :: parts).filterMap id? = parts.filterMap id? := rfl

@[simp] theorem filterMap_id?_closure (id : String) (parts : List Part) :
    (closure id :: parts).filterMap id? = id :: parts.filterMap id? := rfl

/-- The closures of a text, each with whether a word character stands right beside it; `before` is
the character in front of the text. -/
def joints (before : Option Char) : List Part → List (String × Bool)
  | [] => []
  | own text :: rest => joints (text.getLast?.or before) rest
  | closure id :: rest =>
    (id, Text.isWordAt before || Text.isWordAt (rest.flatMap Part.text).head?) ::
      joints (id.toList.getLast?.or before) rest

theorem map_fst_joints (before : Option Char) (parts : List Part) :
    (joints before parts).map Prod.fst = parts.filterMap id? := by
  induction parts generalizing before with
  | nil => rfl
  | cons part rest ih => cases part <;> simp [joints, ih]

variable {word : List Char} {before : Option Char} {parts : List Part}

theorem standsAlone_append {text : List Char} (lead : List Char)
    (h : Text.StandsAlone word (lead.getLast?.or before) text) :
    Text.StandsAlone word before (lead ++ text) := by
  obtain ⟨u, v, rfl, hu, hv⟩ := h
  refine ⟨lead ++ u, v, by simp, ?_, hv⟩
  rwa [getLast?_append, Option.or_assoc]

theorem standsAlone_of_gap {text : List Char} {gap : Option Char} (hgap : Text.isWordAt gap = false)
    (h : Text.StandsAlone word before text) : Text.StandsAlone word gap text := by
  obtain ⟨u, v, huv, hu, hv⟩ := h
  refine ⟨u, v, huv, ?_, hv⟩
  cases hl : u.getLast? with
  | none => exact hgap
  | some c => rwa [hl] at hu

theorem closure_mem_of_mem_joints {flag : Bool} (h : (id, flag) ∈ joints before parts) :
    closure id ∈ parts := by
  have hid : id ∈ parts.filterMap id? := by
    rw [← map_fst_joints before]
    exact mem_map_of_mem h
  obtain ⟨part, hpart, hid⟩ := mem_filterMap.1 hid
  cases part with
  | own => cases hid
  | closure => cases hid; exact hpart

theorem standsAlone_of_mem_joints (h : (id, false) ∈ joints before parts) :
    Text.StandsAlone id.toList before (parts.flatMap text) := by
  induction parts generalizing before with
  | nil => cases h
  | cons part rest ih =>
    cases part with
    | own t => exact standsAlone_append t (ih h)
    | closure i =>
      rcases mem_cons.1 h with h | h
      · obtain ⟨rfl, hflag⟩ := Prod.mk.inj h
        obtain ⟨hbefore, hafter⟩ := Bool.or_eq_false_iff.1 hflag.symm
        exact ⟨[], rest.flatMap text, by simp [text], hbefore, hafter⟩
      · exact standsAlone_append i.toList (ih h)

/-- How a word that stands alone lies to a name `id` in the same text: before it, after it, or
around it. -/
theorem around_cases {id before after u v : List Char} {edge : Option Char}
    (hid : ∀ c ∈ id, Token.isWord c = true) (h : before ++ (id ++ after) = u ++ (word ++ v))
    (hu : Text.isWordAt (u.getLast?.or edge) = false) (hv : Text.isWordAt v.head? = false) :
    (∃ x, before = u ++ (word ++ x) ∧ v = x ++ (id ++ after)) ∨
      (∃ y, u = before ++ (id ++ y) ∧ after = y ++ (word ++ v)) ∨
      ∃ x y, before = u ++ x ∧ word = x ++ (id ++ y) ∧ after = y ++ v := by
  -- A name cannot go on where the word ends.
  have right {z y : List Char} (hi : id = z ++ y) (hy : v = y ++ after) : y = [] := by
    cases y with
    | nil => rfl
    | cons c y =>
      have hc := hid c (by simp [hi])
      simp [hy, Text.isWordAt, hc] at hv
  rcases append_eq_append_iff.1 h with ⟨a, rfl, ha⟩ | ⟨x, rfl, hx⟩
  · rcases append_eq_append_iff.1 ha with ⟨y, rfl, hy⟩ | ⟨z, hz, hwv⟩
    · exact .inr (.inl ⟨y, rfl, hy⟩)
    · -- The word starts inside the name, so at its first character.
      have : a = [] := by
        rcases eq_nil_or_concat a with rfl | ⟨a', c, rfl⟩
        · rfl
        · have hc := hid c (by simp [hz])
          simp [Text.isWordAt, hc] at hu
      subst this
      obtain rfl : id = z := hz
      rcases append_eq_append_iff.1 hwv with ⟨y, hi, hy⟩ | ⟨y, hw, hy⟩
      · obtain rfl := right hi hy
        exact .inr (.inr ⟨[], [], by simp, by simpa using hi.symm, by simpa using hy.symm⟩)
      · exact .inr (.inr ⟨[], y, by simp, by simpa using hw, hy⟩)
  · rcases append_eq_append_iff.1 hx with ⟨z, rfl, hz⟩ | ⟨z, hw, hz⟩
    · exact .inl ⟨z, rfl, hz⟩
    · refine .inr (.inr ?_)
      rcases append_eq_append_iff.1 hz with ⟨y, rfl, hy⟩ | ⟨y, hi, hy⟩
      · exact ⟨x, y, rfl, hw, hy⟩
      · obtain rfl := right hi hy
        rw [append_nil] at hi
        exact ⟨x, [], rfl, by rw [hw, hi, append_nil], by simpa using hy.symm⟩

/-- Where a word stands alone: in the own text, or as the id of a closure with no word character
beside it; or the id of a closure and what stands beside it make up the word. -/
theorem standsAlone_cases (hword : ∀ c ∈ word, Token.isWord c = true)
    (hids : ∀ id, closure id ∈ parts → ∀ c ∈ id.toList, Token.isWord c = true) (lead : List Char)
    (h : Text.StandsAlone word before (lead ++ parts.flatMap text)) :
    Text.StandsAlone word before (lead ++ parts.flatMap ownText) ∨
      (∃ id, (id, false) ∈ joints (lead.getLast?.or before) parts ∧ id.toList = word) ∨
      ∃ id, (id, true) ∈ joints (lead.getLast?.or before) parts ∧
        id.toList.length < word.length := by
  induction parts generalizing lead before with
  | nil => exact .inl h
  | cons part rest ih =>
    cases part with
    | own t =>
      have := ih (fun id hid => hids id (mem_cons_of_mem _ hid)) (lead ++ t)
        (by simpa [text] using h)
      simpa [ownText, joints, Option.or_assoc] using this
    | closure i =>
      obtain ⟨u, v, huv, hu, hv⟩ := h
      have hchars := hids i (mem_cons_self ..)
      rw [flatMap_cons] at huv
      rcases around_cases hchars huv hu hv with ⟨x, rfl, hx⟩ | ⟨y, rfl, hy⟩ | ⟨x, y, rfl, hw, hy⟩
      · refine .inl ⟨u, x ++ (' ' :: rest.flatMap ownText), by simp [ownText], hu, ?_⟩
        cases x with
        | nil => rfl
        | cons c x => simpa [hx] using hv
      · -- The word comes after the closure.
        have hafter : Text.StandsAlone word (i.toList.getLast?.or (lead.getLast?.or before))
            ([] ++ rest.flatMap text) := by
          refine ⟨y, v, hy, ?_, hv⟩
          simpa [Option.or_assoc] using hu
        rcases ih (fun id hid => hids id (mem_cons_of_mem _ hid)) [] hafter with h | h | h
        · have hgap : Text.isWordAt ((lead ++ [' ']).getLast?.or before) = false := by
            rw [getLast?_concat]
            rfl
          have := standsAlone_append (lead ++ [' ']) (standsAlone_of_gap hgap h)
          exact .inl (by simpa [ownText] using this)
        · obtain ⟨id, hid, hw⟩ := h
          exact .inr (.inl ⟨id, mem_cons_of_mem _ hid, hw⟩)
        · obtain ⟨id, hid, hlt⟩ := h
          exact .inr (.inr ⟨id, mem_cons_of_mem _ hid, hlt⟩)
      · by_cases hxy : x = [] ∧ y = []
        · obtain ⟨rfl, rfl⟩ := hxy
          refine .inr (.inl ⟨i, ?_, by simpa using hw.symm⟩)
          have hflag : (Text.isWordAt ((u ++ []).getLast?.or before) ||
              Text.isWordAt (rest.flatMap text).head?) = false := by
            rw [Bool.or_eq_false_iff, hy, append_nil]
            exact ⟨hu, hv⟩
          rw [joints, hflag]
          exact mem_cons_self ..
        · refine .inr (.inr ⟨i, ?_, ?_⟩)
          · have hflag : (Text.isWordAt ((u ++ x).getLast?.or before) ||
                Text.isWordAt (rest.flatMap text).head?) = true := by
              rw [Bool.or_eq_true, hy]
              rcases eq_nil_or_concat x with rfl | ⟨x, c, rfl⟩
              · obtain ⟨c, y, rfl⟩ := exists_cons_of_ne_nil fun hy => hxy ⟨rfl, hy⟩
                exact .inr (hword c (by simp [hw]))
              · refine .inl ?_
                rw [concat_eq_append, ← append_assoc, getLast?_concat]
                exact hword c (by simp [hw])
            rw [joints, hflag]
            exact mem_cons_self ..
          · have : 0 < x.length + y.length := by
              rcases Nat.eq_zero_or_pos (x.length + y.length) with h | h
              · exact absurd (by simpa using h) hxy
              · exact h
            simp only [hw, length_append]
            omega

end Part

namespace Pieces

/-! ## The texts of a script -/

def parts (stack : List String) : Nat → Pieces → List Part
  | _, done => []
  | n, copied text rest | n, replaced _ text rest => .own text :: rest.parts stack n
  | n, call _ arguments rest =>
    .own ['('] :: (arguments.parts stack n ++ .own [')'] :: rest.parts stack (n + arguments.count))
  | n, closure _ _ _ _ body rest =>
    .closure (closureId stack n) :: rest.parts stack (n + (body.count + 1))

theorem flatMap_parts (p : Pieces) (stack : List String) (n : Nat) :
    (p.parts stack n).flatMap Part.text = p.code stack n := by
  induction p generalizing n with
  | done => rfl
  | copied _ _ ih | replaced _ _ _ ih => simp [parts, code, Part.text, ih]
  | call _ _ _ iha ih => simp [parts, code, Part.text, iha, ih]
  | closure _ _ _ _ _ _ _ ih => simp [parts, code, Part.text, ih]

def bodies (stack : List String) : Nat → Pieces → List (String × List Part)
  | _, done => []
  | n, copied _ rest | n, replaced _ _ rest => rest.bodies stack n
  | n, call _ arguments rest =>
    arguments.bodies stack n ++ rest.bodies stack (n + arguments.count)
  | n, closure _ _ _ _ body rest =>
    let id := closureId stack n
    body.bodies (id :: stack) n ++
      (id, body.parts (id :: stack) n) :: rest.bodies stack (n + (body.count + 1))

theorem map_closures (p : Pieces) (stack : List String) (n : Nat) (pos : Position) :
    (p.closures stack n pos).map (fun c => (c.id, c.text.toList)) =
      (p.bodies stack n).map fun b => (b.1, b.2.flatMap Part.text) := by
  induction p generalizing stack n pos with
  | done => rfl
  | copied _ _ ih | replaced _ _ _ ih => exact ih ..
  | call _ _ _ iha ih => simp only [closures, bodies, map_append, iha, ih]
  | closure _ _ _ braced _ _ ihb ih =>
    have htext (id line column parameters code) :
        (Closure.text ⟨id, line, column, parameters, Pieces.body braced code⟩).toList = code := by
      cases braced <;> simp [Closure.text, Pieces.body]
    simp only [closures, bodies, map_append, map_cons, ihb, ih, htext, flatMap_parts]

/-- All texts of a script: its code and the texts of its closures. -/
def texts (p : Pieces) : List (List Part) := p.parts [] 0 :: (p.bodies [] 0).map Prod.snd

/-- No text of the script has one of the names as a word of its own. -/
def NamesNone (p : Pieces) (names : List String) : Prop :=
  ∀ name ∈ names, ∀ text ∈ p.texts, ¬ Text.StandsAlone name.toList none (text.flatMap Part.ownText)

/-- Every closure of a script, with whether a word character stands right beside its id. -/
def joints (p : Pieces) : List (String × Bool) := p.texts.flatMap (Part.joints none)

theorem parts_perm_closures (p : Pieces) (stack : List String) (n : Nat) (pos : Position) :
    ((p.parts stack n).filterMap Part.id? ++ (p.bodies stack n).flatMap fun b =>
    b.2.filterMap Part.id?).Perm
      ((p.closures stack n pos).map Closure.id) := by
  rw [perm_iff_count]
  intro i
  induction p generalizing stack n pos with
  | done => rfl
  | copied _ _ ih | replaced _ _ _ ih => simpa [parts, bodies, closures] using ih ..
  | call blanks arguments rest iha ih =>
    have ha := iha stack n (pos.advance blanks)
    have hr := ih stack (n + arguments.count) ((pos.advance blanks).advance arguments.source)
    simp only [parts, bodies, closures, List.count_append, filterMap_append,
      flatMap_append, map_append, Part.filterMap_id?_own] at *
    omega
  | closure opening hne parameters braced body rest ihb ih =>
    have hb := ihb (closureId stack n :: stack) n (pos.advance opening)
    have hr := ih stack (n + (body.count + 1))
      (((pos.advance opening).advance body.source).advance (closing braced))
    simp only [parts, bodies, closures, List.count_append, count_cons,
      flatMap_append, flatMap_cons, map_append, map_cons,
      Part.filterMap_id?_closure] at *
    omega

variable {p : Pieces} {stack : List String} {n : Nat} {c : Closure} {pos : Position}

theorem exists_closureId_of_mem_parts (h : .closure id ∈ p.parts stack n) :
    ∃ k, id = closureId stack k := by
  induction p generalizing n with
  | done => cases h
  | copied _ _ ih | replaced _ _ _ ih => exact ih (by simpa [parts] using h)
  | call _ _ _ iha ih =>
    rcases (by simpa [parts] using h : _ ∨ _) with h | h
    · exact iha h
    · exact ih h
  | closure _ _ _ _ _ _ _ ih =>
    rcases (by simpa [parts] using h : _ ∨ _) with h | h
    · exact ⟨n, h⟩
    · exact ih h

theorem ne_of_mem_bodies {outer : String} {text : List Part} (h : (outer, text) ∈ p.bodies stack n)
    (hid : .closure id ∈ text) : outer ≠ id := by
  induction p generalizing stack n with
  | done => cases h
  | copied _ _ ih | replaced _ _ _ ih => exact ih h
  | call _ _ _ iha ih =>
    rcases mem_append.1 h with h | h
    · exact iha h
    · exact ih h
  | closure _ _ _ _ _ _ ihb ih =>
    rcases mem_append.1 h with h | h
    · exact ihb h
    rcases mem_cons.1 h with h | h
    · obtain ⟨rfl, rfl⟩ := Prod.mk.inj h
      obtain ⟨k, rfl⟩ := exists_closureId_of_mem_parts hid
      intro heq
      have hlt := length_lt_closureId (mem_cons_self (a := closureId stack n) (l := stack)) k
      rw [← heq] at hlt
      exact Nat.lt_irrefl _ hlt
    · exact ih h

theorem isWord_closureId (h : ∀ id ∈ stack, ∀ c ∈ id.toList, Token.isWord c = true) (n : Nat) :
    ∀ c ∈ (closureId stack n).toList, Token.isWord c = true := by
  intro c hc
  rw [toList_closureId, mem_append, mem_append, String.toList_join, mem_flatMap] at hc
  rcases hc with ⟨id, hid, hc⟩ | hc | hc
  · exact h id (mem_reverse.1 hid) c hc
  · exact (by decide : ∀ c ∈ "_closure_".toList, Token.isWord c = true) c hc
  · have hdigit : Token.isDigit c = true := Nat.isDigit_of_mem_toDigits (by decide) (by decide) hc
    simp [Token.isWord, hdigit]

/-- What every id has if the ids around it have it. -/
theorem forall_id_closures {q : String → Prop}
    (hq : ∀ stack n, (∀ id ∈ stack, q id) → q (closureId stack n)) (hs : ∀ id ∈ stack, q id)
    (h : c ∈ p.closures stack n pos) : q c.id := by
  induction p generalizing stack n pos with
  | done => cases h
  | copied _ _ ih | replaced _ _ _ ih => exact ih hs h
  | call _ _ _ iha ih =>
    rcases mem_append.1 h with h | h
    · exact iha hs h
    · exact ih hs h
  | closure _ _ _ _ _ _ ihb ih =>
    rcases mem_append.1 h with h | h
    · refine ihb (fun id hid => ?_) h
      rcases mem_cons.1 hid with rfl | hid
      · exact hq stack n hs
      · exact hs id hid
    rcases mem_cons.1 h with rfl | h
    · exact hq stack n hs
    · exact ih hs h

theorem isWord_of_mem_closures (hs : ∀ id ∈ stack, ∀ c ∈ id.toList, Token.isWord c = true)
    (h : c ∈ p.closures stack n pos) : ∀ x ∈ c.id.toList, Token.isWord x = true :=
  forall_id_closures (q := fun id => ∀ c ∈ id.toList, Token.isWord c = true)
    (fun _ n hs => isWord_closureId hs n) hs h

end Pieces

end BlockScript.Desugar

namespace BlockScript

open Desugar List

variable {d : Desugared}

theorem Desugared.mem_unreferenced {id : String} :
    id ∈ d.unreferenced ↔ id ∈ d.closures.keys ∧ Text.containsWord d.code id = false ∧
      ∀ c ∈ d.closures.values, c.id ≠ id → Text.containsWord c.text id = false := by
  simp [Desugared.unreferenced]

structure Desugar.Pieces.Desugars (p : Pieces) (script : Desugar.Script) (d : Desugared) :
    Prop where
  source : p.source = script.source
  code : p.code [] 0 = d.code.toList
  closures : d.closures.values.Perm (p.closures [] 0 .start)
  keys : d.closures.keys.Perm ((p.closures [] 0 .start).map Closure.id)

theorem exists_desugars {script : Desugar.Script} (h : desugar script = .ok d) :
    ∃ p : Pieces, p.Desugars script d := by
  obtain ⟨p, t, -, hsource, hcode, -, hentries, hsorted, -⟩ := desugar_registry h
  have hperm : d.closures.entries.Perm t.closures.entries := by
    rw [hsorted]
    exact mergeSort_perm ..
  refine ⟨p, hsource, hcode, ?_, ?_⟩
  · exact (hperm.map Prod.snd).trans (.of_eq (ClosureRegistry.values_of_entries hentries))
  · refine (hperm.map Prod.fst).trans (.of_eq ?_)
    rw [hentries, map_map]
    rfl

namespace Desugar.Pieces.Desugars

variable {p : Pieces} {script : Desugar.Script} {d : Desugared} (h : p.Desugars script d)

include h

theorem map_joints_perm : (p.joints.map Prod.fst).Perm d.closures.keys := by
  refine List.Perm.trans (.of_eq ?_) ((p.parts_perm_closures [] 0 .start).trans h.keys.symm)
  simp only [joints, texts, flatMap_cons, map_append, map_flatMap, Part.map_fst_joints, flatMap_map]

variable {id : String}

theorem isWord_of_mem_keys (hid : id ∈ d.closures.keys) :
    id.toList ≠ [] ∧ ∀ c ∈ id.toList, Token.isWord c = true := by
  obtain ⟨c, hc, rfl⟩ := mem_map.1 (h.keys.mem_iff.1 hid)
  obtain ⟨inner, k, hk, -, -⟩ := exists_closureId hc
  obtain ⟨lead, last, hlast, -⟩ := closureId_eq_append (inner ++ []) k
  refine ⟨?_, isWord_of_mem_closures (by simp) hc⟩
  rw [hk, hlast]
  simp

theorem containsWord_iff (hid : id ∈ d.closures.keys) (text : String) :
    Text.containsWord text id = true ↔ Text.StandsAlone id.toList none text.toList :=
  Text.containsWordFrom_iff (h.isWord_of_mem_keys hid).1 (h.isWord_of_mem_keys hid).2 none _

theorem exists_closure_of_mem_bodies {text : List Part} (hbody : (id, text) ∈ p.bodies [] 0) :
    ∃ c ∈ d.closures.values, c.id = id ∧ c.text.toList = text.flatMap Part.text := by
  have hmem : (id, text.flatMap Part.text) ∈ (p.closures [] 0 .start).map fun c =>
      (c.id, c.text.toList) := by
    rw [map_closures]
    exact mem_map.2 ⟨_, hbody, rfl⟩
  obtain ⟨c, hc, heq⟩ := mem_map.1 hmem
  exact ⟨c, h.closures.mem_iff.2 hc, (Prod.mk.inj heq).1, (Prod.mk.inj heq).2⟩

/-- A closure that is not referenced has a word character right beside its id. -/
theorem mem_joints_of_mem_unreferenced (hid : id ∈ d.unreferenced) : (id, true) ∈ p.joints := by
  obtain ⟨hkey, hcode, hclosures⟩ := Desugared.mem_unreferenced.1 hid
  obtain ⟨⟨i, flag⟩, hjoint, rfl⟩ := mem_map.1 (h.map_joints_perm.mem_iff.2 hkey)
  cases flag with
  | true => exact hjoint
  | false =>
    obtain ⟨text, htext, hmem⟩ := mem_flatMap.1 hjoint
    have halone := Part.standsAlone_of_mem_joints hmem
    rcases mem_cons.1 htext with rfl | htext
    · rw [flatMap_parts, h.code, ← h.containsWord_iff hkey, hcode] at halone
      cases halone
    · obtain ⟨⟨outer, text'⟩, hbody, rfl⟩ := mem_map.1 htext
      have hne : outer ≠ i := ne_of_mem_bodies hbody (Part.closure_mem_of_mem_joints hmem)
      obtain ⟨c, hc, rfl, hctext⟩ := h.exists_closure_of_mem_bodies hbody
      rw [← hctext, ← h.containsWord_iff hkey, hclosures c hc hne] at halone
      cases halone

theorem exists_text (hkey : id ∈ d.closures.keys) (hid : id ∉ d.unreferenced) :
    ∃ text ∈ p.texts, Text.StandsAlone id.toList none (text.flatMap Part.text) := by
  rw [Desugared.mem_unreferenced] at hid
  by_cases hcode : Text.containsWord d.code id = true
  · refine ⟨p.parts [] 0, mem_cons_self .., ?_⟩
    rw [flatMap_parts, h.code]
    exact (h.containsWord_iff hkey d.code).1 hcode
  · obtain ⟨c, hc, hword⟩ : ∃ c ∈ d.closures.values, Text.containsWord c.text id = true := by
      refine Classical.byContradiction fun hnone => hid ⟨hkey, by simpa using hcode, ?_⟩
      intro c hc _
      refine Bool.eq_false_iff.2 fun hword => hnone ⟨c, hc, hword⟩
    have hmem : (c.id, c.text.toList) ∈ (p.bodies [] 0).map
        fun b => (b.1, b.2.flatMap Part.text) := by
      rw [← map_closures p [] 0 .start]
      exact mem_map_of_mem (h.closures.mem_iff.1 hc)
    obtain ⟨⟨i, text⟩, hbody, heq⟩ := mem_map.1 hmem
    refine ⟨text, mem_cons_of_mem _ (mem_map_of_mem (f := Prod.snd) hbody), ?_⟩
    rw [(Prod.mk.inj heq).2]
    exact (h.containsWord_iff hkey c.text).1 hword

/-- If a text has an id as a word, the script writes it as a name of its own, or the id has no word
character beside it, or it is made up of a shorter id and what stands beside that. -/
theorem cases_of_standsAlone (hkey : id ∈ d.closures.keys) {text : List Part}
    (htext : text ∈ p.texts) (hown : ¬ Text.StandsAlone id.toList none (text.flatMap Part.ownText))
    (halone : Text.StandsAlone id.toList none (text.flatMap Part.text)) :
    (id, false) ∈ p.joints ∨ ∃ i, (i, true) ∈ p.joints ∧ i.length < id.length := by
  have hids (i : String) (hi : .closure i ∈ text) : ∀ c ∈ i.toList, Token.isWord c = true := by
    refine (h.isWord_of_mem_keys (h.map_joints_perm.mem_iff.1 ?_)).2
    have hi' : i ∈ (Part.joints none text).map Prod.fst := by
      rw [Part.map_fst_joints]
      exact mem_filterMap.2 ⟨_, hi, rfl⟩
    obtain ⟨e, he, rfl⟩ := mem_map.1 hi'
    exact mem_map_of_mem (mem_flatMap.2 ⟨text, htext, he⟩)
  rcases Part.standsAlone_cases (h.isWord_of_mem_keys hkey).2 hids [] halone with
    hcase | ⟨i, hi, heq⟩ | ⟨i, hi, hlt⟩
  · exact absurd hcase hown
  · obtain rfl : i = id := String.toList_inj.1 heq
    exact .inl (mem_flatMap.2 ⟨text, htext, hi⟩)
  · refine .inr ⟨i, mem_flatMap.2 ⟨text, htext, hi⟩, ?_⟩
    simpa [← String.length_toList] using hlt

/-- If nothing is left without a reference and no id is a name of the script's own, no id has a word
character beside it: the shortest that had one could not be found. -/
theorem not_mem_joints (hnames : p.NamesNone d.closures.keys) (hnil : d.unreferenced = [])
    (id : String) : (id, true) ∉ p.joints := by
  induction hlen : id.length using Nat.strongRecOn generalizing id with
  | ind len ih =>
    subst hlen
    intro hjoint
    have hkey : id ∈ d.closures.keys :=
      h.map_joints_perm.mem_iff.1 (mem_map_of_mem (f := Prod.fst) hjoint)
    obtain ⟨text, htext, halone⟩ := h.exists_text hkey (by simp [hnil])
    rcases h.cases_of_standsAlone hkey htext (hnames id hkey text htext) halone with
      hfalse | ⟨i, hi, hlt⟩
    · -- Each id has one place, so it cannot be both beside a word character and not.
      have hnodup : (p.joints.map Prod.fst).Nodup := by
        refine (h.map_joints_perm.trans h.keys).nodup_iff.2 ?_
        exact pairwise_map.2 (p.closures_pairwise_id [] 0 .start)
      cases inj_on_of_nodup_map hnodup hjoint hfalse rfl
    · exact ih i.length hlt i rfl hi

end Desugar.Pieces.Desugars

/-- A closure that nothing refers to has a word character right beside its id. If the script uses no
id as a name of its own, there is such a closure as soon as one id has a word character beside
it. -/
theorem unreferenced_iff_joint {script : Desugar.Script} {d : Desugared}
    (h : desugar script = .ok d) :
    ∃ p : Pieces, p.Desugars script d ∧ (∀ id ∈ d.unreferenced, (id, true) ∈ p.joints) ∧
      (p.NamesNone d.closures.keys →
        (d.unreferenced = [] ↔ ∀ joint ∈ p.joints, joint.2 = false)) := by
  obtain ⟨p, hp⟩ := exists_desugars h
  refine ⟨p, hp, fun id => hp.mem_joints_of_mem_unreferenced, fun hnames => ⟨fun hnil => ?_, ?_⟩⟩
  · rintro ⟨id, flag⟩ hjoint
    cases flag with
    | false => rfl
    | true => exact absurd hjoint (hp.not_mem_joints hnames hnil id)
  · intro hapart
    refine eq_nil_iff_forall_not_mem.2 fun id hid => ?_
    cases hapart _ (hp.mem_joints_of_mem_unreferenced hid)

/-- A block right after a word operator. -/
def negatedBlock : Desugar.Script where
  source := "x = not\x7b foo() \x7d\n".toList
  filename := "negated"
  localPrefix := some "_def_"
  plugins := []

theorem any_negatedBlock :
    ((desugar negatedBlock).toOption.any fun d => d.unreferenced == ["_closure_1"]) = true := by
  with_unfolding_all decide

theorem unreferenced_negatedBlock :
    ∃ d, desugar negatedBlock = .ok d ∧ d.unreferenced = ["_closure_1"] := by
  obtain ⟨d, hd, hnone⟩ := exists_desugar_of_any any_negatedBlock
  exact ⟨d, hd, beq_iff_eq.1 hnone⟩

theorem joint_negatedBlock :
    ∃ (d : Desugared) (p : Pieces), desugar negatedBlock = .ok d ∧ p.Desugars negatedBlock d ∧
      ("_closure_1", true) ∈ p.joints := by
  obtain ⟨d, hd, hnone⟩ := exists_desugar_of_any any_negatedBlock
  obtain ⟨p, hp, hjoints, -⟩ := unreferenced_iff_joint hd
  exact ⟨d, p, hd, hp, hjoints _ (by simp [beq_iff_eq.1 hnone])⟩

end BlockScript
