import BlockScript.Proofs.ClosureDefinitions
import BlockScript.Proofs.Pieces.Lines

/-! The lines of a compiled program. A statement of a program tells a line; in the script it stands
as many lines further down as line breaks were cut out with closures before it. -/

namespace BlockScript

open Program Stmt Compile Desugar List

/-! ## Statements by their texts -/

namespace Compile

def Traced.InText (filename : String) (closures : ClosureRegistry) (code : Module) : Traced → Prop
  | (.definition _, _) => True
  | (.statement none, x) => x ∈ outlineAll code
  | (.statement (some id), x) => x ∈ outlineAll (closureBody filename closures id)

variable {filename : String} {closures : ClosureRegistry} {code : Module}

theorem inText_trace : ∀ x ∈ trace filename closures code, x.InText filename closures code := by
  refine forall_mem_trace (fun _ h => h) fun id s body hdefinition => ⟨trivial, fun x hx => ?_⟩
  change x ∈ outlineAll (closureBody filename closures id)
  rw [closureBody, hdefinition]
  exact hx

def IsBlock (closures : ClosureRegistry) (id : String) : Prop :=
  ∃ c text, closures.get? id = some c ∧ c.body = .block text

end Compile

/-! ## Places in the script -/

namespace Desugar.Pieces

/-- What stands at `span` in the code, or in the text of the definition of a closure, comes from the
place `spot` of the script. -/
def ComesFrom (p : Pieces) (closure? : Option String) (span : Span) (spot : Spot) : Prop :=
  match closure? with
  | none => ∃ k ≤ (p.code [] 0).length,
      span = .ofPosition (Position.start.advance ((p.code [] 0).take k)) ∧
      spot = p.spot [] 0 ⟨.start, 0⟩ k
  | some id => ∃ b ∈ p.blocks [] 0 .start, b.closure.id = id ∧ ∃ k ≤ b.code.length,
      span = .ofPosition (Position.start.advance (lead b.closure ++ b.code.take k)) ∧
      spot = b.spot k

theorem ComesFrom.line {mark? : Option String} (hmark : ∀ mark ∈ mark?, '\n' ∉ mark.toList)
    {p : Pieces} (hp : p.Plain mark?) {closure? : Option String} {span : Span} {spot : Spot}
    (h : p.ComesFrom closure? span spot) : spot.place.line = span.line + spot.cut := by
  cases closure? with
  | none =>
    obtain ⟨k, hk, rfl, rfl⟩ := h
    have := hp.line_spot hmark (by simp) 0 ⟨.start, 0⟩ hk
    simpa [Span.ofPosition, Position.line_advance] using this
  | some id =>
    obtain ⟨b, hb, -, k, hk, rfl, rfl⟩ := h
    have hplain := hp.blocks (by simp) (by decide) b hb
    have hname : IsName b.closure.id :=
      isName_of_mem_closures (map_closure_blocks [] 0 .start p ▸ mem_map_of_mem hb)
    have hpositive := hplain.positive
    rw [hplain.line_spot hmark hk]
    simp only [Span.ofPosition, Position.line_advance, List.count_append,
      count_lead hname hplain.words]
    change _ = 1 + _ + _
    omega

theorem exists_comesFrom {p : Pieces} {mark? : Option String} (hp : p.Plain mark?)
    (hsolid : ∀ c ∈ p.closures [] 0 .start, c.Solid) {closures : ClosureRegistry}
    (hclosures : ∀ id c, closures.get? id = some c → c ∈ p.closures [] 0 .start ∧ c.id = id)
    {filename : String} {code : Module} (hcode : Module.parse (p.code [] 0) filename = .ok code)
    {closure? : Option String} {x : Head}
    (hx : Traced.InText filename closures code (.statement closure?, x))
    (hblock : ∀ id ∈ closure?, IsBlock closures id) : ∃ spot, p.ComesFrom closure? x.span spot := by
  cases closure? with
  | none =>
    obtain ⟨s, hs, rfl⟩ := mem_map.1 hx
    obtain ⟨k, hk, hspan⟩ := Module.exists_take_of_parse hcode s hs
    exact ⟨_, k, hk, s.span_head.trans hspan, rfl⟩
  | some id =>
    obtain ⟨c, text, hget, hbody⟩ := hblock id rfl
    obtain ⟨hc, rfl⟩ := hclosures id c hget
    obtain ⟨b, hb, rfl⟩ := mem_map.1 (map_closure_blocks [] 0 .start p ▸ hc)
    have hplain := hp.blocks (by simp) (by decide) b hb
    have htext : text.toList = b.code := by
      rw [← hplain.text, Closure.text, hbody]
    obtain ⟨s, hs, rfl⟩ := mem_map.1 hx
    rw [closureBody, definition?, hget] at hs
    dsimp only at hs
    split at hs
    · next hparse =>
      obtain ⟨k, hk, hspan⟩ := exists_take_of_mem_body (isName_of_mem_closures hc) hplain.words
        hbody (hsolid _ hc) hparse s hs
      rw [htext] at hk hspan
      exact ⟨_, b, hb, rfl, k, hk, s.span_head.trans hspan, rfl⟩
    · cases hs

end Desugar.Pieces

/-- Every statement of a compiled program that stands in the code of the script or in a block comes
from a place of the script that lies as many lines further down as line breaks were cut out before
it. So the statement keeps its line exactly if none was. -/
theorem line_eq_iff_nothing_cut {source : List Char} {filename : String} {options : Options}
    {m : Module} (h : compile source filename options [] = .ok m)
    (hpreamble : (Text.trim options.preamble.toList).isEmpty = true)
    (hmark : ∀ mark ∈ options.localMark, '\n' ∉ mark.toList) :
    ∃ (d : Desugared) (p : Pieces), desugar ⟨source, filename, options.localMark, []⟩ = .ok d ∧
      p.Plain options.localMark ∧ p.source = source ∧ p.code [] 0 = d.code.toList ∧
      d.closures.values.Perm (p.closures [] 0 .start) ∧
      outlineAll m = (trace filename d.closures (d.program filename)).map Prod.snd ∧
      ∀ closure? x, (.statement closure?, x) ∈ trace filename d.closures (d.program filename) →
        (∀ id ∈ closure?, IsBlock d.closures id) →
        ∃ spot, p.ComesFrom closure? x.span spot ∧ spot.place.line = x.span.line + spot.cut ∧
          (x.span.line = spot.place.line ↔ spot.cut = 0) := by
  obtain ⟨d, hdesugar, hcompile⟩ := except_bind_ok h
  obtain ⟨p, t, -, hsource, hcode, -, hentries, hsorted, hsolid, hplain⟩ :=
    desugar_registry hdesugar
  obtain ⟨code, out, hparse, hinsert, rfl⟩ := exists_of_compile hcompile
  have hprogram : d.program filename = code := by
    rw [Desugared.program, hparse]
    rfl
  have hp := hplain rfl
  refine ⟨d, p, hdesugar, hp, hsource, hcode, ?_, ?_, fun closure? x hx hblock => ?_⟩
  · rw [hsorted, ← ClosureRegistry.values_of_entries hentries]
    exact (mergeSort_perm ..).map Prod.snd
  · rw [outline_compiled (named_of_desugar hdesugar) hinsert, preamble, if_pos hpreamble, hprogram]
    rfl
  · rw [hprogram] at hx
    have hclosures (id : String) (c : Closure) (hget : d.closures.get? id = some c) :=
      ClosureRegistry.mem_of_get? hentries (hsorted ▸ hget)
    obtain ⟨spot, hspot⟩ :=
      Pieces.exists_comesFrom hp hsolid hclosures (hcode ▸ hparse) (inText_trace _ hx) hblock
    have hline := hspot.line hmark hp
    exact ⟨spot, hspot, hline, by omega⟩

def blockThenCall : List Char := "foo \x7b\n  bar()\n\x7d\nbaz()\n".toList

/-- The call after the block tells line two. -/
theorem line_eq_iff_nothing_cut_blockThenCall :
    ∃ m d p spot, compile blockThenCall "lines" {} [] = .ok m ∧
      (∀ mark ∈ Options.localMark {}, '\n' ∉ mark.toList) ∧
      desugar ⟨blockThenCall, "lines", Options.localMark {}, []⟩ = .ok d ∧
      p.source = blockThenCall ∧ p.code [] 0 = d.code.toList ∧
      Pieces.ComesFrom p none ⟨2, 0⟩ spot ∧ spot.place.line = 2 + spot.cut := by
  have hrun : ((desugar ⟨blockThenCall, "lines", Options.localMark {}, []⟩).toOption.any fun d =>
      decide ((.statement none, ⟨⟨2, 0⟩, none, none⟩) ∈ trace "lines" d.closures
        (d.program "lines")) &&
        (compile blockThenCall "lines" {} []).toOption.any fun _ => true) = true := by
    decide +kernel
  obtain ⟨d, hd, hchecks⟩ := exists_desugar_of_any hrun
  simp only [Bool.and_eq_true, decide_eq_true_eq] at hchecks
  cases hm : compile blockThenCall "lines" {} [] with
  | error e =>
    rw [hm] at hchecks
    cases hchecks.2
  | ok m =>
    have hmark : ∀ mark ∈ Options.localMark {}, '\n' ∉ mark.toList := by
      rintro _ ⟨⟩
      decide
    obtain ⟨d', p, hd', -, hsource, hcode, -, -, hlines⟩ :=
      line_eq_iff_nothing_cut hm (by decide) hmark
    obtain rfl := Except.ok.inj (hd.symm.trans hd')
    obtain ⟨spot, hspot, hline, -⟩ := hlines none _ hchecks.1 nofun
    exact ⟨m, d, p, spot, rfl, hmark, hd, hsource, hcode, hspot, hline⟩

/-- The call after a block on three lines stands on line four of the script and on line two of the
program. -/
theorem line_lost_blockThenCall : ∃ m, compile blockThenCall "lines" {} [] = .ok m ∧
      (outlineAll m).map Head.span = [⟨1, 0⟩, ⟨2, 2⟩, ⟨1, 0⟩, ⟨2, 0⟩] ∧
      ∃ before, blockThenCall = before ++ "baz()\n".toList ∧
        (Position.start.advance before).line = 4 := by
  have hrun : ((compile blockThenCall "lines" {} []).toOption.any fun m =>
      (outlineAll m).map Head.span == [⟨1, 0⟩, ⟨2, 2⟩, ⟨1, 0⟩, ⟨2, 0⟩]) = true := by
    decide +kernel
  cases hm : compile blockThenCall "lines" {} [] with
  | error e =>
    rw [hm] at hrun
    cases hrun
  | ok m =>
    rw [hm] at hrun
    exact ⟨m, rfl, beq_iff_eq.1 hrun, "foo \x7b\n  bar()\n\x7d\n".toList, rfl, by decide⟩

end BlockScript
