import BlockScript.Proofs.Orphans

/-! Where the code of a script comes from. Every character of the code, and of the text of a
closure, has a place in the script. Line breaks are copied, except those of closures, which are cut
out with them: so the lines of the code fall behind those of the script by the line breaks that were
cut out before. -/

namespace BlockScript

open List

namespace Desugar

/-- A place of a script, and the number of line breaks before it that were cut out. -/
structure Spot where
  place : Position
  cut : Nat

def Spot.past (spot : Spot) (text : List Char) : Spot := ⟨spot.place.advance text, spot.cut⟩

variable {stack : List String} {p : Pieces}

namespace Pieces

def cut : Pieces → Nat
  | done => 0
  | copied _ rest | replaced _ _ rest => rest.cut
  | call _ arguments rest => arguments.cut + rest.cut
  | closure opening _ _ _ body rest => opening.count '\n' + body.source.count '\n' + rest.cut

def after (spot : Spot) (p : Pieces) : Spot := ⟨spot.place.advance p.source, spot.cut + p.cut⟩

/-- Where the code goes on after its first `k` characters, for pieces that start at `start`. Code
that is written for some text stands where that text starts. -/
def spot (stack : List String) : Nat → Spot → Pieces → Nat → Spot
  | _, start, done, _ => start
  | n, start, copied text rest, k =>
    if k < text.length then start.past (text.take k)
    else rest.spot stack n (start.past text) (k - text.length)
  | n, start, replaced text code rest, k =>
    if k < code.length then start else rest.spot stack n (start.past text) (k - code.length)
  | n, start, call blanks arguments rest, k =>
    let inner := (arguments.code stack n).length
    if k = 0 then start
    else if k ≤ inner + 1 then arguments.spot stack n (start.past blanks) (k - 1)
    else rest.spot stack (n + arguments.count) (arguments.after (start.past blanks))
      (k - (inner + 2))
  | n, start, closure opening h parameters braced body rest, k =>
    let id := (closureId stack n).toList
    if k < id.length then start
    else rest.spot stack (n + (body.count + 1))
      ((closure opening h parameters braced body done).after start)
      (k - id.length)

theorem count_closureId (hstack : ∀ id ∈ stack, ∀ c ∈ id.toList, Token.isWord c = true) (n : Nat) :
    (closureId stack n).toList.count '\n' = 0 := by
  rw [count_eq_zero]
  intro h
  have := isWord_closureId hstack n _ h
  revert this
  decide

variable {mark? : Option String} (hmark : ∀ mark ∈ mark?, '\n' ∉ mark.toList)

include hmark

theorem Plain.count_source (hp : p.Plain mark?)
    (hstack : ∀ id ∈ stack, ∀ c ∈ id.toList, Token.isWord c = true) (n : Nat) :
    p.source.count '\n' = (p.code stack n).count '\n' + p.cut := by
  induction p generalizing n with
  | done => rfl
  | copied text rest ih =>
    simp only [source, code, cut, List.count_append, ih hp n]
    omega
  | replaced text written rest ih =>
    obtain ⟨⟨htext, mark, hmem, hlead⟩, hrest⟩ := hp
    have hwritten : '\n' ∉ written := fun h => hmark mark hmem (hlead.mem h)
    simp only [source, code, cut, List.count_append, ih hrest n, count_eq_zero.2 htext,
      count_eq_zero.2 hwritten]
    omega
  | call blanks arguments rest iha ih =>
    obtain ⟨hblanks, harguments, hrest⟩ := hp
    simp only [source, code, cut, List.count_append, iha harguments n,
      ih hrest (n + arguments.count), count_eq_zero.2 hblanks, count_cons]
    simp
    omega
  | closure opening h parameters braced body rest _ ih =>
    have hclosing : (closing braced).count '\n' = 0 := by cases braced <;> decide
    simp only [source, code, cut, List.count_append, ih hp.2.2 (n + (body.count + 1)),
      count_closureId hstack n, hclosing]
    omega

theorem Plain.line_spot (hp : p.Plain mark?)
    (hstack : ∀ id ∈ stack, ∀ c ∈ id.toList, Token.isWord c = true) (n : Nat)
    (start : Spot) {k : Nat}
    (hk : k ≤ (p.code stack n).length) : (p.spot stack n start k).place.line + start.cut =
      start.place.line + ((p.code stack n).take k).count '\n' + (p.spot stack n start k).cut := by
  induction p generalizing n start k with
  | done => simp [spot, code]
  | copied text rest ih =>
    rw [code, length_append] at hk
    rw [spot, code]
    split
    · next hlt =>
      rw [take_append_of_le_length (Nat.le_of_lt hlt)]
      simp [Spot.past, Position.line_advance]
    · next hge =>
      have := ih hp n (start.past text) (k := k - text.length) (by omega)
      rw [take_append, take_of_length_le (by omega), List.count_append]
      simp only [Spot.past, Position.line_advance] at this ⊢
      omega
  | replaced text written rest ih =>
    obtain ⟨⟨htext, mark, hmem, hlead⟩, hrest⟩ := hp
    have hwritten : '\n' ∉ written := fun h => hmark mark hmem (hlead.mem h)
    rw [code, length_append] at hk
    rw [spot, code]
    split
    · next hlt =>
      rw [take_append_of_le_length (Nat.le_of_lt hlt), count_eq_zero.2 fun h =>
        hwritten (mem_of_mem_take h)]
      omega
    · next hge =>
      have := ih hrest n (start.past text) (k := k - written.length) (by omega)
      rw [take_append, take_of_length_le (by omega), List.count_append, count_eq_zero.2 hwritten]
      simp only [Spot.past, Position.line_advance, count_eq_zero.2 htext] at this ⊢
      omega
  | call blanks arguments rest iha ih =>
    obtain ⟨hblanks, harguments, hrest⟩ := hp
    have hsource := harguments.count_source hmark hstack n
    rw [code, length_cons, length_append, length_cons] at hk
    rw [spot, code]
    split
    · next hzero => simp [hzero]
    obtain ⟨k, rfl⟩ := Nat.exists_eq_succ_of_ne_zero ‹_›
    rw [Nat.succ_eq_add_one, take_succ_cons, count_cons_of_ne (by decide)]
    split
    · next hin =>
      have := iha harguments n (start.past blanks) (k := k) (by omega)
      rw [take_append_of_le_length (by omega), Nat.add_sub_cancel]
      simp only [Spot.past, Position.line_advance, count_eq_zero.2 hblanks] at this ⊢
      omega
    · next hout =>
      have := ih hrest (n + arguments.count) (arguments.after (start.past blanks))
        (k := k + 1 - ((arguments.code stack n).length + 2)) (by omega)
      obtain ⟨j, rfl⟩ : ∃ j, k = (arguments.code stack n).length + (j + 1) :=
        ⟨k - (arguments.code stack n).length - 1, by omega⟩
      rw [take_length_add_append, take_succ_cons, List.count_append, count_cons_of_ne (by decide)]
      have hj : (arguments.code stack n).length + (j + 1) +
          1 - ((arguments.code stack n).length + 2) = j := by
        omega
      rw [hj] at this ⊢
      simp only [after, Spot.past, Position.line_advance, count_eq_zero.2 hblanks] at this ⊢
      omega
  | closure opening h parameters braced body rest _ ih =>
    have hid := count_closureId hstack n
    have hclosing : (closing braced).count '\n' = 0 := by cases braced <;> decide
    rw [code, length_append] at hk
    rw [spot, code]
    split
    · next hlt =>
      rw [take_append_of_le_length (Nat.le_of_lt hlt),
        count_eq_zero.2 fun h => count_eq_zero.1 hid (mem_of_mem_take h)]
      omega
    · next hge =>
      have := ih hp.2.2 (n + (body.count + 1))
        ((closure opening h parameters braced body done).after start)
        (k := k - (closureId stack n).toList.length) (by omega)
      rw [take_append, take_of_length_le (by omega), List.count_append, hid]
      simp only [after, source, cut, Position.line_advance, List.count_append,
        hclosing, append_nil] at this ⊢
      omega

end Pieces

/-! ## Bodies of closures -/

/-- A closure of a script with the pieces of its body: the ids that are around the body, the number
of closures complete before it, and the place where it starts. -/
structure Block where
  closure : Closure
  stack : List String
  number : Nat
  start : Position
  body : Pieces

variable {mark? : Option String}

namespace Block

def code (b : Block) : List Char := b.body.code b.stack b.number

/-- Where the text goes on after its first `k` characters. The text counts lines from that of the
header, so line breaks in the header are lost. -/
def spot (b : Block) (k : Nat) : Spot :=
  b.body.spot b.stack b.number ⟨b.start, b.start.line - b.closure.line⟩ k

/-- What holds of the closures of a script without plugins. -/
structure Plain (mark? : Option String) (b : Block) : Prop where
  text : b.closure.text.toList = b.code
  body : b.body.Plain mark?
  words : ∀ names ∈ b.closure.parameters, ∀ name ∈ names, Token.IsWord name.toList
  stack : ∀ id ∈ b.stack, ∀ c ∈ id.toList, Token.isWord c = true
  line : b.closure.line ≤ b.start.line
  positive : 0 < b.closure.line

theorem Plain.line_spot (hmark : ∀ mark ∈ mark?, '\n' ∉ mark.toList)
    {b : Block} (hb : b.Plain mark?) {k : Nat} (hk : k ≤ b.code.length) :
    (b.spot k).place.line = b.closure.line + (b.code.take k).count '\n' + (b.spot k).cut := by
  have := hb.body.line_spot hmark hb.stack b.number ⟨b.start, b.start.line - b.closure.line⟩ hk
  have hline := hb.line
  simp only [spot, code] at this ⊢
  omega

end Block

namespace Pieces

/-- The closures in the order in which they are complete, for pieces that start at `pos`. -/
def blocks (stack : List String) : Nat → Position → Pieces → List Block
  | _, _, done => []
  | n, pos, copied text rest | n, pos, replaced text _ rest =>
    rest.blocks stack n (pos.advance text)
  | n, pos, call blanks arguments rest =>
    arguments.blocks stack n (pos.advance blanks) ++
      rest.blocks stack (n + arguments.count) ((pos.advance blanks).advance arguments.source)
  | n, pos, closure opening _ parameters braced body rest =>
    let id := closureId stack n
    let inside := pos.advance opening
    body.blocks (id :: stack) n inside ++
      ⟨⟨id, pos.line, pos.column, parameters, Pieces.body braced (body.code (id :: stack) n)⟩,
        id :: stack, n, inside, body⟩ ::
        rest.blocks stack (n + (body.count + 1))
          ((inside.advance body.source).advance (closing braced))

theorem map_closure_blocks (stack : List String) (n : Nat) (pos : Position) (p : Pieces) :
    (p.blocks stack n pos).map Block.closure = p.closures stack n pos := by
  induction p generalizing stack n pos with
  | done => rfl
  | copied _ _ ih | replaced _ _ _ ih => exact ih ..
  | call _ _ _ iha ih => simp only [blocks, closures, map_append, iha, ih]
  | closure _ _ _ _ _ _ ihb ih =>
    simp only [blocks, closures, map_append, map_cons, ihb, ih]

theorem Plain.blocks (hp : p.Plain mark?)
    (hstack : ∀ id ∈ stack, ∀ c ∈ id.toList, Token.isWord c = true) {n : Nat} {pos : Position}
    (hpos : 0 < pos.line) : ∀ b ∈ p.blocks stack n pos, b.Plain mark? := by
  have hadvance {pos : Position} (hpos : 0 < pos.line) (text : List Char) :
      0 < (pos.advance text).line := by
    rw [Position.line_advance]
    omega
  induction p generalizing stack n pos with
  | done => exact nofun
  | copied text _ ih => exact ih hp hstack (hadvance hpos text)
  | replaced text _ _ ih => exact ih hp.2 hstack (hadvance hpos text)
  | call blanks arguments _ iha ih =>
    rw [Pieces.blocks, forall_mem_append]
    exact ⟨iha hp.2.1 hstack (hadvance hpos _), ih hp.2.2 hstack (hadvance (hadvance hpos _) _)⟩
  | closure opening _ parameters braced body _ ihb ih =>
    have hid : ∀ id ∈ closureId stack n :: stack, ∀ c ∈ id.toList, Token.isWord c = true :=
      forall_mem_cons.2 ⟨isWord_closureId hstack n, hstack⟩
    rw [Pieces.blocks, forall_mem_append, forall_mem_cons]
    refine ⟨ihb hp.2.1 hid (hadvance hpos _), ?_,
      ih hp.2.2 hstack (hadvance (hadvance (hadvance hpos _) _) _)⟩
    exact {
      text := by cases braced <;> simp [Closure.text, Pieces.body, Block.code]
      body := hp.2.1
      words := hp.1
      stack := hid
      line := by rw [Position.line_advance]; exact Nat.le_add_right ..
      positive := hpos }

end Pieces

end Desugar

end BlockScript
