import BlockScript.Proofs.RoundTrip.Fields
import BlockScript.Proofs.RoundTrip.Operators
import BlockScript.Proofs.RoundTrip.Trailers

/-! Every expression that can be written is read back, and so are lines and blocks. A statement is
printed at the indentation of its block; after it comes another statement of the block, a line of an
outer block, or nothing. -/

namespace BlockScript.Program

open Parse List

theorem Expr.Valid.readable [View] {e : Expr} (h : e.Valid) (hkept : e.Kept) : Readable e := by
  induction h with
  | @intro e shape _ ih =>
    replace ih : ∀ x ∈ e.operands, Readable x := fun x hx => ih x hx (hkept.operand hx)
    have hread := hkept.isRead
    cases e with
    | constant s value =>
      cases value with
      | float f =>
        rw [IsRead] at hread
        split at hread
        · exact readable_number (fun _ => hread.2) hread.1
        · next hliterals => exact readable_number (fun h => absurd h hliterals) hread
      | _ => exact readable_constant shape fun _ h => by cases h
    | fstring s parts => exact readable_fstring hread shape ih
    | name s id => exact readable_name shape
    | list s items => exact readable_list ih
    | tuple s items => exact readable_tuple ih
    | dict s entries =>
      exact readable_dict fun e he x hx => ih x (mem_flatMap.2 ⟨e, he, hx⟩)
    | comprehension s element clauses =>
      refine readable_comprehension (ih element mem_cons_self) (fun c hc x hx => ?_) shape.1 shape.2
      exact ih x (mem_cons_of_mem _ (mem_flatMap.2 ⟨c, hc, hx⟩))
    | «attribute» s object id =>
      refine readable_attribute (ih object mem_cons_self) shape ?_
      unfold isInteger
      split
      · simp [IsRead, IsRecovered, isLost, isMisprinted] at hread
      · rfl
    | subscript s object index =>
      exact readable_subscript (ih object mem_cons_self) (fun x hx =>
        ih x (mem_cons_of_mem _ hx)) (by
          rintro s' t lower upper step rfl
          simp [IsRead, IsRecovered, isLost, isMisprinted] at hread)
    | slice s lower upper step => exact shape.elim
    | call s callee args =>
      refine readable_call (ih callee mem_cons_self) (fun a ha => ?_) shape
      exact ih a.value (mem_cons_of_mem _ (mem_map_of_mem ha))
    | unary s op operand =>
      have hoperand := ih operand mem_cons_self
      by_cases hop : op = .not
      · exact hop ▸ readable_not hoperand
      · exact readable_unary hoperand hop
    | binary s op left right =>
      have hleft := ih left (by simp [operands, children])
      have hright := ih right (by simp [operands, children])
      by_cases hop : op = .pow
      · exact hop ▸ readable_power hleft hright
      · exact readable_binary hleft hright hop
    | compare s first rest =>
      refine readable_compare (ih first mem_cons_self) (fun c hc => ?_) shape
      exact ih c.right (mem_cons_of_mem _ (mem_map_of_mem hc))
    | logical s op left right =>
      exact readable_logical (ih left (by simp [operands, children]))
        (ih right (by simp [operands, children]))
    | ternary s test body orelse =>
      exact readable_ternary (ih test (by simp [operands, children]))
        (ih body (by simp [operands, children])) (ih orelse (by simp [operands, children]))

/-! ## Lines and blocks -/

open Token List

variable {k : Nat} {ss : List Stmt}

namespace Print

theorem mem_indentation {c : Char} (h : c ∈ (indentation k).toList) : c = ' ' := by
  induction k with
  | zero => simp [indentation] at h
  | succ k ih =>
    rw [indentation, String.toList_append, mem_append] at h
    rcases h with h | h
    · have hblanks : ∀ c ∈ "    ".toList, c = ' ' := by decide
      exact hblanks c h
    · exact ih h

theorem utf8ByteSize_indentation (k : Nat) : (indentation k).utf8ByteSize = 4 * k := by
  induction k with
  | zero => rfl
  | succ k ih =>
    have hblanks : "    ".utf8ByteSize = 4 := rfl
    rw [indentation, String.utf8ByteSize_append, ih, hblanks]
    omega

theorem toList_line (k : Nat) (text : String) :
    (line k text).toList = (indentation k).toList ++ (text.toList ++ ['\n']) := by
  rw [line, String.toList_append, String.toList_append, append_assoc]
  rfl

theorem toList_stmts (k : Nat) (ss : List Stmt) :
    (stmts k ss).toList = ss.flatMap fun s => (stmt k s).toList := by
  induction ss with
  | nil => rw [stmts]; rfl
  | cons s ss ih => rw [stmts, String.toList_append, ih, flatMap_cons]

theorem toList_block (h : ss ≠ []) : (block k ss).toList = ss.flatMap fun s =>
    (stmt k s).toList := by
  obtain ⟨s, ss, rfl⟩ := exists_cons_of_ne_nil h
  rw [block, String.toList_append, toList_stmts, flatMap_cons]

end Print

theorem AheadLine.indentation {text : List Char} {s : List Token}
    (h : AheadLine ((Print.indentation k).toList ++ text) s) (htext : Starts text) :
    Next .indent (Print.indentation k) (Ahead 0 text) s := by
  have hblanks : ∀ c ∈ (Print.indentation k).toList, (c == ' ' || c == '\t') = true :=
    fun c hc => by
    rw [Print.mem_indentation hc]
    rfl
  obtain ⟨pos, s', rfl, hs'⟩ := h.indent hblanks htext
  exact ⟨pos, s', by rw [String.ofList_toList], hs'⟩

namespace Parse

variable {src : Source} {n m b k : Nat} {rest : List Char} {s : List Token}

/-! ## What follows a statement -/

def clauseWords : List String := ["elif", "else", "except", "finally"]

def NotClause (t : Token) : Prop := ∀ w ∈ clauseWords, t.isName w = false

/-- A text that comes after a block of depth `k`: nothing, or a line of an outer block. -/
inductive EndsBlock (k : Nat) : List Char → Prop where
  | nil : EndsBlock k []
  | line {j : Nat} {text : List Char} (depth : j < k) (starts : Starts text) :
    EndsBlock k ((Print.indentation j).toList ++ text)

/-- A text that comes after a statement of depth `k`. -/
inductive Continues (k : Nat) : List Char → Prop where
  | ends {rest : List Char} (h : EndsBlock k rest) : Continues k rest
  | stmt {text : List Char} (starts : Starts text) (notClause : ∀ ⦃s⦄, Ahead 0 text s →
      First NotClause s) :
    Continues k ((Print.indentation k).toList ++ text)

theorem Continues.endsBlock (h : Continues k rest) : EndsBlock (k + 1) rest := by
  cases h with
  | ends h =>
    cases h with
    | nil => exact .nil
    | line depth starts => exact .line (Nat.lt_succ_of_lt depth) starts
  | stmt starts _ => exact .line (Nat.lt_succ_self k) starts

@[simp] theorem run_isAtClause (w : Nat) (word : String) (j : Nat) (pos : Position) (t : Token)
    (s : List Token) : isAtClause w word (⟨.indent, Print.indentation j, pos⟩ :: t :: s) =
      .ok (4 * j == w && t.isName word) (⟨.indent, Print.indentation j, pos⟩ :: t :: s) := by
  simp [isAtClause, width, Print.utf8ByteSize_indentation]

theorem Continues.isAtClause {word : String} (h : Continues k rest) (hs : AheadLine rest s)
    (hword : word ∈ clauseWords) : isAtClause (4 * k) word s = .ok false s := by
  cases h with
  | ends h =>
    cases h with
    | nil =>
      obtain ⟨pos, rfl⟩ := hs.nil
      simp [Parse.isAtClause]
    | @line j _ depth starts =>
      obtain ⟨pos, s', rfl, hs'⟩ := hs.indentation starts
      have hwidth : ¬ 4 * j = 4 * k := by omega
      simp [Parse.isAtClause, width, Print.utf8ByteSize_indentation, hwidth]
  | stmt starts notClause =>
    obtain ⟨pos, s', rfl, hs'⟩ := hs.indentation starts
    obtain ⟨t, s', rfl, ht⟩ := notClause hs'
    simp [ht word hword]

theorem EndsBlock.parseBlockLine {rules : Rules} {blocks : Blocks} (h : EndsBlock k rest)
    (hs : AheadLine rest s) : parseBlockLine src rules blocks (4 * k) s = .ok none s := by
  cases h with
  | nil =>
    obtain ⟨pos, rfl⟩ := hs.nil
    simp [Parse.parseBlockLine]
  | @line j _ depth starts =>
    obtain ⟨pos, s', rfl, hs'⟩ := hs.indentation starts
    have hwidth : 4 * j < 4 * k := by omega
    simp [Parse.parseBlockLine, width, Print.utf8ByteSize_indentation, hwidth]

variable [View] {stmt : Stmt}

/-! ## Statements in their place -/

def conditionalText (k : Nat) (test : Expr) (body orelse : List Stmt) : List Char :=
  ' ' :: ((Print.expr 1 test).toList ++ (":\n".toList ++
    ((Print.block (k + 1) body).toList ++ (Print.elseBranch k orelse).toList)))

structure StmtText (k : Nat) (text : List Char) (stmt : Stmt) : Prop where
  starts : Starts text
  notClause : ∀ rest ⦃s⦄, Ahead 0 (text ++ rest) s → First NotClause s
  reads : ∀ src n b ⦃m rest⦄, 4 * m + 8 ≤ n → m ≤ b → Continues k rest →
    Takes m 1 (Ahead 0 (text ++ rest))
    (parseStatement src (.ofDepth n src) (.ofDepth src (.ofDepth n src) b) (4 * k))
    (·.map Stmt.viewed = [stmt.viewed]) (AheadLine rest)

/-- The text of the statement is read at every depth. A condition is read after the keyword `elif`
as well. -/
structure StmtReadable (stmt : Stmt) : Prop where
  own : ∀ k, ∃ text, (Print.stmt k stmt).toList = (Print.indentation k).toList ++ text ∧
    StmtText k text stmt
  conditional : ∀ span test body orelse, stmt = .ifElse span test body orelse →
    ∀ k src n b ⦃m rest⦄, 4 * m + 8 ≤ n → m ≤ b → Continues k rest →
      Takes m 1 (Next .name "elif" (Ahead 0 (conditionalText k test body orelse ++ rest)))
        (parseConditional src (.ofDepth n src) (.ofDepth src (.ofDepth n src) b) (4 * k))
        (·.viewed = stmt.viewed) (AheadLine rest)

theorem StmtReadable.continues (h : StmtReadable stmt) :
    Continues k ((Print.stmt k stmt).toList ++ rest) := by
  obtain ⟨text, htext, hread⟩ := h.own k
  rw [htext, append_assoc]
  exact .stmt (hread.starts.append rest) (hread.notClause rest)

theorem StmtReadable.line (h : StmtReadable stmt) (src : Source)
    {item : Parsing (Option (List Stmt))}
    (hitem : ∀ pos s, item (⟨.indent, Print.indentation k, pos⟩ :: s) =
      (do return some (← parseStatement
      src (.ofDepth n src) (.ofDepth src (.ofDepth n src) b) (4 * k))) s) (hn : 4 * m + 8 ≤ n)
      (hb : m ≤ b)
    (hrest : Continues k rest) : Takes m 1 (AheadLine ((Print.stmt k stmt).toList ++ rest)) item
      (fun r => ∃ ss, r = some ss ∧ ss.map Stmt.viewed = [stmt.viewed]) (AheadLine rest) := by
  obtain ⟨text, htext, hread⟩ := h.own k
  rw [htext, append_assoc]
  exact .skip (fun s hs => hs.indentation (hread.starts.append rest))
    (fun pos s _ => hitem pos s) fun _ =>
    (hread.reads src n b hn hb hrest).bind fun ss hss => .pure ⟨ss, rfl, hss⟩

theorem flatten_map_viewed {sss : List (List Stmt)}
    (h : sss.map (List.map Stmt.viewed) = ss.map fun s => [s.viewed]) :
    sss.flatten.map Stmt.viewed = ss.map Stmt.viewed := by
  rw [map_flatten, h, ← flatMap_def, map_eq_flatMap]

theorem takes_suite (src : Source) {body : List Stmt} (hne : body ≠ [])
    (hbody : ∀ stmt ∈ body, StmtReadable stmt) (hn : 4 * m + 8 ≤ n) (hb : m < b)
    (hrest : EndsBlock (k + 1) rest) :
    Takes m 0 (Ahead 0 ('\n' :: ((Print.block (k + 1) body).toList ++ rest)))
      ((Blocks.ofDepth src (.ofDepth n src) b).suite (4 * k)) (·.map Stmt.viewed =
        body.map Stmt.viewed)
      (AheadLine rest) := by
  obtain ⟨b, rfl⟩ : ∃ j, b = j + 1 := ⟨b - 1, by omega⟩
  rw [Print.toList_block hne]
  refine .skip (q := fun _ => do
      return (← many (parseBlockLine src (.ofDepth n src) (.ofDepth src (.ofDepth n src) b)
        (4 * (k + 1)))).flatten)
    (fun s hs => hs.lineEnd) (fun pos s hs => ?_) fun _ => ?_
  · change parseSuite _ _ _ _ _ = _
    obtain ⟨_, pos', s', rfl, -⟩ : ∃ mid, Next .indent (Print.indentation (k + 1)) mid s := by
      obtain ⟨stmt, ss, rfl⟩ := exists_cons_of_ne_nil hne
      obtain ⟨text, htext, hread⟩ := (hbody stmt mem_cons_self).own (k + 1)
      rw [flatMap_cons, htext, append_assoc, append_assoc] at hs
      exact ⟨_, hs.indentation (hread.starts.append _)⟩
    have hdeeper : ¬ 4 * (k + 1) ≤ 4 * k := by omega
    simp [parseSuite, width, Print.utf8ByteSize_indentation, hdeeper]
  · refine (Takes.many (Continues (k + 1)) (fun stmt hstmt rest hfollow => ?_)
      (fun stmt hstmt rest => (hbody stmt hstmt).continues) (.ends hrest)
      fun s hs => hrest.parseBlockLine hs).last fun sss hsss => .pure (flatten_map_viewed hsss)
    refine (hbody stmt hstmt).line src (fun _ _ => ?_) hn (b := b) (by omega) hfollow
    simp [parseBlockLine, width, Print.utf8ByteSize_indentation]

end Parse

end BlockScript.Program
