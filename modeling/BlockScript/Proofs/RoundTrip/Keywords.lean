import BlockScript.Proofs.RoundTrip.Simple

/-! Statements of one line that start with a keyword. -/

namespace BlockScript.Program.Parse

open Token List

variable {α : Type} {src : Source} {n m d : Nat} {e : Expr} {rest : List Char}

variable [View]

/-! ## Words alone -/

theorem stmtReadable_word {stmt : Stmt} {f : Span → Stmt} (w : String) (hw : w ∈ lineWords)
    (hstmt : ∀ span test body orelse, stmt ≠ .ifElse span test body orelse)
    (htext : ∀ k, Print.stmt k stmt = Print.line k w)
    (hrun : ∀ src rules pos s, parseSimple src rules (⟨.name, w, pos⟩ :: s) =
      .ok (f (.ofPosition pos)) s)
    (hf : ∀ span, (f span).viewed = stmt.viewed) : StmtReadable stmt :=
  .of_word w "" (q := fun _ _ span => pure (f span)) hw hstmt
    (fun k => by rw [htext, String.append_empty])
    nofun hrun
    fun _ _ _ _ span _ => .pure (hf span)

variable {span : Span} {value : Option Expr} {names : List String}

theorem stmtReadable_pass : StmtReadable (.pass span) :=
  stmtReadable_word (f := .pass) "pass" (by decide) nofun (fun _ => by rw [Print.stmt])
    (fun _ _ _ _ => by simp [parseSimple]) fun _ => rfl

theorem stmtReadable_breakLoop : StmtReadable (.breakLoop span) :=
  stmtReadable_word (f := .breakLoop) "break" (by decide) nofun (fun _ => by rw [Print.stmt])
    (fun _ _ _ _ => by simp [parseSimple]) fun _ => rfl

theorem stmtReadable_continueLoop : StmtReadable (.continueLoop span) :=
  stmtReadable_word (f := .continueLoop) "continue" (by decide) nofun (fun _ => by rw [Print.stmt])
    (fun _ _ _ _ => by simp [parseSimple]) fun _ => rfl

/-! ## Words with an expression -/

def valueText : Option Expr → String
  | none => ""
  | some e => " " ++ Print.expr 0 e

omit [View] in
theorem keywordWith_eq (w : String) (value : Option Expr) :
    Print.keywordWith w value = w ++ valueText value := by
  cases value with
  | none => rw [Print.keywordWith, valueText, String.append_empty]
  | some e => rw [Print.keywordWith, valueText, String.append_assoc]

omit [View] in
theorem bounds_valueText (value : Option Expr) :
    ∀ c ∈ (valueText value).toList.head?, isBoundary c = true := by
  cases value with
  | none => decide
  | some e =>
    rw [valueText, String.toList_append]
    rintro _ ⟨⟩
    rfl

theorem value_opens (h : ∀ e ∈ value, Readable e) ⦃s : List Token⦄
    (hs : Ahead 0 ((valueText value).toList ++ '\n' :: rest) s) :
    First (·.isName "from" = false) s := by
  cases value with
  | none => exact .of_next (Ahead.lineEnd hs) fun _ => rfl
  | some e =>
    rw [valueText, String.toList_append, append_assoc, Print.expr_zero] at hs
    exact ((h e rfl).whole.opens (follow_newline (P := fun _ => True) fun _ => trivial).bounds
      (Ahead.blank hs)).notAtWord fun _ => rfl

theorem takes_value (src : Source) (h : ∀ e ∈ value, Readable e) (hn : 4 * m + 5 ≤ n) :
    Takes m 0 (Ahead 0 ((valueText value).toList ++ '\n' :: rest))
      (parseOptionalList (.ofDepth n src))
      (·.map Expr.viewed = value.map Expr.viewed) (Ahead 0 ('\n' :: rest)) := by
  cases value with
  | none =>
    refine .congr (q := pure none) (fun s hs => ?_) (.pure rfl)
    obtain ⟨pos, s', rfl, -⟩ := Ahead.lineEnd hs
    simp [parseOptionalList, isAtLineEnd, Token.isControl]
  | some e =>
    rw [valueText, String.toList_append, append_assoc]
    refine .of (fun s hs => Ahead.blank hs) (.congr (q := do
      return some (← parseExprList (.ofDepth n src)))
      (fun s hs => ?_) (((h e rfl).list src hn endsList_newline).bind fun e' he' =>
        .pure (by simp [he'])))
    rw [Print.expr_zero] at hs
    obtain ⟨t, s, rfl, ht⟩ := ((h e rfl).whole.opens endsList_newline.bounds hs).first
    have hsemi : t.isControl ";" = false := not_isControl_of_opens ht fun _ => rfl
    have hkind : t.kind ≠ .newline ∧ t.isEof = false := by
      obtain ⟨kind, text, pos⟩ := t
      cases kind <;> first | exact absurd ht Bool.false_ne_true | exact ⟨by simp, rfl⟩
    simp [parseOptionalList, isAtLineEnd, hkind, hsemi]

theorem stmtReadable_returns (h : ∀ e ∈ value, Readable e) : StmtReadable (.returns span value) :=
  .of_word "return" (valueText value)
    (q := fun _ rules span => do return .returns span (← parseOptionalList rules))
    (by decide) nofun (fun k => by rw [Print.stmt, keywordWith_eq]) (bounds_valueText value)
    (fun _ _ _ _ => by simp [parseSimple])
    fun src _ _ _ _ hn => (takes_value src h (by omega)).last fun _ hvalue =>
    .pure (by simp [hvalue])

theorem stmtReadable_raises (h : ∀ e ∈ value, Readable e) : StmtReadable (.raises span value) := by
  refine .of_word "raise" (valueText value) (q := fun _ rules span => do
      let value ← parseOptionalList rules
      if value.isSome then
        if ← eatWord "from" then
          let _ ← rules.expr
      return .raises span value) (by decide) nofun (fun k => by rw [Print.stmt, keywordWith_eq])
    (bounds_valueText value) (fun _ _ _ _ => by simp [parseSimple]) fun src n m rest span' hn => ?_
  refine (takes_value src h (by omega)).last fun value' hvalue => ?_
  have hresult : (Stmt.raises span' value').viewed =
      (Stmt.raises span value).viewed := by simp [hvalue]
  cases value' with
  | none => exact .pure hresult
  | some e => exact .notEatWord (fun _ hs => .of_next hs.lineEnd fun _ => rfl) (.pure hresult)

theorem stmtReadable_yields (h : ∀ e ∈ value, Readable e) : StmtReadable (.yields span value) :=
  .of_word "yield" (valueText value) (q := fun _ rules span => do
      if ← eatWord "from" then return .yieldsFrom span (← rules.expr)
      return .yields span (← parseOptionalList rules)) (by decide) nofun
    (fun k => by rw [Print.stmt, keywordWith_eq]) (bounds_valueText value)
      (fun _ _ _ _ => by simp [parseSimple])
    fun src _ _ _ _ hn => .notEatWord (value_opens h)
      ((takes_value src h (by omega)).last fun _ hvalue => .pure (by simp [hvalue]))

theorem stmtReadable_yieldsFrom (h : Readable e) : StmtReadable (.yieldsFrom span e) := by
  have hmore (rest : List Char) : (" from " ++ Print.expr 0 e).toList ++ '\n' :: rest =
      ' ' :: ("from".toList ++ ' ' :: ((Print.expr 1 e).toList ++ '\n' :: rest)) := by
    rw [Print.expr_zero, String.toList_append, append_assoc]
    rfl
  refine .of_word "yield" (" from " ++ Print.expr 0 e) (q := fun _ rules span => do
      if ← eatWord "from" then return .yieldsFrom span (← rules.expr)
      return .yields span (← parseOptionalList rules)) (by decide) nofun
    (fun _ => by rw [Print.stmt]; simp only [← String.append_assoc]; rfl) (by simp [isBoundary])
    (fun _ _ _ _ => by simp [parseSimple]) fun src n m rest span' hn => ?_
  rw [hmore]
  refine .eatWord (fun _ hs => hs.spacedWord (by decide)) ((h.whole.expr src (by omega)
    (follow_newline fun _ => Nat.zero_lt_one)).bind fun e' he' => .pure (by simp [he']))

def messageText : Option Expr → String
  | none => ""
  | some e => ", " ++ Print.expr 1 e

theorem stmtReadable_asserts {test : Expr} {message : Option Expr} (htest : Readable test)
    (hmessage : ∀ e ∈ message, Readable e) : StmtReadable (.asserts span test message) := by
  refine .of_word "assert" (" " ++ Print.expr 1 test ++ messageText message)
    (q := fun _ rules span => do
      let test ← rules.expr
      let message ← if ← eat "," then pure (some (← rules.expr)) else pure none
      return .asserts span test message) (by decide) nofun (fun k => ?_) (by simp [isBoundary])
    (fun _ _ _ _ => by simp [parseSimple]) fun src n m rest span' hn => ?_
  · cases message <;> rw [Print.stmt, messageText] <;>
      simp only [← String.append_assoc, String.append_empty] <;> rfl
  · have hnewline : Follow (binding · < 1) 0 ('\n' :: rest) :=
      follow_newline fun _ => Nat.zero_lt_one
    simp only [String.toList_append, append_assoc]
    refine .of (fun s hs => Ahead.blank hs) ?_
    cases message with
    | none =>
      refine (htest.whole.expr src (by omega) hnewline).bind fun e' he' => ?_
      exact .notEat (fun _ hs => .of_next hs.lineEnd fun _ => rfl) (.val (.pure (by simp [he'])))
    | some e =>
      rw [messageText, String.toList_append, append_assoc]
      refine (htest.whole.expr src (by omega) (follow_comma fun _ => Nat.zero_lt_one)).bind
        fun e' he' => ?_
      refine .eat (fun _ hs => hs.comma)
        (((hmessage e rfl).whole.expr src (by omega) hnewline).bind fun m' hm' => ?_)
      exact .val (.pure (by simp [he', hm']))

/-! ## Names -/

abbrev FollowsName (d : Nat) (rest : List Char) : Prop :=
  Follow (fun t => t.isName "as" = false ∧ t.isControl "." = false) d rest

section

omit [View]

theorem takes_identifier (src : Source) {id : String} (hid : IsName id) (hrest : BoundsWord rest) :
    Takes m 1 (Ahead d (id.toList ++ rest)) (identifier src) (· = id) (Ahead d rest) :=
  .next (q := fun _ => pure id) (fun _ hs => hs.word hid.1 hrest) (fun _ _ =>
    run_identifier hid.2) rfl
    fun _ _ _ => .pure rfl

theorem takes_commaSeparated (ends : Parsing Bool) {item : Parsing α} {f : α → String}
    {as : List α} (hne : as ≠ []) (hends : ∀ s, ends s = .ok false s)
    (hitem : ∀ a ∈ as, ∀ rest, FollowsName 0 rest →
      Takes m 1 (Ahead 0 ((f a).toList ++ rest)) item (· = a) (Ahead 0 rest)) :
    Takes m 1 (Ahead 0 ((", ".intercalate (as.map f)).toList ++ '\n' :: rest))
      (commaSeparated ends item)
      (· = as) (Ahead 0 ('\n' :: rest)) := by
  obtain ⟨a, as, rfl⟩ := exists_cons_of_ne_nil hne
  have hcomma (rest : List Char) : FollowsName 0 (", ".toList ++ rest) :=
    follow_comma fun _ => ⟨rfl, rfl⟩
  have hnewline : FollowsName 0 ('\n' :: rest) := follow_newline fun _ => ⟨rfl, rfl⟩
  have hnext : FollowsName 0 (rowTail (fun a => (f a).toList) as ++ '\n' :: rest) := by
    cases as with
    | nil => exact hnewline
    | cons a as =>
      rw [rowTail, flatMap_cons, append_assoc, append_assoc]
      exact hcomma _
  rw [toList_row, append_assoc]
  refine (hitem a mem_cons_self _ hnext).bind ?_
  rintro a rfl
  refine (Takes.moreItems (f := id) (g := id) (FollowsName 0) (fun a ha rest hfollow =>
    ⟨fun s _ => hends s, hitem a (mem_cons_of_mem _ ha) rest hfollow⟩) hcomma hnewline
    fun _ hs => .of_next hs.lineEnd fun _ => rfl).last fun bs hbs => .pure ?_
  rw [map_id, map_id] at hbs
  rw [hbs]

theorem takes_names (src : Source) (hne : names ≠ []) (h : ∀ id ∈ names, IsName id) :
    Takes m 1 (Ahead 0 ((" " ++ ", ".intercalate names).toList ++ '\n' :: rest))
      (commaSeparated (return false) (identifier src)) (· = names) (Ahead 0 ('\n' :: rest)) := by
  refine .of (fun s hs => Ahead.blank ?_)
    (takes_commaSeparated (f := id) _ hne (fun _ => rfl) fun id hid rest hfollow =>
    takes_identifier src (h id hid) hfollow.bounds.word)
  rwa [String.toList_append, append_assoc, ← map_id names] at hs

end

theorem stmtReadable_globals (hne : names ≠ []) (h : ∀ id ∈ names, IsName id) :
    StmtReadable (.globals span names) := by
  refine .of_word "global" (" " ++ ", ".intercalate names) (q := fun src _ span => do
      return .globals span (← commaSeparated (return false) (identifier src)))
    (by decide) nofun (fun _ => by rw [Print.stmt]; simp only [← String.append_assoc]; rfl)
      (by simp [isBoundary])
    (fun _ _ _ _ => by simp [parseSimple]) fun src n m rest span' _ =>
    (takes_names src hne h).bind ?_
  rintro _ rfl
  exact .pure rfl

theorem stmtReadable_nonlocals (hne : names ≠ []) (h : ∀ id ∈ names, IsName id) :
    StmtReadable (.nonlocals span names) := by
  refine .of_word "nonlocal" (" " ++ ", ".intercalate names) (q := fun src _ span => do
      return .nonlocals span (← commaSeparated (return false) (identifier src)))
    (by decide) nofun (fun _ => by rw [Print.stmt]; simp only [← String.append_assoc]; rfl)
      (by simp [isBoundary])
    (fun _ _ _ _ => by simp [parseSimple]) fun src n m rest span' _ =>
    (takes_names src hne h).bind ?_
  rintro _ rfl
  exact .pure rfl

/-! ## Imports -/

section

omit [View]

theorem takes_dotted (src : Source) {name : String} (hname : IsDotted name)
    (hrest : Follow (·.isControl "." = false) d rest) :
    Takes m 1 (Ahead d (name.toList ++ rest)) (parseDottedName src) (· = name) (Ahead d rest) := by
  obtain ⟨first, more, hids, rfl⟩ := hname
  rw [Print.toList_intercalate_cons, append_assoc]
  have hpoint (id : String) (rest : List Char) :
      BoundsWord ((".".toList ++ id.toList) ++ rest) := by
    rintro _ ⟨⟩
    exact .inr rfl
  have hnext : BoundsWord ((more.flatMap fun id => ".".toList ++ id.toList) ++ rest) := by
    cases more with
    | nil => exact hrest.bounds.word
    | cons id more =>
      rw [flatMap_cons, append_assoc]
      exact hpoint id _
  refine (takes_identifier src (hids first mem_cons_self) hnext).bind ?_
  rintro _ rfl
  refine (Takes.many (f := id) (g := id) BoundsWord (fun id hid rest hfollow => ?_)
    (fun id _ rest => hpoint id rest)
    hrest.bounds.word fun s hs => ?_).last fun more' hmore => .pure ?_
  · have hid := hids id (mem_cons_of_mem _ hid)
    rw [append_assoc]
    refine .eat (fun _ hs => hs.point hid.1) ((takes_identifier src hid hfollow).bind ?_)
    rintro _ rfl
    exact .pure ⟨_, rfl, rfl⟩
  · obtain ⟨t, s', rfl, ht⟩ := hrest.head hs
    simp [ht]
  · rw [map_id, map_id] at hmore
    rw [hmore]

theorem takes_alias (src : Source) {name : Parsing String} {isName : String → Prop} {a : Alias}
    (ha : a.Valid isName)
    (hname : ∀ rest, Follow (·.isControl "." = false) 0 rest →
      Takes m 1 (Ahead 0 (a.name.toList ++ rest)) name (· = a.name) (Ahead 0 rest))
      (hrest : FollowsName 0 rest) :
    Takes m 1 (Ahead 0 ((Print.importedName a).toList ++ rest)) (parseAlias src name) (· = a)
      (Ahead 0 rest) := by
  obtain ⟨id, rename⟩ := a
  cases rename with
  | none =>
    refine (hname rest (hrest.imp fun _ => And.right)).bind ?_
    rintro _ rfl
    exact .notEatWord (fun _ hs => (hrest.head hs).imp fun _ => And.left) (.val (.pure rfl))
  | some new =>
    have htext : (Print.importedName ⟨id, some new⟩).toList ++ rest =
        id.toList ++ ' ' :: ("as".toList ++ ' ' :: (new.toList ++ rest)) := by
      simp only [Print.importedName, String.toList_append, append_assoc]
      rfl
    rw [htext]
    refine (hname _ (follow_word (by decide) fun _ => rfl)).bind ?_
    rintro _ rfl
    refine .eatWord (fun _ hs => hs.spacedWord (by decide))
      ((takes_identifier src (ha.rename new rfl) hrest.bounds.word).bind ?_)
    rintro _ rfl
    exact .val (.pure rfl)

end

theorem stmtReadable_imports {names : List Alias} (hne : names ≠ [])
    (h : ∀ a ∈ names, a.Valid IsDotted) : StmtReadable (.imports span names) := by
  refine .of_word "import" (" " ++ Print.aliases names) (q := fun src _ span => do
      return .imports span (← commaSeparated (return false) (parseAlias src (parseDottedName src))))
    (by decide) nofun (fun _ => by rw [Print.stmt]; simp only [← String.append_assoc]; rfl)
      (by simp [isBoundary])
    (fun _ _ _ _ => by simp [parseSimple]) fun src n m rest span' _ => ?_
  rw [String.toList_append, append_assoc, Print.aliases]
  refine .of (fun s hs => Ahead.blank hs)
    ((takes_commaSeparated _ hne (fun _ => rfl) fun a ha rest hfollow =>
    takes_alias src (h a ha) (fun rest hrest => takes_dotted src (h a ha).name hrest) hfollow).bind
      ?_)
  rintro _ rfl
  exact .pure rfl

theorem stmtReadable_importsFrom {module : String} {names : List Alias} (hmodule : IsDotted module)
    (hne : names ≠ []) (h : ∀ a ∈ names, a.Valid IsName) :
    StmtReadable (.importsFrom span module names) := by
  have htext (rest : List Char) :
      (" " ++ module ++ " import " ++ Print.aliases names).toList ++ rest =
        ' ' :: (module.toList ++ ' ' :: ("import".toList ++
          ' ' :: ((Print.aliases names).toList ++ rest))) := by
    simp only [String.toList_append, append_assoc]
    rfl
  -- a name does not start with a parenthesis
  have hnot (rest : List Char) ⦃s :
      List Token⦄ (hs : Ahead 0 ((Print.aliases names).toList ++ '\n' :: rest) s) :
      First (·.isControl "(" = false) s := by
    obtain ⟨a, as, rfl⟩ := exists_cons_of_ne_nil hne
    have ha := (h a mem_cons_self).name
    rw [Print.aliases, toList_row, append_assoc] at hs
    have hname : ∃ more, BoundsWord more ∧ (Print.importedName a).toList ++
        (rowTail (fun a => (Print.importedName a).toList) as ++ '\n' :: rest) =
          a.name.toList ++ more := by
      unfold Print.importedName
      split
      · simp only [String.toList_append, append_assoc]
        exact ⟨_, (bounds_append (by decide) _).word, rfl⟩
      · refine ⟨_, ?_, rfl⟩
        cases as with
        | nil => exact endsList_newline.bounds.word
        | cons b bs =>
          rw [rowTail, flatMap_cons, append_assoc, append_assoc]
          exact (bounds_append (by decide) _).word
    obtain ⟨more, hmore, heq⟩ := hname
    rw [heq] at hs
    exact .of_next (hs.word ha.1 hmore) fun _ => rfl
  refine .of_word "from" (" " ++ module ++ " import " ++ Print.aliases names)
    (q := fun src _ => parseImportFrom src)
    (by decide) nofun (fun _ => by rw [Print.stmt]; simp only [← String.append_assoc]; rfl)
      (by simp [isBoundary])
    (fun _ _ _ _ => by simp [parseSimple]) fun src n m rest span' _ => ?_
  rw [htext]
  refine .of (fun s hs => hs.blank)
    ((takes_dotted src hmodule (follow_word (by decide) fun _ => rfl)).bind ?_)
  rintro _ rfl
  refine .expectWord (fun _ hs => hs.spacedWord (by decide)) (.notEat (hnot rest) ?_)
  rw [Print.aliases]
  refine (takes_commaSeparated _ hne (fun s => by cases s <;> rfl) fun a ha rest hfollow =>
    takes_alias src (h a ha) (fun rest hrest =>
      takes_identifier src (h a ha).name hrest.bounds.word)
      hfollow).bind ?_
  rintro _ rfl
  exact .pure rfl

end BlockScript.Program.Parse
