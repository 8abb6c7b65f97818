import BlockScript.Number.Read
import BlockScript.Yaml.Token

/-! The text of scalars: plain, in quotes, and in blocks. -/

namespace BlockScript.Yaml

/-- Blanks and line breaks between the characters of a scalar. -/
inductive Gap where
  | blanks (cs : List Char)
  /-- Line breaks. The first one is missing if it is escaped. -/
  | breaks (first : Option Char) (more : List Char)
  deriving DecidableEq, Repr, Inhabited

namespace Gap

def isBreaks : Gap → Bool
  | blanks _ => false
  | breaks .. => true

/-- What a gap is in the value: a single line break is a blank, and of several the first is
dropped. -/
def text : Gap → List Char
  | blanks cs => cs
  | breaks (some '\n') [] => [' ']
  | breaks (some '\n') more => more
  | breaks first more => first.toList ++ more

end Gap

/-- Read a gap, after its start `gap`. A tab must not indent a line up to column `limit`. -/
def readGap (limit : Nat) (gap : Gap) (c : Cursor) : Option (Gap × Cursor) :=
  match _h : c.rest with
  | [] => some (gap, c)
  | ch :: _ =>
    if isBlank ch then
      match gap with
      | .blanks cs => readGap limit (.blanks (cs ++ [ch])) (c.advance 1)
      | .breaks .. =>
        if ch == '\t' && c.column < limit then none else readGap limit gap (c.advance 1)
    else
      match breakChar? ch, gap with
      | some b, .blanks _ => readGap limit (.breaks (some b) []) c.nextLine
      | some b, .breaks first more => readGap limit (.breaks first (more ++ [b])) c.nextLine
      | none, _ => some (gap, c)
termination_by c.rest.length
decreasing_by
  · exact Cursor.length_advance_lt (by decide) (by simp [_h])
  · exact Cursor.length_advance_lt (by decide) (by simp [_h])
  · exact Cursor.length_nextLine_lt (by simp [_h])
  · exact Cursor.length_nextLine_lt (by simp [_h])

/-- The characters of a plain scalar before a gap or a mark. In flow collections, a colon before
another mark is refused. -/
def plainWord? (inFlow : Bool) : List Char → Option (List Char)
  | [] => some []
  | c :: cs =>
    if isBlank c || isBreak c then some []
    else if inFlow && c == ':' && cs.head?.any (fun d => d == '?' || isFlowMark d) then none
    else if (c == ':' && atGap cs) || (inFlow && isFlowMark c) then some []
    else (plainWord? inFlow cs).map (c :: ·)

/-- Read a plain scalar after `gap`. Outside flow collections its lines are indented to `limit` at
least. The flag tells whether a line break follows it. -/
def readPlain (inFlow : Bool) (limit : Nat) (gap : Gap) (c : Cursor) :
    Option (List Char × Bool × Cursor) :=
  if c.atDocumentMark || c.rest.head? = some '#' then some ([], gap.isBreaks, c)
  else
    match plainWord? inFlow c.rest with
    | none => none
    | some [] => some ([], gap.isBreaks, c)
    | some word =>
      let text := gap.text ++ word
      match readGap limit (.blanks []) (c.advance word.length) with
      | none => none
      | some (next, d) =>
        if !inFlow && d.column < limit then some (text, next.isBreaks, d)
        else if _h : d.rest.length < c.rest.length then
          (readPlain inFlow limit next d).map fun (more, broken, d) => (text ++ more, broken, d)
        else none
termination_by c.rest.length

def codeChar? (digits : List Char) : Option Char := do
  let n ← Number.natural? 16 digits
  if n.isValidChar then some (Char.ofNat n) else none

def escapedChar? : Char → Option Char
  | '0' => some '\x00'
  | 'a' => some '\x07'
  | 'b' => some '\x08'
  | 't' | '\t' => some '\t'
  | 'n' => some '\n'
  | 'v' => some '\x0b'
  | 'f' => some '\x0c'
  | 'r' => some '\r'
  | 'e' => some '\x1b'
  | ' ' => some ' '
  | '"' => some '"'
  | '/' => some '/'
  | '\\' => some '\\'
  | 'N' => some '\x85'
  | '_' => some '\xa0'
  | 'L' => some '\u2028'
  | 'P' => some '\u2029'
  | _ => none

/-- A character written by `n` hexadecimal digits, and the rest. -/
def hexEscape? (n : Nat) (cs : List Char) : Option (Char × List Char) :=
  if n ≤ cs.length then (codeChar? (cs.take n)).map (·, cs.drop n) else none

/-- An escape after its backslash: the character it stands for, and the rest. -/
def escape? : List Char → Option (Char × List Char)
  | 'x' :: cs => hexEscape? 2 cs
  | 'u' :: cs => hexEscape? 4 cs
  | 'U' :: cs => hexEscape? 8 cs
  | c :: cs => (escapedChar? c).map (·, cs)
  | [] => none

theorem length_escape?_lt {cs rest : List Char} {c : Char} (h : escape? cs = some (c, rest)) :
    rest.length < cs.length := by
  unfold escape? at h
  split at h
  all_goals
    first
    | (unfold hexEscape? at h
       split at h
       · obtain ⟨_, _, h⟩ := Option.map_eq_some_iff.1 h
         have := congrArg (List.length ∘ Prod.snd) h
         simp at this
         simp only [List.length_cons]
         omega
       · simp at h)
    | (obtain ⟨_, _, h⟩ := Option.map_eq_some_iff.1 h
       have := congrArg (List.length ∘ Prod.snd) h
       simp at this
       simp only [List.length_cons]
       omega)
    | simp at h

inductive RunEnd where
  /-- At a gap, at the closing quote or at the end of the document. -/
  | here
  /-- At a backslash before a line break. -/
  | escapedBreak
  deriving DecidableEq, Repr, Inhabited

/-- The characters in single quotes before a gap or the closing quote, and the rest. -/
def singleRun : List Char → List Char × List Char
  | '\'' :: '\'' :: cs => let (run, rest) := singleRun cs; ('\'' :: run, rest)
  | '\'' :: cs => ([], '\'' :: cs)
  | c :: cs =>
    if isBlank c || isBreak c then ([], c :: cs)
    else let (run, rest) := singleRun cs; (c :: run, rest)
  | [] => ([], [])

/-- The characters in double quotes before a gap or the closing quote, and the rest. -/
def doubleRun? (cs : List Char) : Option (List Char × RunEnd × List Char) :=
  match cs with
  | [] => some ([], .here, [])
  | '\\' :: cs =>
    if cs.head?.any isBreak then some ([], .escapedBreak, cs)
    else
      match _h : escape? cs with
      | none => none
      | some (c, rest) => (doubleRun? rest).map fun (run, stop, rest) => (c :: run, stop, rest)
  | c :: cs =>
    if c == '"' || isBlank c || isBreak c then some ([], .here, c :: cs)
    else (doubleRun? cs).map fun (run, stop, rest) => (c :: run, stop, rest)
termination_by cs.length
decreasing_by
  · have := length_escape?_lt _h
    simp only [List.length_cons]
    omega
  · simp

def quotedRun? (quote : Char) (cs : List Char) : Option (List Char × RunEnd × List Char) :=
  if quote == '"' then doubleRun? cs else let (run, rest) := singleRun cs; some (run, .here, rest)

def readQuoted (quote : Char) (c : Cursor) : Option (List Char × Cursor) :=
  if c.atDocumentMark then none
  else
    match quotedRun? quote c.rest with
    | none => none
    | some (run, stop, rest) =>
      let d := c.moveTo rest
      let (gap, d) : Gap × Cursor := match stop with
        | .here => (.blanks [], d)
        | .escapedBreak => (.breaks none [], d.nextLine)
      if d.rest.head? = some quote then some (run, d.advance 1)
      else
        match readGap 0 gap d with
        | none => none
        | some (gap, d) =>
          if _h : d.rest.length < c.rest.length then
            (readQuoted quote d).map fun (more, d) => (run ++ gap.text ++ more, d)
          else none
termination_by c.rest.length

/-- What happens to the line breaks at the end of a block scalar. -/
inductive Chomp where
  | strip
  | clip
  | keep
  deriving DecidableEq, Repr, Inhabited

def chomp? : Char → Option Chomp
  | '-' => some .strip
  | '+' => some .keep
  | _ => none

def indentDigit? (c : Char) : Option Nat :=
  if '1' ≤ c ∧ c ≤ '9' then some (c.toNat - '0'.toNat) else none

/-- The header of a block scalar: the treatment of its end and its indentation if given, in either
order; and the rest. -/
def blockHeader : List Char → Chomp × Option Nat × List Char
  | a :: b :: cs =>
    match chomp? a, indentDigit? a, chomp? b, indentDigit? b with
    | some chomp, _, _, some indent => (chomp, some indent, cs)
    | some chomp, _, _, none => (chomp, none, b :: cs)
    | none, some indent, some chomp, _ => (chomp, some indent, cs)
    | none, some indent, none, _ => (.clip, some indent, b :: cs)
    | none, none, _, _ => (.clip, none, a :: b :: cs)
  | [a] =>
    match chomp? a, indentDigit? a with
    | some chomp, _ => (chomp, none, [])
    | none, some indent => (.clip, some indent, [])
    | none, none => (.clip, none, [a])
  | [] => (.clip, none, [])

/-- Pass over empty lines and indentation up to column `limit`, or all of it if there is no limit.
Gives the line breaks and the greatest column reached. -/
def readBreaks (limit : Option Nat) (greatest : Nat) (c : Cursor) :
    Option (List Char × Nat × Cursor) :=
  let spaces := (c.rest.takeWhile (· == ' ')).length
  let d := c.advance (limit.elim spaces fun limit => min spaces (limit - c.column))
  let greatest := max greatest d.column
  match d.rest with
  | [] => some ([], greatest, d)
  | ch :: _ =>
    if ch == '\t' && limit.all (d.column < ·) then none
    else
      match breakChar? ch with
      | none => some ([], greatest, d)
      | some b =>
        if _h : d.nextLine.rest.length < c.rest.length then
          (readBreaks limit greatest d.nextLine).map fun (more, rest) => (b :: more, rest)
        else none
termination_by c.rest.length

/-- Read the lines of a block scalar indented to `limit`, after a line that ended in `lead` and the
empty lines `breaks`. The first three results are the text, the last line break and the empty lines
after it. -/
def readLines (folded : Bool) (limit : Nat) (indented : Bool) (lead breaks : List Char)
    (c : Cursor) : Option (List Char × List Char × List Char × Cursor) :=
  match c.rest with
  | [] => some ([], lead, breaks, c)
  | ch :: _ =>
    if c.column ≠ limit then some ([], lead, breaks, c)
    else
      let joint :=
        if folded && lead == ['\n'] && !indented && !isBlank ch then
          if breaks.isEmpty then [' '] else []
        else lead
      let line := c.rest.takeWhile (!isBreak ·)
      let d := c.advance line.length
      let lead := (d.rest.head?.bind breakChar?).toList
      match readBreaks (some limit) 0 d.nextLine with
      | none => none
      | some (next, _, e) =>
        if _h : e.rest.length < c.rest.length then
          (readLines folded limit (isBlank ch) lead next e).map fun (more, rest) =>
            (joint ++ breaks ++ line ++ more, rest)
        else none
termination_by c.rest.length

/-- Read a block scalar after its mark, inside a block at column `indent`. -/
def readBlock (folded : Bool) (indent : Option Nat) (c : Cursor) : Option (List Char × Cursor) := do
  let (chomp, given, rest) := blockHeader c.rest
  let c ← restOfLine (c.moveTo rest)
  let least := indent.elim 0 (· + 1)
  let limit := given.map fun n => indent.elim n (· + n)
  let (breaks, greatest, c) ← readBreaks limit 0 c
  let limit := limit.getD (max (max greatest least) 1)
  let (text, last, breaks, c) ← readLines folded limit false [] breaks c
  return match chomp with
    | .strip => (text, c)
    | .clip => (text ++ last, c)
    | .keep => (text ++ last ++ breaks, c)

end BlockScript.Yaml
