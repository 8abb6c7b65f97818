import BlockScript.Desugar.State
import BlockScript.Text.Case

/-! What the plugins read and the code they give. A plugin starts at the token after its name. -/

namespace BlockScript.Desugar

/-- The first line of a text, with its line break, and the rest. -/
def splitLine (text : List Char) : List Char × List Char :=
  let line := text.takeWhile (· ≠ '\n')
  match text.drop line.length with
  | '\n' :: rest => (line ++ ['\n'], rest)
  | rest => (line, rest)

theorem length_splitLine_lt {text : List Char} (h : text ≠ []) :
    (splitLine text).2.length < text.length := by
  unfold splitLine
  dsimp only
  have hl : 0 < text.length := List.length_pos_iff.2 h
  split
  · next rest heq =>
    have := congrArg List.length heq
    simp only [List.length_drop, List.length_cons] at this
    dsimp only
    omega
  · next heq =>
    cases text with
    | nil => exact absurd rfl h
    | cons c cs =>
      by_cases hc : c = '\n'
      · subst hc
        simp at heq
      · have hw : 0 < ((c :: cs).takeWhile (· ≠ '\n')).length := by simp [hc]
        simp only [List.length_drop]
        omega

inductive DocumentEnd where
  /-- A line indented less; the text from it on. -/
  | dedent (document rest : List Char)
  | endOfInput
  /-- The first line that is not blank has no indentation. -/
  | notIndented

def DocumentEnd.prepend (lead : List Char) : DocumentEnd → DocumentEnd
  | dedent document rest => dedent (lead ++ document) rest
  | endOfInput => endOfInput
  | notIndented => notIndented

/-- Read the lines of a document indented like its first line that is not blank, and take that
indentation away. `width` is the indentation if it is known. -/
def readDocument (width : Option Nat) (text : List Char) : DocumentEnd :=
  if _h : text = [] then .endOfInput
  else
    let line := (splitLine text).1
    let rest := (splitLine text).2
    let content := line.dropWhile fun c => c == ' ' || c == '\t'
    let indent := line.length - content.length
    if (Text.trim content).isEmpty then (readDocument width rest).prepend ['\n']
    else
      match width with
      | none =>
        if indent = 0 then .notIndented else (readDocument (some indent) rest).prepend content
      | some w =>
        if indent < w then .dedent [] text else (readDocument width rest).prepend (line.drop w)
termination_by text.length
decreasing_by all_goals exact length_splitLine_lt _h

/-- The token where the brace of a document is expected and, if it is the brace, the token after it
and a comment; and the scanner there. -/
def openDocument (s : Scanner) : (Token × Option Token) × Scanner :=
  s.withSkipped [.whitespace] fun s =>
    if s.current.isControl "\x7b" then
      let t := s.bump
      let t := if t.current.kind == .comment then t.bump else t
      ((s.current, some t.current), t)
    else ((s.current, none), s)

/-- The token where the closing brace of a document is expected, from the byte offset at which the
document ends; and the scanner there. -/
def closeDocument (s : Scanner) (offset : Nat) : Token × Scanner :=
  (s.jumpTo offset).withSkipped [.indent, .whitespace] fun s => (s.current, s)

/-- An opening brace, a line break, an indented document, and a closing brace. The code is a literal
with as many line breaks as the document takes, so that lines after it keep their numbers. -/
def readYaml (read? : List Char → Option Yaml.Value) (script : Script) : Reading String := do
  let ((brace, after), scanner) := openDocument (← get).scanner
  moveTo scanner
  let some after := after | fail script (.yamlExpectedBrace brace) brace.pos
  unless after.kind == .newline do
    fail script (.yamlExpectedLineBreak after) after.pos
  let text := ((Text.splitAtOffset? after.stop script.source).map Prod.snd).getD []
  match readDocument none text with
  | .endOfInput => fail script .yamlNotClosed brace.pos
  | .notIndented => fail script .yamlNotIndented brace.pos
  | .dedent document rest =>
    let offset := Text.byteSize script.source - Text.byteSize rest
    let (close, scanner) := closeDocument scanner offset
    moveTo scanner
    unless close.isControl "\x7d" do
      fail script (.yamlExpectedClose close) close.pos
    bump
    match read? document with
    | none => fail script .yamlInvalid brace.pos
    | some value =>
      let breaks := close.pos.line - brace.pos.line
      return "(" ++ value.literal ++ String.ofList (List.replicate breaks '\n') ++ ")"

def readUpper (script : Script) : Reading String := do
  let _ ← copyUntil (·.kind ≠ .whitespace)
  let token ← current
  unless token.kind == .name do
    fail script (.expectedNameIn script.filename) token.pos
  bump
  return "'" ++ String.ofList (Text.upper token.text.toList) ++ "'"

def readMaybe (grammar : Grammar) : Reading String := fun s =>
  match tryReading (grammar.expr {}) s with
  | .ok code t => .ok ("(" ++ code ++ ")") t
  | .error (.error _) t => .ok "None" t
  | .error .exhausted t => .error .exhausted t

def Plugin.read (script : Script) (grammar : Grammar) : Plugin → Reading String
  | .yaml read? => readYaml read? script
  | .answer => return "42"
  | .upper => readUpper script
  | .maybe => readMaybe grammar

def readPlugin (script : Script) (grammar : Grammar) : Reading String := do
  bump
  let name ← current
  unless name.kind == .name do
    fail script (.expectedPluginName name) name.pos
  match script.plugins.find? (·.name == name.text) with
  | none => fail script (.unknownPlugin name.text) name.pos
  | some plugin =>
    bump
    plugin.read script grammar

end BlockScript.Desugar
