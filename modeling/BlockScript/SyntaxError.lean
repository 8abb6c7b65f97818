import BlockScript.Token

/-! What can be wrong with the text of a script, where, and how it is reported. -/

namespace BlockScript

inductive SyntaxFault where
  | unexpected (token : Token)
  | unexpectedKeyword (word : String)
  | unexpectedCharacter (text : String)
  | expected (what : String) (token : Token)
  | expectedName (token : Token)
  -- blocks and closures
  | closureNotClosed
  | expectedInAfterNot (token : Token)
  | unexpectedIndentation
  | expectedDeeperIndent (width : Nat)
  | notOneDefinition
  | unknownClosure (id : String)
  -- plugins
  | expectedPluginName (token : Token)
  | unknownPlugin (name : String)
  | expectedNameIn (filename : String)
  | yamlExpectedBrace (token : Token)
  | yamlExpectedLineBreak (token : Token)
  | yamlNotClosed
  | yamlNotIndented
  | yamlExpectedClose (token : Token)
  | yamlInvalid
  -- statements
  | expectedIndentedBlock
  | unexpectedIndent
  | expectedExceptOrFinally
  | expectedLineBreakAfterDecorator (token : Token)
  | expectedDefinition
  | expectedDefOrClass (token : Token)
  | nonDefaultAfterDefault
  | duplicateArgument (name : String)
  | illegalAugmentedTarget
  | cannotAssign
  -- literals
  | invalidNumber (text : String)
  | integerTooLarge (text : String)
  | truncatedEscape (letter : Char)
  | invalidEscape (letter : Char)
  | loneBraceInFString
  | unclosedFStringField
  | emptyFStringField
  | inFStringField (fault : SyntaxFault)
  /-- The text nests deeper than the recursion bound. -/
  | tooDeep
  deriving Repr, Inhabited

namespace SyntaxFault

def message : SyntaxFault → String
  | unexpected t => "unexpected " ++ t.describe
  | unexpectedKeyword word => s!"unexpected keyword '{word}'"
  | unexpectedCharacter text => "unexpected character " ++ Text.quoteDiagnostic text
  | expected what t => s!"expected '{what}' but got " ++ t.describe
  | expectedName t => "expected a name but got " ++ t.describe
  | closureNotClosed => "expected closure closing brace"
  | expectedInAfterNot t => "expected 'in' after 'not', got " ++ t.describe
  | unexpectedIndentation => "unexpected indentation"
  | expectedDeeperIndent width => s!"expected indent > {width}"
  | notOneDefinition => "closure body does not form a single definition"
  | unknownClosure id => s!"unknown closure '{id}'"
  | expectedPluginName t => "expected macro name, got " ++ t.describe
  | unknownPlugin name => s!"unknown macro: '{name}'"
  | expectedNameIn filename => "expected a name in " ++ filename
  | yamlExpectedBrace t => "expected '\x7b' after !yaml, got " ++ t.describe
  | yamlExpectedLineBreak t => "expected a line break after '\x7b', got " ++ t.describe
  | yamlNotClosed => "expected '\x7d' to close the yaml block"
  | yamlNotIndented => "expected an indented yaml block"
  | yamlExpectedClose t => "expected '\x7d' to close the yaml block, got " ++ t.describe
  | yamlInvalid => "invalid yaml"
  | expectedIndentedBlock => "expected an indented block"
  | unexpectedIndent => "unexpected indent"
  | expectedExceptOrFinally => "expected 'except' or 'finally' block"
  | expectedLineBreakAfterDecorator t => "expected a line break after decorator, got " ++ t.describe
  | expectedDefinition => "expected a definition after decorator"
  | expectedDefOrClass t => "expected 'def' or 'class' after decorator, got " ++ t.describe
  | nonDefaultAfterDefault => "non-default argument follows default argument"
  | duplicateArgument name => s!"duplicate argument '{name}'"
  | illegalAugmentedTarget => "illegal target for augmented assignment"
  | cannotAssign => "cannot assign to expression"
  | invalidNumber text => s!"invalid number literal '{text}'"
  | integerTooLarge text => s!"integer literal too large: {text}"
  | truncatedEscape letter => s!"truncated \\{letter} escape"
  | invalidEscape letter => s!"invalid \\{letter} escape"
  | loneBraceInFString => "single '\x7d' is not allowed in f-string"
  | unclosedFStringField => "expected '\x7d' in f-string"
  | emptyFStringField => "f-string: empty expression not allowed"
  | inFStringField fault => "f-string: " ++ fault.message
  | tooDeep => "nested too deeply"

end SyntaxFault

/-- A fault, its place, and the line of the source it stands in. -/
structure SyntaxError where
  fault : SyntaxFault
  filename : String
  line : Nat
  column : Nat
  text : String
  deriving Repr, Inhabited

namespace SyntaxError

def ofFault (fault : SyntaxFault) (filename : String) (source : List Char) (pos : Position) :
    SyntaxError :=
  ⟨fault, filename, pos.line, pos.column, String.ofList (Text.lineAt source pos.offset)⟩

def message (e : SyntaxError) : String := e.fault.message

/-- The line with a caret under the column. -/
def hint (e : SyntaxError) : List Char :=
  e.text.toList ++ '\n' :: List.replicate e.column '~' ++ ['^']

def render (e : SyntaxError) : String :=
  s!"\n  in {e.filename} at line {e.line}: {e.message}" ++
    String.join ((Text.lines e.hint).map fun line => "\n  |" ++ String.ofList line)

end SyntaxError

end BlockScript
