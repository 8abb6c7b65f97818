import BlockScript.Text.Position
import BlockScript.Text.Escaped

/-! Tokens of a script. Layout is kept: indentation, blanks, line breaks and comments are tokens
like any other, so the texts of all tokens together are the source. -/

namespace BlockScript

namespace Token

inductive Kind where
  | eof
  /-- Blanks at the start of a line; every line has one, maybe empty. -/
  | indent
  | whitespace
  | newline
  | comment
  | name
  | literal
  | control
  /-- A character that no other kind accepts. -/
  | unknown
  deriving DecidableEq, Repr, Inhabited

def Kind.label : Kind → String
  | .eof => "Eof"
  | .indent => "Indent"
  | .whitespace => "Whitespace"
  | .newline => "Newline"
  | .comment => "Comment"
  | .name => "Name"
  | .literal => "Literal"
  | .control => "Control"
  | .unknown => "Unknown"

/-- Layout that never ends a statement. -/
def layout : List Kind := [.indent, .whitespace, .comment]

def trivia : List Kind := .newline :: layout

end Token

structure Token where
  kind : Token.Kind
  text : String
  pos : Position
  deriving DecidableEq, Repr, Inhabited

namespace Token

def isEof (t : Token) : Bool := t.kind == .eof

def isControl (t : Token) (glyph : String) : Bool := t.kind == .control && t.text == glyph

def isControlIn (t : Token) (glyphs : List String) : Bool :=
  t.kind == .control && glyphs.contains t.text

def isName (t : Token) (name : String) : Bool := t.kind == .name && t.text == name

def isNameIn (t : Token) (names : List String) : Bool := t.kind == .name && names.contains t.text

/-- Layout, and line breaks too if `newlines` is set. -/
def isIgnorable (t : Token) (newlines : Bool) : Bool :=
  layout.contains t.kind || (newlines && t.kind == .newline)

/-- The byte offset after the token. -/
def stop (t : Token) : Nat := t.pos.offset + t.text.utf8ByteSize

def describe (t : Token) : String :=
  if t.isEof then "end of input"
  else t.kind.label ++ "(" ++ Text.quoteDiagnostic t.text ++ ")"

end Token

end BlockScript
