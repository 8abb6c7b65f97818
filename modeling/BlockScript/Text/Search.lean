import BlockScript.Token.Lexeme

/-! Occurrences of a text in another, and texts cut there. -/

namespace BlockScript.Text

/-- The text around the first occurrence of `needle`; an empty needle occurs at the start. -/
def splitFirst? (needle : List Char) : List Char → Option (List Char × List Char)
  | [] => if needle.isEmpty then some ([], []) else none
  | c :: cs =>
    if needle.isPrefixOf (c :: cs) then some ([], (c :: cs).drop needle.length)
    else (splitFirst? needle cs).map fun (before, after) => (c :: before, after)

theorem length_lt_of_splitFirst? {needle text before after : List Char} (hn : needle ≠ [])
    (h : splitFirst? needle text = some (before, after)) : after.length < text.length := by
  induction text generalizing before after with
  | nil => simp [splitFirst?, hn] at h
  | cons c cs ih =>
    rw [splitFirst?] at h
    split at h
    · simp only [Option.some.injEq, Prod.mk.injEq] at h
      obtain ⟨_, rfl⟩ := h
      have : 0 < needle.length := List.length_pos_iff.2 hn
      simp only [List.length_drop, List.length_cons]
      omega
    · simp only [Option.map_eq_some_iff, Prod.mk.injEq, Prod.exists] at h
      obtain ⟨b, a, hs, _, rfl⟩ := h
      have := ih hs
      simp only [List.length_cons]
      omega

def isWordAt (side : Option Char) : Bool := side.any Token.isWord

/-- Whether a place of `text` has no word character on either side. -/
def hasGapFrom (before : Option Char) : List Char → Bool
  | [] => !isWordAt before
  | c :: cs => (!isWordAt before && !Token.isWord c) || hasGapFrom (some c) cs

/-- Whether `word` occurs with no word character on either side. Occurrences are tried from the
left, each search going on after the one before; `before` is the character to the left. -/
def containsWordFrom (word : List Char) (before : Option Char) (text : List Char) : Bool :=
  if _hw : word = [] then hasGapFrom before text
  else
    match _h : splitFirst? word text with
    | none => false
    | some (lead, after) =>
      (!isWordAt (lead.getLast?.or before) && !isWordAt after.head?) ||
        containsWordFrom word word.getLast? after
termination_by text.length
decreasing_by exact length_lt_of_splitFirst? _hw _h

/-- Whether `word` stands in `text` as a whole word. -/
def containsWord (text word : String) : Bool :=
  containsWordFrom word.toList none text.toList

/-! ## Cutting texts at separators, and replacing parts of them -/

/-- The parts of a text between separators, with at most `limit` cuts. -/
def splitUpTo (sep : List Char) : Nat → List Char → List (List Char)
  | 0, text => [text]
  | n + 1, text =>
    match splitFirst? sep text with
    | none => [text]
    | some (before, after) => before :: splitUpTo sep n after

def split (sep text : List Char) : List (List Char) :=
  splitUpTo sep text.length text

/-- Insert `new` between the characters of a text, and at its ends, at most `limit` times. -/
def intersperse (new : List Char) : Nat → List Char → List Char
  | 0, text => text
  | _ + 1, [] => new
  | n + 1, c :: cs => new ++ c :: intersperse new n cs

/-- Replace the first `limit` occurrences of `old`. An empty `old` occurs between characters. -/
def replaceUpTo (limit : Nat) (old new text : List Char) : List Char :=
  if old.isEmpty then intersperse new limit text
  else new.intercalate (splitUpTo old limit text)

def replace (old new text : List Char) : List Char :=
  replaceUpTo (text.length + 1) old new text

def count (needle text : List Char) : Nat :=
  if needle.isEmpty then text.length + 1 else (split needle text).length - 1

/-- The place of the first occurrence. -/
def find? (needle text : List Char) : Option Nat :=
  (splitFirst? needle text).map fun (before, _) => before.length

/-- The words of a text, after `limit` of which the rest stays as it is. -/
def wordsUpTo : Nat → List Char → List (List Char)
  | 0, text => if (trimStart text).isEmpty then [] else [trimStart text]
  | n + 1, text =>
    let text := trimStart text
    if text.isEmpty then []
    else
      text.takeWhile (!isBlank ·) :: wordsUpTo n (text.dropWhile (!isBlank ·))

def stripStart (p : Char → Bool) (text : List Char) : List Char := text.dropWhile p

def stripEnd (p : Char → Bool) (text : List Char) : List Char := dropTrailing p text

end BlockScript.Text
