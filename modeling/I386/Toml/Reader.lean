/-!
Contract: reading a TOML document from the front of its text.

Owns:
- readers, which take what they recognise from the front of a text or fail;
- repetition, optional parts and lists with separators;
- blanks, comments and line ends.

A reader that fails takes nothing, so another one can be tried in its place.

Does not own: keys, values and tables.
-/

namespace I386.Toml

/-- Takes what it recognises from the front of a text. -/
abbrev Reader := StateT (List Char) Option

namespace Reader

/-- Take a character of a class. -/
def charOf (accepts : Char → Bool) : Reader Char := fun text =>
  match text with
  | c :: rest => if accepts c then some (c, rest) else none
  | [] => none

/-- Take one character. -/
def char (expected : Char) : Reader Unit := do
  let _ ← charOf (· == expected)

/-- Take a word. -/
def word : List Char → Reader Unit
  | [] => pure ()
  | c :: rest => do
      char c
      word rest

/-- Succeed at the end of the text only. -/
def endOfText : Reader Unit := fun text =>
  match text with
  | [] => some ((), [])
  | _ :: _ => none

/-- Take something if it is there. -/
def optional {α : Type} (item : Reader α) : Reader (Option α) :=
  some <$> item <|> pure none

/-- Take something as often as it is there, at most `bound` times. -/
def manyUpTo {α : Type} (item : Reader α) : Nat → Reader (List α)
  | 0 => pure []
  | bound + 1 =>
      (do
        let first ← item
        let rest ← manyUpTo item bound
        return first :: rest) <|> pure []

/-- Take something as often as it is there. It must not be empty, so the length of the text
bounds how often that is. -/
def many {α : Type} (item : Reader α) : Reader (List α) := fun text =>
  manyUpTo item text.length text

/-- Take one or more. -/
def many1 {α : Type} (item : Reader α) : Reader (List α) := do
  let first ← item
  let rest ← many item
  return first :: rest

/-- Take exactly `count`. -/
def times {α : Type} (item : Reader α) : Nat → Reader (List α)
  | 0 => pure []
  | count + 1 => do
      let first ← item
      let rest ← times item count
      return first :: rest

/-- Take one or more with separators between them. -/
def separated1 {α : Type} (item : Reader α) (separator : Reader Unit) : Reader (List α) := do
  let first ← item
  let rest ← many (do
    separator
    item)
  return first :: rest

/-- Take any number with separators between them. -/
def separated {α : Type} (item : Reader α) (separator : Reader Unit) : Reader (List α) :=
  separated1 item separator <|> pure []

end Reader

/-- Spaces and tabs separate the parts of a line. -/
def isSpace (c : Char) : Bool :=
  c == ' ' || c == '\t'

/-- Control characters other than the tab stand nowhere in a document but at line ends. -/
def isPrintable (c : Char) : Bool :=
  c == '\t' || (0x20 ≤ c.toNat && c.toNat != 0x7F)

/-- Skip spaces and tabs. -/
def spaces : Reader Unit := fun text =>
  some ((), text.dropWhile isSpace)

/-- Take a line end: a line feed, or a carriage return and a line feed. -/
def newline : Reader Unit :=
  Reader.char '\n' <|> Reader.word ['\r', '\n']

/-- Take a comment up to the end of its line. -/
def comment : Reader Unit := do
  Reader.char '#'
  fun text => some ((), text.dropWhile isPrintable)

/-- Take the end of a line, or of the text. -/
def lineEnd : Reader Unit :=
  newline <|> Reader.endOfText

/-- Take what may follow a statement on its line, and the line end. -/
def restOfLine : Reader Unit := do
  spaces
  let _ ← Reader.optional comment
  lineEnd

/-- Skip blanks, line ends and comments, as between the elements of an array. -/
def gaps : Reader Unit := do
  let _ ← Reader.many do
    spaces
    let _ ← Reader.optional comment
    newline
  spaces

end I386.Toml
