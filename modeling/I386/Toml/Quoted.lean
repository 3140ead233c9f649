import I386.Toml.Reader

/-!
Contract: quoted text in a TOML document.

Owns:
- text on one line between double quotes, with escapes, and between apostrophes, without;
- text of several lines between three of either.

Text of several lines can hold its quote once or twice in a row, and end with up to two of them
before the closing three. What it holds is not kept, since no setting is a text.

Does not own: bare keys.
-/

namespace I386.Toml

/-- The quote of text in which nothing is escaped. -/
def apostrophe : Char := Char.ofNat 0x27

/-- A kind of quoted text. -/
structure QuoteStyle where
  quote : Char
  /-- A backslash escapes. -/
  escapes : Bool

/-- Text with escapes. -/
def basicStyle : QuoteStyle :=
  ⟨'"', true⟩

/-- Text without escapes. -/
def literalStyle : QuoteStyle :=
  ⟨apostrophe, false⟩

namespace QuoteStyle

/-- A character that stands for itself: printable, neither the quote nor the escape. -/
def isPlain (style : QuoteStyle) (c : Char) : Bool :=
  isPrintable c && c != style.quote && !(style.escapes && c == '\\')

/-- Take the quote. -/
def delimiter (style : QuoteStyle) : Reader Unit :=
  Reader.char style.quote

end QuoteStyle

/-- The value of a hexadecimal digit of either case. -/
def hexDigitValue (c : Char) : Nat :=
  if c.isDigit then c.toNat - '0'.toNat
  else c.toLower.toNat - 'a'.toNat + 10

/-- A hexadecimal digit of either case. -/
def isHexDigit (c : Char) : Bool :=
  c.isDigit || ('a' ≤ c && c ≤ 'f') || ('A' ≤ c && c ≤ 'F')

/-- Take exactly `count` hexadecimal digits that name a character. -/
def codePoint (count : Nat) : Reader Char := do
  let digits ← Reader.times (Reader.charOf isHexDigit) count
  let code := digits.foldl (fun value c => value * 16 + hexDigitValue c) 0
  if code.isValidChar then return Char.ofNat code else failure

/-- Take what follows a backslash: a letter for a control character, a quote, a backslash, or the
number of a character in four or eight digits. -/
def escaped : Reader Char := do
  let c ← Reader.charOf fun _ => true
  if c == 'b' then return Char.ofNat 0x08
  else if c == 't' then return '\t'
  else if c == 'n' then return '\n'
  else if c == 'f' then return Char.ofNat 0x0C
  else if c == 'r' then return '\r'
  else if c == '"' || c == '\\' then return c
  else if c == 'u' then codePoint 4
  else if c == 'U' then codePoint 8
  else failure

/-- Take an escape. -/
def escapeSequence : Reader Char := do
  Reader.char '\\'
  escaped

/-- Take a character of quoted text, plain or escaped. -/
def quotedChar (style : QuoteStyle) : Reader Char :=
  if style.escapes then
    Reader.charOf style.isPlain <|> escapeSequence
  else
    Reader.charOf style.isPlain

/-- Take quoted text on one line. -/
def quotedLine (style : QuoteStyle) : Reader String := do
  style.delimiter
  let content ← Reader.many (quotedChar style)
  style.delimiter
  return String.ofList content

/-- Take a backslash at the end of a line, which joins the line with the text after the blanks that
follow. -/
def lineContinuation : Reader Unit := do
  Reader.char '\\'
  spaces
  newline

/-- Take three quotes. -/
def tripleDelimiter (style : QuoteStyle) : Reader Unit := do
  style.delimiter
  style.delimiter
  style.delimiter

/-- Take a part of the content of text of several lines: a character, a line end, or a quote that
does not begin the closing three. -/
def quotedBlockPart (style : QuoteStyle) : Reader Unit := fun text =>
  match tripleDelimiter style text with
  | some _ => none
  | none =>
      let continuation := if style.escapes then lineContinuation else failure
      let part :=
        (do let _ ← Reader.charOf style.isPlain) <|> newline <|> continuation <|>
        (do let _ ← quotedChar style) <|> style.delimiter
      part text

/-- Take text of several lines. Up to two quotes before the closing three belong to it. -/
def quotedBlock (style : QuoteStyle) : Reader Unit := do
  tripleDelimiter style
  let _ ← Reader.many (quotedBlockPart style)
  tripleDelimiter style
  let _ ← Reader.optional style.delimiter
  let _ ← Reader.optional style.delimiter

/-- Take quoted text as a value. Three quotes always begin text of several lines. -/
def quotedValue (style : QuoteStyle) : Reader Unit := fun text =>
  match tripleDelimiter style text with
  | some _ => quotedBlock style text
  | none => (quotedLine style text).map fun taken => ((), taken.2)

end I386.Toml
