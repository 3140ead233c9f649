import I386.Text.Blank

/-!
Contract: reading an unsigned number from its digits.

Owns:
- numerals in a radix up to 36 with a bound on their value, and the three ways one can be refused;
- a number as people write it: blanks around it are dropped, a leading `0x` or `0X` selects
  hexadecimal.

Does not own: negative numbers, digit separators, numbers in configuration files.
-/

namespace I386.Text

/-- Why a text is no numeral. -/
inductive NumeralError where
  | empty
  | invalidDigit
  | tooLarge
deriving DecidableEq, Repr

/-- The reason, as shown to the user. -/
def NumeralError.message : NumeralError → String
  | .empty => "cannot parse integer from empty string"
  | .invalidDigit => "invalid digit found in string"
  | .tooLarge => "number too large to fit in target type"

/-- The value of an ASCII digit or letter of either case, if it is a digit of the radix. -/
def digitValue? (radix : Nat) (c : Char) : Option Nat :=
  let value? :=
    if c.isDigit then some (c.toNat - '0'.toNat)
    else if c.isLower then some (c.toNat - 'a'.toNat + 10)
    else if c.isUpper then some (c.toNat - 'A'.toNat + 10)
    else none
  value?.filter (· < radix)

/-- Append digits to a value read so far. The first character that is no digit, or that carries
the value to the bound, decides the refusal. -/
def appendDigits (radix bound : Nat) : Nat → List Char → Except NumeralError Nat
  | value, [] => .ok value
  | value, c :: rest =>
      match digitValue? radix c with
      | none => .error .invalidDigit
      | some digit =>
          if value * radix + digit < bound then
            appendDigits radix bound (value * radix + digit) rest
          else
            .error .tooLarge

/-- Read a numeral below `bound`: one or more digits after an optional plus sign. A plus sign
alone is an invalid digit, not an empty numeral. -/
def readNumeral (radix bound : Nat) : List Char → Except NumeralError Nat
  | [] => .error .empty
  | '+' :: [] => .error .invalidDigit
  | '+' :: digit :: rest => appendDigits radix bound 0 (digit :: rest)
  | cs => appendDigits radix bound 0 cs

/-- A text that is no number, with the reason. -/
structure NumberError where
  text : List Char
  reason : NumeralError
deriving DecidableEq, Repr

/-- The refusal quotes the text without its surrounding blanks. -/
def NumberError.message (error : NumberError) : String :=
  "Invalid number: '" ++ String.ofList error.text ++ "': " ++ error.reason.message

/-- The radix of a written number and the characters that are its numeral. -/
def splitRadix : List Char → Nat × List Char
  | '0' :: 'x' :: rest => (16, rest)
  | '0' :: 'X' :: rest => (16, rest)
  | cs => (10, cs)

/-- The number of values of a 32-bit word. -/
def wordCount : Nat := 0x100000000

/-- Read a 32-bit number as people write it: decimal, or hexadecimal after `0x` or `0X`, with
blanks around it. -/
def readNumber (text : String) : Except NumberError UInt32 :=
  let written := trimBlanks text.toList
  let (radix, numeral) := splitRadix written
  match readNumeral radix wordCount numeral with
  | .ok value => .ok (UInt32.ofNat value)
  | .error reason => .error ⟨written, reason⟩

end I386.Text
