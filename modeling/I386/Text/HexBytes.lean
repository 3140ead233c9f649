import I386.Text.Numeral

/-!
Contract: reading bytes from pairs of hexadecimal digits.

Owns:
- dropping blanks and commas, wherever they stand;
- pairing what is left, and the refusals of texts that are no byte pairs.

Pairs are counted in bytes of the text's UTF-8 form. A pair is therefore two ASCII characters or
one character of two bytes; where the boundary of a pair falls inside a character, no pair exists
and reading stops with `HexFault.splitsCharacter`.

Does not own: writing bytes.
-/

namespace I386.Text

/-- Why a text is no sequence of byte pairs. -/
inductive HexError where
  /-- The digits do not pair up; the text is given as it was written. -/
  | oddLength (text : String)
  /-- A pair is no numeral of one byte. -/
  | invalidByte (pair : List Char) (reason : NumeralError)
deriving DecidableEq, Repr

/-- The refusal, as shown to the user. -/
def HexError.message : HexError → String
  | .oddLength text => "Odd number of hex digits in '" ++ text ++ "'"
  | .invalidByte pair reason =>
      "Invalid hex byte: '" ++ String.ofList pair ++ "': " ++ reason.message

/-- How reading byte pairs can stop: a refusal, or a pair boundary inside a character, which no
caller may ask for. -/
inductive HexFault where
  | refused (error : HexError)
  | splitsCharacter
deriving DecidableEq, Repr

/-- Blanks and commas separate; every other character belongs to a pair. -/
def isHexSeparator (c : Char) : Bool :=
  isBlank c || c == ','

/-- The length of a text in bytes of its UTF-8 form. -/
def utf8Length : List Char → Nat
  | [] => 0
  | c :: rest => c.utf8Size + utf8Length rest

/-- Read one byte from the characters of a pair. -/
def readPair (pair : List Char) : Except HexFault UInt8 :=
  match readNumeral 16 0x100 pair with
  | .ok value => .ok (UInt8.ofNat value)
  | .error reason => .error (.refused (.invalidByte pair reason))

/-- Read the pairs from the front, adding to the bytes read so far; the first fault ends it. -/
def readPairs (bytes : Array UInt8) : List Char → Except HexFault (Array UInt8)
  | [] => .ok bytes
  | first :: rest =>
      if first.utf8Size = 2 then
        match readPair [first] with
        | .ok byte => readPairs (bytes.push byte) rest
        | .error fault => .error fault
      else if first.utf8Size = 1 then
        match rest with
        | second :: rest =>
            if second.utf8Size = 1 then
              match readPair [first, second] with
              | .ok byte => readPairs (bytes.push byte) rest
              | .error fault => .error fault
            else
              .error .splitsCharacter
        | [] => .error .splitsCharacter
      else
        .error .splitsCharacter

/-- Read bytes from pairs of hexadecimal digits. Blanks and commas are dropped, also between the
two digits of a pair. -/
def readHexBytes (text : String) : Except HexFault (Array UInt8) :=
  let digits := text.toList.filter fun c => !isHexSeparator c
  if utf8Length digits % 2 = 1 then
    .error (.refused (.oddLength text))
  else
    readPairs #[] digits

end I386.Text
