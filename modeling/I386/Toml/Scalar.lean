import I386.Toml.Quoted

/-!
Contract: the values of a TOML document that have no parts.

Owns:
- integers in four radices, within 64 bits with sign;
- floats, of which only those beyond every finite number are refused;
- dates, times and their combinations, with days that exist;
- truth values and quoted text.

The value of an integer and of a truth value is kept. Of the others only the kind is, since no
setting has one.

Does not own: arrays and tables.
-/

namespace I386.Toml

/-- A value without parts. -/
inductive Scalar where
  | text
  | integer (value : Int)
  | float
  | boolean (value : Bool)
  | dateTime
deriving DecidableEq, Repr

/-- The value of digits in a radix. -/
def digitsValue (radix : Nat) (digits : List Char) : Nat :=
  digits.foldl (fun value c => value * radix + hexDigitValue c) 0

/-- Take digits of a class, with single underscores allowed between two of them. -/
def digitGroups (isDigit : Char → Bool) : Reader (List Char) := do
  let first ← Reader.charOf isDigit
  let rest ← Reader.many (Reader.charOf isDigit <|> (do
    Reader.char '_'
    Reader.charOf isDigit))
  return first :: rest

/-- Take a sign; the result says whether it is a minus. -/
def sign : Reader Bool := do
  let sign ← Reader.optional (Reader.charOf fun c => c == '+' || c == '-')
  return sign == some '-'

/-- Take the digits of a decimal integer, which begins with a zero only if it is zero. -/
def decimalDigits : Reader (List Char) := fun text =>
  match text with
  | '0' :: rest => some (['0'], rest)
  | _ => digitGroups Char.isDigit text

/-- An integer must fit into 64 bits with sign. -/
def boundedInteger (value : Int) : Reader Scalar :=
  if -0x8000000000000000 ≤ value ∧ value < 0x8000000000000000 then
    pure (.integer value)
  else
    failure

/-- Take an integer of a radix after the two characters that announce it. -/
def radixInteger (mark : Char) (radix : Nat) (isDigit : Char → Bool) : Reader Scalar := do
  Reader.word ['0', mark]
  let digits ← digitGroups isDigit
  boundedInteger (digitsValue radix digits)

/-- Take a decimal integer. -/
def decimalInteger : Reader Scalar := do
  let negative ← sign
  let digits ← decimalDigits
  let value : Int := digitsValue 10 digits
  boundedInteger (if negative then -value else value)

/-- Take an integer. -/
def integer : Reader Scalar :=
  radixInteger 'x' 16 isHexDigit <|>
  radixInteger 'o' 8 (fun c => '0' ≤ c && c ≤ '7') <|>
  radixInteger 'b' 2 (fun c => c == '0' || c == '1') <|>
  decimalInteger

/-- Take the fraction of a float. -/
def fraction : Reader (List Char) := do
  Reader.char '.'
  digitGroups Char.isDigit

/-- Take the exponent of a float. -/
def exponent : Reader Int := do
  let _ ← Reader.charOf fun c => c == 'e' || c == 'E'
  let negative ← sign
  let digits ← digitGroups Char.isDigit
  let value : Int := digitsValue 10 digits
  return if negative then -value else value

/-- The least number that rounds to infinity in binary floating point of 64 bits. -/
def floatOverflow : Nat :=
  Nat.pow 2 1024 - Nat.pow 2 970

/-- A decimal number `digits * 10 ^ exponent` rounds to infinity. Exponents that decide this
without a look at the digits are told apart first. -/
def overflows (digits : List Char) (exponent : Int) : Bool :=
  let value := digitsValue 10 digits
  if value = 0 then false
  else if exponent ≥ 400 then true
  else if exponent ≥ 0 then value * Nat.pow 10 exponent.toNat ≥ floatOverflow
  else if (-exponent).toNat > digits.length then false
  else value ≥ floatOverflow * Nat.pow 10 (-exponent).toNat

/-- Take a float with a fraction or an exponent. One that rounds to positive infinity is
refused. -/
def decimalFloat : Reader Scalar := do
  let negative ← sign
  let whole ← decimalDigits
  let (fractional, exponent) ←
    (do
      let fractional ← fraction
      let exponent ← Reader.optional exponent
      return (fractional, exponent.getD 0)) <|>
    (do
      let exponent ← exponent
      return ([], exponent))
  let digits := whole ++ fractional
  if !negative && overflows digits (exponent - fractional.length) then failure
  else return .float

/-- Take one of the named floats. -/
def namedFloat : Reader Scalar := do
  let _ ← sign
  Reader.word ['i', 'n', 'f'] <|> Reader.word ['n', 'a', 'n']
  return .float

/-- Take a number of exactly `count` digits within bounds. -/
def fixedNumber (count least greatest : Nat) : Reader Nat := do
  let digits ← Reader.times (Reader.charOf Char.isDigit) count
  let value := digitsValue 10 digits
  if least ≤ value ∧ value ≤ greatest then return value else failure

/-- A year in which February has 29 days. -/
def isLeapYear (year : Nat) : Bool :=
  year % 4 == 0 && (year % 100 != 0 || year % 400 == 0)

/-- The number of days of a month. -/
def daysInMonth (year month : Nat) : Nat :=
  if month = 2 then (if isLeapYear year then 29 else 28)
  else if month = 4 ∨ month = 6 ∨ month = 9 ∨ month = 11 then 30
  else 31

/-- Take a date. -/
def date : Reader Unit := do
  let year ← fixedNumber 4 0 9999
  Reader.char '-'
  let month ← fixedNumber 2 1 12
  Reader.char '-'
  let _ ← fixedNumber 2 1 (daysInMonth year month)

/-- Take a time of day; a minute can have a leap second. -/
def time : Reader Unit := do
  let _ ← fixedNumber 2 0 23
  Reader.char ':'
  let _ ← fixedNumber 2 0 59
  Reader.char ':'
  let _ ← fixedNumber 2 0 60
  let _ ← Reader.optional (do
    Reader.char '.'
    Reader.many1 (Reader.charOf Char.isDigit))

/-- Take the offset of a time from universal time. -/
def timeOffset : Reader Unit :=
  (do let _ ← Reader.charOf fun c => c == 'Z' || c == 'z') <|>
  (do
    let _ ← Reader.charOf fun c => c == '+' || c == '-'
    let _ ← fixedNumber 2 0 23
    Reader.char ':'
    let _ ← fixedNumber 2 0 59)

/-- Take a date, a time, or both. -/
def dateTime : Reader Scalar :=
  (do
    date
    let _ ← Reader.optional (do
      let _ ← Reader.charOf fun c => c == 'T' || c == 't' || c == ' '
      time
      let _ ← Reader.optional timeOffset)
    return .dateTime) <|>
  (do
    time
    return .dateTime)

/-- Take a truth value. -/
def boolean : Reader Scalar :=
  (do
    Reader.word ['t', 'r', 'u', 'e']
    return .boolean true) <|>
  (do
    Reader.word ['f', 'a', 'l', 's', 'e']
    return .boolean false)

/-- Take quoted text. -/
def text : Reader Scalar := do
  quotedValue basicStyle <|> quotedValue literalStyle
  return .text

/-- Take a value without parts. Of two readings the longer kind comes first. -/
def scalar : Reader Scalar :=
  text <|> boolean <|> dateTime <|> decimalFloat <|> namedFloat <|> integer

end I386.Toml
