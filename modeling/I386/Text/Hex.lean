/-!
Contract: the hexadecimal spelling of numbers in listings and messages.

Owns:
- upper-case digits, most significant first, without leading zeros;
- the same digits filled up with zeros to a least number of places.

Does not own: reading hexadecimal text.
-/

namespace I386.Text

/-- The upper-case hexadecimal digits of a number, most significant first; zero is one digit. -/
def hexDigits (n : Nat) : List Char :=
  (Nat.toDigits 16 n).map Char.toUpper

/-- The hexadecimal spelling of a number without leading zeros. -/
def hex (n : Nat) : String :=
  String.ofList (hexDigits n)

/-- The hexadecimal spelling of a number with zeros in front up to `places` digits. -/
def hexPadded (places n : Nat) : String :=
  String.ofList ((hexDigits n).leftpad places '0')

end I386.Text
