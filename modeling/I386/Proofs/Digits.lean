import Mathlib.Algebra.Group.Nat.Defs
import I386.Text.Hex

/-!
Contract: numbers written with a fixed number of hexadecimal digits.

Owns:
- the sixteen upper-case digits;
- the digits of a number that fits in a given number of places, most significant first.

Main statement: a number that fits is spelled with exactly its digits, zeros in front included.

Does not own: numbers with more digits than places.
-/

namespace I386.Text

/-- The hexadecimal digits in order. -/
def upperCaseDigits : List Char := "0123456789ABCDEF".toList

def upperCaseDigit (value : Nat) : Char := upperCaseDigits.getD value '0'

/-- The last `places` hexadecimal digits of a number, most significant first. -/
def digitsOf : Nat → Nat → List Char
  | 0, _ => []
  | places + 1, n => digitsOf places (n / 16) ++ [upperCaseDigit (n % 16)]

@[simp] theorem length_digitsOf (places n : Nat) : (digitsOf places n).length = places := by
  induction places generalizing n with
  | zero => rfl
  | succ places inductionHypothesis => simp [digitsOf, inductionHypothesis]

theorem toUpper_digitChar {value : Nat} (small : value < 16) :
    (Nat.digitChar value).toUpper = upperCaseDigit value := by
  have all : ∀ digit : Fin 16,
      (Nat.digitChar digit).toUpper = upperCaseDigit digit := by decide
  exact all ⟨value, small⟩

theorem hexDigits_of_lt {n : Nat} (small : n < 16) : hexDigits n = [upperCaseDigit n] := by
  rw [hexDigits, Nat.toDigits_of_lt_base small, List.map_singleton, toUpper_digitChar small]

theorem hexDigits_of_le {n : Nat} (large : 16 ≤ n) :
    hexDigits n = hexDigits (n / 16) ++ [upperCaseDigit (n % 16)] := by
  rw [hexDigits, Nat.toDigits_of_base_le (by decide) large, List.map_append, List.map_singleton,
    toUpper_digitChar (Nat.mod_lt _ (by decide))]
  rfl

theorem leftpad_append_singleton {α : Type} (places : Nat) (filler last : α) (front : List α) :
    (front ++ [last]).leftpad (places + 1) filler = front.leftpad places filler ++ [last] := by
  simp [List.leftpad]

/-- Zeros in front of nothing are zeros in front of a zero. -/
theorem leftpad_hexDigits_zero (places : Nat) :
    (hexDigits 0).leftpad (places + 1) '0' = [].leftpad (places + 1) '0' := by
  have zero : hexDigits 0 = ['0'] := hexDigits_of_lt (by decide)
  simp [zero, List.leftpad, List.replicate_succ']

/-- A number that fits, with zeros in front, is its digits. -/
theorem leftpad_hexDigits {places n : Nat} (fits : n < 16 ^ (places + 1)) :
    (hexDigits n).leftpad (places + 1) '0' = digitsOf (places + 1) n := by
  induction places generalizing n with
  | zero =>
      have small : n < 16 := by rwa [Nat.zero_add, Nat.pow_one] at fits
      rw [hexDigits_of_lt small, digitsOf, Nat.mod_eq_of_lt small]
      rfl
  | succ places inductionHypothesis =>
      have rest : n / 16 < 16 ^ (places + 1) := by
        rw [Nat.div_lt_iff_lt_mul (by decide), ← Nat.pow_succ]
        exact fits
      rw [digitsOf, ← inductionHypothesis rest]
      by_cases small : n < 16
      · rw [hexDigits_of_lt small, Nat.div_eq_of_lt small, Nat.mod_eq_of_lt small,
          leftpad_hexDigits_zero, ← leftpad_append_singleton, List.nil_append]
      · rw [hexDigits_of_le (by omega), leftpad_append_singleton]

theorem hexPadded_byte (byte : UInt8) :
    hexPadded 2 byte.toNat = String.ofList (digitsOf 2 byte.toNat) :=
  congrArg String.ofList (leftpad_hexDigits byte.toNat_lt)

theorem hexPadded_word (word : UInt32) :
    hexPadded 8 word.toNat = String.ofList (digitsOf 8 word.toNat) :=
  congrArg String.ofList (leftpad_hexDigits word.toNat_lt)

end I386.Text
