import Mathlib.Data.List.Forall2
import I386.Proofs.Digits
import I386.Text.Numeral

/-!
Contract: which texts are numerals, and of which numbers.

Owns:
- characters that are digits of a radix, and the number that digits stand for;
- the hexadecimal digits of either case.

Main statement: a numeral can be read exactly if it is one or more digits after an optional plus
sign and its value is below the bound.

Does not own: why a text is refused.
-/

namespace I386.Text

/-! ## Digits -/

/-- The characters are digits of the radix, with the given values. -/
def AreDigits (radix : Nat) (cs : List Char) (digits : List Nat) : Prop :=
  List.Forall₂ (fun c digit => digitValue? radix c = some digit) cs digits

/-- The value that digits make of a value to which they are appended. -/
def appended (radix start : Nat) (digits : List Nat) : Nat :=
  digits.foldl (fun value digit => value * radix + digit) start

theorem le_appended {radix : Nat} (positive : 0 < radix) (start : Nat) (digits : List Nat) :
    start ≤ appended radix start digits := by
  induction digits generalizing start with
  | nil => exact Nat.le_refl start
  | cons digit rest inductionHypothesis =>
      calc start ≤ start * radix := Nat.le_mul_of_pos_right start positive
        _ ≤ start * radix + digit := Nat.le_add_right _ _
        _ ≤ appended radix (start * radix + digit) rest := inductionHypothesis _

/-- A plus sign is no digit. -/
theorem digitValue?_plus (radix : Nat) : digitValue? radix '+' = none := rfl

/-- Digits and letters are ASCII characters. -/
theorem toNat_lt_of_digitValue? {radix : Nat} {c : Char} {digit : Nat}
    (isDigit : digitValue? radix c = some digit) : c.toNat < 128 := by
  unfold digitValue? at isDigit
  simp only [Option.filter_eq_some_iff] at isDigit
  obtain ⟨isDigit, -⟩ := isDigit
  have upTo (limit : Char) (below : c.val ≤ limit.val) (ascii : limit.toNat < 128) :
      c.toNat < 128 := Nat.lt_of_le_of_lt (UInt32.le_iff_toNat_le.mp below) ascii
  split at isDigit
  · next decimal =>
      have below : c.val ≤ '9'.val := of_decide_eq_true (Bool.and_eq_true_iff.mp decimal).2
      exact upTo '9' below (by decide)
  · split at isDigit
    · next lower =>
        have below : c.val ≤ 'z'.val := of_decide_eq_true (Bool.and_eq_true_iff.mp lower).2
        exact upTo 'z' below (by decide)
    · split at isDigit
      · next upper =>
          have within : c.val ≥ 'A'.val ∧ c.val ≤ 'Z'.val := of_decide_eq_true upper
          exact upTo 'Z' within.2 (by decide)
      · cases isDigit

theorem toNat_upperCaseDigit_lt (value : Nat) : (upperCaseDigit value).toNat < 128 := by
  have all : (upperCaseDigits.all fun digit => digit.toNat < 128) = true := by decide
  unfold upperCaseDigit
  rw [List.getD_eq_getElem?_getD]
  cases found : upperCaseDigits[value]? with
  | none => decide
  | some digit =>
      exact of_decide_eq_true (List.all_eq_true.mp all digit (List.mem_of_getElem? found))

/-- Only letters from `a` to `z` change. -/
theorem toUpper_of_not_ascii {c : Char} (outside : 128 ≤ c.toNat) : c.toUpper = c := by
  unfold Char.toUpper
  refine dif_neg fun lower => ?_
  have below : c.toNat ≤ 'z'.toNat := UInt32.le_iff_toNat_le.mp lower.2
  exact absurd (Nat.lt_of_le_of_lt below (by decide)) (Nat.not_lt.mpr outside)

/-- A hexadecimal digit is one of the sixteen, in either case. -/
theorem digitValue?_hex_iff {c : Char} {digit : Nat} :
    digitValue? 16 c = some digit ↔ digit < 16 ∧ c.toUpper = upperCaseDigit digit := by
  by_cases ascii : c.toNat < 128
  · have all : ∀ code < 128, ∀ value < 16,
        digitValue? 16 (Char.ofNat code) = some value ↔
          (Char.ofNat code).toUpper = upperCaseDigit value := by
      decide +kernel
    have checked := all c.toNat ascii
    rw [Char.ofNat_toNat] at checked
    constructor
    · intro isDigit
      have small : digit < 16 := by
        unfold digitValue? at isDigit
        simpa using (Option.filter_eq_some_iff.mp isDigit).2
      exact ⟨small, (checked digit small).mp isDigit⟩
    · intro given
      exact (checked digit given.1).mpr given.2
  · constructor
    · intro isDigit
      exact absurd (toNat_lt_of_digitValue? isDigit) ascii
    · intro given
      rw [toUpper_of_not_ascii (Nat.not_lt.mp ascii)] at given
      exact absurd (given.2 ▸ toNat_upperCaseDigit_lt digit) ascii

/-! ## Numerals -/

theorem appendDigits_ok_iff {radix bound start value : Nat} {cs : List Char}
    (positive : 0 < radix) (small : start < bound) :
    appendDigits radix bound start cs = .ok value ↔
      ∃ digits, AreDigits radix cs digits ∧ value = appended radix start digits ∧
        value < bound := by
  induction cs generalizing start with
  | nil =>
      constructor
      · rintro ⟨⟩
        exact ⟨[], .nil, rfl, small⟩
      · rintro ⟨digits, ⟨⟩, rfl, -⟩
        rfl
  | cons c rest inductionHypothesis =>
      rw [appendDigits]
      cases isDigit : digitValue? radix c with
      | none =>
          constructor
          · rintro ⟨⟩
          · rintro ⟨digits, areDigits, -⟩
            cases areDigits with
            | cons first others => cases isDigit.symm.trans first
      | some digit =>
          by_cases fits : start * radix + digit < bound
          · simp only [if_pos fits]
            rw [inductionHypothesis fits]
            constructor
            · rintro ⟨digits, areDigits, isValue, isSmall⟩
              exact ⟨digit :: digits, .cons isDigit areDigits, isValue, isSmall⟩
            · rintro ⟨digits, areDigits, isValue, isSmall⟩
              cases areDigits with
              | cons first others =>
                  obtain rfl := Option.some.inj (isDigit.symm.trans first)
                  exact ⟨_, others, isValue, isSmall⟩
          · simp only [if_neg fits]
            constructor
            · rintro ⟨⟩
            · rintro ⟨digits, areDigits, isValue, isSmall⟩
              cases areDigits with
              | @cons _ _ _ others first _ =>
                  obtain rfl := Option.some.inj (isDigit.symm.trans first)
                  have least := le_appended positive (start * radix + digit) others
                  exact absurd (Nat.lt_of_le_of_lt (isValue ▸ least) isSmall) fits

/-- The characters are the digits of the value, at least one. -/
def IsUnsigned (radix value : Nat) (cs : List Char) : Prop :=
  cs ≠ [] ∧ ∃ digits, AreDigits radix cs digits ∧ value = appended radix 0 digits

/-- The characters are a numeral of the value, which may have a plus sign. -/
def IsNumeral (radix value : Nat) (cs : List Char) : Prop :=
  IsUnsigned radix value cs ∨ ∃ body, cs = '+' :: body ∧ IsUnsigned radix value body

theorem AreDigits.ascii {radix : Nat} {cs : List Char} {digits : List Nat}
    (areDigits : AreDigits radix cs digits) : ∀ c ∈ cs, c.toNat < 128 := by
  induction areDigits with
  | nil => simp
  | cons isDigit others inductionHypothesis =>
      exact List.forall_mem_cons.mpr ⟨toNat_lt_of_digitValue? isDigit, inductionHypothesis⟩

theorem IsNumeral.ascii {radix value : Nat} {cs : List Char}
    (numeral : IsNumeral radix value cs) : ∀ c ∈ cs, c.toNat < 128 := by
  obtain ⟨-, digits, areDigits, -⟩ | ⟨body, rfl, -, digits, areDigits, -⟩ := numeral
  · exact areDigits.ascii
  · exact List.forall_mem_cons.mpr ⟨by decide, areDigits.ascii⟩

theorem not_isUnsigned_plus (radix value : Nat) (rest : List Char) :
    ¬IsUnsigned radix value ('+' :: rest) := by
  rintro ⟨-, digits, areDigits, -⟩
  cases areDigits with
  | cons first others => cases (digitValue?_plus radix).symm.trans first

theorem isNumeral_plus_iff {radix value : Nat} {rest : List Char} :
    IsNumeral radix value ('+' :: rest) ↔ IsUnsigned radix value rest := by
  constructor
  · rintro (unsigned | ⟨body, same, isBody⟩)
    · exact absurd unsigned (not_isUnsigned_plus radix value rest)
    · cases same
      exact isBody
  · intro isBody
    exact .inr ⟨rest, rfl, isBody⟩

theorem isNumeral_iff_of_ne_plus {radix value : Nat} {c : Char} {rest : List Char}
    (unsigned : c ≠ '+') :
    IsNumeral radix value (c :: rest) ↔ IsUnsigned radix value (c :: rest) := by
  constructor
  · rintro (isUnsigned | ⟨body, same, -⟩)
    · exact isUnsigned
    · exact absurd (List.cons.inj same).1 unsigned
  · exact .inl

section Numeral

variable {radix bound value : Nat}

theorem appendDigits_zero_ok_iff {cs : List Char} (positive : 0 < radix) (bounded : 0 < bound)
    (isBody : cs ≠ []) :
    appendDigits radix bound 0 cs = .ok value ↔ IsUnsigned radix value cs ∧ value < bound := by
  rw [appendDigits_ok_iff positive bounded]
  constructor
  · rintro ⟨digits, areDigits, isValue, isSmall⟩
    exact ⟨⟨isBody, digits, areDigits, isValue⟩, isSmall⟩
  · rintro ⟨⟨-, digits, areDigits, isValue⟩, isSmall⟩
    exact ⟨digits, areDigits, isValue, isSmall⟩

/-- A numeral can be read exactly if its value is below the bound. -/
theorem readNumeral_ok_iff (positive : 0 < radix) (bounded : 0 < bound) (cs : List Char) :
    readNumeral radix bound cs = .ok value ↔ IsNumeral radix value cs ∧ value < bound := by
  cases cs with
  | nil =>
      constructor
      · rintro ⟨⟩
      · rintro ⟨⟨isBody, -⟩ | ⟨body, ⟨⟩, -⟩, -⟩
        exact absurd rfl isBody
  | cons c rest =>
      by_cases plus : c = '+'
      · subst plus
        rw [isNumeral_plus_iff]
        cases rest with
        | nil =>
            constructor
            · rintro ⟨⟩
            · rintro ⟨⟨isBody, -⟩, -⟩
              exact absurd rfl isBody
        | cons digit others =>
            exact appendDigits_zero_ok_iff positive bounded (List.cons_ne_nil digit others)
      · rw [isNumeral_iff_of_ne_plus plus]
        have read : readNumeral radix bound (c :: rest) =
            appendDigits radix bound 0 (c :: rest) := by
          unfold readNumeral
          split <;> simp_all
        rw [read]
        exact appendDigits_zero_ok_iff positive bounded (List.cons_ne_nil c rest)

end Numeral

end I386.Text
