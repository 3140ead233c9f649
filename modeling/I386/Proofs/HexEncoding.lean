import I386.Proofs.HexPairs

/-!
Contract: bytes written as two hexadecimal digits each, and reading them back.

Owns:
- the encoding of bytes, and texts in which its digits stand in order, in either case and with
  blanks and commas anywhere;
- the characters of texts from which bytes can be read.

Main statements:
- the encoding of bytes is read back in every layout, and two texts one after the other are read
  as the bytes of both;
- a text without a plus sign is read only as the bytes whose encoding it is, up to case.

Does not own: how the digits of a pair make a byte.
-/

namespace I386.Text

/-! ## Encoding -/

/-- The hexadecimal digits of bytes, two for each. -/
def hexEncoding (bytes : List UInt8) : List Char :=
  bytes.flatMap fun byte => digitsOf 2 byte.toNat

/-- The hexadecimal digits of either case. -/
def hexCharacters : List Char := "0123456789abcdefABCDEF".toList

theorem hexEncoding_cons (byte : UInt8) (bytes : List UInt8) :
    hexEncoding (byte :: bytes) =
      upperCaseDigit (byte.toNat / 16) :: upperCaseDigit (byte.toNat % 16) ::
        hexEncoding bytes := by
  show digitsOf 2 byte.toNat ++ hexEncoding bytes = _
  rw [digitsOf_two byte.toNat_lt]
  rfl

theorem exists_digit_of_mem_hexEncoding {bytes : List UInt8} {c : Char}
    (among : c ∈ hexEncoding bytes) : ∃ value < 16, c = upperCaseDigit value := by
  induction bytes with
  | nil => cases among
  | cons byte bytes inductionHypothesis =>
      have small := byte.toNat_lt
      rw [hexEncoding_cons] at among
      obtain high | among := List.mem_cons.mp among
      · exact ⟨byte.toNat / 16, by omega, high⟩
      · obtain low | among := List.mem_cons.mp among
        · exact ⟨byte.toNat % 16, by omega, low⟩
        · exact inductionHypothesis among

theorem mem_hexCharacters_of_toUpper {c : Char} {value : Nat} (small : value < 16)
    (upper : c.toUpper = upperCaseDigit value) : c ∈ hexCharacters := by
  have all : ∀ code < 128, ∀ value < 16,
      (Char.ofNat code).toUpper = upperCaseDigit value → Char.ofNat code ∈ hexCharacters := by
    decide +kernel
  have ascii := toNat_lt_of_digitValue? (digitValue?_hex_iff.mpr ⟨small, upper⟩)
  have member := all c.toNat ascii value small
  rw [Char.ofNat_toNat] at member
  exact member upper

/-! ## Spelled bytes and their encoding -/

/-- A text in either case of an encoding spells the bytes. -/
theorem spells_of_map_toUpper {bytes : List UInt8} {cs : List Char}
    (same : cs.map Char.toUpper = hexEncoding bytes) : Spells bytes cs := by
  induction bytes generalizing cs with
  | nil =>
      obtain rfl := List.map_eq_nil_iff.mp same
      exact .nil
  | cons byte bytes inductionHypothesis =>
      rw [hexEncoding_cons] at same
      obtain ⟨first, others, rfl, high, same⟩ := List.map_eq_cons_iff.mp same
      obtain ⟨second, rest, rfl, low, same⟩ := List.map_eq_cons_iff.mp same
      have pair : SpellsByte byte first second :=
        .inl ((eq_digitsOf_two_iff byte.toNat_lt).mpr ⟨high, low⟩)
      exact .cons pair (inductionHypothesis same)

/-- Without a plus sign, a text that spells bytes is their encoding, up to case. -/
theorem Spells.map_toUpper {bytes : List UInt8} {cs : List Char} (spelled : Spells bytes cs)
    (unsigned : '+' ∉ cs) : cs.map Char.toUpper = hexEncoding bytes := by
  induction spelled with
  | nil => rfl
  | @cons byte bytes first second rest pair others inductionHypothesis =>
      obtain ⟨notFirst, unsigned⟩ := List.ne_and_not_mem_of_not_mem_cons unsigned
      obtain ⟨-, unsigned⟩ := List.ne_and_not_mem_of_not_mem_cons unsigned
      obtain digits | ⟨isPlus, -⟩ := pair
      · calc (first :: second :: rest).map Char.toUpper
          _ = [first.toUpper, second.toUpper] ++ rest.map Char.toUpper := rfl
          _ = digitsOf 2 byte.toNat ++ hexEncoding bytes := by
            rw [digits, inductionHypothesis unsigned]
      · exact absurd isPlus.symm notFirst

theorem SpellsByte.mem_hexCharacters {byte : UInt8} {first second : Char}
    (pair : SpellsByte byte first second) :
    (first ∈ hexCharacters ∨ first = '+') ∧ second ∈ hexCharacters := by
  have small := byte.toNat_lt
  have highSmall : byte.toNat / 16 < 16 := by omega
  have lowSmall : byte.toNat % 16 < 16 := by omega
  obtain digits | ⟨isPlus, digits⟩ := pair
  · obtain ⟨high, low⟩ := (eq_digitsOf_two_iff small).mp digits
    exact ⟨.inl (mem_hexCharacters_of_toUpper highSmall high),
      mem_hexCharacters_of_toUpper lowSmall low⟩
  · obtain ⟨-, low⟩ := (eq_digitsOf_two_iff small).mp digits
    exact ⟨.inr isPlus, mem_hexCharacters_of_toUpper lowSmall low⟩

theorem Spells.mem_hexCharacters {bytes : List UInt8} {cs : List Char}
    (spelled : Spells bytes cs) : ∀ c ∈ cs, c ∈ hexCharacters ∨ c = '+' := by
  induction spelled with
  | nil => exact nofun
  | cons pair others inductionHypothesis =>
      obtain ⟨first, second⟩ := pair.mem_hexCharacters
      exact List.forall_mem_cons.mpr
        ⟨first, List.forall_mem_cons.mpr ⟨.inl second, inductionHypothesis⟩⟩

theorem Spells.length_eq {bytes : List UInt8} {cs : List Char} (spelled : Spells bytes cs) :
    cs.length = 2 * bytes.length := by
  induction spelled with
  | nil => rfl
  | cons pair others inductionHypothesis =>
      simp only [List.length_cons, inductionHypothesis]
      omega

/-! ## Layouts -/

/-- The text is the digits in order, in either case, with blanks and commas anywhere. -/
inductive LaidOut : List Char → List Char → Prop where
  | nil : LaidOut [] []
  | separator {digits text : List Char} {c : Char} (separates : isBlank c = true ∨ c = ',')
      (others : LaidOut digits text) : LaidOut digits (c :: text)
  | digit {digits text : List Char} {digit c : Char} (inCase : c = digit ∨ c = digit.toLower)
      (others : LaidOut digits text) : LaidOut (digit :: digits) (c :: text)

theorem isHexSeparator_iff {c : Char} :
    isHexSeparator c = true ↔ isBlank c = true ∨ c = ',' := by
  simp [isHexSeparator]

/-- A digit in either case is paired, and is that digit. -/
theorem written_digit {digit c : Char} (isDigit : ∃ value < 16, digit = upperCaseDigit value)
    (inCase : c = digit ∨ c = digit.toLower) :
    isHexSeparator c = false ∧ c.toUpper = digit := by
  have all : ∀ value < 16,
      (isHexSeparator (upperCaseDigit value) = false ∧
        (upperCaseDigit value).toUpper = upperCaseDigit value) ∧
      isHexSeparator (upperCaseDigit value).toLower = false ∧
        (upperCaseDigit value).toLower.toUpper = upperCaseDigit value := by
    decide +kernel
  obtain ⟨value, small, rfl⟩ := isDigit
  obtain rfl | rfl := inCase
  · exact (all value small).1
  · exact (all value small).2

/-- What is paired of a layout is the digits, up to case. -/
theorem LaidOut.paired_toUpper {digits text : List Char} (laidOut : LaidOut digits text)
    (areDigits : ∀ digit ∈ digits, ∃ value < 16, digit = upperCaseDigit value) :
    (text.filter fun c => !isHexSeparator c).map Char.toUpper = digits := by
  induction laidOut with
  | nil => rfl
  | @separator digits text c separates others inductionHypothesis =>
      have dropped : isHexSeparator c = true := isHexSeparator_iff.mpr separates
      rw [List.filter_cons_of_neg (by simp [dropped])]
      exact inductionHypothesis areDigits
  | @digit digits text digit c inCase others inductionHypothesis =>
      obtain ⟨isDigit, areDigits⟩ := List.forall_mem_cons.mp areDigits
      obtain ⟨kept, upper⟩ := written_digit isDigit inCase
      rw [List.filter_cons_of_pos (by simp [kept]), List.map_cons, upper,
        inductionHypothesis areDigits]

/-- The encoding of bytes is read back in every layout, and two texts one after the other are
read as the bytes of both. -/
theorem readHexBytes_laidOut :
    (∀ (bytes : List UInt8) (text : String), LaidOut (hexEncoding bytes) text.toList →
      readHexBytes text = .ok bytes.toArray) ∧
    ∀ (left right : String) (first second : Array UInt8),
      readHexBytes left = .ok first → readHexBytes right = .ok second →
        readHexBytes (left ++ right) = .ok (first ++ second) := by
  constructor
  · intro bytes text laidOut
    have upper := laidOut.paired_toUpper fun _ => exists_digit_of_mem_hexEncoding
    exact readHexBytes_ok_iff.mpr (spells_of_map_toUpper upper)
  · intro left right first second leftRead rightRead
    have leftSpelled := readHexBytes_ok_iff.mp leftRead
    have rightSpelled := readHexBytes_ok_iff.mp rightRead
    rw [readHexBytes_ok_iff, paired_append, Array.toList_append]
    exact leftSpelled.append rightSpelled

/-- A wide blank stands between the digits of a byte; a comma and a line break between bytes. -/
theorem readHexBytes_laidOut_imul :
    (LaidOut (hexEncoding [0x0F, 0xAF]) "0\u3000f,\nAf".toList ∧
      readHexBytes "0\u3000f,\nAf" = .ok #[0x0F, 0xAF]) ∧
    (readHexBytes "0\u3000f" = .ok #[0x0F] ∧ readHexBytes ",\nAf" = .ok #[0xAF] ∧
      readHexBytes ("0\u3000f" ++ ",\nAf") = .ok (#[0x0F] ++ #[0xAF])) := by
  have encoding : hexEncoding [0x0F, 0xAF] = ['0', 'F', 'A', 'F'] := rfl
  have laidOut : LaidOut (hexEncoding [0x0F, 0xAF]) "0\u3000f,\nAf".toList := by
    rw [encoding]
    exact .digit (.inl rfl) (.separator (.inl rfl) (.digit (.inr rfl) (.separator (.inr rfl)
      (.separator (.inl rfl) (.digit (.inl rfl) (.digit (.inr rfl) .nil))))))
  have left : readHexBytes "0\u3000f" = .ok #[0x0F] := rfl
  have right : readHexBytes ",\nAf" = .ok #[0xAF] := rfl
  exact ⟨⟨laidOut, readHexBytes_laidOut.1 _ _ laidOut⟩, left, right,
    readHexBytes_laidOut.2 _ _ _ _ left right⟩

/-! ## Accepted texts -/

/-- Bytes are read from what spells them, and nothing but hexadecimal digits and plus signs is
accepted. Without a plus sign only the encoding of the bytes is, two digits for each. -/
theorem readHexBytes_accepts (text : String) (bytes : Array UInt8) :
    (readHexBytes text = .ok bytes ↔ Spells bytes.toList (paired text)) ∧
    (readHexBytes text = .ok bytes → ∀ c ∈ paired text, c ∈ hexCharacters ∨ c = '+') ∧
    ('+' ∉ text.toList →
      (readHexBytes text = .ok bytes ↔
        (paired text).length = 2 * bytes.size ∧ (∀ c ∈ paired text, c ∈ hexCharacters) ∧
          (paired text).map Char.toUpper = hexEncoding bytes.toList)) := by
  refine ⟨readHexBytes_ok_iff, fun read => (readHexBytes_ok_iff.mp read).mem_hexCharacters,
    fun unsigned => ?_⟩
  have noPlus : '+' ∉ paired text := fun among => unsigned (List.mem_filter.mp among).1
  constructor
  · intro read
    have spelled := readHexBytes_ok_iff.mp read
    refine ⟨spelled.length_eq, fun c among => ?_, spelled.map_toUpper noPlus⟩
    obtain isHex | rfl := spelled.mem_hexCharacters c among
    · exact isHex
    · exact absurd among noPlus
  · rintro ⟨-, -, same⟩
    exact readHexBytes_ok_iff.mpr (spells_of_map_toUpper same)

/-- A text without a plus sign is read as the bytes of its encoding. -/
theorem readHexBytes_accepts_imul :
    readHexBytes "0f AF" = .ok #[0x0F, 0xAF] ∧ '+' ∉ "0f AF".toList ∧
      (paired "0f AF").map Char.toUpper = hexEncoding [0x0F, 0xAF] := by
  have read : readHexBytes "0f AF" = .ok #[0x0F, 0xAF] := rfl
  have unsigned : '+' ∉ "0f AF".toList := by decide
  have encoded := (readHexBytes_accepts "0f AF" #[0x0F, 0xAF]).2.2 unsigned
  exact ⟨read, unsigned, (encoded.mp read).2.2⟩

/-- A plus sign and one digit are read as a byte, although a plus sign is no digit and the
encoding of that byte has a zero in its place. -/
theorem readHexBytes_accepts_plus :
    readHexBytes "+5" = .ok #[5] ∧ '+' ∈ paired "+5" ∧ '+' ∉ hexCharacters ∧
      (paired "+5").map Char.toUpper ≠ hexEncoding [5] := by
  have characters : paired "+5" = ['+', '5'] := rfl
  have encoding : hexEncoding [5] = ['0', '5'] := rfl
  refine ⟨rfl, ?_, by decide, ?_⟩
  · rw [characters]
    exact List.mem_cons_self
  · rw [characters, encoding]
    decide

end I386.Text
