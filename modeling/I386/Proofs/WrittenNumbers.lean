import Mathlib.Data.List.TakeWhile
import Mathlib.Data.Nat.Digits.Defs
import Mathlib.Tactic.Ring
import I386.Proofs.HexEncoding

/-!
Contract: which texts are numbers as people write them, and of which values.

Owns:
- what remains of a text without the blanks around it;
- digits in positional notation, with zeros in front and in either case;
- the two notations of a number, decimal and hexadecimal, each with an optional plus sign.

Main statement: a text is read as a value exactly if it is a notation of that value with blanks
around it; every other text is refused with a message that quotes it, and every 32-bit value is
read back from its digits.

Does not own: which reason a refusal gives.
-/

namespace I386.Text

/-! ## Blanks around a text -/

/-- The second text is what remains of the first without the blanks at both ends. -/
structure Trims (whole core : List Char) : Prop where
  around : ∃ front back, whole = front ++ core ++ back ∧ ∀ c ∈ front ++ back, isBlank c = true
  starts : ∀ c ∈ core.head?, isBlank c = false
  ends : ∀ c ∈ core.getLast?, isBlank c = false

theorem dropWhile_isBlank_of_head? {cs : List Char} (starts : ∀ c ∈ cs.head?, isBlank c = false) :
    cs.dropWhile isBlank = cs := by
  cases cs with
  | nil => rfl
  | cons c rest =>
      have isText : isBlank c = false := starts c rfl
      simp [isText]

theorem isBlank_of_head?_dropWhile (cs : List Char) :
    ∀ c ∈ (cs.dropWhile isBlank).head?, isBlank c = false := by
  intro c isHead
  have stopped := List.head?_dropWhile_not isBlank cs
  rw [Option.mem_def.mp isHead] at stopped
  exact stopped

/-- The text without the blanks at its end is in front of them. -/
theorem exists_blanks_behind (cs : List Char) :
    ∃ back, cs = (cs.reverse.dropWhile isBlank).reverse ++ back ∧
      ∀ c ∈ back, isBlank c = true := by
  have split := congrArg List.reverse
    (List.takeWhile_append_dropWhile (p := isBlank) (l := cs.reverse))
  rw [List.reverse_append, List.reverse_reverse] at split
  exact ⟨(cs.reverse.takeWhile isBlank).reverse, split.symm, fun c among =>
    List.mem_takeWhile_imp (List.mem_reverse.mp among)⟩

/-- A text has at most one remainder. -/
theorem Trims.trimBlanks_eq {whole core : List Char} (trims : Trims whole core) :
    trimBlanks whole = core := by
  obtain ⟨front, back, rfl, blank⟩ := trims.around
  obtain ⟨frontBlank, backBlank⟩ := List.forall_mem_append.mp blank
  have behind : (front ++ core ++ back).dropWhile isBlank = (core ++ back).dropWhile isBlank := by
    rw [List.append_assoc, List.dropWhile_append_of_pos frontBlank]
  rw [trimBlanks, behind]
  cases core with
  | nil =>
      have allBlank : back.dropWhile isBlank = [] := List.dropWhile_eq_nil_iff.mpr backBlank
      rw [List.nil_append, allBlank]
      rfl
  | cons c rest =>
      have first : (c :: rest ++ back).dropWhile isBlank = c :: rest ++ back :=
        dropWhile_isBlank_of_head? trims.starts
      have last : ((c :: rest).reverse).dropWhile isBlank = (c :: rest).reverse :=
        dropWhile_isBlank_of_head? (by simpa only [List.head?_reverse] using trims.ends)
      have reversedBlank : ∀ c ∈ back.reverse, isBlank c = true := fun c among =>
        backBlank c (List.mem_reverse.mp among)
      rw [first, List.reverse_append, List.dropWhile_append_of_pos reversedBlank, last,
        List.reverse_reverse]

/-- Every text has a remainder. -/
theorem trims_trimBlanks (whole : List Char) : Trims whole (trimBlanks whole) := by
  obtain ⟨back, rest, backBlank⟩ := exists_blanks_behind (whole.dropWhile isBlank)
  have split : whole = whole.takeWhile isBlank ++ trimBlanks whole ++ back :=
    calc whole = whole.takeWhile isBlank ++ whole.dropWhile isBlank :=
          List.takeWhile_append_dropWhile.symm
      _ = whole.takeWhile isBlank ++ (trimBlanks whole ++ back) := congrArg _ rest
      _ = whole.takeWhile isBlank ++ trimBlanks whole ++ back := (List.append_assoc ..).symm
  have frontBlank : ∀ c ∈ whole.takeWhile isBlank, isBlank c = true := fun _ =>
    List.mem_takeWhile_imp
  refine ⟨⟨_, back, split, List.forall_mem_append.mpr ⟨frontBlank, backBlank⟩⟩, ?starts, ?ends⟩
  case starts =>
    intro c isHead
    have isFirst : (trimBlanks whole ++ back).head? = some c := by
      rw [List.head?_append, Option.mem_def.mp isHead, Option.some_or]
    rw [trimBlanks, ← rest] at isFirst
    exact isBlank_of_head?_dropWhile whole c isFirst
  case ends =>
    intro c isLast
    rw [trimBlanks, List.getLast?_reverse] at isLast
    exact isBlank_of_head?_dropWhile _ c isLast

/-! ## Positional notation -/

/-- The character is the digit of the radix, in either case. -/
def IsDigit (radix : Nat) (c : Char) (digit : Nat) : Prop :=
  digit < radix ∧ c.toUpper = upperCaseDigit digit

/-- The characters are one or more digits of the value, most significant first. -/
def Positional (radix value : Nat) (cs : List Char) : Prop :=
  cs ≠ [] ∧ ∃ digits, List.Forall₂ (IsDigit radix) cs digits ∧
    Nat.ofDigits radix digits.reverse = value

theorem digitValue?_iff {radix digit : Nat} {c : Char} (atMost : radix ≤ 16) :
    digitValue? radix c = some digit ↔ IsDigit radix c digit := by
  have narrowed : digitValue? radix c = some digit ↔
      digit < radix ∧ digitValue? 16 c = some digit := by
    unfold digitValue?
    simp only [Option.filter_eq_some_iff, decide_eq_true_eq]
    constructor
    · rintro ⟨isValue, small⟩
      exact ⟨small, isValue, by omega⟩
    · rintro ⟨small, isValue, -⟩
      exact ⟨isValue, small⟩
  rw [narrowed, digitValue?_hex_iff]
  constructor
  · rintro ⟨small, -, upper⟩
    exact ⟨small, upper⟩
  · rintro ⟨small, upper⟩
    exact ⟨small, by omega, upper⟩

/-- Appending digits one by one gives their positional value. -/
theorem appended_eq_ofDigits (radix : Nat) (digits : List Nat) :
    appended radix 0 digits = Nat.ofDigits radix digits.reverse := by
  rw [appended, List.foldl_eq_foldr_reverse, Nat.ofDigits_eq_foldr]
  congr 1
  funext digit value
  rw [Nat.cast_id]
  ring

section Digits

variable {radix value digit : Nat} {c : Char} {cs other : List Char}

theorem isUnsigned_iff_positional (atMost : radix ≤ 16) :
    IsUnsigned radix value cs ↔ Positional radix value cs := by
  simp only [IsUnsigned, Positional, AreDigits, digitValue?_iff atMost, appended_eq_ofDigits,
    eq_comm]

/-- One more digit at the end. -/
theorem Positional.append_digit (number : Positional radix value cs)
    (isDigit : IsDigit radix c digit) :
    Positional radix (digit + radix * value) (cs ++ [c]) := by
  obtain ⟨-, digits, areDigits, isValue⟩ := number
  refine ⟨by simp, digits ++ [digit], ?_, ?_⟩
  · exact List.rel_append areDigits (.cons isDigit .nil)
  · rw [List.reverse_append, List.reverse_singleton, List.singleton_append, Nat.ofDigits_cons,
      isValue]

theorem positional_digit (isDigit : IsDigit radix c digit) : Positional radix digit [c] :=
  ⟨List.cons_ne_nil c [], [digit], .cons isDigit .nil, Nat.ofDigits_singleton⟩

/-- Zeros in front change no value. -/
theorem Positional.zeros_in_front (positive : 0 < radix) (number : Positional radix value cs)
    (zeros : Nat) : Positional radix value (List.replicate zeros '0' ++ cs) := by
  induction zeros with
  | zero => exact number
  | succ zeros inductionHypothesis =>
      obtain ⟨-, digits, areDigits, isValue⟩ := inductionHypothesis
      refine ⟨List.cons_ne_nil '0' _, 0 :: digits, .cons ⟨positive, rfl⟩ areDigits, ?_⟩
      rw [List.reverse_cons, Nat.ofDigits_append, isValue]
      simp

/-- The case of digits changes no value. -/
theorem Positional.of_map_toUpper (number : Positional radix value other)
    (same : cs.map Char.toUpper = other.map Char.toUpper) : Positional radix value cs := by
  obtain ⟨more, digits, areDigits, isValue⟩ := number
  let IsUpper (c : Char) (digit : Nat) : Prop := digit < radix ∧ c = upperCaseDigit digit
  have upper : List.Forall₂ IsUpper (cs.map Char.toUpper) digits := by
    rw [same]
    exact List.forall₂_map_left_iff.mpr areDigits
  have recased : List.Forall₂ (IsDigit radix) cs digits :=
    (List.forall₂_map_left_iff (R := IsUpper)).mp upper
  refine ⟨fun empty => more ?_, digits, recased, isValue⟩
  rw [empty, List.map_nil] at same
  exact List.map_eq_nil_iff.mp same.symm

/-- A number is written with its digits. -/
theorem positional_toDigits (atLeast : 2 ≤ radix) (atMost : radix ≤ 16) (n : Nat) :
    Positional radix n (Nat.toDigits radix n) := by
  have isDigit {digit : Nat} (small : digit < radix) :
      IsDigit radix (Nat.digitChar digit) digit := ⟨small, toUpper_digitChar (by omega)⟩
  induction n using Nat.strongRecOn with
  | ind n inductionHypothesis =>
      by_cases small : n < radix
      · rw [Nat.toDigits_of_lt_base small]
        exact positional_digit (isDigit small)
      · have shorter : n / radix < n := Nat.div_lt_self (by omega) (by omega)
        have number := (inductionHypothesis _ shorter).append_digit
          (isDigit (Nat.mod_lt n (by omega)))
        rw [Nat.mod_add_div] at number
        rw [Nat.toDigits_of_base_le (by omega) (by omega)]
        exact number

end Digits

/-! ## Notations -/

/-- The characters are digits of the value, with or without a plus sign in front. -/
inductive Signed (radix value : Nat) : List Char → Prop
  | plain {cs : List Char} : Positional radix value cs → Signed radix value cs
  | plus {cs : List Char} : Positional radix value cs → Signed radix value ('+' :: cs)

/-- The characters are the value in decimal, or in hexadecimal behind `0x` or `0X`. -/
inductive WritesNumber (value : Nat) : List Char → Prop
  | decimal {cs : List Char} : Signed 10 value cs → WritesNumber value cs
  | hexadecimal {marker : Char} {cs : List Char} :
      marker = 'x' ∨ marker = 'X' → Signed 16 value cs → WritesNumber value ('0' :: marker :: cs)

section Notations

variable {radix value : Nat} {cs : List Char}

theorem isNumeral_iff_signed (atMost : radix ≤ 16) :
    IsNumeral radix value cs ↔ Signed radix value cs := by
  unfold IsNumeral
  simp only [isUnsigned_iff_positional atMost]
  constructor
  · rintro (number | ⟨body, rfl, number⟩)
    · exact .plain number
    · exact .plus number
  · intro signed
    cases signed with
    | plain number => exact .inl number
    | plus number => exact .inr ⟨_, rfl, number⟩

/-- The letters that mark hexadecimal are no decimal digits. -/
theorem not_positional_marker {marker : Char} {rest : List Char}
    (isMarker : marker = 'x' ∨ marker = 'X') :
    ¬Positional 10 value ('0' :: marker :: rest) := by
  rintro ⟨-, digits, areDigits, -⟩
  have noDigit : digitValue? 10 marker = none := by
    obtain rfl | rfl := isMarker <;> decide
  cases areDigits with
  | cons first others =>
      cases others with
      | cons second others =>
          cases noDigit.symm.trans ((digitValue?_iff (by decide)).mpr second)

/-- The radix that is split off is the one of the notation. -/
theorem writesNumber_iff :
    WritesNumber value cs ↔ Signed (splitRadix cs).1 value (splitRadix cs).2 := by
  have unmarked {marker : Char} {rest : List Char} (isMarker : marker = 'x' ∨ marker = 'X') :
      WritesNumber value ('0' :: marker :: rest) ↔ Signed 16 value rest := by
    constructor
    · intro written
      cases written with
      | decimal signed =>
          cases signed with
          | plain number => exact absurd number (not_positional_marker isMarker)
      | hexadecimal _ signed => exact signed
    · exact .hexadecimal isMarker
  fun_cases splitRadix cs with
  | case1 rest => exact unmarked (.inl rfl)
  | case2 rest => exact unmarked (.inr rfl)
  | case3 cs noLower noUpper =>
      constructor
      · intro written
        cases written with
        | decimal signed => exact signed
        | hexadecimal isMarker signed =>
            obtain rfl | rfl := isMarker
            · exact absurd rfl (noLower _)
            · exact absurd rfl (noUpper _)
      · exact .decimal

theorem splitRadix_bounds (cs : List Char) : 0 < (splitRadix cs).1 ∧ (splitRadix cs).1 ≤ 16 := by
  fun_cases splitRadix cs <;> simp

end Notations

/-! ## Reading -/

section Reading

variable {text : String} {written : List Char}

/-- A text is read exactly as the values of which it is a notation. -/
theorem Trims.readNumber_ok_iff (trims : Trims text.toList written) (value : UInt32) :
    readNumber text = .ok value ↔ WritesNumber value.toNat written := by
  obtain ⟨positive, atMost⟩ := splitRadix_bounds written
  have numeral : readNumeral (splitRadix written).1 wordCount (splitRadix written).2 =
      .ok value.toNat ↔ WritesNumber value.toNat written := by
    rw [readNumeral_ok_iff positive (by decide), isNumeral_iff_signed atMost, writesNumber_iff]
    exact and_iff_left value.toNat_lt
  rw [← numeral, readNumber, trims.trimBlanks_eq]
  cases read : readNumeral (splitRadix written).1 wordCount (splitRadix written).2 with
  | error reason => simp [read]
  | ok n =>
      have small : n < wordCount := ((readNumeral_ok_iff positive (by decide) _).mp read).2
      simp only [read, Except.ok.injEq]
      rw [← UInt32.toNat_inj, UInt32.toNat_ofNat_of_lt' small]

/-- A refusal is of the text without the blanks around it. -/
theorem Trims.text_of_readNumber_error (trims : Trims text.toList written) {error : NumberError}
    (refused : readNumber text = .error error) : error.text = written := by
  rw [readNumber, trims.trimBlanks_eq] at refused
  cases read : readNumeral (splitRadix written).1 wordCount (splitRadix written).2 with
  | error reason =>
      simp only [read, Except.error.injEq] at refused
      rw [← refused]
  | ok n => simp [read] at refused

/-- A refusal begins by quoting the text. -/
theorem NumberError.quotes_text (error : NumberError) :
    ("Invalid number: '" ++ String.ofList error.text ++ "'").toList <+: error.message.toList := by
  have closing : "': ".toList = "'".toList ++ ": ".toList := by decide
  refine ⟨": ".toList ++ error.reason.message.toList, ?_⟩
  unfold NumberError.message
  simp only [String.toList_append, closing, List.append_assoc]

/-- A text that is no notation of a 32-bit value is refused. -/
theorem Trims.exists_refusal (trims : Trims text.toList written)
    (unwritten : ∀ value : UInt32, ¬WritesNumber value.toNat written) :
    ∃ error, readNumber text = .error error ∧ error.text = written := by
  cases read : readNumber text with
  | error error => exact ⟨error, rfl, trims.text_of_readNumber_error read⟩
  | ok value => exact absurd ((trims.readNumber_ok_iff value).mp read) (unwritten value)

end Reading

/-! ## Numbers with blanks around them -/

theorem IsDigit.not_blank {radix digit : Nat} {c : Char} (isDigit : IsDigit radix c digit)
    (atMost : radix ≤ 16) : isBlank c = false := by
  have noneBlank : (hexCharacters.all fun c => !isBlank c) = true := by decide
  have small : digit < 16 := Nat.lt_of_lt_of_le isDigit.1 atMost
  have among : c ∈ hexCharacters := mem_hexCharacters_of_toUpper small isDigit.2
  exact (Bool.not_eq_true' _).mp (List.all_eq_true.mp noneBlank c among)

theorem Positional.not_blank {radix value : Nat} {cs : List Char}
    (number : Positional radix value cs) (atMost : radix ≤ 16) : ∀ c ∈ cs, isBlank c = false := by
  obtain ⟨-, digits, areDigits, -⟩ := number
  induction areDigits with
  | nil => exact List.forall_mem_nil _
  | cons isDigit others inductionHypothesis =>
      exact List.forall_mem_cons.mpr ⟨isDigit.not_blank atMost, inductionHypothesis⟩

theorem Signed.not_blank {radix value : Nat} {cs : List Char} (signed : Signed radix value cs)
    (atMost : radix ≤ 16) : ∀ c ∈ cs, isBlank c = false := by
  cases signed with
  | plain number => exact number.not_blank atMost
  | plus number => exact List.forall_mem_cons.mpr ⟨by decide, number.not_blank atMost⟩

theorem WritesNumber.not_blank {value : Nat} {cs : List Char} (writes : WritesNumber value cs) :
    ∀ c ∈ cs, isBlank c = false := by
  cases writes with
  | decimal signed => exact signed.not_blank (by decide)
  | hexadecimal isMarker signed =>
      have markers : ∀ c, c = 'x' ∨ c = 'X' → isBlank c = false := by
        rintro c (rfl | rfl) <;> decide
      exact List.forall_mem_cons.mpr ⟨by decide,
        List.forall_mem_cons.mpr ⟨markers _ isMarker, signed.not_blank (by decide)⟩⟩

/-- What writes a number is read as that number, with any blanks around it. -/
theorem readNumber_of_writes {value : UInt32} {front written back : List Char}
    (writes : WritesNumber value.toNat written) (blank : ∀ c ∈ front ++ back, isBlank c = true) :
    readNumber (String.ofList (front ++ written ++ back)) = .ok value := by
  have trims : Trims (String.ofList (front ++ written ++ back)).toList written := by
    rw [String.toList_ofList]
    exact ⟨⟨front, back, rfl, blank⟩,
      fun c isHead => writes.not_blank c (List.mem_of_mem_head? isHead),
      fun c isLast => writes.not_blank c (List.mem_of_getLast? isLast)⟩
  exact (trims.readNumber_ok_iff value).mpr writes

theorem writesNumber_toDigits (value zeros : Nat) :
    WritesNumber value (List.replicate zeros '0' ++ Nat.toDigits 10 value) :=
  .decimal (.plain ((positional_toDigits (by decide) (by decide) value).zeros_in_front
    (by decide) zeros))

theorem writesNumber_hexDigits {value zeros : Nat} {marker : Char} {digits : List Char}
    (isMarker : marker = 'x' ∨ marker = 'X')
    (upper : digits.map Char.toUpper = List.replicate zeros '0' ++ hexDigits value) :
    WritesNumber value ('0' :: marker :: digits) := by
  have number : Positional 16 value (List.replicate zeros '0' ++ Nat.toDigits 16 value) :=
    (positional_toDigits (by decide) (by decide) value).zeros_in_front (by decide) zeros
  refine .hexadecimal isMarker (.plain (number.of_map_toUpper ?_))
  rw [upper, List.map_append, List.map_replicate]
  rfl

/-- A text is read exactly as the values that it writes, apart from the blanks around it. Every
other text is refused with a message that begins by quoting it. Hence every 32-bit value is read
back from its decimal and from its hexadecimal digits, with zeros in front, in either case and
with any blanks around them. -/
theorem readNumber_grammar :
    (∀ text : String, ∃ written, Trims text.toList written ∧
      (∀ other, Trims text.toList other → other = written) ∧
      (∀ value : UInt32, readNumber text = .ok value ↔ WritesNumber value.toNat written) ∧
      ((∀ value : UInt32, ¬WritesNumber value.toNat written) →
        ∃ error, readNumber text = .error error ∧
          ("Invalid number: '" ++ String.ofList written ++ "'").toList <+: error.message.toList)) ∧
    (∀ (value : UInt32) (zeros : Nat) (front back : List Char),
      (∀ c ∈ front ++ back, isBlank c = true) →
        readNumber (String.ofList
          (front ++ (List.replicate zeros '0' ++ Nat.toDigits 10 value.toNat) ++ back)) =
            .ok value ∧
        ∀ marker digits, marker = 'x' ∨ marker = 'X' →
          digits.map Char.toUpper = List.replicate zeros '0' ++ hexDigits value.toNat →
            readNumber (String.ofList (front ++ ('0' :: marker :: digits) ++ back)) =
              .ok value) := by
  constructor
  · intro text
    have trims := trims_trimBlanks text.toList
    refine ⟨trimBlanks text.toList, trims, fun other => ?_, trims.readNumber_ok_iff,
      fun unwritten => ?_⟩
    · exact fun trimsOther => trimsOther.trimBlanks_eq.symm
    · obtain ⟨error, refused, same⟩ := trims.exists_refusal unwritten
      exact ⟨error, refused, same ▸ error.quotes_text⟩
  · intro value zeros front back blank
    refine ⟨readNumber_of_writes (writesNumber_toDigits value.toNat zeros) blank, ?_⟩
    intro marker digits isMarker upper
    exact readNumber_of_writes (writesNumber_hexDigits isMarker upper) blank

/-- The largest value is read, with a zero in front, digits of both cases and blanks outside
ASCII; one more is refused. -/
theorem readNumber_grammar_largest :
    readNumber "\u3000\t0X0fFfFfFfF\u00a0" = .ok 0xFFFFFFFF ∧
      ∃ error, readNumber "4294967296\n" = .error error ∧
        "Invalid number: '4294967296'".toList <+: error.message.toList := by
  constructor
  · have upper : "0fFfFfFfF".toList.map Char.toUpper =
        List.replicate 1 '0' ++ hexDigits (0xFFFFFFFF : UInt32).toNat := by decide
    have blank : ∀ c ∈ ['\u3000', '\t'] ++ ['\u00a0'], isBlank c = true :=
      List.all_eq_true.mp (by decide)
    have read := readNumber_grammar.2 0xFFFFFFFF 1 ['\u3000', '\t'] ['\u00a0'] blank
    exact read.2 'X' _ (.inr rfl) upper
  · obtain ⟨written, -, unique, accepted, refused⟩ := readNumber_grammar.1 "4294967296\n"
    have trimmed : trimBlanks "4294967296\n".toList = "4294967296".toList := by decide
    have trims : Trims "4294967296\n".toList "4294967296".toList :=
      trimmed ▸ trims_trimBlanks _
    obtain rfl := unique _ trims
    have tooLarge : readNumber "4294967296\n" = .error ⟨"4294967296".toList, .tooLarge⟩ := rfl
    have unwritten : ∀ value : UInt32, ¬WritesNumber value.toNat "4294967296".toList := by
      intro value writes
      cases tooLarge.symm.trans ((accepted value).mpr writes)
    exact refused unwritten

end I386.Text
