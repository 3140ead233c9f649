import I386.Proofs.Numerals
import I386.Text.HexBytes

/-!
Contract: reading characters in pairs as bytes.

Owns:
- the two characters that are read as a byte, and characters that spell bytes pair by pair;
- boundaries of pairs that fall inside a character.

Main statements:
- bytes are read from a text exactly if what is left of it without blanks and commas spells them;
- reading stops without a reason to show exactly if pairs that can be read come first and the next
  one ends inside a character or behind the text.

A plus sign is read in place of a leading zero.

Does not own: which reason a refusal shows.
-/

namespace I386.Text

/-! ## Pairs -/

/-- The characters are the digits of a byte in either case, or a plus sign stands for the first. -/
def SpellsByte (byte : UInt8) (first second : Char) : Prop :=
  [first.toUpper, second.toUpper] = digitsOf 2 byte.toNat ∨
    first = '+' ∧ ['0', second.toUpper] = digitsOf 2 byte.toNat

/-- The characters spell the bytes in order, two for each. -/
inductive Spells : List UInt8 → List Char → Prop where
  | nil : Spells [] []
  | cons {byte : UInt8} {bytes : List UInt8} {first second : Char} {rest : List Char}
      (pair : SpellsByte byte first second) (others : Spells bytes rest) :
      Spells (byte :: bytes) (first :: second :: rest)

theorem upperCaseDigit_inj {first second : Nat} (firstSmall : first < 16)
    (secondSmall : second < 16) (same : upperCaseDigit first = upperCaseDigit second) :
    first = second := by
  have all : ∀ one < 16, ∀ two < 16, upperCaseDigit one = upperCaseDigit two → one = two := by
    decide +kernel
  exact all first firstSmall second secondSmall same

theorem digitsOf_two {value : Nat} (small : value < 256) :
    digitsOf 2 value = [upperCaseDigit (value / 16), upperCaseDigit (value % 16)] := by
  have high : value / 16 % 16 = value / 16 := Nat.mod_eq_of_lt (by omega)
  show [upperCaseDigit (value / 16 % 16), upperCaseDigit (value % 16)] = _
  rw [high]

theorem eq_digitsOf_two_iff {value : Nat} (small : value < 256) {high low : Char} :
    [high, low] = digitsOf 2 value ↔
      high = upperCaseDigit (value / 16) ∧ low = upperCaseDigit (value % 16) := by
  rw [digitsOf_two small]
  simp

/-- One digit is that of a byte below sixteen. -/
theorem isUnsigned_one_iff {value : Nat} (small : value < 256) {c : Char} :
    IsUnsigned 16 value [c] ↔ ['0', c.toUpper] = digitsOf 2 value := by
  rw [eq_digitsOf_two_iff small]
  constructor
  · rintro ⟨-, digits, areDigits, rfl⟩
    cases areDigits with
    | @cons _ digit _ _ isDigit none =>
        cases none
        obtain ⟨below, upper⟩ := digitValue?_hex_iff.mp isDigit
        have quotient : (0 * 16 + digit) / 16 = 0 := by omega
        have remainder : (0 * 16 + digit) % 16 = digit := by omega
        show '0' = upperCaseDigit ((0 * 16 + digit) / 16) ∧
          c.toUpper = upperCaseDigit ((0 * 16 + digit) % 16)
        rw [quotient, remainder]
        exact ⟨rfl, upper⟩
  · rintro ⟨high, low⟩
    have zero : 0 = value / 16 := upperCaseDigit_inj (by decide) (by omega) high
    have isDigit : digitValue? 16 c = some (value % 16) :=
      digitValue?_hex_iff.mpr ⟨by omega, low⟩
    refine ⟨List.cons_ne_nil _ _, [value % 16], .cons isDigit .nil, ?_⟩
    show value = 0 * 16 + value % 16
    omega

/-- Two digits are those of a byte. -/
theorem isUnsigned_two_iff {value : Nat} (small : value < 256) {first second : Char} :
    IsUnsigned 16 value [first, second] ↔
      [first.toUpper, second.toUpper] = digitsOf 2 value := by
  rw [eq_digitsOf_two_iff small]
  constructor
  · rintro ⟨-, digits, areDigits, rfl⟩
    cases areDigits with
    | @cons _ high _ _ isHigh others =>
        cases others with
        | @cons _ low _ _ isLow none =>
            cases none
            obtain ⟨highBelow, highUpper⟩ := digitValue?_hex_iff.mp isHigh
            obtain ⟨lowBelow, lowUpper⟩ := digitValue?_hex_iff.mp isLow
            have quotient : ((0 * 16 + high) * 16 + low) / 16 = high := by omega
            have remainder : ((0 * 16 + high) * 16 + low) % 16 = low := by omega
            show first.toUpper = upperCaseDigit (((0 * 16 + high) * 16 + low) / 16) ∧
              second.toUpper = upperCaseDigit (((0 * 16 + high) * 16 + low) % 16)
            rw [quotient, remainder]
            exact ⟨highUpper, lowUpper⟩
  · rintro ⟨high, low⟩
    have isHigh : digitValue? 16 first = some (value / 16) :=
      digitValue?_hex_iff.mpr ⟨by omega, high⟩
    have isLow : digitValue? 16 second = some (value % 16) :=
      digitValue?_hex_iff.mpr ⟨by omega, low⟩
    refine ⟨List.cons_ne_nil _ _, [value / 16, value % 16], .cons isHigh (.cons isLow .nil), ?_⟩
    show value = (0 * 16 + value / 16) * 16 + value % 16
    omega

/-- Any characters are read as a byte exactly if they are a numeral of it. -/
theorem readPair_ok_iff {pair : List Char} {byte : UInt8} :
    readPair pair = .ok byte ↔ IsNumeral 16 byte.toNat pair := by
  have numeral (value : Nat) : readNumeral 16 0x100 pair = .ok value ↔ _ :=
    readNumeral_ok_iff (by decide) (by decide) pair
  unfold readPair
  cases read : readNumeral 16 0x100 pair with
  | error reason =>
      constructor
      · rintro ⟨⟩
      · intro isNumeral
        cases read.symm.trans ((numeral _).mpr ⟨isNumeral, byte.toNat_lt⟩)
  | ok value =>
      obtain ⟨isNumeral, small⟩ := (numeral value).mp read
      have toNat : (UInt8.ofNat value).toNat = value := by
        rw [UInt8.toNat_ofNat']
        exact Nat.mod_eq_of_lt small
      constructor
      · rintro ⟨⟩
        rwa [toNat]
      · intro other
        have same := read.symm.trans ((numeral _).mpr ⟨other, byte.toNat_lt⟩)
        obtain rfl := Except.ok.inj same
        exact congrArg Except.ok UInt8.ofNat_toNat

/-- Two characters are read as the byte that they spell. -/
theorem readPair_two_iff {first second : Char} {byte : UInt8} :
    readPair [first, second] = .ok byte ↔ SpellsByte byte first second := by
  rw [readPair_ok_iff]
  by_cases plus : first = '+'
  · subst plus
    rw [isNumeral_plus_iff, isUnsigned_one_iff byte.toNat_lt]
    constructor
    · intro spelled
      exact .inr ⟨rfl, spelled⟩
    · rintro (digits | ⟨-, spelled⟩)
      · have unsigned := (isUnsigned_two_iff byte.toNat_lt).mpr digits
        exact absurd unsigned (not_isUnsigned_plus _ _ _)
      · exact spelled
  · rw [isNumeral_iff_of_ne_plus plus, isUnsigned_two_iff byte.toNat_lt]
    constructor
    · exact .inl
    · rintro (digits | ⟨isPlus, -⟩)
      · exact digits
      · exact absurd isPlus plus

theorem utf8Size_of_ascii {c : Char} (ascii : c.toNat < 128) : c.utf8Size = 1 :=
  Char.utf8Size_eq_one_iff.mpr (UInt32.le_iff_toNat_le.mpr (Nat.le_of_lt_succ ascii))

theorem utf8Size_of_readPair_ok {pair : List Char} {byte : UInt8}
    (read : readPair pair = .ok byte) {c : Char} (among : c ∈ pair) : c.utf8Size = 1 :=
  utf8Size_of_ascii ((readPair_ok_iff.mp read).ascii c among)

/-- A pair that is no byte is refused with a reason. -/
theorem exists_refusal_of_readPair {pair : List Char} {fault : HexFault}
    (failed : readPair pair = .error fault) : ∃ error, fault = .refused error := by
  unfold readPair at failed
  split at failed
  · cases failed
  · cases failed
    exact ⟨_, rfl⟩

/-! ## Pairs ahead -/

theorem utf8Length_append (front back : List Char) :
    utf8Length (front ++ back) = utf8Length front + utf8Length back := by
  induction front with
  | nil => exact (Nat.zero_add _).symm
  | cons c rest inductionHypothesis =>
      show c.utf8Size + utf8Length (rest ++ back) = c.utf8Size + utf8Length rest + utf8Length back
      rw [inductionHypothesis, Nat.add_assoc]

/-- The first two bytes of the text are whole characters. -/
def PairAhead (cs : List Char) : Prop :=
  ∃ front back, cs = front ++ back ∧ utf8Length front = 2

/-- A pair is one character of two bytes, or two characters of one. -/
theorem pairAhead_cons_iff {first : Char} {rest : List Char} :
    PairAhead (first :: rest) ↔
      first.utf8Size = 2 ∨
        first.utf8Size = 1 ∧ ∃ second others, rest = second :: others ∧
          second.utf8Size = 1 := by
  constructor
  · rintro ⟨front, back, isFront, two⟩
    -- A character has at least one byte, so no more than two fit.
    match front with
    | [] => cases two
    | [one] =>
        cases isFront
        exact .inl two
    | _ :: other :: more =>
        cases isFront
        have total : first.utf8Size + (other.utf8Size + utf8Length more) = 2 := two
        have := first.utf8Size_pos
        have := other.utf8Size_pos
        exact .inr ⟨by omega, other, more ++ back, rfl, by omega⟩
  · rintro (two | ⟨one, second, others, rfl, other⟩)
    · exact ⟨[first], rest, rfl, two⟩
    · refine ⟨[first, second], others, rfl, ?_⟩
      show first.utf8Size + (second.utf8Size + 0) = 2
      omega

/-- Where no pair is ahead, reading stops. -/
theorem readPairs_of_not_pairAhead (bytes : Array UInt8) {cs : List Char} (more : cs ≠ [])
    (cut : ¬PairAhead cs) : readPairs bytes cs = .error .splitsCharacter := by
  -- Reading looks at a pair only if one is ahead; the last three cases find none.
  fun_cases readPairs bytes cs with
  | case1 => exact absurd rfl more
  | case2 first rest two => exact absurd (pairAhead_cons_iff.mpr (.inl two)) cut
  | case3 first rest two => exact absurd (pairAhead_cons_iff.mpr (.inl two)) cut
  | case4 first _ one second rest other =>
      exact absurd (pairAhead_cons_iff.mpr (.inr ⟨one, second, rest, rfl, other⟩)) cut
  | case5 first _ one second rest other =>
      exact absurd (pairAhead_cons_iff.mpr (.inr ⟨one, second, rest, rfl, other⟩)) cut
  | case6 => rfl
  | case7 => rfl
  | case8 => rfl

/-! ## Spelled bytes -/

theorem SpellsByte.utf8Size {byte : UInt8} {first second : Char}
    (spelled : SpellsByte byte first second) : first.utf8Size = 1 ∧ second.utf8Size = 1 := by
  have read := readPair_two_iff.mpr spelled
  exact ⟨utf8Size_of_readPair_ok read (by simp), utf8Size_of_readPair_ok read (by simp)⟩

theorem Spells.utf8Length_eq {bytes : List UInt8} {cs : List Char} (spelled : Spells bytes cs) :
    utf8Length cs = 2 * bytes.length := by
  induction spelled with
  | nil => rfl
  | @cons byte bytes first second rest pair others inductionHypothesis =>
      obtain ⟨one, other⟩ := pair.utf8Size
      show first.utf8Size + (second.utf8Size + utf8Length rest) = 2 * (bytes.length + 1)
      omega

theorem Spells.append {left right : List UInt8} {first second : List Char}
    (leftSpelled : Spells left first) (rightSpelled : Spells right second) :
    Spells (left ++ right) (first ++ second) := by
  induction leftSpelled with
  | nil => exact rightSpelled
  | cons pair others inductionHypothesis => exact .cons pair inductionHypothesis

/-- Spelled bytes are read, and reading goes on behind them. -/
theorem readPairs_append {more : List UInt8} {read : List Char} (spelled : Spells more read)
    (bytes : Array UInt8) (rest : List Char) :
    readPairs bytes (read ++ rest) = readPairs (bytes ++ more.toArray) rest := by
  induction spelled generalizing bytes with
  | nil => simp
  | @cons byte others first second tail pair _ inductionHypothesis =>
      obtain ⟨one, other⟩ := pair.utf8Size
      have next : readPairs bytes (first :: second :: (tail ++ rest)) =
          readPairs (bytes.push byte) (tail ++ rest) := by
        rw [readPairs]
        simp only [one, other, readPair_two_iff.mpr pair]
        rfl
      calc readPairs bytes (first :: second :: tail ++ rest)
        _ = readPairs (bytes.push byte) (tail ++ rest) := next
        _ = readPairs (bytes.push byte ++ others.toArray) rest := inductionHypothesis _
        _ = readPairs (bytes ++ (byte :: others).toArray) rest := by simp

/-- After bytes that can be read, the next pair ends inside a character or behind the text. -/
def CutsCharacter (cs : List Char) : Prop :=
  ∃ bytes read rest, cs = read ++ rest ∧ Spells bytes read ∧ rest ≠ [] ∧ ¬PairAhead rest

theorem CutsCharacter.here {cs : List Char} (more : cs ≠ []) (cut : ¬PairAhead cs) :
    CutsCharacter cs :=
  ⟨[], [], cs, rfl, .nil, more, cut⟩

theorem CutsCharacter.behind {byte : UInt8} {first second : Char} {rest : List Char}
    (pair : SpellsByte byte first second) (cuts : CutsCharacter rest) :
    CutsCharacter (first :: second :: rest) := by
  obtain ⟨bytes, read, others, rfl, spelled, more, cut⟩ := cuts
  exact ⟨byte :: bytes, first :: second :: read, others, rfl, .cons pair spelled, more, cut⟩

theorem readPairs_of_spells {more : List UInt8} {cs : List Char} (spelled : Spells more cs)
    (bytes : Array UInt8) : readPairs bytes cs = .ok (bytes ++ more.toArray) := by
  have read := readPairs_append spelled bytes []
  rwa [List.append_nil] at read

theorem readPairs_of_cutsCharacter {cs : List Char} (cuts : CutsCharacter cs)
    (bytes : Array UInt8) : readPairs bytes cs = .error .splitsCharacter := by
  obtain ⟨more, read, rest, rfl, spelled, isRest, cut⟩ := cuts
  rw [readPairs_append spelled]
  exact readPairs_of_not_pairAhead _ isRest cut

/-- A text spells bytes, or is cut inside a character, or has a pair that is refused. -/
theorem readPairs_cases (bytes : Array UInt8) (cs : List Char) :
    (∃ more, Spells more cs) ∨ CutsCharacter cs ∨
      ∃ error, readPairs bytes cs = .error (.refused error) := by
  fun_induction readPairs bytes cs with
  | case1 bytes => exact .inl ⟨[], .nil⟩
  | case2 bytes first rest two byte read =>
      -- What can be read is ASCII, so no pair of one character can be.
      have one := utf8Size_of_readPair_ok read (List.mem_singleton.mpr rfl)
      cases one.symm.trans two
  | case3 bytes first rest two fault failed =>
      obtain ⟨error, rfl⟩ := exists_refusal_of_readPair failed
      exact .inr (.inr ⟨error, rfl⟩)
  | case4 bytes first _ one second rest other byte read inductionHypothesis =>
      have pair := readPair_two_iff.mp read
      obtain ⟨more, spelled⟩ | cuts | refused := inductionHypothesis
      · exact .inl ⟨byte :: more, .cons pair spelled⟩
      · exact .inr (.inl (cuts.behind pair))
      · exact .inr (.inr refused)
  | case5 bytes first _ one second rest other fault failed =>
      obtain ⟨error, rfl⟩ := exists_refusal_of_readPair failed
      exact .inr (.inr ⟨error, rfl⟩)
  | case6 bytes first notTwo one second rest other =>
      have cut : ¬PairAhead (first :: second :: rest) := by
        simp [pairAhead_cons_iff, notTwo, other]
      exact .inr (.inl (.here (List.cons_ne_nil _ _) cut))
  | case7 bytes first notTwo one =>
      have cut : ¬PairAhead [first] := by simp [pairAhead_cons_iff, notTwo]
      exact .inr (.inl (.here (List.cons_ne_nil _ _) cut))
  | case8 bytes first rest notTwo notOne =>
      have cut : ¬PairAhead (first :: rest) := by simp [pairAhead_cons_iff, notTwo, notOne]
      exact .inr (.inl (.here (List.cons_ne_nil _ _) cut))

/-! ## Texts -/

/-- The characters of a text that are paired. -/
def paired (text : String) : List Char :=
  text.toList.filter fun c => !isHexSeparator c

theorem paired_append (first second : String) :
    paired (first ++ second) = paired first ++ paired second := by
  unfold paired
  rw [String.toList_append, List.filter_append]

theorem readHexBytes_of_odd {text : String} (odd : utf8Length (paired text) % 2 = 1) :
    readHexBytes text = .error (.refused (.oddLength text)) :=
  if_pos odd

theorem readHexBytes_of_even {text : String} (even : utf8Length (paired text) % 2 = 0) :
    readHexBytes text = readPairs #[] (paired text) :=
  if_neg (by unfold paired at even; omega)

theorem readHexBytes_of_spells {text : String} {bytes : List UInt8}
    (spelled : Spells bytes (paired text)) : readHexBytes text = .ok bytes.toArray := by
  have even : utf8Length (paired text) % 2 = 0 := by
    rw [spelled.utf8Length_eq]
    exact Nat.mul_mod_right 2 _
  rw [readHexBytes_of_even even, readPairs_of_spells spelled, Array.empty_append]

theorem readHexBytes_of_cutsCharacter {text : String} (even : utf8Length (paired text) % 2 = 0)
    (cuts : CutsCharacter (paired text)) : readHexBytes text = .error .splitsCharacter :=
  (readHexBytes_of_even even).trans (readPairs_of_cutsCharacter cuts #[])

/-- A text spells bytes, or is cut inside a character, or is refused. -/
theorem readHexBytes_cases (text : String) :
    (∃ bytes, Spells bytes (paired text)) ∨
      utf8Length (paired text) % 2 = 0 ∧ CutsCharacter (paired text) ∨
      ∃ error, readHexBytes text = .error (.refused error) := by
  obtain even | odd := Nat.mod_two_eq_zero_or_one (utf8Length (paired text))
  · obtain spelled | cuts | ⟨error, refused⟩ := readPairs_cases #[] (paired text)
    · exact .inl spelled
    · exact .inr (.inl ⟨even, cuts⟩)
    · exact .inr (.inr ⟨error, (readHexBytes_of_even even).trans refused⟩)
  · exact .inr (.inr ⟨_, readHexBytes_of_odd odd⟩)

/-- Bytes are read exactly from a text that spells them. -/
theorem readHexBytes_ok_iff {text : String} {bytes : Array UInt8} :
    readHexBytes text = .ok bytes ↔ Spells bytes.toList (paired text) := by
  constructor
  · intro read
    obtain ⟨found, spelled⟩ | ⟨even, cuts⟩ | ⟨error, refused⟩ := readHexBytes_cases text
    · obtain rfl := Except.ok.inj ((readHexBytes_of_spells spelled).symm.trans read)
      exact spelled
    · cases (readHexBytes_of_cutsCharacter even cuts).symm.trans read
    · cases refused.symm.trans read
  · exact readHexBytes_of_spells

/-- Reading stops without a reason exactly where an even text is cut inside a character. -/
theorem readHexBytes_splits_iff {text : String} :
    readHexBytes text = .error .splitsCharacter ↔
      utf8Length (paired text) % 2 = 0 ∧ CutsCharacter (paired text) := by
  constructor
  · intro stops
    obtain ⟨found, spelled⟩ | cuts | ⟨error, refused⟩ := readHexBytes_cases text
    · cases (readHexBytes_of_spells spelled).symm.trans stops
    · exact cuts
    · cases refused.symm.trans stops
  · rintro ⟨even, cuts⟩
    exact readHexBytes_of_cutsCharacter even cuts

/-- The outcome is bytes, or a refusal with a reason to show. -/
def Answered (outcome : Except HexFault (Array UInt8)) : Prop :=
  (∃ bytes, outcome = .ok bytes) ∨ ∃ error, outcome = .error (.refused error)

theorem answered_iff {outcome : Except HexFault (Array UInt8)} :
    Answered outcome ↔ outcome ≠ .error .splitsCharacter := by
  match outcome with
  | .ok bytes => exact iff_of_true (.inl ⟨bytes, rfl⟩) (nofun)
  | .error (.refused error) => exact iff_of_true (.inr ⟨error, rfl⟩) (nofun)
  | .error .splitsCharacter =>
      refine iff_of_false ?_ (fun differs => differs rfl)
      rintro (⟨bytes, ⟨⟩⟩ | ⟨error, ⟨⟩⟩)

/-- No boundary falls inside a character where all characters have one byte. -/
theorem not_cutsCharacter {cs : List Char} (even : utf8Length cs % 2 = 0)
    (narrow : ∀ c ∈ cs, c.utf8Size = 1) : ¬CutsCharacter cs := by
  rintro ⟨bytes, read, rest, rfl, spelled, more, cut⟩
  apply cut
  rw [utf8Length_append, spelled.utf8Length_eq] at even
  match rest with
  | [] => exact absurd rfl more
  | [last] =>
      have one : last.utf8Size = 1 := narrow last (by simp)
      have odd : utf8Length [last] = 1 := by simp [utf8Length, one]
      omega
  | first :: second :: others =>
      exact pairAhead_cons_iff.mpr
        (.inr ⟨narrow first (by simp), second, others, rfl, narrow second (by simp)⟩)

/-- Reading answers exactly if no boundary of a pair falls inside a character of a text with an
even number of bytes, hence wherever all paired characters have one byte. -/
theorem readHexBytes_answers_iff (text : String) :
    (Answered (readHexBytes text) ↔
      (utf8Length (paired text) % 2 = 0 → ¬CutsCharacter (paired text))) ∧
    ((∀ c ∈ paired text, c.utf8Size = 1) → Answered (readHexBytes text)) := by
  have exactly : Answered (readHexBytes text) ↔
      (utf8Length (paired text) % 2 = 0 → ¬CutsCharacter (paired text)) := by
    rw [answered_iff, ne_eq, readHexBytes_splits_iff, not_and]
  refine ⟨exactly, fun narrow => exactly.mpr fun even => ?_⟩
  exact not_cutsCharacter even narrow

/-- A comma and a wide blank are no paired characters. -/
theorem readHexBytes_answers_blank :
    (∀ c ∈ paired "0f,\u3000g6", c.utf8Size = 1) ∧ Answered (readHexBytes "0f,\u3000g6") := by
  have narrow : ∀ c ∈ paired "0f,\u3000g6", c.utf8Size = 1 := by
    have characters : paired "0f,\u3000g6" = ['0', 'f', 'g', '6'] := rfl
    rw [characters]
    simp only [List.forall_mem_cons]
    exact ⟨rfl, rfl, rfl, rfl, nofun⟩
  exact ⟨narrow, (readHexBytes_answers_iff _).2 narrow⟩

/-- The first pair ends inside the first character, which has three bytes. -/
theorem readHexBytes_cuts_character :
    readHexBytes "€a" = .error .splitsCharacter ∧ ¬Answered (readHexBytes "€a") := by
  have stops : readHexBytes "€a" = .error .splitsCharacter := rfl
  exact ⟨stops, fun answered => answered_iff.mp answered stops⟩

end I386.Text
