import I386.Toml.Document
import Mathlib.Data.List.Forall2

/-!
Contract: the reader of documents reads plain headers and assignments.

Owns:
- what a composed reader takes, from what its parts take or fail at;
- bare keys, truth values and decimal numbers without superfluous zeros;
- lines with the header of a table, or with the assignment of such a value to a bare key.

Main statement: a text of such lines is read as them.

Does not own: other keys, values and lines, and what lines mean.
-/

namespace I386.Toml

namespace Reader

/-! ## Composed readers -/

section Composed

variable {α β : Type} {item : Reader α} {text rest : List Char} {value : α}

theorem bind_taken (taken : item text = some (value, rest)) (next : α → Reader β) :
    (item >>= next) text = next value rest := by
  show (item text >>= fun result => next result.1 result.2) = _
  rw [taken]
  rfl

theorem bind_failed (failed : item text = none) (next : α → Reader β) :
    (item >>= next) text = none := by
  show (item text >>= fun result => next result.1 result.2) = _
  rw [failed]
  rfl

/-- What is taken one after the other. -/
theorem exists_of_bind {next : α → Reader β} {result : β × List Char}
    (taken : (item >>= next) text = some result) :
    ∃ value rest, item text = some (value, rest) ∧ next value rest = some result := by
  cases read : item text with
  | none =>
      rw [bind_failed read] at taken
      cases taken
  | some first =>
      rw [bind_taken read] at taken
      exact ⟨first.1, first.2, rfl, taken⟩

/-- It fails if what follows fails whatever was taken. -/
theorem bind_failed_of_next {next : α → Reader β}
    (fails : ∀ value rest, item text = some (value, rest) → next value rest = none) :
    (item >>= next) text = none := by
  cases read : item text with
  | none => exact bind_failed read next
  | some result =>
      rw [bind_taken read]
      exact fails _ _ read

theorem map_taken (taken : item text = some (value, rest)) (f : α → β) :
    (f <$> item) text = some (f value, rest) := by
  show (item text >>= fun result => some (f result.1, result.2)) = _
  rw [taken]
  rfl

theorem map_failed (failed : item text = none) (f : α → β) : (f <$> item) text = none := by
  show (item text >>= fun result => some (f result.1, result.2)) = _
  rw [failed]
  rfl

theorem orElse_taken (taken : item text = some (value, rest)) (other : Reader α) :
    (item <|> other) text = some (value, rest) := by
  show (item text <|> other text) = _
  rw [taken]
  rfl

theorem orElse_failed (failed : item text = none) (other : Reader α) :
    (item <|> other) text = other text := by
  show (item text <|> other text) = _
  rw [failed]
  rfl

theorem optional_failed (failed : item text = none) : optional item text = some (none, text) := by
  rw [optional, orElse_failed (map_failed failed some)]
  rfl

/-- The reader takes the text as the value, whatever follows. -/
def Takes (item : Reader α) (front : List Char) (value : α) : Prop :=
  ∀ rest, item (front ++ rest) = some (value, rest)

/-- What is there one after the other is taken as often as it is there. -/
theorem manyUpTo_taken {fronts : List (List Char)} {values : List α}
    (taken : List.Forall₂ item.Takes fronts values) (stops : item rest = none) {bound : Nat}
    (enough : fronts.length ≤ bound) :
    manyUpTo item bound (fronts.flatten ++ rest) = some (values, rest) := by
  induction taken generalizing bound with
  | nil =>
      cases bound with
      | zero => rfl
      | succ bound =>
          rw [manyUpTo, List.flatten_nil, List.nil_append, orElse_failed (bind_failed stops _)]
          rfl
  | cons first others inductionHypothesis =>
      cases bound with
      | zero => cases enough
      | succ bound =>
          have more := inductionHypothesis (Nat.le_of_succ_le_succ enough)
          rw [manyUpTo, List.flatten_cons, List.append_assoc]
          refine orElse_taken ?_ _
          rw [bind_taken (first _), bind_taken more]
          rfl

/-- A reader that stops somewhere takes no empty text. -/
theorem Takes.ne_nil {front : List Char} (taken : item.Takes front value)
    (stops : item rest = none) : front ≠ [] := by
  rintro rfl
  cases (taken rest).symm.trans stops

/-- A text is long enough for all that is taken from it. -/
theorem length_le_of_takes {fronts : List (List Char)} {values : List α}
    (taken : List.Forall₂ item.Takes fronts values) (stops : item rest = none) :
    fronts.length ≤ fronts.flatten.length := by
  induction taken with
  | nil => exact Nat.le_refl 0
  | @cons front value fronts values first others inductionHypothesis =>
      have something : 0 < front.length := List.length_pos_of_ne_nil (first.ne_nil stops)
      rw [List.length_cons, List.flatten_cons, List.length_append]
      omega

theorem many_taken {fronts : List (List Char)} {values : List α}
    (taken : List.Forall₂ item.Takes fronts values) (stops : item rest = none) :
    many item (fronts.flatten ++ rest) = some (values, rest) := by
  refine manyUpTo_taken taken stops ?_
  rw [List.length_append]
  exact Nat.le_add_right_of_le (length_le_of_takes taken stops)

/-- Characters are taken one by one. -/
theorem many_chars {item : Reader Char} {front : List Char}
    (taken : ∀ c ∈ front, item.Takes [c] c) (stops : item rest = none) :
    many item (front ++ rest) = some (front, rest) := by
  have singles : List.Forall₂ item.Takes (front.map fun c => [c]) front := by
    rw [List.forall₂_map_left_iff, List.forall₂_same]
    exact taken
  have whole : (front.map fun c => [c]).flatten = front := List.flatMap_singleton' front
  have all := many_taken singles stops
  rwa [whole] at all

end Composed

/-! ## Characters -/

section Characters

variable {accepts : Char → Bool} {c expected : Char} {rest : List Char}

theorem charOf_taken (accepted : accepts c = true) : (charOf accepts).Takes [c] c := by
  intro rest
  simp [charOf, accepted]

theorem charOf_failed (refused : ∀ c ∈ rest.head?, accepts c = false) :
    charOf accepts rest = none := by
  cases rest with
  | nil => rfl
  | cons c rest => simp [charOf, refused c rfl]

theorem char_taken (c : Char) (rest : List Char) : char c (c :: rest) = some ((), rest) := by
  have taken : charOf (· == c) (c :: rest) = some (c, rest) :=
    charOf_taken (beq_self_eq_true c) rest
  rw [char, bind_taken taken]
  rfl

theorem char_failed (other : ∀ c ∈ rest.head?, c ≠ expected) : char expected rest = none := by
  refine bind_failed (charOf_failed fun c isHead => ?_) _
  exact beq_eq_false_iff_ne.mpr (other c isHead)

theorem word_failed (other : ∀ c ∈ rest.head?, c ≠ expected) (more : List Char) :
    word (expected :: more) rest = none :=
  bind_failed (char_failed other) _

end Characters

end Reader

open Reader

/-! ## Blanks and line ends -/

section Blanks

variable {text behind : List Char}

/-- No blanks are skipped in front of anything else. -/
theorem spaces_none (solid : ∀ c ∈ text.head?, isSpace c = false) :
    spaces text = some ((), text) := by
  cases text with
  | nil => rfl
  | cons c rest => simp [spaces, solid c rfl]

/-- Neither of the two blanks comes first. -/
theorem solid_of_ne (noSpace : ∀ c ∈ text.head?, c ≠ ' ') (noTab : ∀ c ∈ text.head?, c ≠ '\t') :
    ∀ c ∈ text.head?, isSpace c = false := by
  intro c isHead
  simp [isSpace, noSpace c isHead, noTab c isHead]

/-- A statement may end its line right away. -/
theorem restOfLine_taken (rest : List Char) :
    restOfLine ('\n' :: rest) = some ((), rest) := by
  have noComment : comment ('\n' :: rest) = none :=
    bind_failed (char_failed (by rintro _ ⟨⟩; decide)) _
  rw [restOfLine, bind_taken (spaces_none (by rintro _ ⟨⟩; decide)),
    bind_taken (optional_failed noComment)]
  exact orElse_taken (orElse_taken (char_taken '\n' rest) _) _

end Blanks

/-! ## Bare keys -/

section Keys

/-- The characters can stand as a key without quotes. -/
def IsBareKey (name : List Char) : Prop :=
  name ≠ [] ∧ name.all isBareKeyChar = true

instance (name : List Char) : Decidable (IsBareKey name) :=
  inferInstanceAs (Decidable (_ ∧ _))

variable {name behind : List Char}

/-- What begins with a bare key begins with one of its characters. -/
theorem IsBareKey.head (isKey : IsBareKey name) (behind : List Char) :
    ∀ c ∈ (name ++ behind).head?, isBareKeyChar c = true := by
  obtain ⟨nonempty, all⟩ := isKey
  obtain ⟨first, more, rfl⟩ := List.exists_cons_of_ne_nil nonempty
  rintro _ ⟨⟩
  exact List.all_eq_true.mp all first List.mem_cons_self

theorem IsBareKey.head_ne (isKey : IsBareKey name) {other : Char}
    (isOther : isBareKeyChar other = false) (behind : List Char) :
    ∀ c ∈ (name ++ behind).head?, c ≠ other := by
  rintro c isHead rfl
  cases isOther.symm.trans (isKey.head behind c isHead)

theorem IsBareKey.solid (isKey : IsBareKey name) (behind : List Char) :
    ∀ c ∈ (name ++ behind).head?, isSpace c = false :=
  solid_of_ne (isKey.head_ne rfl behind) (isKey.head_ne rfl behind)

theorem quotedLine_failed {style : QuoteStyle} {text : List Char}
    (unquoted : ∀ c ∈ text.head?, c ≠ style.quote) : quotedLine style text = none :=
  bind_failed (char_failed unquoted) _

theorem simpleKey_bare (isKey : IsBareKey name)
    (ends : ∀ c ∈ behind.head?, isBareKeyChar c = false) :
    simpleKey (name ++ behind) = some (String.ofList name, behind) := by
  have noBasic : quotedLine basicStyle (name ++ behind) = none :=
    quotedLine_failed (isKey.head_ne rfl behind)
  have noLiteral : quotedLine literalStyle (name ++ behind) = none :=
    quotedLine_failed (isKey.head_ne rfl behind)
  obtain ⟨first, more, rfl⟩ := List.exists_cons_of_ne_nil isKey.1
  obtain ⟨isFirst, isMore⟩ := List.forall_mem_cons.mp (List.all_eq_true.mp isKey.2)
  have one : charOf isBareKeyChar (first :: more ++ behind) = some (first, more ++ behind) :=
    charOf_taken isFirst (more ++ behind)
  have others : many (charOf isBareKeyChar) (more ++ behind) = some (more, behind) :=
    many_chars (fun c among => charOf_taken (isMore c among)) (charOf_failed ends)
  have bare : many1 (charOf isBareKeyChar) (first :: more ++ behind) =
      some (first :: more, behind) := by
    rw [many1, bind_taken one, bind_taken others]
    rfl
  rw [simpleKey, orElse_failed noBasic, orElse_failed noLiteral, map_taken bare]

/-- A bare key alone, with the blanks behind it. -/
theorem key_bare (isKey : IsBareKey name) (ends : ∀ c ∈ behind.head?, isBareKeyChar c = false)
    (alone : ∀ c ∈ (behind.dropWhile isSpace).head?, c ≠ '.') :
    key (name ++ behind) = some ([String.ofList name], behind.dropWhile isSpace) := by
  let part : Reader String := do
    spaces
    let part ← simpleKey
    spaces
    return part
  have one : part (name ++ behind) = some (String.ofList name, behind.dropWhile isSpace) := by
    show (spaces >>= _) _ = _
    rw [bind_taken (spaces_none (isKey.solid behind)), bind_taken (simpleKey_bare isKey ends)]
    rfl
  have noMore : many (do char '.'; part) (behind.dropWhile isSpace) =
      some ([], behind.dropWhile isSpace) :=
    many_taken .nil (bind_failed (char_failed alone) _)
  have parts : separated1 part (char '.') (name ++ behind) =
      some ([String.ofList name], behind.dropWhile isSpace) := by
    rw [separated1, bind_taken one, bind_taken noMore]
    rfl
  show (separated1 part (char '.') >>= _) _ = _
  rw [bind_taken parts]
  rfl

end Keys

/-! ## Values -/

section Values

variable {text rest : List Char}

/-- The text is a value in front of a line end, without blanks around it. -/
def IsValue (text : List Char) (node : Node) : Prop :=
  ∀ rest, spaces (text ++ '\n' :: rest) = some ((), text ++ '\n' :: rest) ∧
    value (text ++ '\n' :: rest) = some (node, '\n' :: rest)

theorem isValue_true : IsValue ['t', 'r', 'u', 'e'] (.scalar (.boolean true)) :=
  fun _ => ⟨rfl, rfl⟩

theorem isValue_false : IsValue ['f', 'a', 'l', 's', 'e'] (.scalar (.boolean false)) :=
  fun _ => ⟨rfl, rfl⟩

/-! ## Decimal numbers -/

/-- The digits of a number have no zero in front, unless it is zero. -/
theorem head?_toDigits {n : Nat} (positive : 0 < n) : ∀ c ∈ (Nat.toDigits 10 n).head?, c ≠ '0' := by
  induction n using Nat.strongRecOn with
  | ind n inductionHypothesis =>
      by_cases small : n < 10
      · have none : ∀ digit : Fin 10, 0 < digit.val → Nat.digitChar digit ≠ '0' := by decide
        rw [Nat.toDigits_of_lt_base small]
        rintro _ ⟨⟩
        exact none ⟨n, small⟩ positive
      · have front := inductionHypothesis (n / 10) (by omega) (by omega)
        intro c isHead
        rw [Nat.toDigits_of_base_le (by decide) (by omega),
          List.head?_append_of_ne_nil _ Nat.toDigits_ne_nil] at isHead
        exact front c isHead

theorem hexDigitValue_of_isDigit {c : Char} (isDigit : c.isDigit = true) :
    hexDigitValue c = c.toNat - '0'.toNat := by
  rw [hexDigitValue, if_pos isDigit]

theorem digitsValue_toDigits (n : Nat) : digitsValue 10 (Nat.toDigits 10 n) = n := by
  have same (digits : List Char) (start : Nat) (all : ∀ c ∈ digits, c.isDigit = true) :
      digits.foldl (fun value c => value * 10 + hexDigitValue c) start =
        Nat.ofDigitChars 10 digits start := by
    induction digits generalizing start with
    | nil => rfl
    | cons c rest inductionHypothesis =>
        obtain ⟨isDigit, others⟩ := List.forall_mem_cons.mp all
        rw [List.foldl_cons, inductionHypothesis _ others, Nat.ofDigitChars_cons,
          hexDigitValue_of_isDigit isDigit, Nat.mul_comm]
  rw [digitsValue, same _ 0 fun c => Nat.isDigit_of_mem_toDigits (by decide) (by decide),
    Nat.ofDigitChars_ten_toDigits]

/-- The characters are decimal digits, and the first is a zero only if it is the last. -/
structure IsDecimal (digits : List Char) : Prop where
  nonempty : digits ≠ []
  all : ∀ c ∈ digits, c.isDigit = true
  zero : ∀ others, digits = '0' :: others → others = []

theorem isDecimal_toDigits (n : Nat) : IsDecimal (Nat.toDigits 10 n) := by
  refine ⟨Nat.toDigits_ne_nil, fun c => Nat.isDigit_of_mem_toDigits (by decide) (by decide), ?_⟩
  intro others split
  obtain rfl | positive := Nat.eq_zero_or_pos n
  · rw [Nat.toDigits_zero] at split
    exact (List.cons.inj split).2.symm
  · exact absurd rfl (head?_toDigits positive '0' (by rw [split]; rfl))

/-- The text is what is left of digits in front of a line end. -/
def DigitsLeft (rest text : List Char) : Prop :=
  ∃ digits, (∀ c ∈ digits, c.isDigit = true) ∧ text = digits ++ '\n' :: rest

namespace DigitsLeft

variable {rest text left : List Char}

theorem head_ne (digitsLeft : DigitsLeft rest text) {other : Char}
    (noDigit : other.isDigit = false) (noEnd : other ≠ '\n') : ∀ c ∈ text.head?, c ≠ other := by
  obtain ⟨digits, all, rfl⟩ := digitsLeft
  cases digits with
  | nil =>
      rintro _ ⟨⟩
      exact noEnd.symm
  | cons c others =>
      rintro _ ⟨⟩ rfl
      cases noDigit.symm.trans (all _ List.mem_cons_self)

theorem of_charOf (digitsLeft : DigitsLeft rest text) {c : Char}
    (read : charOf Char.isDigit text = some (c, left)) : DigitsLeft rest left := by
  obtain ⟨digits, all, rfl⟩ := digitsLeft
  cases digits with
  | nil => cases read
  | cons first others =>
      obtain ⟨isDigit, isOther⟩ := List.forall_mem_cons.mp all
      cases (charOf_taken isDigit (others ++ '\n' :: rest)).symm.trans read
      exact ⟨others, isOther, rfl⟩

theorem of_times (digitsLeft : DigitsLeft rest text) {count : Nat} {taken : List Char}
    (read : times (charOf Char.isDigit) count text = some (taken, left)) :
    DigitsLeft rest left := by
  induction count generalizing text taken with
  | zero =>
      cases read
      exact digitsLeft
  | succ count inductionHypothesis =>
      obtain ⟨first, behind, one, more⟩ := exists_of_bind read
      obtain ⟨others, rest, others, same⟩ := exists_of_bind more
      cases same
      exact inductionHypothesis (digitsLeft.of_charOf one) others

theorem of_fixedNumber (digitsLeft : DigitsLeft rest text) {count least greatest value : Nat}
    (read : fixedNumber count least greatest text = some (value, left)) :
    DigitsLeft rest left := by
  obtain ⟨digits, behind, taken, bounded⟩ := exists_of_bind read
  dsimp only at bounded
  split at bounded
  · cases bounded
    exact digitsLeft.of_times taken
  · cases bounded

/-- Digits alone are no date and no time. -/
theorem dateTime_failed (digitsLeft : DigitsLeft rest text) : dateTime text = none := by
  have noDate : date text = none := by
    refine bind_failed_of_next fun year left read => bind_failed (char_failed ?_) _
    exact (digitsLeft.of_fixedNumber read).head_ne rfl (by decide)
  have noTime : time text = none := by
    refine bind_failed_of_next fun hour left read => bind_failed (char_failed ?_) _
    exact (digitsLeft.of_fixedNumber read).head_ne rfl (by decide)
  rw [dateTime, orElse_failed (bind_failed noDate _)]
  exact bind_failed noTime _

theorem quotedValue_failed (digitsLeft : DigitsLeft rest text) {style : QuoteStyle}
    (noDigit : style.quote.isDigit = false) (noEnd : style.quote ≠ '\n') :
    quotedValue style text = none := by
  have unquoted := digitsLeft.head_ne noDigit noEnd
  have noBlock : tripleDelimiter style text = none := bind_failed (char_failed unquoted) _
  rw [quotedValue, noBlock, quotedLine_failed unquoted]
  rfl

theorem sign_none (digitsLeft : DigitsLeft rest text) : sign text = some (false, text) := by
  have unsigned : charOf (fun c => c == '+' || c == '-') text = none := by
    refine charOf_failed fun c isHead => ?_
    have noPlus : c ≠ '+' := digitsLeft.head_ne rfl (by decide) c isHead
    have noMinus : c ≠ '-' := digitsLeft.head_ne rfl (by decide) c isHead
    simp [noPlus, noMinus]
  rw [sign, bind_taken (optional_failed unsigned)]
  rfl

theorem word_failed (digitsLeft : DigitsLeft rest text) {first : Char} (more : List Char)
    (noDigit : first.isDigit = false) (noEnd : first ≠ '\n') :
    word (first :: more) text = none :=
  Reader.word_failed (digitsLeft.head_ne noDigit noEnd) more

/-- Digits alone have no parts. -/
theorem value_eq (digitsLeft : DigitsLeft rest text) :
    value text = (Node.scalar <$> scalar) text := by
  have noArray (item : Reader Node) : array item text = none :=
    bind_failed (char_failed (digitsLeft.head_ne rfl (by decide))) _
  have noTable (item : Reader Node) : inlineTable item text = none :=
    bind_failed (char_failed (digitsLeft.head_ne rfl (by decide))) _
  show (array _ <|> inlineTable _ <|> _) text = _
  rw [orElse_failed (noArray _), orElse_failed (noTable _)]

/-- Digits alone can be a number only. -/
theorem scalar_eq (digitsLeft : DigitsLeft rest text) :
    scalar text = (decimalFloat <|> integer) text := by
  have noText : Toml.text text = none := by
    refine bind_failed ?_ _
    rw [orElse_failed (digitsLeft.quotedValue_failed rfl (by decide))]
    exact digitsLeft.quotedValue_failed rfl (by decide)
  have noBoolean : boolean text = none := by
    rw [boolean, orElse_failed (bind_failed (digitsLeft.word_failed _ rfl (by decide)) _)]
    exact bind_failed (digitsLeft.word_failed _ rfl (by decide)) _
  have noNamed : namedFloat text = none := by
    rw [namedFloat, bind_taken digitsLeft.sign_none]
    refine bind_failed ?_ _
    rw [orElse_failed (digitsLeft.word_failed _ rfl (by decide))]
    exact digitsLeft.word_failed _ rfl (by decide)
  rw [scalar, orElse_failed noText, orElse_failed noBoolean,
    orElse_failed digitsLeft.dateTime_failed]
  show (decimalFloat text <|> (namedFloat <|> integer) text) = (decimalFloat text <|> integer text)
  rw [orElse_failed noNamed]

end DigitsLeft

section Decimal

variable {digits : List Char}

theorem IsDecimal.digitsLeft (isDecimal : IsDecimal digits) (rest : List Char) :
    DigitsLeft rest (digits ++ '\n' :: rest) :=
  ⟨digits, isDecimal.all, rfl⟩

theorem digitGroups_taken (nonempty : digits ≠ []) (all : ∀ c ∈ digits, c.isDigit = true)
    (rest : List Char) :
    digitGroups Char.isDigit (digits ++ '\n' :: rest) = some (digits, '\n' :: rest) := by
  obtain ⟨first, more, rfl⟩ := List.exists_cons_of_ne_nil nonempty
  obtain ⟨isDigit, isMore⟩ := List.forall_mem_cons.mp all
  have one : charOf Char.isDigit (first :: more ++ '\n' :: rest) =
      some (first, more ++ '\n' :: rest) := charOf_taken isDigit _
  have others : many (charOf Char.isDigit <|> (do char '_'; charOf Char.isDigit))
      (more ++ '\n' :: rest) = some (more, '\n' :: rest) :=
    many_chars (fun c among rest => orElse_taken (charOf_taken (isMore c among) rest) _) rfl
  rw [digitGroups, bind_taken one, bind_taken others]
  rfl

theorem IsDecimal.decimalDigits_taken (isDecimal : IsDecimal digits) (rest : List Char) :
    decimalDigits (digits ++ '\n' :: rest) = some (digits, '\n' :: rest) := by
  obtain ⟨first, more, rfl⟩ := List.exists_cons_of_ne_nil isDecimal.nonempty
  by_cases zero : first = '0'
  · subst zero
    rw [isDecimal.zero more rfl]
    rfl
  · have grouped : decimalDigits (first :: more ++ '\n' :: rest) =
        digitGroups Char.isDigit (first :: more ++ '\n' :: rest) := by
      unfold decimalDigits
      split
      · next same => exact absurd (List.cons.inj same).1 zero
      · rfl
    rw [grouped, digitGroups_taken isDecimal.nonempty isDecimal.all]

/-- Digits in front of a line end are no float. -/
theorem IsDecimal.decimalFloat_failed (isDecimal : IsDecimal digits) (rest : List Char) :
    decimalFloat (digits ++ '\n' :: rest) = none := by
  rw [decimalFloat, bind_taken (isDecimal.digitsLeft rest).sign_none,
    bind_taken (isDecimal.decimalDigits_taken rest)]
  exact bind_failed rfl _

/-- Digits in front of a line end announce no other radix. -/
theorem IsDecimal.radixInteger_failed (isDecimal : IsDecimal digits) (rest : List Char)
    {mark : Char} (noEnd : mark ≠ '\n') (radix : Nat) (accepts : Char → Bool) :
    radixInteger mark radix accepts (digits ++ '\n' :: rest) = none := by
  refine bind_failed ?_ _
  obtain ⟨first, more, rfl⟩ := List.exists_cons_of_ne_nil isDecimal.nonempty
  by_cases zero : first = '0'
  · subst zero
    rw [isDecimal.zero more rfl]
    show (char '0' >>= fun _ => word [mark]) ('0' :: '\n' :: rest) = none
    rw [bind_taken (char_taken '0' _)]
    exact Reader.word_failed (by rintro _ ⟨⟩; exact noEnd.symm) []
  · exact Reader.word_failed (by rintro _ ⟨⟩; exact zero) [mark]

/-- Digits in front of a line end are an integer. -/
theorem IsDecimal.integer_taken (isDecimal : IsDecimal digits)
    (small : digitsValue 10 digits < 0x8000000000000000) (rest : List Char) :
    integer (digits ++ '\n' :: rest) = some (.integer (digitsValue 10 digits), '\n' :: rest) := by
  have bounds : (-0x8000000000000000 : Int) ≤ digitsValue 10 digits ∧
      (digitsValue 10 digits : Int) < 0x8000000000000000 := by omega
  have decimal : decimalInteger (digits ++ '\n' :: rest) =
      some (.integer (digitsValue 10 digits), '\n' :: rest) := by
    rw [decimalInteger, bind_taken (isDecimal.digitsLeft rest).sign_none,
      bind_taken (isDecimal.decimalDigits_taken rest)]
    show boundedInteger (digitsValue 10 digits) _ = _
    rw [boundedInteger, if_pos bounds]
    rfl
  rw [integer, orElse_failed (isDecimal.radixInteger_failed rest (by decide) _ _),
    orElse_failed (isDecimal.radixInteger_failed rest (by decide) _ _),
    orElse_failed (isDecimal.radixInteger_failed rest (by decide) _ _), decimal]

/-- A number is a value if 64 bits with a sign hold it. -/
theorem isValue_toDigits {n : Nat} (small : n < 0x8000000000000000) :
    IsValue (Nat.toDigits 10 n) (.scalar (.integer n)) := by
  intro rest
  have isDecimal := isDecimal_toDigits n
  have digitsLeft := isDecimal.digitsLeft rest
  have isInteger := isDecimal.integer_taken (by rwa [digitsValue_toDigits]) rest
  rw [digitsValue_toDigits] at isInteger
  have noSpace := digitsLeft.head_ne rfl (by decide : ' ' ≠ '\n')
  have noTab := digitsLeft.head_ne rfl (by decide : '\t' ≠ '\n')
  refine ⟨spaces_none (solid_of_ne noSpace noTab), ?_⟩
  rw [digitsLeft.value_eq]
  refine map_taken ?_ _
  rw [digitsLeft.scalar_eq, orElse_failed (isDecimal.decimalFloat_failed rest), isInteger]

end Decimal

end Values

/-! ## Lines -/

section Lines

variable {name : List Char}

/-- A line that begins with neither a blank, a line end nor a comment has contents. -/
theorem line_eq {text : List Char}
    (begins : ∀ c ∈ text.head?, c ∉ [' ', '\t', '\n', '\r', '#']) :
    line text = (some <$> (arrayHeader <|> header <|> assignmentLine)) text := by
  have first {other : Char} (among : other ∈ [' ', '\t', '\n', '\r', '#']) :
      ∀ c ∈ text.head?, c ≠ other := by
    rintro c isHead rfl
    exact begins c isHead among
  have solid : ∀ c ∈ text.head?, isSpace c = false :=
    solid_of_ne (first (by decide)) (first (by decide))
  have noEnd : newline text = none := by
    rw [newline, orElse_failed (char_failed (first (by decide)))]
    exact word_failed (first (by decide)) _
  have notEmpty : emptyLine text = none := by
    rw [emptyLine, orElse_failed noEnd]
    exact bind_failed (bind_failed (char_failed (first (by decide))) _) _
  rw [line, bind_taken (spaces_none solid), orElse_failed (bind_failed notEmpty _)]

/-- The header of a table with a bare key. -/
theorem line_header (isKey : IsBareKey name) :
    line.Takes ('[' :: (name ++ [']', '\n'])) (some (.header [String.ofList name])) := by
  intro rest
  have noArray : arrayHeader ('[' :: (name ++ ']' :: '\n' :: rest)) = none := by
    refine bind_failed ?_ _
    rw [word, bind_taken (char_taken '[' _)]
    exact word_failed (isKey.head_ne rfl _) []
  have isName : key (name ++ ']' :: '\n' :: rest) =
      some ([String.ofList name], ']' :: '\n' :: rest) :=
    key_bare isKey (by rintro _ ⟨⟩; rfl) (by rintro _ ⟨⟩; decide)
  have isHeader : header ('[' :: (name ++ ']' :: '\n' :: rest)) =
      some (.header [String.ofList name], rest) := by
    rw [header, bind_taken (char_taken '[' _), bind_taken isName, bind_taken (char_taken ']' _),
      bind_taken (restOfLine_taken rest)]
    rfl
  have assoc : '[' :: (name ++ [']', '\n']) ++ rest = '[' :: (name ++ ']' :: '\n' :: rest) := by
    simp
  rw [assoc, line_eq (by rintro _ ⟨⟩; decide)]
  refine map_taken ?_ _
  rw [orElse_failed noArray]
  exact orElse_taken isHeader _

/-- The assignment of a value to a bare key, once it is known to be one. -/
theorem assignmentLine_taken (isKey : IsBareKey name) {text rest : List Char} {node : Node}
    (solid : spaces (text ++ '\n' :: rest) = some ((), text ++ '\n' :: rest))
    (isNode : value (text ++ '\n' :: rest) = some (node, '\n' :: rest)) :
    assignmentLine (name ++ ' ' :: '=' :: ' ' :: (text ++ '\n' :: rest)) =
      some (.assign [] (String.ofList name) node, rest) := by
  have isName : key (name ++ ' ' :: '=' :: ' ' :: (text ++ '\n' :: rest)) =
      some ([String.ofList name], '=' :: ' ' :: (text ++ '\n' :: rest)) :=
    key_bare isKey (by rintro _ ⟨⟩; rfl) (by rintro _ ⟨⟩; decide)
  have skipped : spaces (' ' :: (text ++ '\n' :: rest)) = some ((), text ++ '\n' :: rest) := solid
  have isPart : assignment value (name ++ ' ' :: '=' :: ' ' :: (text ++ '\n' :: rest)) =
      some (([], String.ofList name, node), '\n' :: rest) := by
    rw [assignment, bind_taken isName, bind_taken (char_taken '=' _), bind_taken skipped,
      bind_taken isNode]
    rfl
  rw [assignmentLine, bind_taken isPart]
  show (restOfLine >>= fun _ => _) _ = _
  rw [bind_taken (restOfLine_taken rest)]
  rfl

/-- The assignment of a value to a bare key. -/
theorem line_assignment (isKey : IsBareKey name) {text : List Char} {node : Node}
    (isValue : IsValue text node) :
    line.Takes (name ++ ' ' :: '=' :: ' ' :: (text ++ ['\n']))
      (some (.assign [] (String.ofList name) node)) := by
  intro rest
  obtain ⟨solid, isNode⟩ := isValue rest
  have assoc : name ++ ' ' :: '=' :: ' ' :: (text ++ ['\n']) ++ rest =
      name ++ ' ' :: '=' :: ' ' :: (text ++ '\n' :: rest) := by simp
  have begins : ∀ c ∈ (name ++ ' ' :: '=' :: ' ' :: (text ++ '\n' :: rest)).head?,
      c ∉ [' ', '\t', '\n', '\r', '#'] := by
    intro c isHead among
    have noKeyChar : [' ', '\t', '\n', '\r', '#'].all (!isBareKeyChar ·) = true := by decide
    have outside := List.all_eq_true.mp noKeyChar c among
    rw [isKey.head _ c isHead] at outside
    cases outside
  have noArray : arrayHeader (name ++ ' ' :: '=' :: ' ' :: (text ++ '\n' :: rest)) = none :=
    bind_failed (word_failed (isKey.head_ne rfl _) _) _
  have noHeader : header (name ++ ' ' :: '=' :: ' ' :: (text ++ '\n' :: rest)) = none :=
    bind_failed (char_failed (isKey.head_ne rfl _)) _
  rw [assoc, line_eq begins]
  refine map_taken ?_ _
  rw [orElse_failed noArray]
  show (header _ <|> assignmentLine _) = _
  rw [noHeader, assignmentLine_taken isKey solid isNode]
  rfl

/-- The text is the line, whatever follows. -/
def IsLine (text : String) (given : Line) : Prop :=
  line.Takes text.toList (some given)

end Lines

end I386.Toml
