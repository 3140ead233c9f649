import I386.Proofs.Contracts
import I386.Proofs.Refusals
import I386.Proofs.Remainder

/-!
Contract: how many bytes decoding an instruction consumes.

Owns:
- encodings that have all fields of an instruction, however long they are;
- the number of bytes that an operation takes at most after its opcode, from the opcode maps;
- the number of bytes that each part of decoding consumes, whether it succeeds or fails;
- when an instruction is refused for its length.

Main statement: decoding consumes at most 25 bytes. An instruction is too long exactly if fifteen
prefixes stand at the cursor, or an encoding that has all its fields but more than fifteen bytes,
for which it needs five prefixes.

Does not own: what other errors there are.
-/

namespace I386

/-! ## Encodings of any length -/

/-- An encoding has the fields of an instruction of the format that has the selected operation. It
may be longer than an instruction is allowed to be. -/
structure Encoding.HasFields (encoding : Encoding) (default : OperandSize)
    (selection : Selection) : Prop where
  prefixes : ∀ byte ∈ encoding.prefixes, byte ∈ prefixBytes
  opcode : encoding.opcode.Proper
  selected : encoding.opcode.row.selection? encoding.operands.modRm = some selection
  near : encoding.operandSize default = .bits16 →
    ¬(selection.form.shape = .branch ∧ selection.form.width = .dword)
  operands : selection.Takes (encoding.operandSize default) encoding.operands

theorem Encoding.encodes_iff_hasFields {encoding : Encoding} {default : OperandSize}
    {selection : Selection} :
    encoding.Encodes default selection ↔
      encoding.HasFields default selection ∧ encoding.bytes.length ≤ 15 :=
  ⟨fun encodes => ⟨⟨encodes.prefixes, encodes.opcode, encodes.selected, encodes.near,
      encodes.operands⟩, encodes.length⟩,
    fun ⟨has, length⟩ =>
      ⟨has.prefixes, has.opcode, has.selected, has.near, has.operands, length⟩⟩

/-- The encoding with other prefixes. -/
def Encoding.behind (encoding : Encoding) (prefixes : List UInt8) : Encoding :=
  { encoding with prefixes }

theorem Encoding.HasFields.behind {encoding : Encoding} {default other : OperandSize}
    {selection : Selection} (has : encoding.HasFields default selection) {prefixes : List UInt8}
    (isRun : ∀ byte ∈ prefixes, byte ∈ prefixBytes)
    (size : runSize prefixes other = encoding.operandSize default) :
    (encoding.behind prefixes).HasFields other selection where
  prefixes := isRun
  opcode := has.opcode
  selected := has.selected
  near := by
    intro small
    exact has.near (size.symm.trans small)
  operands := by
    have same : (encoding.behind prefixes).operandSize other = _ := size
    rw [same]
    exact has.operands

/-! ## The length of what follows an opcode -/

/-- The number of bytes that an operation takes at most after its opcode. -/
def Selection.greatestLength (selection : Selection) (size : OperandSize) : Nat :=
  (if selection.form.shape.hasRm then 6 else 0) + selection.immediateLength size

theorem Selection.Takes.length_le {selection : Selection} {size : OperandSize}
    {operands : OperandBytes} (takes : selection.Takes size operands) :
    operands.bytes.length ≤ selection.greatestLength size := by
  have addressing : (operands.addressing.elim [] Addressing.bytes).length ≤
      if selection.form.shape.hasRm then 6 else 0 := by
    rw [← takes.addressing]
    cases operands.addressing with
    | none => exact Nat.zero_le _
    | some encoding => exact encoding.length_bytes_le
  rw [OperandBytes.bytes, List.length_append, takes.immediate]
  exact Nat.add_le_add_right addressing _

theorem Shape.immediateLength_mono {width : UInt8} (valid : ValidWidth width) (shape : Shape) :
    shape.immediateLength width ≤ shape.immediateLength 4 := by
  have small : width.toNat ≤ (4 : UInt8).toNat := by
    rcases valid with rfl | rfl | rfl <;> decide
  cases shape <;> first | exact small | exact Nat.le_refl _

/-- In the two-byte map no form leaves its immediate to the members of a group, and with an operand
encoding comes at most one byte. -/
def Form.Brief (form : Form) : Prop :=
  form.shape ≠ .rm ∧ (if form.shape.hasRm then 6 else 0) + form.shape.immediateLength 4 ≤ 9

instance (form : Form) : Decidable form.Brief :=
  inferInstanceAs (Decidable (_ ∧ _))

theorem OpcodeMap.brief_twoByteRow (second : UInt8) : (twoByteRow second).form.Brief := by
  refine of_decide_eq_true (check_twoByteRow (fun _ row => decide row.form.Brief) ?_ ?_ second)
  · exact fun _ _ => by decide
  · decide +kernel

/-- An opcode and what follows it have at most eleven bytes. -/
theorem OpcodeBytes.length_add_greatestLength_le {opcode : OpcodeBytes} {modRm : Option ModRm}
    {selection : Selection} (selected : opcode.row.selection? modRm = some selection)
    (size : OperandSize) : opcode.bytes.length + selection.greatestLength size ≤ 11 := by
  have regular := Row.regular_selection? opcode.regular_row selected
  cases opcode with
  | oneByte byte =>
      have immediate := Selection.immediateLength_le regular size
      simp only [bytes, Selection.greatestLength, List.length_singleton]
      split <;> omega
  | twoByte second =>
      obtain ⟨notRm, brief⟩ := OpcodeMap.brief_twoByteRow second
      have form : selection.form = (OpcodeMap.twoByteRow second).form :=
        Row.form_selection? selected
      rw [← form] at notRm brief
      have plain : selection.extra = .implied :=
        regular.extra.resolve_right fun member => notRm member.2
      have immediate := Shape.immediateLength_mono (selection.form.width.validWidth_bytes size)
        selection.form.shape
      have none : Shape.immediateLength (selection.form.width.bytes size) .implied = 0 := rfl
      simp only [bytes, Selection.greatestLength, Selection.immediateLength, plain, none,
        List.length_cons, List.length_nil]
      omega

theorem Encoding.HasFields.length_le {encoding : Encoding} {default : OperandSize}
    {selection : Selection} (has : encoding.HasFields default selection) :
    encoding.bytes.length ≤ encoding.prefixes.length + 11 := by
  have operands := has.operands.length_le
  have rest := OpcodeBytes.length_add_greatestLength_le has.selected
    (encoding.operandSize default)
  rw [bytes, List.length_append, List.length_append]
  omega

/-! ## Bytes enough for the operands -/

/-- Six bytes begin with an operand encoding, whatever they are. -/
theorem Addressing.exists_prefix {bytes : List UInt8} (long : 6 ≤ bytes.length) :
    ∃ addressing : Addressing,
      bytes.head? = some addressing.modRm.byte ∧ addressing.bytes <+: bytes := by
  match bytes, long with
  | first :: second :: rest, long =>
      let modRm : ModRm := ⟨first⟩
      cases hasSib : modRm.hasSib with
      | false =>
          have few := displacementLength_le modRm none
          have length : ((second :: rest).take (displacementLength modRm none)).length =
              displacementLength modRm none :=
            List.length_take_of_le (by simp only [List.length_cons] at long ⊢; omega)
          refine ⟨⟨modRm, none, _, hasSib.symm, length⟩, rfl, ?_⟩
          exact List.cons_prefix_cons.mpr ⟨rfl, List.take_prefix _ _⟩
      | true =>
          have few := displacementLength_le modRm (some second)
          have length : (rest.take (displacementLength modRm (some second))).length =
              displacementLength modRm (some second) :=
            List.length_take_of_le (by simp only [List.length_cons] at long; omega)
          refine ⟨⟨modRm, some second, _, hasSib.symm, length⟩, rfl, ?_⟩
          exact List.cons_prefix_cons.mpr
            ⟨rfl, List.cons_prefix_cons.mpr ⟨rfl, List.take_prefix _ _⟩⟩

/-- As many bytes as an operation takes at most begin with what it takes, unless they would take
the address of a register. -/
theorem Selection.exists_takes {selection : Selection} {size : OperandSize} {bytes : List UInt8}
    (long : selection.greatestLength size ≤ bytes.length)
    (memory : selection.form.shape = .addressToReg →
      ∀ byte ∈ bytes.head?, (ModRm.mk byte).isMemory = true) :
    ∃ operands : OperandBytes, selection.Takes size operands ∧ operands.bytes <+: bytes := by
  unfold greatestLength at long
  cases hasRm : selection.form.shape.hasRm with
  | false =>
      rw [hasRm, if_neg Bool.false_ne_true, Nat.zero_add] at long
      refine ⟨⟨none, bytes.take (selection.immediateLength size)⟩, ⟨hasRm.symm, ?_, ?_⟩, ?_⟩
      · exact fun _ _ isIn => nomatch isIn
      · exact List.length_take_of_le long
      · exact List.take_prefix _ _
  | true =>
      rw [hasRm, if_pos rfl] at long
      obtain ⟨addressing, head, rest, whole⟩ :=
        Addressing.exists_prefix (Nat.le_trans (Nat.le_add_right _ _) long)
      have few := addressing.length_bytes_le
      have lengths := congrArg List.length whole
      rw [List.length_append] at lengths
      refine ⟨⟨some addressing, rest.take (selection.immediateLength size)⟩,
        ⟨hasRm.symm, ?_, ?_⟩, ?_⟩
      · rintro address _ ⟨⟩
        exact memory address _ head
      · exact List.length_take_of_le (by omega)
      · rw [← whole]
        exact (List.prefix_append_right_inj _).mpr (List.take_prefix _ _)

namespace Pass

/-! ## Consumption -/

/-- From one pass to another, at most so many mapped bytes were consumed. -/
def Consumes (most : Nat) (before after : Pass) : Prop :=
  ∃ taken : List UInt8, taken.length ≤ most ∧ before.stream.Holds taken ∧
    after.stream = before.stream.skip taken.length

section Consumes

variable {first second third : Pass} {most more : Nat}

theorem Consumes.refl (pass : Pass) : Consumes 0 pass pass :=
  ⟨[], Nat.le_refl _, Stream.holds_nil, pass.stream.skip_zero.symm⟩

theorem Consumes.mono (consumes : Consumes most first second) (atMost : most ≤ more) :
    Consumes more first second := by
  obtain ⟨taken, few, rest⟩ := consumes
  exact ⟨taken, Nat.le_trans few atMost, rest⟩

theorem Consumes.trans (one : Consumes most first second) (two : Consumes more second third) :
    Consumes (most + more) first third := by
  obtain ⟨front, fewFront, frontHolds, frontStream⟩ := one
  obtain ⟨back, fewBack, backHolds, backStream⟩ := two
  rw [frontStream] at backHolds backStream
  refine ⟨front ++ back, ?_, Stream.holds_append.mpr ⟨frontHolds, backHolds⟩, ?_⟩
  · rw [List.length_append]
    exact Nat.add_le_add fewFront fewBack
  · rw [backStream, Stream.skip_skip, List.length_append]

theorem consumes_skip {run : List UInt8} (holds : first.stream.Holds run) :
    Consumes run.length first (first.skip run.length) :=
  ⟨run, Nat.le_refl _, holds, rfl⟩

end Consumes

/-- A computation consumes at most so many bytes, whatever its outcome. -/
def ConsumesAtMost {α : Type} (most : Nat) (action : PassM α) : Prop :=
  ∀ pass, Consumes most pass (left (action pass))

section ConsumesAtMost

variable {α β : Type} {most more : Nat}

theorem ConsumesAtMost.pure (most : Nat) (value : α) : ConsumesAtMost most (pure value) :=
  fun pass => (Consumes.refl pass).mono (Nat.zero_le _)

theorem ConsumesAtMost.refuse (most : Nat) (error : DecodeError) :
    ConsumesAtMost most (refuse error : PassM α) :=
  fun pass => (Consumes.refl pass).mono (Nat.zero_le _)

theorem ConsumesAtMost.bind {action : PassM α} {next : α → PassM β}
    (one : ConsumesAtMost most action) (rest : ∀ value, ConsumesAtMost more (next value)) :
    ConsumesAtMost (more + most) (action >>= next) := by
  intro pass
  have early := one pass
  cases ran : action pass with
  | ok value between =>
      rw [ran] at early
      rw [bind_of_ok ran, Nat.add_comm]
      exact early.trans (rest value between)
  | error fault failed =>
      rw [ran] at early
      rw [bind_of_error ran]
      exact early.mono (Nat.le_add_left _ _)

theorem ConsumesAtMost.ite {condition : Prop} [Decidable condition] {yes no : PassM α}
    (ofYes : ConsumesAtMost most yes) (ofNo : ConsumesAtMost most no) :
    ConsumesAtMost most (if condition then yes else no) := by
  by_cases holds : condition
  · rwa [if_pos holds]
  · rwa [if_neg holds]

theorem consumesAtMost_fetchByte : ConsumesAtMost 1 fetchByte := by
  intro pass
  cases mapped : pass.stream.byteAt? pass.stream.cursor with
  | none =>
      rw [fetchByte_of_unmapped pass mapped]
      exact (Consumes.refl pass).mono (Nat.zero_le _)
  | some byte =>
      have fetched : fetchByte pass = .ok byte (pass.skip 1) := fetchByte_ok_iff.mpr ⟨mapped, rfl⟩
      rw [fetched]
      exact ⟨[byte], Nat.le_refl _, Stream.holds_cons.mpr ⟨mapped, Stream.holds_nil⟩, rfl⟩

theorem consumesAtMost_peekByte : ConsumesAtMost 0 peekByte := by
  intro pass
  cases mapped : pass.stream.byteAt? pass.stream.cursor with
  | none =>
      rw [peekByte_of_unmapped pass mapped]
      exact .refl pass
  | some byte =>
      have peeked : peekByte pass = .ok byte pass := peekByte_ok_iff.mpr ⟨mapped, rfl⟩
      rw [peeked]
      exact .refl pass

/-- Each prefix takes away from the room that there is, which is what ends the loop. -/
theorem consumesAtMost_readPrefixes (start : UInt32) (room : Nat) (prefixes : PrefixSet)
    (byte : UInt8) : ConsumesAtMost room (readPrefixes start room prefixes byte) := by
  induction room generalizing prefixes byte with
  | zero =>
      unfold readPrefixes
      cases Prefix.ofByte? byte with
      | none => exact .ite (.refuse 0 _) (.pure 0 _)
      | some member => exact .refuse 0 _
  | succ room inductionHypothesis =>
      unfold readPrefixes
      cases Prefix.ofByte? byte with
      | none => exact .ite (.refuse _ _) (.pure _ _)
      | some member =>
          exact consumesAtMost_fetchByte.bind fun next =>
            inductionHypothesis (prefixes.insert member) next

theorem consumesAtMost_prefixes (start : UInt32) :
    ConsumesAtMost 15 (fetchByte >>= readPrefixes start (maxLength - 1) .empty) :=
  consumesAtMost_fetchByte.bind fun byte =>
    consumesAtMost_readPrefixes start (maxLength - 1) .empty byte

theorem consumesAtMost_select (start : UInt32) (size : OperandSize) (opcode : Opcode) :
    ConsumesAtMost 0 (select start size opcode) := by
  have chosen : ConsumesAtMost 0 (select? opcode.row) := by
    cases opcode.row with
    | unassigned => exact .pure 0 none
    | instruction mnemonic form => exact .pure 0 _
    | group group form => exact consumesAtMost_peekByte.bind fun _ => .pure 0 _
  refine chosen.bind fun found => ?_
  cases found with
  | none => exact .refuse 0 _
  | some selection => exact .ite (.refuse 0 _) (.pure 0 _)

theorem consumesAtMost_readBare (start : UInt32) (size : OperandSize) (prefixes : PrefixSet) :
    ConsumesAtMost 2 (readBare start size prefixes) := by
  have second (byte : UInt8) : ConsumesAtMost 1 (readOpcode byte) :=
    .ite (consumesAtMost_fetchByte.bind fun _ => .pure 0 _) (.pure 1 _)
  have operation (byte : UInt8) : ConsumesAtMost 1 (readOperation start size prefixes byte) :=
    (second byte).bind fun opcode =>
      (consumesAtMost_select start size opcode).bind fun _ => .pure 0 _
  exact consumesAtMost_fetchByte.bind fun byte => .ite (.refuse 1 _) (operation byte)

end ConsumesAtMost

/-! ## Operands -/

/-- The steps of an operation consume at most as much as it takes, even if they fail: with that many
bytes they would not. -/
theorem consumes_steps {heading : Heading} (regular : heading.selection.Regular) (pass : Pass) :
    Consumes (heading.selection.greatestLength heading.operandSize) pass
      (left (Step.runAll heading.selection.steps (heading.begun pass))) := by
  have stream : (heading.begun pass).stream = pass.stream := stream_begun ..
  obtain ⟨⟨taken, holds, skipped⟩, -⟩ :=
    (local_runAll heading.selection.steps).reaches (heading.begun pass)
  rw [stream] at holds skipped
  by_cases few : taken.length ≤ heading.selection.greatestLength heading.operandSize
  · exact ⟨taken, few, holds, skipped⟩
  have long := Nat.le_of_not_le few
  by_cases register : heading.selection.form.shape = .addressToReg ∧
      ∃ byte, (heading.begun pass).AtRegister byte
  · obtain ⟨address, byte, atRegister⟩ := register
    rw [Selection.runAll_of_register regular address atRegister]
    exact ⟨[], Nat.zero_le _, Stream.holds_nil, stream.trans pass.stream.skip_zero.symm⟩
  · have memory : heading.selection.form.shape = .addressToReg →
        ∀ byte ∈ taken.head?, (ModRm.mk byte).isMemory = true := by
      intro address byte isHead
      obtain ⟨rest, rfl⟩ := List.head?_eq_some_iff.mp isHead
      have mapped := (Stream.holds_cons.mp holds).1
      rw [← stream] at mapped
      cases isMemory : (ModRm.mk byte).isMemory with
      | true => rfl
      | false => exact absurd ⟨address, byte, mapped, isMemory⟩ register
    obtain ⟨operands, takes, later, rfl⟩ := Selection.exists_takes long memory
    have operandsHold := (Stream.holds_append.mp holds).1
    have ran : Step.runAll heading.selection.steps (heading.begun pass) = .ok () _ :=
      (runAll_begun_ok_iff regular).mpr ⟨operands, takes, operandsHold, rfl⟩
    rw [ran]
    refine ⟨operands.bytes, takes.length_le, operandsHold, ?_⟩
    show (Step.effectAll operands heading.selection.steps _).stream = _
    rw [Step.stream_effectAll, stream_begun,
      Selection.taken_eq regular takes.addressing takes.immediate]

theorem consumes_decodeOperands {heading : Heading} (regular : heading.selection.Regular)
    (start : UInt32) (pass : Pass) :
    Consumes (heading.selection.greatestLength heading.operandSize) pass
      (left (decodeOperands start heading pass)) := by
  have steps := consumes_steps regular pass
  cases ran : Step.runAll heading.selection.steps (heading.begun pass) with
  | ok value decoded =>
      rw [ran] at steps
      rw [decodeOperands_of_ok start ran, left_concluded]
      exact steps
  | error fault failed =>
      rw [ran] at steps
      rw [decodeOperands_of_error start ran]
      exact steps

/-! ## Instructions -/

/-- After a run of prefixes that is not too long, eleven bytes are enough. -/
theorem consumes_of_run {pass : Pass} {run : List UInt8} (begins : pass.BeginsWith run)
    (short : run.length ≤ 14) : Consumes (run.length + 11) pass (left (decode pass)) := by
  have first := consumes_skip begins.holds
  have heading := readHeading_of_run begins short pass.stream.cursor pass.decoder.defaultSize
  rw [decode_eq_halves]
  cases read : readHeading pass.stream.cursor pass.decoder.defaultSize pass with
  | error fault failed =>
      rw [bind_of_error read]
      rw [read] at heading
      have bare := consumesAtMost_readBare pass.stream.cursor
        (runSize run pass.decoder.defaultSize) (PrefixSet.empty.insertBytes run)
        (pass.skip run.length)
      rw [← heading] at bare
      exact (first.trans bare).mono (by omega)
  | ok found between =>
      rw [bind_of_ok read]
      have regular := regular_of_readHeading read
      rw [heading] at read
      obtain ⟨opcode, -, -, holds, -, selected, rfl⟩ := opcode_of_readBare read
      have second := consumes_skip holds
      have third := consumes_decodeOperands regular pass.stream.cursor
        ((pass.skip run.length).skip opcode.bytes.length)
      have few := OpcodeBytes.length_add_greatestLength_le selected found.operandSize
      exact ((first.trans second).trans third).mono (by omega)

theorem consumes_decode (pass : Pass) : Consumes 25 pass (left (decode pass)) := by
  rcases pass.exists_run 15 with ⟨run, length, prefixes, holds⟩ | ⟨run, short, begins⟩
  · rw [decode_of_long_run prefixes holds (Nat.le_of_eq length.symm)]
    have consumes := consumes_skip holds
    rw [length] at consumes
    exact consumes.mono (by decide)
  · exact (consumes_of_run begins (Nat.le_of_lt_succ short)).mono (by omega)

/-! ## Instructions that are too long -/

/-- The instruction at the cursor is refused for its length. -/
def IsTooLong (pass : Pass) : Prop :=
  ∃ (start : UInt32) (failed : Pass),
    decode pass = .error (.decode (.instructionTooLong start)) failed

/-- Without prefixes no instruction is too long. -/
theorem not_isTooLong_of_bare {pass : Pass} (begins : pass.BeginsWith []) : ¬pass.IsTooLong := by
  rintro ⟨start, failed, ran⟩
  obtain ⟨stopped, retraced, -⟩ := error_retraced ran
  have baseBegins := begins.retraced (some #[])
  have recording : (pass.retraced (some #[])).machine.trace = some #[] := rfl
  generalize pass.retraced (some #[]) = base at retraced baseBegins recording
  have bare := readHeading_of_run baseBegins (Nat.zero_le _) base.stream.cursor
    base.decoder.defaultSize
  rw [List.length_nil, skip_zero] at bare
  rcases bind_error_iff.mp ((decode_eq_halves base).symm.trans retraced) with
    failure | ⟨heading, between, read, rest⟩
  · rw [bare] at failure
    rcases refused_of_readBare failure with ⟨isError, -⟩ | refused
    · cases isError
    · cases refused
  · have regular := regular_of_readHeading read
    rw [bare] at read
    obtain ⟨early, few, rfl⟩ := skip_of_readBare read
    cases steps : Step.runAll heading.selection.steps (heading.begun (base.skip early)) with
    | ok value decoded =>
        have short := length_le_of_steps regular ⟨early, few, Stream.cursor_skip _ _⟩ steps
        have concluded : heading.concluded base.stream.cursor decoded = .ok _ _ :=
          if_pos (Nat.le_trans short (by decide))
        rw [decodeOperands_of_ok _ steps, concluded] at rest
        cases rest
    | error fault reached =>
        cases (decodeOperands_of_error _ steps).symm.trans rest
        have still : (base.skip early).machine.trace = some #[] := recording
        rcases error_of_steps regular still steps with ⟨isError, -⟩ | ⟨-, byte, -, isError, -⟩
        · cases isError
        · cases isError

/-- An encoding that stands where a run of prefixes has ended has no prefixes. -/
theorem prefixes_eq_nil {pass : Pass} (begins : pass.BeginsWith []) {encoding : Encoding}
    (prefixes : ∀ byte ∈ encoding.prefixes, byte ∈ prefixBytes)
    (holds : pass.stream.Holds encoding.bytes) : encoding.prefixes = [] := by
  obtain ⟨run, opcode, operands⟩ := encoding
  cases run with
  | nil => rfl
  | cons byte rest =>
      have mapped := (Stream.holds_cons.mp holds).1
      have next := begins.ends byte
      rw [List.length_nil, Stream.skip_zero] at next
      exact absurd (prefixes byte List.mem_cons_self) (next mapped)

/-- At most fourteen prefixes make an instruction too long only together with bytes that would be an
instruction without them. -/
theorem exists_long_encoding {pass : Pass} {run : List UInt8} (begins : pass.BeginsWith run)
    (short : run.length ≤ 14) (long : pass.IsTooLong) :
    ∃ (encoding : Encoding) (selection : Selection), encoding.prefixes = run ∧
      encoding.HasFields pass.decoder.defaultSize selection ∧
        pass.stream.Holds encoding.bytes ∧ 16 ≤ encoding.bytes.length := by
  obtain ⟨start, failed, ran⟩ := long
  let decoder : Decoder :=
    { pass.decoder with defaultSize := runSize run pass.decoder.defaultSize }
  have bare := begins.behind decoder
  have preceded := preceded_decode begins short decoder rfl
  generalize bareRan : decode (pass.behind run decoder) = outcome at preceded
  rw [ran] at preceded
  generalize isFault : Fault.decode (.instructionTooLong start) = fault at preceded
  cases preceded with
  | tooLong instruction after long =>
      obtain ⟨encoding, selection, ⟨encodes, holds⟩, rfl, -⟩ := decode_ok_iff.mp bareRan
      obtain ⟨has, -⟩ := Encoding.encodes_iff_hasFields.mp encodes
      have none := prefixes_eq_nil bare has.prefixes holds
      have few : encoding.prefixes.length ≤ 14 := by
        rw [none]
        exact Nat.zero_le _
      have size : ((pass.behind run decoder).instruction encoding selection).size.toNat =
          encoding.bytes.length := toNat_length few has.operands
      have own : encoding.operandSize (runSize run pass.decoder.defaultSize) =
          runSize run pass.decoder.defaultSize := by
        rw [Encoding.operandSize, none, if_neg List.not_mem_nil]
      have bytes : (encoding.behind run).bytes = run ++ encoding.bytes := by
        simp [Encoding.behind, Encoding.bytes, none]
      refine ⟨encoding.behind run, selection, rfl, has.behind begins.prefixes own.symm, ?_, ?_⟩
      · rw [bytes]
        exact Stream.holds_append.mpr ⟨begins.holds, holds⟩
      · rw [bytes, List.length_append]
        omega
  | error error _ left =>
      have same : error = .instructionTooLong start := by
        cases error <;> cases isFault
        rfl
      rw [same] at bareRan
      exact absurd ⟨start, _, bareRan⟩ (not_isTooLong_of_bare bare)

/-- Where an encoding has all its fields, all that can be wrong is its length. -/
theorem isTooLong_of_hasFields {pass : Pass} {encoding : Encoding} {selection : Selection}
    (has : encoding.HasFields pass.decoder.defaultSize selection)
    (holds : pass.stream.Holds encoding.bytes) (long : 16 ≤ encoding.bytes.length) :
    pass.IsTooLong := by
  have split : encoding.bytes = encoding.prefixes ++ (encoding.behind []).bytes := by
    simp [Encoding.behind, Encoding.bytes]
  obtain ⟨prefixesHold, restHolds⟩ := Stream.holds_append.mp (split ▸ holds)
  rcases Nat.lt_or_ge encoding.prefixes.length 15 with few | many
  · obtain ⟨⟨notPrefix, -⟩, -⟩ := (OpcodeBytes.proper_iff has.selected).mp has.opcode
    have first : encoding.bytes = encoding.prefixes ++
        encoding.opcode.first :: (encoding.opcode.rest ++ encoding.operands.bytes) := by
      simp [Encoding.bytes, encoding.opcode.bytes_eq]
    have begins : pass.BeginsWith encoding.prefixes :=
      beginsWith_of_holds has.prefixes notPrefix (first ▸ holds)
    let decoder : Decoder :=
      { pass.decoder with defaultSize := encoding.operandSize pass.decoder.defaultSize }
    have bareHas : (encoding.behind []).HasFields decoder.defaultSize selection :=
      has.behind (by simp) (if_neg List.not_mem_nil)
    have bareLength : (encoding.behind []).bytes.length ≤ 11 :=
      Nat.le_trans bareHas.length_le (Nat.le_of_eq (Nat.zero_add _))
    have bareRan : decode (pass.behind encoding.prefixes decoder) = _ :=
      decode_of_encodes (Encoding.encodes_iff_hasFields.mpr ⟨bareHas, by omega⟩) restHolds
    have takes : selection.Takes ((encoding.behind []).operandSize
        (pass.behind encoding.prefixes decoder).decoder.defaultSize)
          (encoding.behind []).operands := bareHas.operands
    have size : ((pass.behind encoding.prefixes decoder).instruction (encoding.behind [])
        selection).size.toNat = (encoding.behind []).bytes.length :=
      toNat_length (Nat.zero_le _) takes
    have preceded := preceded_decode begins (Nat.le_of_lt_succ few) decoder rfl
    rw [bareRan] at preceded
    generalize ran : decode pass = outcome at preceded
    rw [split, List.length_append] at long
    cases preceded with
    | ok _ _ fits _ _ => omega
    | tooLong _ _ _ => exact ⟨_, _, ran⟩
  · exact ⟨_, _, decode_of_long_run has.prefixes prefixesHold many⟩

/-- Fifteen prefixes stand at the cursor, or an encoding with all fields of an instruction and more
bytes than one may have. -/
theorem isTooLong_iff {pass : Pass} :
    pass.IsTooLong ↔
      (∃ run : List UInt8, run.length = 15 ∧ (∀ byte ∈ run, byte ∈ prefixBytes) ∧
        pass.stream.Holds run) ∨
      ∃ (encoding : Encoding) (selection : Selection),
        encoding.HasFields pass.decoder.defaultSize selection ∧
          pass.stream.Holds encoding.bytes ∧
          16 ≤ encoding.bytes.length ∧ encoding.bytes.length ≤ 25 := by
  constructor
  · intro long
    rcases pass.exists_run 15 with many | ⟨run, short, begins⟩
    · exact .inl many
    · have few := Nat.le_of_lt_succ short
      obtain ⟨encoding, selection, prefixes, has, holds, long⟩ :=
        exists_long_encoding begins few long
      have most := has.length_le
      rw [prefixes] at most
      exact .inr ⟨encoding, selection, has, holds, long, by omega⟩
  · rintro (⟨run, length, prefixes, holds⟩ | ⟨encoding, selection, has, holds, long, -⟩)
    · exact ⟨_, _, decode_of_long_run prefixes holds (Nat.le_of_eq length.symm)⟩
    · exact isTooLong_of_hasFields has holds long

/-- It takes five prefixes to make an instruction too long. -/
theorem not_isTooLong_of_few {pass : Pass} {run : List UInt8} (begins : pass.BeginsWith run)
    (few : run.length < 5) : ¬pass.IsTooLong := by
  intro long
  obtain ⟨encoding, selection, prefixes, has, -, long⟩ :=
    exists_long_encoding begins (by omega) long
  have most := has.length_le
  rw [prefixes] at most
  omega

/-- Decoding ends, in an instruction or an error, with at most 25 bytes consumed, of which reading
prefixes consumes at most fifteen. An instruction has between one byte and fifteen. One is refused
as too long exactly if fifteen prefixes stand at the cursor, or an encoding with all fields of an
instruction and between 16 and 25 bytes, and never after fewer than five prefixes. -/
theorem decode_consumes (pass : Pass) :
    ((∃ (instruction : Instruction) (after : Pass), decode pass = .ok instruction after) ∨
      ∃ (error : DecodeError) (failed : Pass), decode pass = .error (.decode error) failed) ∧
    Consumes 25 pass (left (decode pass)) ∧
    decode pass = ((fetchByte >>= readPrefixes pass.stream.cursor (maxLength - 1) .empty) >>=
      decodeRest pass.stream.cursor) pass ∧
    Consumes 15 pass
      (left ((fetchByte >>= readPrefixes pass.stream.cursor (maxLength - 1) .empty) pass)) ∧
    (∀ (instruction : Instruction) (after : Pass), decode pass = .ok instruction after →
      ∃ taken : Nat, 1 ≤ taken ∧ taken ≤ 15 ∧ after.stream = pass.stream.skip taken) ∧
    (pass.IsTooLong ↔
      (∃ run : List UInt8, run.length = 15 ∧ (∀ byte ∈ run, byte ∈ prefixBytes) ∧
        pass.stream.Holds run) ∨
      ∃ (encoding : Encoding) (selection : Selection),
        encoding.HasFields pass.decoder.defaultSize selection ∧
          pass.stream.Holds encoding.bytes ∧
          16 ≤ encoding.bytes.length ∧ encoding.bytes.length ≤ 25) ∧
    ∀ run : List UInt8, pass.BeginsWith run → run.length < 5 → ¬pass.IsTooLong := by
  refine ⟨?_, consumes_decode pass, decode_eq pass, consumesAtMost_prefixes _ pass, ?_,
    isTooLong_iff, fun run begins few => not_isTooLong_of_few begins few⟩
  · rcases pass.decode_sound with ⟨instruction, after, -, ran, -⟩ | refused
    · exact .inl ⟨instruction, after, ran⟩
    · exact .inr refused
  · intro instruction after ran
    obtain ⟨bytes, positive, short, -, -, -, -, stream⟩ := exists_bytes_of_decode_ok ran
    exact ⟨bytes.length, positive, short, stream⟩

/-- `add dword ptr [eax + ecx * 4 + 1], 2` with a displacement and an immediate of four bytes, after
as many prefixes as one likes. -/
def addEncoding (prefixes : List UInt8) : Encoding :=
  ⟨prefixes, .oneByte 0x81, some ⟨⟨0x84⟩, some 0x88, [1, 0, 0, 0], rfl, rfl⟩, [2, 0, 0, 0]⟩

/-- Fourteen prefixes in front of an instruction of eleven bytes, and four of them. -/
theorem decode_consumes_add :
    let long := ofBytes (addEncoding (List.replicate 14 0x3E)).bytes.toArray []
    let short := ofBytes (addEncoding (List.replicate 4 0x3E)).bytes.toArray []
    long.IsTooLong ∧ short.BeginsWith (List.replicate 4 0x3E) ∧ ¬short.IsTooLong := by
  intro long short
  have prefixes (count : Nat) :
      ∀ byte ∈ List.replicate count (0x3E : UInt8), byte ∈ prefixBytes := by
    intro byte isIn
    rw [List.eq_of_mem_replicate isIn]
    decide
  have row : OpcodeMap.oneByteRow 0x81 = .group .arithmetic ⟨.immToRm, .full, none⟩ := by
    decide +kernel
  have has : (addEncoding (List.replicate 14 0x3E)).HasFields .bits32
      ⟨.add, ⟨.immToRm, .full, none⟩, .implied⟩ := by
    refine ⟨prefixes 14, ⟨by decide, by decide, by decide⟩, ?_, ?_, ⟨rfl, ?_, rfl⟩⟩
    · show (OpcodeMap.oneByteRow 0x81).selection? _ = _
      rw [row]
      rfl
    · rintro - ⟨⟨⟩, -⟩
    · rintro ⟨⟩
  obtain ⟨-, -, -, -, -, tooLong, -⟩ := decode_consumes long
  obtain ⟨-, -, -, -, -, -, never⟩ := decode_consumes short
  refine ⟨tooLong.mpr (.inr ⟨_, _, has, ?_, by decide, by decide⟩), ?_⟩
  · exact Stream.holds_mapped (by decide) _
  · have whole : short.stream.Holds (List.replicate 4 0x3E ++ (addEncoding []).bytes) :=
      Stream.holds_mapped (by decide) _
    have begins : short.BeginsWith (List.replicate 4 0x3E) :=
      beginsWith_of_holds (prefixes 4) (by decide) whole
    exact ⟨begins, never _ begins (by decide)⟩

end Pass

end I386
