import I386.Proofs.Format

/-!
Contract: which bytes are decoded, and into what.

Owns:
- each part of decoding an instruction: prefixes, opcode, selection, operands and length;
- the instruction decoded from an encoding, and the pass that is left.

Main statements:
- decoding succeeds exactly if an instruction of the format stands at the cursor, and it reads
  that instruction and nothing after it;
- the outcome of a successful decoding is a function of the encoding, the machine, the default
  operand size and the address.

Does not own: the operands that the outcome holds.
-/

namespace I386

/-! ## Prefixes -/

theorem Prefix.isSome_ofByte? (byte : UInt8) :
    (Prefix.ofByte? byte).isSome = decide (byte ∈ prefixBytes) := by
  have all : ∀ index : Fin 256, (Prefix.ofByte? (UInt8.ofNat index)).isSome =
      decide (UInt8.ofNat index ∈ prefixBytes) := by
    decide +kernel
  simpa using all ⟨byte.toNat, byte.toNat_lt⟩

theorem Prefix.ofByte?_eq_none_iff {byte : UInt8} :
    Prefix.ofByte? byte = none ↔ byte ∉ prefixBytes := by
  have isSome := Prefix.isSome_ofByte? byte
  cases isPrefix : Prefix.ofByte? byte with
  | none =>
      rw [isPrefix] at isSome
      exact iff_of_true rfl (of_decide_eq_false isSome.symm)
  | some member =>
      rw [isPrefix] at isSome
      exact iff_of_false (by simp) (not_not_intro (of_decide_eq_true isSome.symm))

/-- The set with the prefixes that bytes are. -/
def PrefixSet.insertBytes (prefixes : PrefixSet) : List UInt8 → PrefixSet
  | [] => prefixes
  | byte :: rest => ((Prefix.ofByte? byte).elim prefixes prefixes.insert).insertBytes rest

namespace Pass

/-- A run of prefixes, and the byte after it, stand at the cursor. -/
structure AtRun (pass : Pass) (run : List UInt8) (last : UInt8) : Prop where
  prefixes : ∀ byte ∈ run, byte ∈ prefixBytes
  other : last ∉ prefixBytes
  notOverride : last ≠ 0x67
  holds : pass.stream.Holds (run ++ [last])

theorem atRun_nil {pass : Pass} {last : UInt8} :
    pass.AtRun [] last ↔
      Prefix.ofByte? last = none ∧ last ≠ 0x67 ∧
        pass.stream.byteAt? pass.stream.cursor = some last := by
  rw [Prefix.ofByte?_eq_none_iff]
  constructor
  · intro given
    rcases given with ⟨-, other, notOverride, holds⟩
    exact ⟨other, notOverride, (Stream.holds_cons.mp holds).1⟩
  · intro given
    rcases given with ⟨other, notOverride, mapped⟩
    exact ⟨by simp, other, notOverride, Stream.holds_cons.mpr ⟨mapped, Stream.holds_nil⟩⟩

theorem atRun_cons {pass : Pass} {byte last : UInt8} {run : List UInt8} :
    pass.AtRun (byte :: run) last ↔
      (Prefix.ofByte? byte).isSome = true ∧
        pass.stream.byteAt? pass.stream.cursor = some byte ∧ (pass.skip 1).AtRun run last := by
  rw [Prefix.isSome_ofByte?, decide_eq_true_iff]
  constructor
  · intro given
    rcases given with ⟨prefixes, other, notOverride, holds⟩
    obtain ⟨isIn, restIn⟩ := List.forall_mem_cons.mp prefixes
    obtain ⟨mapped, restHolds⟩ := Stream.holds_cons.mp holds
    exact ⟨isIn, mapped, restIn, other, notOverride, restHolds⟩
  · intro given
    rcases given with ⟨isIn, mapped, restIn, other, notOverride, restHolds⟩
    exact ⟨List.forall_mem_cons.mpr ⟨isIn, restIn⟩, other, notOverride,
      Stream.holds_cons.mpr ⟨mapped, restHolds⟩⟩

theorem readPrefixes_of_none {start : UInt32} {room : Nat} {prefixes found : PrefixSet}
    {byte last : UInt8} {pass after : Pass} (isNone : Prefix.ofByte? byte = none) :
    readPrefixes start room prefixes byte pass = .ok (found, last) after ↔
      byte ≠ 0x67 ∧ (found = prefixes ∧ last = byte) ∧ after = pass := by
  rw [readPrefixes, isNone]
  by_cases isOverride : byte = addressSizeOverride
  · simp only [if_pos isOverride]
    constructor
    · intro ran
      cases ran
    · intro given
      rcases given with ⟨notOverride, -⟩
      exact absurd isOverride notOverride
  · simp only [if_neg isOverride, pure_ok_iff, Prod.mk.injEq]
    exact (and_iff_right isOverride).symm

/-- Fetching and reading prefixes succeeds exactly if a run of them, none too many, stands at the
cursor before a byte that is neither a prefix nor an override of the address size. -/
theorem readPrefixes_ok_iff {start : UInt32} {room : Nat} {prefixes found : PrefixSet}
    {last : UInt8} {pass after : Pass} :
    (fetchByte >>= readPrefixes start room prefixes) pass = .ok (found, last) after ↔
      ∃ run : List UInt8, run.length ≤ room ∧ pass.AtRun run last ∧
        found = prefixes.insertBytes run ∧ after = pass.skip (run.length + 1) := by
  induction room generalizing pass prefixes with
  | zero =>
      simp only [bind_ok_iff, fetchByte_ok_iff]
      constructor
      · intro succeeded
        rcases succeeded with ⟨byte, _, ⟨mapped, rfl⟩, rest⟩
        cases isPrefix : Prefix.ofByte? byte with
        | none =>
            obtain ⟨notOverride, ⟨rfl, rfl⟩, rfl⟩ := (readPrefixes_of_none isPrefix).mp rest
            exact ⟨[], Nat.le_refl _, atRun_nil.mpr ⟨isPrefix, notOverride, mapped⟩, rfl, rfl⟩
        | some member =>
            rw [readPrefixes, isPrefix] at rest
            cases rest
      · intro given
        rcases given with ⟨run, short, stands, rfl, rfl⟩
        obtain rfl := List.length_eq_zero_iff.mp (Nat.le_zero.mp short)
        obtain ⟨isNone, notOverride, mapped⟩ := atRun_nil.mp stands
        exact ⟨last, _, ⟨mapped, rfl⟩,
          (readPrefixes_of_none isNone).mpr ⟨notOverride, ⟨rfl, rfl⟩, rfl⟩⟩
  | succ room inductionHypothesis =>
      have more {byte : UInt8} {member : Prefix} (isMember : Prefix.ofByte? byte = some member) :
          readPrefixes start (room + 1) prefixes byte =
            fetchByte >>= readPrefixes start room (prefixes.insert member) := by
        rw [readPrefixes, isMember]
      simp only [bind_ok_iff, fetchByte_ok_iff]
      constructor
      · intro succeeded
        rcases succeeded with ⟨byte, _, ⟨mapped, rfl⟩, rest⟩
        cases isPrefix : Prefix.ofByte? byte with
        | none =>
            obtain ⟨notOverride, ⟨rfl, rfl⟩, rfl⟩ := (readPrefixes_of_none isPrefix).mp rest
            exact ⟨[], Nat.zero_le _, atRun_nil.mpr ⟨isPrefix, notOverride, mapped⟩, rfl, rfl⟩
        | some member =>
            rw [more isPrefix] at rest
            obtain ⟨run, short, stands, rfl, rfl⟩ := inductionHypothesis.mp rest
            refine ⟨byte :: run, Nat.succ_le_succ short,
              atRun_cons.mpr ⟨by rw [isPrefix]; rfl, mapped, stands⟩, ?_, ?_⟩
            · rw [PrefixSet.insertBytes, isPrefix]
              rfl
            · rw [skip_skip, List.length_cons, Nat.add_comm 1]
      · intro given
        rcases given with ⟨run, short, stands, rfl, rfl⟩
        cases run with
        | nil =>
            obtain ⟨isNone, notOverride, mapped⟩ := atRun_nil.mp stands
            exact ⟨last, _, ⟨mapped, rfl⟩,
              (readPrefixes_of_none isNone).mpr ⟨notOverride, ⟨rfl, rfl⟩, rfl⟩⟩
        | cons byte run =>
            obtain ⟨isSome, mapped, restStands⟩ := atRun_cons.mp stands
            obtain ⟨member, isPrefix⟩ := Option.isSome_iff_exists.mp isSome
            refine ⟨byte, _, ⟨mapped, rfl⟩, ?_⟩
            rw [more isPrefix]
            refine inductionHypothesis.mpr
              ⟨run, Nat.le_of_succ_le_succ short, restStands, ?_, ?_⟩
            · rw [PrefixSet.insertBytes, isPrefix]
              rfl
            · rw [skip_skip, List.length_cons, Nat.add_comm 1]

end Pass

/-! ## The operand size -/

theorem Prefix.ofByte?_eq_operandSize_iff (byte : UInt8) :
    Prefix.ofByte? byte = some .operandSize ↔ byte = 0x66 := by
  have all : ∀ index : Fin 256, Prefix.ofByte? (UInt8.ofNat index) = some .operandSize ↔
      UInt8.ofNat index = 0x66 := by
    decide +kernel
  simpa using all ⟨byte.toNat, byte.toNat_lt⟩

theorem Prefix.bit_and_bit (member other : Prefix) :
    member.bit &&& other.bit = if member = other then member.bit else 0 := by
  cases member <;> cases other <;> rfl

theorem Prefix.bit_ne_zero (member : Prefix) : member.bit ≠ 0 := by
  cases member <;> decide

namespace PrefixSet

theorem contains_insert (prefixes : PrefixSet) (member other : Prefix) :
    (prefixes.insert member).contains other =
      (decide (member = other) || prefixes.contains other) := by
  have distribute : (prefixes.bits ||| member.bit) &&& other.bit =
      prefixes.bits &&& other.bit ||| member.bit &&& other.bit := by
    apply UInt32.toBitVec_inj.mp
    exact BitVec.and_or_distrib_right
  unfold contains insert
  rw [distribute, Prefix.bit_and_bit]
  by_cases same : member = other
  · simp [same, other.bit_ne_zero]
  · simp [same]

theorem contains_insertBytes_operandSize (prefixes : PrefixSet) (run : List UInt8) :
    (prefixes.insertBytes run).contains .operandSize =
      (decide (0x66 ∈ run) || prefixes.contains .operandSize) := by
  induction run generalizing prefixes with
  | nil => simp [insertBytes]
  | cons byte rest inductionHypothesis =>
      rw [insertBytes, inductionHypothesis]
      cases isPrefix : Prefix.ofByte? byte with
      | none =>
          have other : (0x66 : UInt8) ≠ byte := by
            rintro rfl
            cases isPrefix
          simp [other]
      | some member =>
          have same : member = .operandSize ↔ (0x66 : UInt8) = byte := by
            rw [eq_comm (b := byte), ← Prefix.ofByte?_eq_operandSize_iff, isPrefix,
              Option.some.injEq]
          rw [Option.elim_some, contains_insert]
          simp [same, Bool.or_left_comm, Bool.or_assoc]

end PrefixSet

theorem effectiveSize_eq (run : List UInt8) (default : OperandSize) :
    Pass.effectiveSize (PrefixSet.empty.insertBytes run) default =
      if 0x66 ∈ run then default.toggled else default := by
  unfold Pass.effectiveSize
  rw [PrefixSet.contains_insertBytes_operandSize]
  by_cases isIn : (0x66 : UInt8) ∈ run <;> simp [isIn, PrefixSet.contains, PrefixSet.empty]

/-! ## Opcode and selection -/

def OpcodeBytes.found : OpcodeBytes → Opcode
  | oneByte byte => ⟨byte, byte.toUInt16, OpcodeMap.oneByteRow byte⟩
  | twoByte second => ⟨second, 0x0F00 ||| second.toUInt16, OpcodeMap.twoByteRow second⟩

theorem OpcodeBytes.row_found (opcode : OpcodeBytes) : opcode.found.row = opcode.row := by
  cases opcode <;> simp only [found, row]

namespace Pass

theorem readOpcode_ok_iff {byte : UInt8} {opcode : Opcode} {pass after : Pass} :
    readOpcode byte pass = .ok opcode after ↔
      ∃ bytes : OpcodeBytes, bytes.first = byte ∧ bytes.Unescaped ∧
        pass.stream.Holds bytes.rest ∧ opcode = bytes.found ∧
          after = pass.skip bytes.rest.length := by
  by_cases escaped : byte = escapeByte
  · have body : readOpcode byte = (do
        let second ← fetchByte
        return ⟨second, 0x0F00 ||| second.toUInt16, OpcodeMap.twoByteRow second⟩) :=
      if_pos escaped
    rw [body]
    simp only [bind_ok_iff, fetchByte_ok_iff, pure_ok_iff]
    constructor
    · intro succeeded
      rcases succeeded with ⟨second, _, ⟨mapped, rfl⟩, rfl, rfl⟩
      exact ⟨.twoByte second, escaped.symm, trivial,
        Stream.holds_cons.mpr ⟨mapped, Stream.holds_nil⟩, rfl, rfl⟩
    · intro given
      rcases given with ⟨bytes, first, unescaped, holds, rfl, rfl⟩
      cases bytes with
      | oneByte only => exact absurd (first.trans escaped) unescaped
      | twoByte second => exact ⟨second, _, ⟨(Stream.holds_cons.mp holds).1, rfl⟩, rfl, rfl⟩
  · have body : readOpcode byte = pure ⟨byte, byte.toUInt16, OpcodeMap.oneByteRow byte⟩ :=
      if_neg escaped
    rw [body, pure_ok_iff]
    constructor
    · intro succeeded
      rcases succeeded with ⟨rfl, rfl⟩
      exact ⟨.oneByte byte, rfl, escaped, Stream.holds_nil, rfl, (skip_zero _).symm⟩
    · intro given
      rcases given with ⟨bytes, rfl, unescaped, holds, rfl, rfl⟩
      cases bytes with
      | oneByte only => exact ⟨rfl, skip_zero _⟩
      | twoByte second => exact absurd rfl escaped

def nextModRm? (pass : Pass) : Option ModRm :=
  (pass.stream.byteAt? pass.stream.cursor).map ModRm.mk

theorem select?_ok_iff {row : Row} {found : Option Selection} {pass after : Pass} :
    select? row pass = .ok found after ↔
      (∀ group form, row = .group group form → pass.nextModRm?.isSome = true) ∧
        found = row.selection? pass.nextModRm? ∧ after = pass := by
  cases row with
  | unassigned =>
      refine Iff.trans pure_ok_iff (and_iff_right ?_).symm
      rintro _ _ ⟨⟩
  | instruction mnemonic form =>
      refine Iff.trans pure_ok_iff (and_iff_right ?_).symm
      rintro _ _ ⟨⟩
  | group group form =>
      have chosen (byte : UInt8) : (Row.group group form).selection? (some ⟨byte⟩) =
          (group.member? (ModRm.mk byte).reg).map fun member =>
            ⟨member.mnemonic, form, member.extra⟩ := by
        unfold Row.selection?
        rw [Option.map_some]
        exact (Option.map_eq_bind ..).symm
      simp only [select?, bind_ok_iff, peekByte_ok_iff, pure_ok_iff]
      constructor
      · intro succeeded
        rcases succeeded with ⟨byte, _, ⟨mapped, rfl⟩, rfl, rfl⟩
        have next : after.nextModRm? = some ⟨byte⟩ := by rw [nextModRm?, mapped]; rfl
        rw [next, chosen]
        exact ⟨fun _ _ _ => rfl, rfl, rfl⟩
      · intro given
        rcases given with ⟨isSome, rfl, rfl⟩
        obtain ⟨modRm, next⟩ := Option.isSome_iff_exists.mp (isSome group form rfl)
        obtain ⟨byte, mapped, rfl⟩ := Option.map_eq_some_iff.mp next
        rw [next, chosen]
        exact ⟨byte, after, ⟨mapped, rfl⟩, rfl, rfl⟩

theorem select_ok_iff {start : UInt32} {size : OperandSize} {opcode : Opcode}
    {selection : Selection} {pass after : Pass} :
    select start size opcode pass = .ok selection after ↔
      (∀ group form, opcode.row = .group group form → pass.nextModRm?.isSome = true) ∧
        opcode.row.selection? pass.nextModRm? = some selection ∧
        (size = .bits16 → ¬(selection.form.shape = .branch ∧ selection.form.width = .dword)) ∧
        after = pass := by
  have isNear (form : Form) : (isNearBranch form && size == .bits16) = true ↔
      size = .bits16 ∧ form.shape = .branch ∧ form.width = .dword := by
    simp [isNearBranch, and_comm]
  have outcome (chosen : Selection) :
      (if isNearBranch chosen.form && size == .bits16 then
          refuse (.unsupportedOpcode opcode.code start)
        else pure chosen : PassM Selection) pass = .ok selection after ↔
        ¬(size = .bits16 ∧ chosen.form.shape = .branch ∧ chosen.form.width = .dword) ∧
          selection = chosen ∧ after = pass := by
    rw [← isNear]
    by_cases near : (isNearBranch chosen.form && size == .bits16) = true
    · simp only [near, if_true, not_true_eq_false, false_and, iff_false]
      intro ran
      cases ran
    · simp only [near, if_false, Bool.false_eq_true, not_false_eq_true, true_and, pure_ok_iff]
  unfold select
  simp only [bind_ok_iff, select?_ok_iff]
  constructor
  · intro succeeded
    rcases succeeded with ⟨found, _, ⟨isGroup, isFound, rfl⟩, rest⟩
    cases found with
    | none => cases rest
    | some chosen =>
        obtain ⟨notNear, rfl, rfl⟩ := (outcome chosen).mp rest
        exact ⟨isGroup, isFound.symm, fun size near => notNear ⟨size, near⟩, rfl⟩
  · intro given
    rcases given with ⟨isGroup, isFound, notNear, rfl⟩
    exact ⟨some selection, after, ⟨isGroup, isFound.symm, rfl⟩,
      (outcome selection).mpr ⟨fun near => notNear near.1 near.2, rfl, rfl⟩⟩

/-! ## Beginning and finishing -/

def begun (pass : Pass) (opcode : UInt8) (form : Form) (size : OperandSize) : Pass :=
  let pass := { pass with decoder := pass.decoder.start opcode (form.width.bytes size) size }
  form.sourceWidth.elim pass fun width =>
    pass.update .src fun operand => { operand with width := width.bytes size }

theorem begin_eq (pass : Pass) (opcode : UInt8) (form : Form) (size : OperandSize) :
    begin opcode form size pass = .ok () (pass.begun opcode form size) := by
  unfold begin begun
  cases form.sourceWidth <;> rfl

@[simp] theorem stream_begun (pass : Pass) (opcode : UInt8) (form : Form) (size : OperandSize) :
    (pass.begun opcode form size).stream = pass.stream := by
  unfold begun
  cases form.sourceWidth <;> rfl

theorem widths_begun (pass : Pass) (opcode : UInt8) (selection : Selection)
    (size : OperandSize) :
    (pass.begun opcode selection.form size).widths = selection.widths size := by
  funext slot
  unfold begun Selection.widths
  cases selection.form.sourceWidth <;> cases slot <;> rfl

theorem sized_begun (pass : Pass) (opcode : UInt8) (selection : Selection)
    (size : OperandSize) : (pass.begun opcode selection.form size).decoder.Sized := by
  intro slot
  have width := congrFun (pass.widths_begun opcode selection size) slot
  unfold widths at width
  rw [width]
  exact selection.validWidth_widths size slot

def finished (pass : Pass) : Pass :=
  let context := { pass.decoder.context with nextAddress := pass.stream.cursor }
  { pass with decoder := { pass.decoder with context } }

theorem finish_ok_iff {start size : UInt32} {pass after : Pass} :
    finish start pass = .ok size after ↔
      (pass.stream.cursor - start).toNat ≤ 15 ∧ size = pass.stream.cursor - start ∧
        after = pass.finished := by
  have ran : finish start pass = (if (pass.stream.cursor - start).toNat > maxLength then
      refuse (.instructionTooLong start) else pure (pass.stream.cursor - start) : PassM UInt32)
        pass.finished := rfl
  rw [ran]
  by_cases long : (pass.stream.cursor - start).toNat > maxLength
  · simp only [if_pos long]
    constructor
    · intro refused
      cases refused
    · intro given
      rcases given with ⟨short, -⟩
      exact absurd short (Nat.not_le.mpr long)
  · simp only [if_neg long, pure_ok_iff]
    exact (and_iff_right (Nat.not_lt.mp long)).symm

/-! ## Whole instructions -/

/-- What decoding does once the prefixes of the instruction at `start` have been read. -/
def decodeRest (start : UInt32) (run : PrefixSet × UInt8) : PassM Instruction := do
  let (prefixes, byte) := run
  let decoder ← currentDecoder
  let operandSize := effectiveSize prefixes decoder.defaultSize
  let opcode ← readOpcode byte
  let selection ← select start operandSize opcode
  begin opcode.byte selection.form operandSize
  Step.runAll selection.steps
  let size ← finish start
  let decoder ← currentDecoder
  return {
    address := start
    size
    prefixes := if byte = escapeByte then prefixes.insert .twoByte else prefixes
    opcode := opcode.code
    mnemonic := selection.mnemonic
    operandSize
    dest := decoder.dest
    src := decoder.src
    src2 := decoder.src2
    branchTarget :=
      if decoder.context.isBranch then some decoder.context.branchTarget else none }

theorem decode_eq (pass : Pass) :
    decode pass = ((fetchByte >>= readPrefixes pass.stream.cursor (maxLength - 1) .empty) >>=
      decodeRest pass.stream.cursor) pass := by
  have first : cursor pass = .ok pass.stream.cursor pass := rfl
  unfold decode decodeRest
  simp only [bind_of_ok first, bind_assoc, Selection.steps, Step.runAll_append, Shape.decode]

/-- The bytes that are left of an encoding once its prefixes and the first byte of its opcode have
been read. -/
structure Remains (pass : Pass) (first : UInt8) (size : OperandSize) (opcode : OpcodeBytes)
    (operands : OperandBytes) (selection : Selection) : Prop where
  begins : opcode.first = first
  unescaped : opcode.Unescaped
  selected : opcode.row.selection? operands.modRm = some selection
  near : size = .bits16 → ¬(selection.form.shape = .branch ∧ selection.form.width = .dword)
  takes : selection.Takes size operands
  holds : pass.stream.Holds (opcode.rest ++ operands.bytes)

/-- The pass after the operands of an instruction were decoded, from the rest of its opcode on. -/
def operandsDecoded (pass : Pass) (size : OperandSize) (opcode : OpcodeBytes)
    (operands : OperandBytes) (selection : Selection) : Pass :=
  Step.effectAll operands selection.steps
    ((pass.skip opcode.rest.length).begun opcode.found.byte selection.form size)

theorem stream_operandsDecoded {pass : Pass} {first : UInt8} {size : OperandSize}
    {opcode : OpcodeBytes} {operands : OperandBytes} {selection : Selection}
    (remains : pass.Remains first size opcode operands selection) :
    (pass.operandsDecoded size opcode operands selection).stream =
      pass.stream.skip (opcode.rest.length + operands.bytes.length) := by
  have regular := Row.regular_selection? opcode.regular_row remains.selected
  rw [operandsDecoded, Step.stream_effectAll, stream_begun,
    Selection.taken_eq regular remains.takes.addressing remains.takes.immediate]
  exact Stream.skip_skip _ _ _

/-- The instruction at `start` when its operands are decoded and its bytes are known. -/
def instructionAt (pass : Pass) (start length : UInt32) (prefixes : PrefixSet)
    (size : OperandSize) (opcode : OpcodeBytes) (selection : Selection) : Instruction where
  address := start
  size := length
  prefixes := if opcode.first = escapeByte then prefixes.insert .twoByte else prefixes
  opcode := opcode.found.code
  mnemonic := selection.mnemonic
  operandSize := size
  dest := pass.decoder.dest
  src := pass.decoder.src
  src2 := pass.decoder.src2
  branchTarget :=
    if pass.decoder.context.isBranch then some pass.decoder.context.branchTarget else none

/-- The next ModR/M byte chooses the same operation as the operand encoding that it begins. -/
theorem selection?_nextModRm {pass : Pass} {row : Row} {size : OperandSize}
    {operands : OperandBytes} {selection : Selection} (regular : row.Regular)
    (form : selection.form = row.form) (takes : selection.Takes size operands)
    (holds : pass.stream.Holds operands.bytes) :
    (∀ group form, row = .group group form → pass.nextModRm?.isSome = true) ∧
      row.selection? pass.nextModRm? = row.selection? operands.modRm := by
  have next (group : Group) (form : Form) (isGroup : row = .group group form) :
      ∃ encoding : Addressing, pass.nextModRm? = some encoding.modRm ∧
        operands.modRm = some encoding.modRm := by
    subst isGroup
    obtain ⟨-, hasRm, -⟩ := regular
    have addressing := takes.addressing
    rw [form] at addressing
    obtain ⟨encoding, present⟩ := Option.isSome_iff_exists.mp (addressing.trans hasRm)
    rw [OperandBytes.bytes, present] at holds
    refine ⟨encoding, ?_, ?_⟩
    · rw [nextModRm?, (Stream.holds_cons.mp holds).1]
      rfl
    · rw [OperandBytes.modRm, present]
      rfl
  constructor
  · intro group form isGroup
    obtain ⟨encoding, same, -⟩ := next group form isGroup
    rw [same]
    rfl
  · apply Row.selection?_congr
    intro group form isGroup
    obtain ⟨encoding, same, other⟩ := next group form isGroup
    rw [same, other]

/-- The steps of a selection succeed exactly if the bytes that it calls for stand at the cursor. -/
theorem runAll_begun_ok_iff {selection : Selection} {opcode : UInt8} {size : OperandSize}
    {pass after : Pass} (regular : selection.Regular) :
    Step.runAll selection.steps (pass.begun opcode selection.form size) = .ok () after ↔
      ∃ operands : OperandBytes, selection.Takes size operands ∧
        pass.stream.Holds operands.bytes ∧
        after = Step.effectAll operands selection.steps
          (pass.begun opcode selection.form size) := by
  have sized := pass.sized_begun opcode selection size
  have fits := Selection.fitsAll_iff regular (pass.widths_begun opcode selection size)
  rw [Step.runAll_ok_iff sized (Selection.apart_steps regular)]
  refine exists_congr fun operands => ?_
  rw [← and_assoc, fits, stream_begun, and_assoc]

/-- After the prefixes, decoding succeeds exactly if the rest of an instruction stands at the
cursor and the whole is not too long. -/
theorem decodeRest_ok_iff {start : UInt32} {prefixes : PrefixSet} {first : UInt8}
    {instruction : Instruction} {pass after : Pass} :
    decodeRest start (prefixes, first) pass = .ok instruction after ↔
      ∃ (opcode : OpcodeBytes) (operands : OperandBytes) (selection : Selection),
        let size := effectiveSize prefixes pass.decoder.defaultSize
        let decoded := pass.operandsDecoded size opcode operands selection
        let length := decoded.stream.cursor - start
        pass.Remains first size opcode operands selection ∧ length.toNat ≤ 15 ∧
          instruction = decoded.instructionAt start length prefixes size opcode selection ∧
          after = decoded.finished := by
  have decoder (pass : Pass) : currentDecoder pass = .ok pass.decoder pass := rfl
  have row (opcode : OpcodeBytes) := opcode.row_found
  unfold decodeRest
  simp only [bind_of_ok (decoder _), bind_ok_iff, readOpcode_ok_iff, select_ok_iff, begin_eq]
  constructor
  · intro succeeded
    rcases succeeded with ⟨_, _, ⟨opcode, rfl, unescaped, opcodeHolds, rfl, rfl⟩, selection, _,
      ⟨-, selected, near, rfl⟩, _, _, begun, ⟨⟩, decoded, operandsRan, size, _, finishRan, last⟩
    obtain ⟨-, rfl⟩ := EStateM.Result.ok.inj begun
    obtain ⟨short, rfl, rfl⟩ := finish_ok_iff.mp finishRan
    obtain ⟨rfl, rfl⟩ := pure_ok_iff.mp last
    rw [row] at selected
    have regular := Row.regular_selection? opcode.regular_row selected
    obtain ⟨operands, takes, holds, rfl⟩ := (runAll_begun_ok_iff regular).mp operandsRan
    obtain ⟨-, same⟩ := selection?_nextModRm opcode.regular_row
      (Row.form_selection? selected) takes holds
    rw [same] at selected
    exact ⟨opcode, operands, selection, ⟨rfl, unescaped, selected, near, takes,
      Stream.holds_append.mpr ⟨opcodeHolds, holds⟩⟩, short, rfl, rfl⟩
  · intro given
    rcases given with ⟨opcode, operands, selection,
      ⟨rfl, unescaped, selected, near, takes, holds⟩, short, rfl, rfl⟩
    have opcodeHolds := (Stream.holds_append.mp holds).1
    have operandsHold : (pass.skip opcode.rest.length).stream.Holds operands.bytes :=
      (Stream.holds_append.mp holds).2
    have regular := Row.regular_selection? opcode.regular_row selected
    obtain ⟨isGroup, same⟩ := selection?_nextModRm opcode.regular_row
      (Row.form_selection? selected) takes operandsHold
    rw [← same] at selected
    exact ⟨_, _, ⟨opcode, rfl, unescaped, opcodeHolds, rfl, rfl⟩, selection, _,
      ⟨(row opcode).symm ▸ isGroup, (row opcode).symm ▸ selected, near, rfl⟩, (), _, rfl, (), _,
      (runAll_begun_ok_iff regular).mpr ⟨operands, takes, operandsHold, rfl⟩, _, _,
      finish_ok_iff.mpr ⟨short, rfl, rfl⟩, rfl⟩

/-- The pass after the operands of the encoding at the cursor were decoded. -/
def staged (pass : Pass) (encoding : Encoding) (selection : Selection) : Pass :=
  (pass.skip (encoding.prefixes.length + 1)).operandsDecoded
    (encoding.operandSize pass.decoder.defaultSize) encoding.opcode encoding.operands selection

/-- The instruction that the encoding at the cursor stands for. -/
def instruction (pass : Pass) (encoding : Encoding) (selection : Selection) : Instruction :=
  (pass.staged encoding selection).instructionAt pass.stream.cursor
    (UInt32.ofNat encoding.bytes.length) (PrefixSet.empty.insertBytes encoding.prefixes)
    (encoding.operandSize pass.decoder.defaultSize) encoding.opcode selection

/-- An encoding at the cursor consists of a run of prefixes, with the first byte of the opcode,
and of what remains. -/
theorem encodes_iff {pass : Pass} {encoding : Encoding} {selection : Selection} :
    encoding.Encodes pass.decoder.defaultSize selection ∧ pass.stream.Holds encoding.bytes ↔
      pass.AtRun encoding.prefixes encoding.opcode.first ∧
        (pass.skip (encoding.prefixes.length + 1)).Remains encoding.opcode.first
          (encoding.operandSize pass.decoder.defaultSize) encoding.opcode encoding.operands
          selection ∧
        encoding.bytes.length ≤ 15 := by
  have bytes : encoding.bytes = (encoding.prefixes ++ [encoding.opcode.first]) ++
      (encoding.opcode.rest ++ encoding.operands.bytes) := by
    rw [Encoding.bytes, encoding.opcode.bytes_eq]
    simp
  have split : pass.stream.Holds encoding.bytes ↔
      pass.stream.Holds (encoding.prefixes ++ [encoding.opcode.first]) ∧
        (pass.skip (encoding.prefixes.length + 1)).stream.Holds
          (encoding.opcode.rest ++ encoding.operands.bytes) := by
    rw [bytes, Stream.holds_append, List.length_append]
    rfl
  rw [split]
  constructor
  · intro given
    rcases given with ⟨encodes, runHolds, restHolds⟩
    obtain ⟨⟨other, notOverride⟩, unescaped⟩ :=
      (OpcodeBytes.proper_iff encodes.selected).mp encodes.opcode
    exact ⟨⟨encodes.prefixes, other, notOverride, runHolds⟩,
      ⟨rfl, unescaped, encodes.selected, encodes.near, encodes.operands, restHolds⟩,
      encodes.length⟩
  · intro given
    rcases given with ⟨run, remains, short⟩
    have proper := (OpcodeBytes.proper_iff remains.selected).mpr
      ⟨⟨run.other, run.notOverride⟩, remains.unescaped⟩
    exact ⟨⟨run.prefixes, proper, remains.selected, remains.near, remains.takes, short⟩,
      run.holds, remains.holds⟩

theorem stream_staged {pass : Pass} {encoding : Encoding} {selection : Selection}
    (remains : (pass.skip (encoding.prefixes.length + 1)).Remains encoding.opcode.first
      (encoding.operandSize pass.decoder.defaultSize) encoding.opcode encoding.operands
      selection) :
    (pass.staged encoding selection).stream = pass.stream.skip encoding.bytes.length := by
  rw [staged, stream_operandsDecoded remains, encoding.length_bytes]
  exact Stream.skip_skip _ _ _

/-- Even an instruction that is too long is not so long that its length is ambiguous. -/
theorem toNat_length {pass : Pass} {encoding : Encoding} {selection : Selection}
    (few : encoding.prefixes.length ≤ 14)
    (takes : selection.Takes (encoding.operandSize pass.decoder.defaultSize) encoding.operands) :
    (UInt32.ofNat encoding.bytes.length).toNat = encoding.bytes.length := by
  have operands := Selection.length_bytes_le takes
  have opcode : encoding.opcode.rest.length ≤ 1 := by
    cases encoding.opcode <;> simp [OpcodeBytes.rest]
  rw [UInt32.toNat_ofNat']
  refine Nat.mod_eq_of_lt ?_
  rw [encoding.length_bytes]
  omega

theorem length_staged {pass : Pass} {encoding : Encoding} {selection : Selection}
    (remains : (pass.skip (encoding.prefixes.length + 1)).Remains encoding.opcode.first
      (encoding.operandSize pass.decoder.defaultSize) encoding.opcode encoding.operands
      selection) :
    (pass.staged encoding selection).stream.cursor - pass.stream.cursor =
      UInt32.ofNat encoding.bytes.length := by
  rw [stream_staged remains, Stream.cursor_skip, UInt32.add_comm, UInt32.add_sub_cancel]

/-- Decoding succeeds exactly on an instruction of the format, and its outcome is a function of
the encoding. -/
theorem decode_ok_iff {instruction : Instruction} {pass after : Pass} :
    decode pass = .ok instruction after ↔
      ∃ (encoding : Encoding) (selection : Selection),
        (encoding.Encodes pass.decoder.defaultSize selection ∧
          pass.stream.Holds encoding.bytes) ∧
        instruction = pass.instruction encoding selection ∧
        after = (pass.staged encoding selection).finished := by
  rw [decode_eq, bind_ok_iff]
  constructor
  · intro succeeded
    rcases succeeded with ⟨⟨prefixes, first⟩, _, runRan, restRan⟩
    obtain ⟨run, few, stands, rfl, rfl⟩ := readPrefixes_ok_iff.mp runRan
    obtain ⟨opcode, operands, selection, remains, short, rfl, rfl⟩ :=
      decodeRest_ok_iff.mp restRan
    have size := effectiveSize_eq run pass.decoder.defaultSize
    rw [decoder_skip, size] at remains short
    rw [decoder_skip, size]
    obtain rfl := remains.begins
    let encoding : Encoding := ⟨run, opcode, operands⟩
    have length : (pass.staged encoding selection).stream.cursor - pass.stream.cursor =
        UInt32.ofNat encoding.bytes.length := length_staged remains
    have same : (UInt32.ofNat encoding.bytes.length).toNat = encoding.bytes.length :=
      toNat_length few remains.takes
    have isShort : encoding.bytes.length ≤ 15 := by
      rw [← same, ← length]
      exact short
    refine ⟨encoding, selection, encodes_iff.mpr ⟨stands, remains, isShort⟩, ?_, rfl⟩
    rw [Pass.instruction, ← length]
    rfl
  · intro given
    rcases given with ⟨encoding, selection, valid, rfl, rfl⟩
    obtain ⟨stands, remains, short⟩ := encodes_iff.mp valid
    have few : encoding.prefixes.length ≤ 14 := by
      rw [encoding.length_bytes] at short
      omega
    have length := length_staged remains
    have same := toNat_length few remains.takes
    have size := effectiveSize_eq encoding.prefixes pass.decoder.defaultSize
    refine ⟨_, _, readPrefixes_ok_iff.mpr ⟨encoding.prefixes, few, stands, rfl, rfl⟩,
      decodeRest_ok_iff.mpr ⟨encoding.opcode, encoding.operands, selection, ?_⟩⟩
    rw [decoder_skip, size]
    refine ⟨remains, ?_, ?_, rfl⟩
    · exact Nat.le_trans (Nat.le_of_eq (length ▸ same)) short
    · rw [Pass.instruction, ← length]
      rfl

theorem decode_of_encodes {pass : Pass} {encoding : Encoding} {selection : Selection}
    (encodes : encoding.Encodes pass.decoder.defaultSize selection)
    (holds : pass.stream.Holds encoding.bytes) :
    decode pass = .ok (pass.instruction encoding selection)
      (pass.staged encoding selection).finished :=
  decode_ok_iff.mpr ⟨encoding, selection, ⟨encodes, holds⟩, rfl, rfl⟩

/-! ## An instruction -/

/-- The encoding of `imul ax, word ptr [ebx + 4], -2`. -/
def imulEncoding : Encoding :=
  ⟨[0x66], .oneByte 0x6B, some ⟨⟨0x43⟩, none, [0x04], rfl, rfl⟩, [0xFE]⟩

def imulSelection : Selection :=
  ⟨.imul, ⟨.rmSignedImmToReg, .full, none⟩, .implied⟩

theorem encodes_imul : imulEncoding.Encodes .bits32 imulSelection := by
  have row : OpcodeMap.oneByteRow 0x6B =
      .instruction .imul ⟨.rmSignedImmToReg, .full, none⟩ := by
    decide +kernel
  refine ⟨List.forall_mem_singleton.mpr (by decide), ⟨by decide, by decide, by decide⟩, ?_, ?_,
    ⟨rfl, ?_, rfl⟩, by decide⟩
  · show (OpcodeMap.oneByteRow 0x6B).selection? _ = _
    rw [row]
    rfl
  · intro _ near
    cases near.1
  · intro atMemory
    cases atMemory

theorem decode_imul :
    decode (.ofBytes #[0x66, 0x6B, 0x43, 0x04, 0xFE] []) =
      .ok ((ofBytes #[0x66, 0x6B, 0x43, 0x04, 0xFE] []).instruction imulEncoding imulSelection)
        ((ofBytes #[0x66, 0x6B, 0x43, 0x04, 0xFE] []).staged imulEncoding
          imulSelection).finished := by
  have stands : (ofBytes #[0x66, 0x6B, 0x43, 0x04, 0xFE] []).stream.Holds imulEncoding.bytes :=
    ⟨rfl, rfl, rfl, rfl, rfl, trivial⟩
  exact decode_ok_iff.mpr ⟨imulEncoding, imulSelection, ⟨encodes_imul, stands⟩, rfl, rfl⟩

/-- Decoding succeeds exactly if an instruction of the format stands at the cursor, whatever the
machine holds and whatever was decoded before. The instruction has the length of its encoding, and
the cursor is left after it. -/
theorem decode_accepts_iff (pass : Pass) :
    ((∃ (instruction : Instruction) (after : Pass), decode pass = .ok instruction after) ↔
      ∃ (encoding : Encoding) (selection : Selection),
        encoding.Encodes pass.decoder.defaultSize selection ∧
          pass.stream.Holds encoding.bytes) ∧
    ∀ (instruction : Instruction) (after : Pass), decode pass = .ok instruction after →
      ∃ (encoding : Encoding) (selection : Selection),
        encoding.Encodes pass.decoder.defaultSize selection ∧
          pass.stream.Holds encoding.bytes ∧
          instruction.address = pass.stream.cursor ∧
          instruction.size.toNat = encoding.bytes.length ∧
          instruction.mnemonic = selection.mnemonic ∧
          instruction.operandSize = encoding.operandSize pass.decoder.defaultSize ∧
          after.stream = pass.stream.skip encoding.bytes.length := by
  refine ⟨⟨?_, ?_⟩, ?_⟩
  · intro given
    rcases given with ⟨instruction, after, ran⟩
    obtain ⟨encoding, selection, ⟨encodes, holds⟩, -, -⟩ := decode_ok_iff.mp ran
    exact ⟨encoding, selection, encodes, holds⟩
  · intro given
    rcases given with ⟨encoding, selection, encodes, holds⟩
    exact ⟨_, _, decode_ok_iff.mpr ⟨encoding, selection, ⟨encodes, holds⟩, rfl, rfl⟩⟩
  · intro instruction after ran
    obtain ⟨encoding, selection, ⟨encodes, holds⟩, rfl, rfl⟩ := decode_ok_iff.mp ran
    obtain ⟨-, remains, short⟩ := encodes_iff.mp ⟨encodes, holds⟩
    have few : encoding.prefixes.length ≤ 14 := by
      rw [encoding.length_bytes] at short
      omega
    exact ⟨encoding, selection, encodes, holds, rfl, toNat_length few remains.takes, rfl, rfl,
      stream_staged remains⟩

/-- `movzx eax, byte ptr [eax + ecx * 4 - 4]`, with a prefix that does not change it. -/
theorem decode_accepts_movzx :
    (∃ (instruction : Instruction) (after : Pass),
      decode (.ofBytes #[0x3E, 0x0F, 0xB6, 0x44, 0x88, 0xFC, 0x90] []) = .ok instruction after) ∧
    ∀ (instruction : Instruction) (after : Pass),
      decode (.ofBytes #[0x3E, 0x0F, 0xB6, 0x44, 0x88, 0xFC, 0x90] []) = .ok instruction after →
        ∃ encoding : Encoding, instruction.size.toNat = encoding.bytes.length := by
  obtain ⟨accepts, outcome⟩ :=
    decode_accepts_iff (.ofBytes #[0x3E, 0x0F, 0xB6, 0x44, 0x88, 0xFC, 0x90] [])
  refine ⟨accepts.mpr ⟨⟨[0x3E], .twoByte 0xB6, some ⟨⟨0x44⟩, some 0x88, [0xFC], rfl, rfl⟩, []⟩,
    ⟨.movzx, ⟨.loadRmToReg, .full, some .byte⟩, .implied⟩, ?_, ?_⟩, ?_⟩
  · refine ⟨List.forall_mem_singleton.mpr (by decide), ⟨by decide, by decide⟩, rfl, ?_,
      ⟨rfl, ?_, rfl⟩, by decide⟩
    · rintro - ⟨⟨⟩, -⟩
    · intro given
      rcases given with ⟨⟩
  · exact ⟨rfl, rfl, rfl, rfl, rfl, rfl, trivial⟩
  · intro instruction after ran
    obtain ⟨encoding, -, -, -, -, size, -⟩ := outcome instruction after ran
    exact ⟨encoding, size⟩

end Pass

end I386
