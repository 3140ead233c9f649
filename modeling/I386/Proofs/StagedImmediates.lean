import I386.Proofs.BranchTarget
import I386.Proofs.ImmediateForms
import I386.Proofs.WriteBack

/-!
Contract: the values that immediates are staged at.

Owns:
- which opcodes have an immediate that is a signed byte, and which have the constant 1;
- the number of bytes of an immediate, which is the width of its operand;
- pushing an immediate in its two forms.

Main statement: an immediate is staged cut to the operand size of its instruction, except that a
push of a signed byte stages it at 32 bits.

Does not own: displacements of relative branches.
-/

namespace I386

/-! ## Opcodes with immediates -/

/-- What an immediate stands for: at three opcodes it is a signed byte. -/
def immediateValue (opcode : UInt16) (immediate : UInt32) : UInt32 :=
  if opcode = 0x83 ∨ opcode = 0x6B ∨ opcode = 0x6A then signedByte immediate.toUInt8
  else immediate

/-- An opcode has the constant 1 for an immediate. -/
def ImpliesOne (opcode : UInt16) : Prop :=
  opcode = 0xD0 ∨ opcode = 0xD1

instance (opcode : UInt16) : Decidable (ImpliesOne opcode) :=
  inferInstanceAs (Decidable (_ ∨ _))

/-- Which opcodes have the patterns with unusual immediates. -/
structure Form.HasImmediates (form : Form) (opcode : UInt16) : Prop where
  signedImm : form.shape = .signedImm ↔ opcode = 0x6A
  signedByte : form.shape = .signedImmToRm ∨ form.shape = .rmSignedImmToReg ↔
    opcode = 0x83 ∨ opcode = 0x6B
  one : form.shape = .shiftByOne ↔ ImpliesOne opcode
  /-- Only branches have four bytes at either operand size. -/
  dword : form.width = .dword → form.shape = .branch

instance (form : Form) (opcode : UInt16) : Decidable (form.HasImmediates opcode) :=
  decidable_of_iff
    ((form.shape = .signedImm ↔ opcode = 0x6A) ∧
      (form.shape = .signedImmToRm ∨ form.shape = .rmSignedImmToReg ↔
        opcode = 0x83 ∨ opcode = 0x6B) ∧
      (form.shape = .shiftByOne ↔ ImpliesOne opcode) ∧
      (form.width = .dword → form.shape = .branch))
    ⟨fun ⟨signedImm, signedByte, one, dword⟩ => ⟨signedImm, signedByte, one, dword⟩,
      fun has => ⟨has.signedImm, has.signedByte, has.one, has.dword⟩⟩

theorem OpcodeBytes.hasImmediates_row (opcode : OpcodeBytes) :
    opcode.row.form.HasImmediates opcode.found.code := by
  refine of_decide_eq_true (opcode.check_row (fun code row => decide (row.form.HasImmediates code))
    ?_ ?_ ?_) <;> decide +kernel

theorem OpcodeBytes.hasImmediates_of_selected {opcode : OpcodeBytes} {modRm : Option ModRm}
    {selection : Selection} (selected : opcode.row.selection? modRm = some selection) :
    selection.form.HasImmediates opcode.found.code := by
  rw [Row.form_selection? selected]
  exact opcode.hasImmediates_row

theorem Form.HasImmediates.plain {form : Form} {opcode : UInt16} (has : form.HasImmediates opcode)
    (plain : form.shape ∉ [.signedImmToRm, .rmSignedImmToReg, .branch, .signedImm, .shiftByOne]) :
    ¬ImpliesOne opcode ∧ opcode ≠ 0x6A ∧
      ∀ immediate, immediateValue opcode immediate = immediate := by
  obtain ⟨signedImm, signedByte, one, -⟩ := has
  simp only [List.mem_cons, List.not_mem_nil, or_false, not_or] at plain
  obtain ⟨notToRm, notToReg, -, notSignedImm, notOne⟩ := plain
  have notPush : opcode ≠ 0x6A := mt signedImm.mpr notSignedImm
  have notByte := mt signedByte.mpr (not_or.mpr ⟨notToRm, notToReg⟩)
  refine ⟨mt one.mpr notOne, notPush, fun immediate => if_neg ?_⟩
  rintro (isFirst | isSecond | isPush)
  · exact notByte (.inl isFirst)
  · exact notByte (.inr isSecond)
  · exact notPush isPush

theorem OperandSize.cut_ofBytes {size : OperandSize} {bytes : List UInt8}
    (short : bytes.length ≤ size.bytes.toNat) :
    size.cut (LittleEndian.ofBytes bytes) = LittleEndian.ofBytes bytes := by
  have small : size.bytes.toNat ≤ 4 := by cases size <;> decide
  rw [cut_eq_iff, LittleEndian.toNat_ofBytes _ (Nat.le_trans short small)]
  exact Nat.lt_of_lt_of_le (LittleEndian.number_lt bytes)
    (Nat.pow_le_pow_right (by decide) short)

theorem LittleEndian.toUInt8_ofBytes (byte : UInt8) : (ofBytes [byte]).toUInt8 = byte := by
  simp [ofBytes]

/-! ## Roles of immediates -/

namespace Selection

/-- Only branches have an operand that is wider than the operand size. -/
theorem width_le_size {selection : Selection} {opcode : UInt16}
    (has : selection.form.HasImmediates opcode)
    (notBranch : selection.form.shape ≠ .branch) (size : OperandSize) :
    (selection.form.width.bytes size).toNat ≤ size.bytes.toNat := by
  cases width : selection.form.width with
  | dword => exact absurd (has.dword width) notBranch
  | _ => cases size <;> decide

variable {selection : Selection} (regular : selection.Regular)

include regular

/-- A sign-extended byte and the constant 1 are in patterns of their own. -/
theorem shape_of_role (slot : Slot) :
    (selection.role slot = .signedByte →
      selection.form.shape = .signedImmToRm ∨ selection.form.shape = .rmSignedImmToReg) ∧
    (selection.role slot = .one → selection.form.shape = .shiftByOne) ∧
    (selection.role slot = .immediate ∨ selection.role slot = .byteImmediate →
      selection.form.shape ∉
        [.signedImmToRm, .rmSignedImmToReg, .branch, .signedImm, .shiftByOne]) := by
  unfold role
  rcases regular.extra with plain | ⟨added, rm⟩
  · rw [plain]
    generalize selection.form.shape = shape
    cases shape <;> cases slot <;> decide
  · rw [added, rm]
    cases slot <;> decide

/-- An immediate of a whole operand has as many bytes as the operand is wide. -/
theorem length_of_whole {slot : Slot} (isRole : selection.role slot = .immediate)
    (size : OperandSize) :
    selection.widths size slot = selection.form.width.bytes size ∧
      selection.immediateLength size = (selection.form.width.bytes size).toNat := by
  obtain ⟨⟨source, -, -⟩, extra⟩ := regular
  obtain ⟨mnemonic, ⟨shape, width, sourceWidth⟩, added⟩ := selection
  unfold role at isRole
  unfold immediateLength widths
  rcases extra with plain | ⟨isAdded, isRm⟩
  · obtain rfl : added = .implied := plain
    cases shape <;> cases slot <;>
      simp_all [Shape.roles, Roles.slot, Shape.immediateLength]
  · obtain rfl : added = .groupImm := isAdded
    obtain rfl : shape = .rm := isRm
    cases slot <;> simp_all [Shape.roles, Roles.slot, Shape.immediateLength]

/-- A sign-extended byte goes to a destination of the operand size. -/
theorem widths_of_signedByte {slot : Slot} (isRole : selection.role slot = .signedByte)
    (size : OperandSize) : selection.widths size .dest = size.bytes := by
  have full := regular.form.2.2 ((shape_of_role regular slot).1 isRole).symm
  show selection.form.width.bytes size = _
  rw [full]
  rfl

/-- A signed immediate that is no displacement is one byte. -/
theorem byte_of_signedImmediate {opcode : UInt16} (has : selection.form.HasImmediates opcode)
    (notBranch : selection.form.shape ≠ .branch) {slot : Slot}
    (isRole : selection.role slot = .signedImmediate) (size : OperandSize) :
    selection.form.shape = .signedImm ∧ selection.widths size slot = 1 ∧
      selection.immediateLength size = 1 := by
  obtain ⟨isDest, branch | push, plain⟩ := signed_of_role regular isRole
  · exact absurd branch notBranch
  have isByte : selection.form.width = .byte := by
    rcases regular.form.2.1 (.inr push) with byte | dword
    · exact byte
    · exact absurd (has.dword dword) notBranch
  refine ⟨push, ?_, ?_⟩
  · rw [isDest]
    show selection.form.width.bytes size = 1
    rw [isByte]
    rfl
  · rw [immediateLength, plain, push, isByte]
    rfl

end Selection

/-! ## Staged values -/

/-- What an operand that is an immediate holds. -/
structure Operand.Stages (operand : Operand) (opcode : UInt16) (size : OperandSize)
    (immediate : List UInt8) : Prop where
  one : ImpliesOne opcode → operand.immediate = 1
  encoded : ¬ImpliesOne opcode →
    immediate.length = operand.width.toNat ∧
      operand.immediate = LittleEndian.ofBytes immediate
  value : operand.value =
    if opcode = 0x6A then immediateValue opcode operand.immediate
    else size.cut (immediateValue opcode operand.immediate)

namespace Operand

/-- A whole immediate of at most the operand size is not cut by it. -/
theorem stages_whole {form : Form} {opcode : UInt16} (has : form.HasImmediates opcode)
    (plain : form.shape ∉ [.signedImmToRm, .rmSignedImmToReg, .branch, .signedImm, .shiftByOne])
    {width : UInt8} {size : OperandSize} {immediate : List UInt8}
    (length : immediate.length = width.toNat) (short : width.toNat ≤ size.bytes.toNat) :
    ((ofWidth width).withImmediate (LittleEndian.ofBytes immediate)).Stages opcode size
      immediate := by
  obtain ⟨notOne, notPush, value⟩ := has.plain plain
  refine ⟨fun one => absurd one notOne, fun _ => ⟨length, rfl⟩, ?_⟩
  rw [if_neg notPush, value]
  exact (OperandSize.cut_ofBytes (length ▸ short)).symm

/-- The signed byte of a source is cut. -/
theorem stages_signedByte {opcode : UInt16} (isOpcode : opcode = 0x83 ∨ opcode = 0x6B)
    (byte : UInt8) (size : OperandSize) :
    (((ofWidth 1).withSignedImmediate (LittleEndian.ofBytes [byte])).clippedTo
      size.bytes).Stages opcode size [byte] := by
  have immediate : (((ofWidth 1).withSignedImmediate (LittleEndian.ofBytes [byte])).clippedTo
      size.bytes).immediate = LittleEndian.ofBytes [byte] := by
    cases size <;> rfl
  have width : (((ofWidth 1).withSignedImmediate (LittleEndian.ofBytes [byte])).clippedTo
      size.bytes).width = 1 := by
    cases size <;> rfl
  have notOne : ¬ImpliesOne opcode := by
    rcases isOpcode with rfl | rfl <;> decide
  have notPush : opcode ≠ 0x6A := by
    rcases isOpcode with rfl | rfl <;> decide
  have extended : immediateValue opcode (LittleEndian.ofBytes [byte]) = signedByte byte := by
    rw [immediateValue, if_pos (or_assoc.mp (.inl isOpcode)), LittleEndian.toUInt8_ofBytes]
  refine ⟨fun one => absurd one notOne, fun _ => ⟨?_, immediate⟩, ?_⟩
  · rw [width]
    rfl
  · rw [if_neg notPush, immediate, extended]
    exact value_signedByte byte size

/-- The signed byte of a push is not. -/
theorem stages_push (byte : UInt8) (size : OperandSize) :
    ((ofWidth 1).withSignedImmediate (LittleEndian.ofBytes [byte])).Stages 0x6A size [byte] := by
  have extended : immediateValue 0x6A (LittleEndian.ofBytes [byte]) = signedByte byte :=
    congrArg signedByte (LittleEndian.toUInt8_ofBytes byte)
  refine ⟨fun one => absurd one (by decide), fun _ => ⟨rfl, rfl⟩, ?_⟩
  exact (signExtension_ofBytes rfl (.inl rfl)).trans extended.symm

theorem stages_one {opcode : UInt16} (isOne : ImpliesOne opcode) (width : UInt8)
    (size : OperandSize) (immediate : List UInt8) :
    ((ofWidth width).withImmediate 1).Stages opcode size immediate := by
  refine ⟨fun _ => rfl, fun notOne => absurd isOne notOne, ?_⟩
  have isSmall : size.cut 1 = 1 := by cases size <;> rfl
  rcases isOne with rfl | rfl <;> exact isSmall.symm

end Operand

/-- Every operand of a selection that is an immediate, and no displacement, is staged so. -/
theorem Selection.stages {selection : Selection} (regular : selection.Regular) {opcode : UInt16}
    (has : selection.form.HasImmediates opcode) (notBranch : selection.form.shape ≠ .branch)
    {size : OperandSize} {operands : OperandBytes} (takes : selection.Takes size operands)
    {slot : Slot} (isImmediate : (selection.role slot).isImmediate = true)
    (registers : Registers) (memory : Memory) (opcodeByte : UInt8) :
    ((selection.role slot).filled operands registers memory opcodeByte
      (selection.widths size slot) (selection.widths size .dest)).Stages opcode size
        operands.immediate := by
  obtain ⟨ofByte, ofOne, ofWhole⟩ := shape_of_role regular slot
  cases isRole : selection.role slot with
  | immediate =>
      obtain ⟨width, length⟩ := length_of_whole regular isRole size
      rw [width]
      exact Operand.stages_whole has (ofWhole (.inl isRole)) (takes.immediate.trans length)
        (width_le_size has notBranch size)
  | byteImmediate =>
      have length := takes.immediate.trans (length_of_role regular (.inr isRole) size)
      exact Operand.stages_whole has (ofWhole (.inr isRole)) length (by cases size <;> decide)
  | signedByte =>
      obtain ⟨byte, bytes⟩ := List.length_eq_one_iff.mp
        (takes.immediate.trans (length_of_role regular (.inl isRole) size))
      rw [widths_of_signedByte regular isRole, Role.filled, bytes]
      exact Operand.stages_signedByte (has.signedByte.mp (ofByte isRole)) byte size
  | signedImmediate =>
      obtain ⟨push, width, length⟩ := byte_of_signedImmediate regular has notBranch isRole size
      obtain ⟨byte, bytes⟩ := List.length_eq_one_iff.mp (takes.immediate.trans length)
      rw [width, Role.filled, bytes, has.signedImm.mp push]
      exact Operand.stages_push byte size
  | one => exact Operand.stages_one (has.one.mp (ofOne isRole)) _ size _
  | _ =>
      rw [isRole] at isImmediate
      cases isImmediate

/-! ## Pushes -/

namespace Pass

section Plain

variable {pass : Pass} {run immediate : List UInt8} {size : OperandSize}
  (isRun : ∀ byte ∈ run, byte ∈ prefixBytes)
  (isSize : size =
    if 0x66 ∈ run then pass.decoder.defaultSize.toggled else pass.decoder.defaultSize)

include isRun isSize

/-- An instruction of which nothing but an immediate comes after the opcode. -/
theorem decode_plain {opcode : UInt8} {mnemonic : Mnemonic} {form : Form}
    (row : OpcodeMap.oneByteRow opcode = .instruction mnemonic form)
    (proper : (OpcodeBytes.oneByte opcode).Proper) (plain : form.shape.hasRm = false)
    (notBranch : form.shape ≠ .branch)
    (length : immediate.length = form.shape.immediateLength (form.width.bytes size))
    (fits : (run ++ opcode :: immediate).length ≤ 15)
    (stands : pass.stream.Holds (run ++ opcode :: immediate)) :
    ∃ (instruction : Instruction) (after : Pass), decode pass = .ok instruction after ∧
      instruction.mnemonic = mnemonic ∧ instruction.opcode = opcode.toUInt16 ∧
      instruction.operandSize = size ∧
      instruction.dest = (form.shape.roles.dest).filled ⟨none, immediate⟩ pass.machine.registers
        pass.machine.memory opcode (form.width.bytes size) (form.width.bytes size) := by
  let encoding : Encoding := ⟨run, .oneByte opcode, none, immediate⟩
  let selection : Selection := ⟨mnemonic, form, .implied⟩
  have isEncodingSize : encoding.operandSize pass.decoder.defaultSize = size := isSize.symm
  have selected : (OpcodeMap.oneByteRow opcode).selection? none = some selection := by
    rw [row]
    rfl
  have notAddress : form.shape ≠ .addressToReg := by
    intro isAddress
    rw [isAddress] at plain
    cases plain
  have takes : selection.Takes size encoding.operands :=
    ⟨plain.symm, fun isAddress => absurd isAddress notAddress, length⟩
  rw [isSize] at takes
  have encodes : encoding.Encodes pass.decoder.defaultSize selection :=
    Encoding.encodes_oneByte isRun proper selected notBranch takes fits
  have holds : pass.stream.Holds encoding.bytes := by
    simpa [encoding, Encoding.bytes, OpcodeBytes.bytes, OperandBytes.bytes] using stands
  have dest := pass.operand_instruction encoding encodes.regular .dest
  rw [isEncodingSize] at dest
  exact ⟨_, _, decode_of_encodes encodes holds, rfl, rfl, isEncodingSize, dest⟩

/-- A push of a signed byte. -/
theorem decode_push_byte {byte : UInt8} (fits : (run ++ [0x6A, byte]).length ≤ 15)
    (stands : pass.stream.Holds (run ++ [0x6A, byte])) :
    ∃ (instruction : Instruction) (after : Pass), decode pass = .ok instruction after ∧
      instruction.mnemonic = .push ∧ instruction.opcode = 0x6A ∧
      instruction.operandSize = size ∧
      instruction.dest = (Operand.ofWidth 1).withSignedImmediate (LittleEndian.ofBytes [byte]) := by
  have row : OpcodeMap.oneByteRow 0x6A = .instruction .push ⟨.signedImm, .byte, none⟩ := by
    decide +kernel
  exact decode_plain isRun isSize row ⟨by decide, by decide, by decide⟩ rfl nofun rfl fits stands

/-- A push of an immediate of the operand size. -/
theorem decode_push_whole (length : immediate.length = size.bytes.toNat)
    (fits : (run ++ 0x68 :: immediate).length ≤ 15)
    (stands : pass.stream.Holds (run ++ 0x68 :: immediate)) :
    ∃ (instruction : Instruction) (after : Pass), decode pass = .ok instruction after ∧
      instruction.mnemonic = .push ∧ instruction.opcode = 0x68 ∧
      instruction.operandSize = size ∧
      instruction.dest =
        (Operand.ofWidth size.bytes).withImmediate (LittleEndian.ofBytes immediate) := by
  have row : OpcodeMap.oneByteRow 0x68 = .instruction .push ⟨.imm, .full, none⟩ := by
    decide +kernel
  exact decode_plain isRun isSize row ⟨by decide, by decide, by decide⟩ rfl nofun length fits stands

end Plain

end Pass

theorem toNat_signedByte_lt_iff (byte : UInt8) :
    (signedByte byte).toNat < 2 ^ 16 ↔ byte < 0x80 := by
  have all : ∀ index : Fin 256,
      (signedByte (UInt8.ofNat index)).toNat < 2 ^ 16 ↔ UInt8.ofNat index < 0x80 := by
    decide +kernel
  simpa using all ⟨byte.toNat, byte.toNat_lt⟩

/-- Cutting a sign-extended byte changes it exactly if it is negative and there are two bytes. -/
theorem OperandSize.cut_signedByte_eq_iff (size : OperandSize) (byte : UInt8) :
    size.cut (signedByte byte) = signedByte byte ↔ (size = .bits16 → byte < 0x80) := by
  cases size with
  | bits16 => exact cut_eq_iff.trans ((toNat_signedByte_lt_iff byte).trans (by simp))
  | bits32 => exact iff_of_true rfl nofun

/-- An operand of a decoded instruction holds its immediate. The immediate is the constant 1 or the
last bytes of the instruction, and the staged value is what the immediate stands for, cut to the
operand size unless it is pushed as a signed byte. -/
structure Pass.StagesImmediate (pass : Pass) (instruction : Instruction)
    (operand : Operand) : Prop where
  one : ImpliesOne instruction.opcode → operand.immediate = 1
  encoded : ¬ImpliesOne instruction.opcode → ∃ front last : List UInt8,
    pass.stream.Holds (front ++ last) ∧ (front ++ last).length = instruction.size.toNat ∧
      last.length = operand.width.toNat ∧ operand.immediate = LittleEndian.ofBytes last
  value : operand.value =
    if instruction.opcode = 0x6A then immediateValue instruction.opcode operand.immediate
    else instruction.operandSize.cut (immediateValue instruction.opcode operand.immediate)
  /-- At an operand size of two bytes, all staged immediates fit in two bytes but negative ones that
  are pushed. -/
  fits : instruction.operandSize = .bits16 →
    (operand.value.toNat < 2 ^ 16 ↔
      ¬(instruction.opcode = 0x6A ∧ 0x80 ≤ operand.immediate.toUInt8))

theorem immediateValue_lt_iff {opcode : UInt16} (immediate : UInt32) :
    (if opcode = 0x6A then immediateValue opcode immediate
      else OperandSize.bits16.cut (immediateValue opcode immediate)).toNat < 2 ^ 16 ↔
      ¬(opcode = 0x6A ∧ 0x80 ≤ immediate.toUInt8) := by
  by_cases push : opcode = 0x6A
  · have extended : immediateValue opcode immediate = signedByte immediate.toUInt8 :=
      if_pos (.inr (.inr push))
    rw [if_pos push, extended, toNat_signedByte_lt_iff, and_iff_right push, UInt8.not_le]
  · rw [if_neg push, OperandSize.toNat_cut]
    exact iff_of_true (Nat.mod_lt _ (by decide)) fun both => push both.1

namespace Pass

/-- The immediates of an instruction that is no relative branch. -/
theorem stagesImmediate {pass after : Pass} {instruction : Instruction}
    (ran : decode pass = .ok instruction after)
    (notBranch : branchLength? instruction.opcode = none) {slot : Slot}
    (immediate : (instruction.operand slot).kind = .immediate) :
    pass.StagesImmediate instruction (instruction.operand slot) := by
  obtain ⟨encoding, selection, ⟨encodes, holds⟩, rfl, rfl⟩ := decode_ok_iff.mp ran
  obtain ⟨-, remains, short⟩ := encodes_iff.mp ⟨encodes, holds⟩
  have few : encoding.prefixes.length ≤ 14 := by
    rw [encoding.length_bytes] at short
    omega
  have regular := encodes.regular
  have shape : selection.form.shape ≠ .branch := by
    intro branch
    have opcode : (pass.instruction encoding selection).opcode = encoding.opcode.found.code := rfl
    rw [opcode, OpcodeBytes.branchLength?_of_selected encodes.selected
      (encoding.operandSize pass.decoder.defaultSize), if_pos branch] at notBranch
    cases notBranch
  have operand := pass.operand_instruction encoding regular slot
  have isImmediate : (selection.role slot).isImmediate = true := by
    apply Role.isImmediate_of_kind
    rw [← operand]
    exact immediate
  have stages := Selection.stages regular (OpcodeBytes.hasImmediates_of_selected encodes.selected)
    shape encodes.operands isImmediate pass.machine.registers pass.machine.memory
    encoding.opcode.found.byte
  rw [← operand] at stages
  obtain ⟨one, encoded, value⟩ := stages
  refine ⟨one, ?_, value, ?_⟩
  · -- The immediate ends the encoding, behind whatever addresses an operand.
    intro notOne
    obtain ⟨length, isLast⟩ := encoded notOne
    have whole : encoding.bytes = (encoding.prefixes ++ encoding.opcode.bytes ++
        encoding.operands.addressing.elim [] Addressing.bytes) ++ encoding.operands.immediate := by
      rw [Encoding.bytes, OperandBytes.bytes, List.append_assoc, List.append_assoc,
        List.append_assoc]
    refine ⟨_, encoding.operands.immediate, whole ▸ holds, ?_, length, isLast⟩
    rw [← whole]
    exact (toNat_length few remains.takes).symm
  · intro isSize
    have size : encoding.operandSize pass.decoder.defaultSize = .bits16 := isSize
    rw [value, size]
    exact immediateValue_lt_iff _

/-- The immediates of an instruction that is no relative branch are staged cut to its operand size,
but not the signed byte of a push. So pushing a signed byte stages the same value as pushing the
same immediate in full exactly if the byte is not negative or the operand size is four bytes. -/
theorem decode_staged_immediates (pass : Pass) :
    (∀ (instruction : Instruction) (after : Pass), decode pass = .ok instruction after →
      branchLength? instruction.opcode = none →
        ∀ slot : Slot, (instruction.operand slot).kind = .immediate →
          pass.StagesImmediate instruction (instruction.operand slot)) ∧
    (∀ (other : Pass) (run : List UInt8) (byte : UInt8) (size : OperandSize),
      other.decoder.defaultSize = pass.decoder.defaultSize →
      (∀ byte ∈ run, byte ∈ prefixBytes) →
      size =
        (if 0x66 ∈ run then pass.decoder.defaultSize.toggled else pass.decoder.defaultSize) →
      pass.stream.Holds (run ++ [0x6A, byte]) →
      other.stream.Holds (run ++ 0x68 :: LittleEndian.bytes size.bytes.toNat (signedByte byte)) →
      (run ++ 0x68 :: LittleEndian.bytes size.bytes.toNat (signedByte byte)).length ≤ 15 →
        ∃ (short long : Instruction) (afterShort afterLong : Pass),
          decode pass = .ok short afterShort ∧ decode other = .ok long afterLong ∧
            short.mnemonic = long.mnemonic ∧ short.dest.kind = .immediate ∧
            long.dest.kind = .immediate ∧ long.dest.value = size.cut short.dest.value ∧
            (short.dest.value = long.dest.value ↔ (size = .bits16 → byte < 0x80))) := by
  constructor
  · intro instruction after ran notBranch slot immediate
    exact stagesImmediate ran notBranch immediate
  · intro other run byte size default isRun isSize shortStands longStands longFits
    have least : 1 ≤ size.bytes.toNat := by cases size <;> decide
    have shortFits : (run ++ [0x6A, byte]).length ≤ 15 := by
      simp only [List.length_append, List.length_cons, List.length_nil,
        LittleEndian.length_bytes] at longFits ⊢
      omega
    obtain ⟨short, afterShort, ranShort, isPush, -, -, shortDest⟩ :=
      decode_push_byte isRun isSize shortFits shortStands
    obtain ⟨long, afterLong, ranLong, alsoPush, -, -, longDest⟩ :=
      decode_push_whole isRun (default ▸ isSize) (LittleEndian.length_bytes _ _) longFits longStands
    have shortValue : short.dest.value = signedByte byte := by
      rw [shortDest]
      exact signExtension_ofBytes rfl (.inl rfl)
    have longValue : long.dest.value = size.cut (signedByte byte) := by
      rw [longDest]
      exact size.ofBytes_bytes _
    refine ⟨short, long, afterShort, afterLong, ranShort, ranLong, isPush.trans alsoPush.symm,
      by rw [shortDest]; rfl, by rw [longDest]; rfl, by rw [longValue, shortValue], ?_⟩
    rw [shortValue, longValue, eq_comm]
    exact size.cut_signedByte_eq_iff byte

/-- `push 7Fh` at an operand size of two bytes, in both forms. -/
theorem decode_staged_immediates_push :
    let pass := ofBytes #[0x66, 0x6A, 0x7F] []
    ∃ (short long : Instruction) (afterShort afterLong : Pass),
      decode pass = .ok short afterShort ∧
        decode (ofBytes #[0x66, 0x68, 0x7F, 0x00] []) = .ok long afterLong ∧
        branchLength? short.opcode = none ∧ short.dest.kind = .immediate ∧
        pass.StagesImmediate short short.dest ∧ short.dest.value = long.dest.value := by
  intro pass
  have isRun : ∀ byte ∈ [(0x66 : UInt8)], byte ∈ prefixBytes :=
    List.forall_mem_singleton.mpr (by decide)
  have stands : (ofBytes #[0x66, 0x6A, 0x7F] []).stream.Holds ([0x66] ++ [0x6A, 0x7F]) :=
    ⟨rfl, rfl, rfl, trivial⟩
  obtain ⟨instruction, after, ran, -, opcode, -, dest⟩ :=
    decode_push_byte isRun rfl (by decide) stands
  have notBranch : branchLength? instruction.opcode = none := by
    rw [opcode]
    decide
  have immediate : instruction.dest.kind = .immediate := by
    rw [dest]
    rfl
  obtain ⟨stages, forms⟩ := decode_staged_immediates (ofBytes #[0x66, 0x6A, 0x7F] [])
  obtain ⟨short, long, afterShort, afterLong, ranShort, ranLong, -, -, -, -, same⟩ :=
    forms (ofBytes #[0x66, 0x68, 0x7F, 0x00] []) [0x66] 0x7F .bits16 rfl isRun rfl stands
      ⟨rfl, rfl, rfl, rfl, trivial⟩ (by decide)
  obtain ⟨rfl, rfl⟩ := EStateM.Result.ok.inj (ran.symm.trans ranShort)
  exact ⟨instruction, long, after, afterLong, ran, ranLong, notBranch, immediate,
    stages instruction after ran notBranch .dest immediate, same.mpr fun _ => by decide⟩

/-- `push -1` at an operand size of two bytes, pushed as a signed byte, is staged at four bytes. -/
theorem decode_push_uncut :
    ∃ (short long : Instruction) (afterShort afterLong : Pass),
      decode (ofBytes #[0x66, 0x6A, 0xFF] []) = .ok short afterShort ∧
        decode (ofBytes #[0x66, 0x68, 0xFF, 0xFF] []) = .ok long afterLong ∧
        branchLength? short.opcode = none ∧ short.operandSize = .bits16 ∧
        short.dest.kind = .immediate ∧ ¬short.dest.value.toNat < 2 ^ 16 ∧
        short.dest.value = 0xFFFFFFFF ∧ long.dest.value = 0xFFFF := by
  have isRun : ∀ byte ∈ [(0x66 : UInt8)], byte ∈ prefixBytes :=
    List.forall_mem_singleton.mpr (by decide)
  have stands : (ofBytes #[0x66, 0x6A, 0xFF] []).stream.Holds ([0x66] ++ [0x6A, 0xFF]) :=
    ⟨rfl, rfl, rfl, trivial⟩
  have longStands : (ofBytes #[0x66, 0x68, 0xFF, 0xFF] []).stream.Holds
      ([0x66] ++ 0x68 :: [0xFF, 0xFF]) :=
    ⟨rfl, rfl, rfl, rfl, trivial⟩
  obtain ⟨short, afterShort, ranShort, -, opcode, size, shortDest⟩ :=
    decode_push_byte isRun rfl (by decide) stands
  obtain ⟨long, afterLong, ranLong, -, -, -, longDest⟩ :=
    decode_push_whole isRun rfl (by decide) (by decide) longStands
  have value : short.dest.value = 0xFFFFFFFF := by
    rw [shortDest]
    decide
  have longValue : long.dest.value = 0xFFFF := by
    rw [longDest]
    decide
  refine ⟨short, long, afterShort, afterLong, ranShort, ranLong, ?_, size, ?_, ?_, value,
    longValue⟩
  · rw [opcode]
    decide
  · rw [shortDest]
    rfl
  · rw [value]
    decide

end Pass

end I386
