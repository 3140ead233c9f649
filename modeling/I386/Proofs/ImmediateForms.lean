import I386.Proofs.Contracts
import I386.Proofs.MemoryBytes
import I386.Proofs.OperandTable

/-!
Contract: the two forms in which an immediate can be encoded.

Owns:
- values cut to the operand size, and the little-endian bytes that spell them;
- the selections that have a sign-extended byte as source, each with the selection of the same
  operation that has an immediate of the whole operand;
- the operands that the two have in common.

Main statement: an instruction with a sign-extended byte as source and the one that spells out the
same immediate have the same operation, the same operands and the same staged value.

Does not own: the immediates of other instructions.
-/

namespace I386

/-! ## Cutting to the operand size -/

namespace OperandSize

/-- A value cut to the operand size. -/
def cut : OperandSize → UInt32 → UInt32
  | bits16, value => value &&& 0xFFFF
  | bits32, value => value

theorem toNat_cut (size : OperandSize) (value : UInt32) :
    (size.cut value).toNat = value.toNat % 256 ^ size.bytes.toNat := by
  cases size with
  | bits16 => exact toNat_and_mask 16 rfl value
  | bits32 => exact (Nat.mod_eq_of_lt value.toNat_lt).symm

theorem cut_eq_iff {size : OperandSize} {value : UInt32} :
    size.cut value = value ↔ value.toNat < 256 ^ size.bytes.toNat := by
  rw [← UInt32.toNat_inj, toNat_cut]
  exact Nat.mod_eq_iff_lt (Nat.ne_of_gt (Nat.pow_pos (by decide)))

/-- The bytes of an operand spell the value cut to it. -/
theorem ofBytes_bytes (size : OperandSize) (value : UInt32) :
    LittleEndian.ofBytes (LittleEndian.bytes size.bytes.toNat value) = size.cut value := by
  have short : (LittleEndian.bytes size.bytes.toNat value).length ≤ 4 := by
    rw [LittleEndian.length_bytes]
    cases size <;> decide
  rw [← UInt32.toNat_inj, LittleEndian.toNat_ofBytes _ short, LittleEndian.number_bytes, toNat_cut]

end OperandSize

/-- A sign-extended byte that goes to an operand of the operand size is cut to it. -/
theorem Operand.value_signedByte (byte : UInt8) (size : OperandSize) :
    (((Operand.ofWidth 1).withSignedImmediate (LittleEndian.ofBytes [byte])).clippedTo
      size.bytes).value = size.cut (signedByte byte) := by
  have extended : signExtension (LittleEndian.ofBytes [byte]) 1 = signedByte byte :=
    signExtension_ofBytes rfl (.inl rfl)
  rw [← extended]
  cases size <;> rfl

/-! ## Selections in two forms -/

/-- The first selection has a sign-extended byte as source, the second is the same operation with
an immediate of the whole operand. -/
inductive Selection.Abbreviates : Selection → Selection → Prop where
  | toRm (mnemonic : Mnemonic) :
      Abbreviates ⟨mnemonic, ⟨.signedImmToRm, .full, none⟩, .implied⟩
        ⟨mnemonic, ⟨.immToRm, .full, none⟩, .implied⟩
  | rmToReg (mnemonic : Mnemonic) :
      Abbreviates ⟨mnemonic, ⟨.rmSignedImmToReg, .full, none⟩, .implied⟩
        ⟨mnemonic, ⟨.rmImmToReg, .full, none⟩, .implied⟩

namespace Selection.Abbreviates

variable {short long : Selection} (abbreviates : short.Abbreviates long)

include abbreviates

theorem mnemonic_eq : short.mnemonic = long.mnemonic := by
  cases abbreviates <;> rfl

theorem shape_ne_branch :
    short.form.shape ≠ .branch ∧ long.form.shape ≠ .branch := by
  cases abbreviates <;> exact ⟨nofun, nofun⟩

theorem takes_short (size : OperandSize) (rm : Addressing) (byte : UInt8) :
    short.Takes size ⟨some rm, [byte]⟩ := by
  cases abbreviates <;> exact ⟨rfl, nofun, rfl⟩

theorem takes_long {size : OperandSize} (rm : Addressing) {immediate : List UInt8}
    (length : immediate.length = size.bytes.toNat) :
    long.Takes size ⟨some rm, immediate⟩ := by
  cases abbreviates <;> exact ⟨rfl, nofun, length⟩

section Filled

variable (rm : Addressing) (registers : Registers) (memory : Memory)

/-- The operands other than the source do not depend on the immediate. -/
theorem filled_eq {slot : Slot} (other : slot ≠ .src) (first second : List UInt8)
    (firstOpcode secondOpcode width dest : UInt8) :
    (short.role slot).filled ⟨some rm, first⟩ registers memory firstOpcode width dest =
      (long.role slot).filled ⟨some rm, second⟩ registers memory secondOpcode width dest := by
  cases abbreviates <;> cases slot <;> first | rfl | exact absurd rfl other

theorem widths_eq (size : OperandSize) (slot : Slot) :
    short.widths size slot = size.bytes ∧ long.widths size slot = size.bytes := by
  cases abbreviates <;> cases slot <;> exact ⟨rfl, rfl⟩

/-- The source of the short form is the byte, sign-extended and cut. -/
theorem value_short (byte opcode width : UInt8) (size : OperandSize) :
    ((short.role .src).filled ⟨some rm, [byte]⟩ registers memory opcode width size.bytes).value =
      size.cut (signedByte byte) := by
  cases abbreviates <;> exact Operand.value_signedByte byte size

/-- The source of the long form is the immediate as it is encoded. -/
theorem value_long (immediate : List UInt8) (opcode width dest : UInt8) :
    ((long.role .src).filled ⟨some rm, immediate⟩ registers memory opcode width dest).value =
      LittleEndian.ofBytes immediate := by
  cases abbreviates <;> rfl

end Filled

end Selection.Abbreviates

/-! ## Opcodes in two forms -/

/-- The first opcode has a sign-extended byte as source, the second one has the same operations with
an immediate of the whole operand. -/
inductive OpcodeMap.Abbreviates : UInt8 → UInt8 → Prop where
  | arithmetic : Abbreviates 0x83 0x81
  | multiplication : Abbreviates 0x6B 0x69

namespace OpcodeMap.Abbreviates

variable {short long : UInt8} (abbreviates : OpcodeMap.Abbreviates short long)

include abbreviates

theorem proper :
    (OpcodeBytes.oneByte short).Proper ∧ (OpcodeBytes.oneByte long).Proper := by
  cases abbreviates <;>
    exact ⟨⟨by decide, by decide, by decide⟩, ⟨by decide, by decide, by decide⟩⟩

/-- Whatever operand encoding follows, the two opcodes select the two forms of one operation. -/
theorem exists_selections (modRm : ModRm) :
    ∃ first second : Selection, first.Abbreviates second ∧
      (oneByteRow short).selection? (some modRm) = some first ∧
      (oneByteRow long).selection? (some modRm) = some second := by
  cases abbreviates with
  | arithmetic =>
      have shortRow : oneByteRow 0x83 = grp .arithmetic .signedImmToRm .full := by decide +kernel
      have longRow : oneByteRow 0x81 = grp .arithmetic .immToRm .full := by decide +kernel
      have all : ∀ field : Fin 8,
          ∃ mnemonic ∈ [Mnemonic.add, .or, .adc, .sbb, .and, .sub, .xor, .cmp],
            (Group.arithmetic.members[field.val]?).getD none = some ⟨mnemonic, .implied⟩ := by
        decide
      obtain ⟨mnemonic, -, isMember⟩ := all ⟨modRm.reg.toNat, modRm.toNat_reg_lt⟩
      have member : Group.arithmetic.member? modRm.reg = some ⟨mnemonic, .implied⟩ := isMember
      refine ⟨_, _, .toRm mnemonic, ?_, ?_⟩
      · simp [shortRow, grp, Row.selection?, member]
      · simp [longRow, grp, Row.selection?, member]
  | multiplication =>
      have shortRow : oneByteRow 0x6B = op .imul .rmSignedImmToReg .full := by decide +kernel
      have longRow : oneByteRow 0x69 = op .imul .rmImmToReg .full := by decide +kernel
      refine ⟨_, _, .rmToReg .imul, ?_, ?_⟩
      · rw [shortRow]
        rfl
      · rw [longRow]
        rfl

end OpcodeMap.Abbreviates

/-! ## Decoding either form -/

/-- Bytes that select an operation which is no branch, and are the ones it calls for, encode it. -/
theorem Encoding.encodes_oneByte {default : OperandSize} {run : List UInt8} {opcode : UInt8}
    {operands : OperandBytes} {selection : Selection}
    (isRun : ∀ byte ∈ run, byte ∈ prefixBytes) (proper : (OpcodeBytes.oneByte opcode).Proper)
    (selected : (OpcodeMap.oneByteRow opcode).selection? operands.modRm = some selection)
    (notBranch : selection.form.shape ≠ .branch)
    (takes : selection.Takes (if 0x66 ∈ run then default.toggled else default) operands)
    (length : (run ++ opcode :: operands.bytes).length ≤ 15) :
    (Encoding.mk run (.oneByte opcode) operands).Encodes default selection := by
  refine ⟨isRun, proper, selected, fun _ near => notBranch near.1, takes, ?_⟩
  simpa [Encoding.bytes, OpcodeBytes.bytes] using length

namespace Pass

/-- An instruction that has a sign-extended byte as source, and the one that has the same operation
and operands and spells out the immediate at the operand size: wherever they stand, both are
decoded, to the same operation with the same destination and second source and the same staged
value of the source. -/
theorem decode_immediate_forms {pass other : Pass} {run : List UInt8} {rm : Addressing}
    {short long byte : UInt8} {size : OperandSize}
    (abbreviates : OpcodeMap.Abbreviates short long)
    (isRun : ∀ byte ∈ run, byte ∈ prefixBytes)
    (isSize : size =
      if 0x66 ∈ run then pass.decoder.defaultSize.toggled else pass.decoder.defaultSize)
    (default : other.decoder.defaultSize = pass.decoder.defaultSize)
    (registers : other.machine.registers = pass.machine.registers)
    (memory : other.machine.memory = pass.machine.memory)
    (shortStands : pass.stream.Holds (run ++ short :: (rm.bytes ++ [byte])))
    (longStands : other.stream.Holds
      (run ++ long :: (rm.bytes ++ LittleEndian.bytes size.bytes.toNat (signedByte byte))))
    (fits : (run ++ long ::
      (rm.bytes ++ LittleEndian.bytes size.bytes.toNat (signedByte byte))).length ≤ 15) :
    ∃ (first second : Instruction) (afterFirst afterSecond : Pass),
      decode pass = .ok first afterFirst ∧ decode other = .ok second afterSecond ∧
        first.mnemonic = second.mnemonic ∧ first.dest = second.dest ∧
        first.src2 = second.src2 ∧ first.src.value = second.src.value ∧
        first.src.value = size.cut (signedByte byte) := by
  obtain ⟨selection, longSelection, forms, selected, longSelected⟩ :=
    abbreviates.exists_selections rm.modRm
  let spelled := LittleEndian.bytes size.bytes.toNat (signedByte byte)
  have spelledLength : spelled.length = size.bytes.toNat := LittleEndian.length_bytes _ _
  -- The second encoding is the longer one, so that its bound serves for both.
  have shorter : (run ++ short :: (rm.bytes ++ [byte])).length ≤ 15 := by
    have least : 1 ≤ size.bytes.toNat := by cases size <;> decide
    simp only [List.length_append, List.length_cons, List.length_nil,
      LittleEndian.length_bytes] at fits ⊢
    omega
  let encoding : Encoding := ⟨run, .oneByte short, some rm, [byte]⟩
  let longEncoding : Encoding := ⟨run, .oneByte long, some rm, spelled⟩
  have encodes : encoding.Encodes pass.decoder.defaultSize selection :=
    Encoding.encodes_oneByte isRun abbreviates.proper.1 selected forms.shape_ne_branch.1
      (forms.takes_short _ rm byte) shorter
  have longEncodes : longEncoding.Encodes other.decoder.defaultSize longSelection := by
    rw [default]
    exact Encoding.encodes_oneByte isRun abbreviates.proper.2 longSelected forms.shape_ne_branch.2
      (forms.takes_long rm (isSize ▸ spelledLength)) fits
  have stands : pass.stream.Holds encoding.bytes := by
    simpa [encoding, Encoding.bytes, OpcodeBytes.bytes, OperandBytes.bytes] using shortStands
  have alsoStands : other.stream.Holds longEncoding.bytes := by
    simpa [longEncoding, Encoding.bytes, OpcodeBytes.bytes, OperandBytes.bytes, spelled]
      using longStands
  have isShortSize : encoding.operandSize pass.decoder.defaultSize = size := isSize.symm
  have isLongSize : longEncoding.operandSize other.decoder.defaultSize = size := by
    rw [default]
    exact isSize.symm
  have operands := pass.operand_instruction encoding encodes.regular
  have longOperands := other.operand_instruction longEncoding longEncodes.regular
  simp only [isShortSize, (forms.widths_eq size _).1] at operands
  simp only [isLongSize, (forms.widths_eq size _).2, registers, memory] at longOperands
  have same (slot : Slot) (notSource : slot ≠ .src) :
      (pass.instruction encoding selection).operand slot =
        (other.instruction longEncoding longSelection).operand slot := by
    rw [operands, longOperands]
    exact forms.filled_eq rm _ _ notSource _ _ _ _ _ _
  have value : (pass.instruction encoding selection).src.value = size.cut (signedByte byte) :=
    (congrArg Operand.value (operands .src)).trans (forms.value_short rm _ _ byte _ _ size)
  have longValue : (other.instruction longEncoding longSelection).src.value =
      size.cut (signedByte byte) := by
    rw [← size.ofBytes_bytes]
    exact (congrArg Operand.value (longOperands .src)).trans (forms.value_long rm _ _ _ _ _ _)
  exact ⟨_, _, _, _, decode_of_encodes encodes stands, decode_of_encodes longEncodes alsoStands,
    forms.mnemonic_eq, same .dest (by decide), same .src2 (by decide),
    value.trans longValue.symm, value⟩

/-- `add word ptr [eax], -2` in four bytes and in five. -/
theorem decode_immediate_forms_add :
    ∃ (first second : Instruction) (afterFirst afterSecond : Pass),
      decode (ofBytes #[0x66, 0x83, 0x00, 0xFE] [0x1000]) = .ok first afterFirst ∧
        decode (ofBytes #[0x66, 0x81, 0x00, 0xFE, 0xFF] [0x1000]) = .ok second afterSecond ∧
        first.dest = second.dest ∧ first.src.value = 0xFFFE ∧ second.src.value = 0xFFFE := by
  let pass := ofBytes #[0x66, 0x83, 0x00, 0xFE] [0x1000]
  let other := ofBytes #[0x66, 0x81, 0x00, 0xFE, 0xFF] [0x1000]
  let rm : Addressing := ⟨⟨0x00⟩, none, [], rfl, rfl⟩
  have isSize : OperandSize.bits16 = if (0x66 : UInt8) ∈ [0x66] then
      pass.decoder.defaultSize.toggled else pass.decoder.defaultSize := rfl
  have default : other.decoder.defaultSize = pass.decoder.defaultSize := rfl
  have registers : other.machine.registers = pass.machine.registers := rfl
  have memory : other.machine.memory = pass.machine.memory := rfl
  have stands : pass.stream.Holds ([0x66] ++ 0x83 :: (rm.bytes ++ [0xFE])) :=
    ⟨by decide +kernel, by decide +kernel, by decide +kernel, by decide +kernel, trivial⟩
  have spelled : LittleEndian.bytes OperandSize.bits16.bytes.toNat (signedByte 0xFE) =
      [0xFE, 0xFF] := by
    decide
  have longStands : other.stream.Holds ([0x66] ++ 0x81 :: (rm.bytes ++
      LittleEndian.bytes OperandSize.bits16.bytes.toNat (signedByte 0xFE))) := by
    rw [spelled]
    exact ⟨by decide +kernel, by decide +kernel, by decide +kernel, by decide +kernel,
      by decide +kernel, trivial⟩
  have isRun : ∀ byte ∈ [(0x66 : UInt8)], byte ∈ prefixBytes :=
    List.forall_mem_singleton.mpr (by decide)
  have fits : ([0x66] ++ 0x81 :: (rm.bytes ++
      LittleEndian.bytes OperandSize.bits16.bytes.toNat (signedByte 0xFE))).length ≤ 15 := by
    decide
  obtain ⟨first, second, afterFirst, afterSecond, ran, alsoRan, -, dest, -, value, isValue⟩ :=
    decode_immediate_forms .arithmetic isRun isSize default registers memory stands longStands fits
  have cut : OperandSize.bits16.cut (signedByte 0xFE) = 0xFFFE := by decide
  rw [cut] at isValue
  exact ⟨first, second, afterFirst, afterSecond, ran, alsoRan, dest, isValue,
    value.symm.trans isValue⟩

end Pass

end I386
