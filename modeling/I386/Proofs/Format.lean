import I386.Proofs.Steps

/-!
Contract: the format of instructions.

Owns:
- the bytes of an instruction: prefixes, opcode, operand encoding and immediate;
- which patterns have an operand encoding, and how long their immediates are;
- the operation that an opcode, with the register field of the operand encoding, selects;
- the instructions of the format, and what the rows of the opcode maps have in common.

Does not own: decoding.
-/

namespace I386

/-! ## The bytes of an instruction -/

/-- The ModR/M byte after an opcode, if the pattern has one. -/
def OperandBytes.modRm (operands : OperandBytes) : Option ModRm :=
  operands.addressing.map Addressing.modRm

/-- The bytes of an opcode: one byte, or one after the escape. -/
inductive OpcodeBytes where
  | oneByte (byte : UInt8)
  | twoByte (second : UInt8)
deriving DecidableEq, Repr

namespace OpcodeBytes

def bytes : OpcodeBytes → List UInt8
  | oneByte byte => [byte]
  | twoByte second => [escapeByte, second]

def row : OpcodeBytes → Row
  | oneByte byte => OpcodeMap.oneByteRow byte
  | twoByte second => OpcodeMap.twoByteRow second

end OpcodeBytes

/-- The bytes of a whole instruction. -/
structure Encoding where
  prefixes : List UInt8
  opcode : OpcodeBytes
  operands : OperandBytes

namespace Encoding

def bytes (encoding : Encoding) : List UInt8 :=
  encoding.prefixes ++ encoding.opcode.bytes ++ encoding.operands.bytes

/-- The operand size of an encoding: the override toggles the default, once. -/
def operandSize (encoding : Encoding) (default : OperandSize) : OperandSize :=
  if 0x66 ∈ encoding.prefixes then default.toggled else default

end Encoding

/-! ## What patterns call for -/

namespace Shape

/-- The pattern has a register-or-memory operand, which a ModR/M byte encodes. -/
def hasRm : Shape → Bool
  | regToRm | storeRegToRm | rmToReg | loadRmToReg | addressToReg => true
  | rmImmToReg | rmSignedImmToReg | immToRm | storeImmToRm | signedImmToRm => true
  | rm | storeToRm | shiftByOne | shiftByCl | shiftByImm => true
  | doubleShiftByImm | doubleShiftByCl => true
  | _ => false

/-- The number of bytes of the immediate, branch displacement or memory offset of a pattern whose
operands have the given width. -/
def immediateLength (width : UInt8) : Shape → Nat
  | immToAcc | rmImmToReg | immToRm | storeImmToRm => width.toNat
  | immToOpcodeReg | storeImmToOpcodeReg | imm | groupImm | branch | signedImm => width.toNat
  | rmSignedImmToReg | signedImmToRm | shiftByImm | doubleShiftByImm => 1
  | inputImm | outputImm => 1
  | offsetToAcc | accToOffset => 4
  | _ => 0

end Shape

namespace Selection

/-- The steps of the pattern of a selection and of the one that a group member adds. -/
def steps (selection : Selection) : List Step :=
  selection.form.shape.steps ++ selection.extra.steps

/-- The number of bytes after the opcode and the operand encoding. -/
def immediateLength (selection : Selection) (size : OperandSize) : Nat :=
  let width := selection.form.width.bytes size
  selection.form.shape.immediateLength width + selection.extra.immediateLength width

end Selection

/-- The operation that a row selects. In a group the register field of the ModR/M byte after the
opcode chooses the member. -/
def Row.selection? (row : Row) (modRm : Option ModRm) : Option Selection :=
  match row with
  | .unassigned => none
  | .instruction mnemonic form => some ⟨mnemonic, form, .implied⟩
  | .group operations form => do
      let field ← modRm.map ModRm.reg
      let member ← operations.member? field
      return ⟨member.mnemonic, form, member.extra⟩

/-! ## Instructions of the format -/

/-- The bytes that may stand before an opcode. -/
def prefixBytes : List UInt8 :=
  [0x26, 0x2E, 0x36, 0x3E, 0x64, 0x65, 0x66, 0xF0, 0xF2, 0xF3]

/-- The bytes of an opcode are none that mean something else, and a second byte is one of those
that have rows. -/
def OpcodeBytes.Proper : OpcodeBytes → Prop
  | oneByte byte => byte ∉ prefixBytes ∧ byte ≠ 0x67 ∧ byte ≠ 0x0F
  | twoByte second => 0x80 ≤ second ∧ second ≤ 0xBF

/-- The bytes after an opcode are those that a selection calls for. -/
structure Selection.Takes (selection : Selection) (size : OperandSize)
    (operands : OperandBytes) : Prop where
  addressing : operands.addressing.isSome = selection.form.shape.hasRm
  /-- An address is only taken of memory. -/
  memory : selection.form.shape = .addressToReg →
    ∀ addressing ∈ operands.addressing, addressing.modRm.isMemory = true
  immediate : operands.immediate.length = selection.immediateLength size

/-- An encoding is an instruction of the format that has the selected operation. Its prefixes
number at most fourteen, since an opcode follows them. -/
structure Encoding.Encodes (encoding : Encoding) (default : OperandSize)
    (selection : Selection) : Prop where
  prefixes : ∀ byte ∈ encoding.prefixes, byte ∈ prefixBytes
  opcode : encoding.opcode.Proper
  selected : encoding.opcode.row.selection? encoding.operands.modRm = some selection
  /-- A near branch has no 16-bit form. -/
  near : encoding.operandSize default = .bits16 →
    ¬(selection.form.shape = .branch ∧ selection.form.width = .dword)
  operands : selection.Takes (encoding.operandSize default) encoding.operands
  length : encoding.bytes.length ≤ 15

/-! ## Rows of the opcode maps -/

/-- What all forms of the opcode maps have in common. -/
def Form.Regular (form : Form) : Prop :=
  (form.sourceWidth = none ∨ form.shape = .loadRmToReg) ∧
    (form.shape = .branch ∨ form.shape = .signedImm → form.width = .byte ∨ form.width = .dword) ∧
    (form.shape = .rmSignedImmToReg ∨ form.shape = .signedImmToRm → form.width = .full)

instance (form : Form) : Decidable form.Regular :=
  inferInstanceAs (Decidable (_ ∧ _ ∧ _))

/-- What all rows of the opcode maps have in common. Groups have an operand encoding, and only
one after which no immediate comes has members that add one. -/
def Row.Regular : Row → Prop
  | .unassigned => True
  | .instruction _ form => form.Regular
  | .group operations form => form.Regular ∧ form.shape.hasRm = true ∧
      ∀ member ∈ operations.members.filterMap id,
        member.extra = .implied ∨ (member.extra = .groupImm ∧ form.shape = .rm)

instance (row : Row) : Decidable row.Regular :=
  match row with
  | .unassigned => isTrue trivial
  | .instruction _ form => inferInstanceAs (Decidable form.Regular)
  | .group operations form => inferInstanceAs (Decidable (form.Regular ∧ form.shape.hasRm = true ∧
      ∀ member ∈ operations.members.filterMap id,
        member.extra = .implied ∨ (member.extra = .groupImm ∧ form.shape = .rm)))

structure Selection.Regular (selection : Selection) : Prop where
  form : selection.form.Regular
  extra : selection.extra = .implied ∨
    (selection.extra = .groupImm ∧ selection.form.shape = .rm)

theorem OpcodeMap.regular_oneByte : ∀ row ∈ oneByte.toList, row.Regular := by
  decide +kernel

theorem OpcodeMap.regular_twoByte : ∀ row ∈ twoByte.toList, row.Regular := by
  decide +kernel

theorem Row.regular_getD {rows : Array Row} (regular : ∀ row ∈ rows.toList, row.Regular)
    (index : Nat) : (rows[index]?.getD .unassigned).Regular := by
  cases entry : rows[index]? with
  | none => trivial
  | some row => exact regular row (Array.mem_toList_iff.mpr (Array.mem_of_getElem? entry))

theorem OpcodeBytes.regular_row (opcode : OpcodeBytes) : opcode.row.Regular := by
  cases opcode with
  | oneByte byte =>
      have entry : OpcodeMap.oneByteRow byte =
          (OpcodeMap.oneByte[byte.toNat]?).getD .unassigned := rfl
      have regular := OpcodeMap.regular_oneByte
      rw [row, entry]
      -- Kept as it is, the whole map would be unfolded here.
      generalize OpcodeMap.oneByte = rows at regular ⊢
      exact Row.regular_getD regular _
  | twoByte second =>
      by_cases low : second < OpcodeMap.twoByteStart
      · have gap : OpcodeMap.twoByteRow second = .unassigned := if_pos low
        rw [row, gap]
        trivial
      · have entry : OpcodeMap.twoByteRow second =
            (OpcodeMap.twoByte[(second - OpcodeMap.twoByteStart).toNat]?).getD .unassigned :=
          if_neg low
        rw [row, entry]
        exact Row.regular_getD OpcodeMap.regular_twoByte _

theorem Group.mem_of_member? {group : Group} {field : UInt8} {member : GroupMember}
    (found : group.member? field = some member) : member ∈ group.members.filterMap id := by
  unfold member? at found
  cases entry : group.members[field.toNat]? with
  | none => simp [entry] at found
  | some chosen =>
      rw [entry, Option.getD_some] at found
      exact List.mem_filterMap.mpr ⟨chosen, List.mem_of_getElem? entry, found⟩

theorem Row.regular_selection? {row : Row} {modRm : Option ModRm} {selection : Selection}
    (regular : row.Regular) (selected : row.selection? modRm = some selection) :
    selection.Regular := by
  cases row with
  | unassigned => cases selected
  | instruction mnemonic form =>
      cases selected
      exact ⟨regular, .inl rfl⟩
  | group group form =>
      obtain ⟨formRegular, -, members⟩ := regular
      simp only [selection?, Option.bind_eq_bind, Option.bind_eq_some_iff] at selected
      obtain ⟨field, -, member, found, same⟩ := selected
      cases same
      exact ⟨formRegular, members member (Group.mem_of_member? found)⟩

theorem Encoding.Encodes.regular {encoding : Encoding} {default : OperandSize}
    {selection : Selection} (encodes : encoding.Encodes default selection) : selection.Regular :=
  Row.regular_selection? encoding.opcode.regular_row encodes.selected

theorem Row.form_selection? {row : Row} {modRm : Option ModRm} {selection : Selection}
    (selected : row.selection? modRm = some selection) : selection.form = row.form := by
  cases row with
  | unassigned => cases selected
  | instruction mnemonic form =>
      cases selected
      rfl
  | group group form =>
      simp only [selection?, Option.bind_eq_bind, Option.bind_eq_some_iff] at selected
      obtain ⟨field, -, member, -, same⟩ := selected
      cases same
      rfl

/-- Only a group looks at the ModR/M byte. -/
theorem Row.selection?_congr {row : Row} {first second : Option ModRm}
    (same : ∀ group form, row = .group group form → first = second) :
    row.selection? first = row.selection? second := by
  cases row with
  | unassigned => rfl
  | instruction mnemonic form => rfl
  | group group form => rw [same group form rfl]

/-- A second byte that has a row is one of the sixty-four from `80` on. -/
theorem OpcodeMap.bounds_of_twoByteRow {second : UInt8}
    (assigned : twoByteRow second ≠ .unassigned) : 0x80 ≤ second ∧ second ≤ 0xBF := by
  have all : ∀ index : Fin 256, twoByteRow (UInt8.ofNat index) = .unassigned ∨
      (0x80 ≤ UInt8.ofNat index ∧ UInt8.ofNat index ≤ 0xBF) := by
    decide +kernel
  simpa [assigned] using all ⟨second.toNat, second.toNat_lt⟩

def OpcodeBytes.first : OpcodeBytes → UInt8
  | oneByte byte => byte
  | twoByte _ => escapeByte

def OpcodeBytes.rest : OpcodeBytes → List UInt8
  | oneByte _ => []
  | twoByte second => [second]

/-- An opcode of one byte is not the escape. -/
def OpcodeBytes.Unescaped : OpcodeBytes → Prop
  | oneByte byte => byte ≠ escapeByte
  | twoByte _ => True

theorem OpcodeBytes.bytes_eq (opcode : OpcodeBytes) :
    opcode.bytes = opcode.first :: opcode.rest := by
  cases opcode <;> rfl

theorem Encoding.length_bytes (encoding : Encoding) :
    encoding.bytes.length = encoding.prefixes.length + 1 +
      (encoding.opcode.rest.length + encoding.operands.bytes.length) := by
  rw [bytes, encoding.opcode.bytes_eq]
  simp only [List.length_append, List.length_cons]
  omega

/-- An opcode that selects an operation is proper if its first byte means nothing else. -/
theorem OpcodeBytes.proper_iff {opcode : OpcodeBytes} {modRm : Option ModRm}
    {selection : Selection} (selected : opcode.row.selection? modRm = some selection) :
    opcode.Proper ↔
      (opcode.first ∉ prefixBytes ∧ opcode.first ≠ 0x67) ∧ opcode.Unescaped := by
  cases opcode with
  | oneByte byte => exact and_assoc.symm
  | twoByte second =>
      have assigned : OpcodeMap.twoByteRow second ≠ .unassigned := by
        intro unassigned
        rw [row, unassigned] at selected
        cases selected
      have escape : escapeByte ∉ prefixBytes ∧ escapeByte ≠ 0x67 := by decide
      exact iff_of_true (OpcodeMap.bounds_of_twoByteRow assigned) ⟨escape, trivial⟩

/-! ## What the steps of a selection take -/

/-- The widths of the slots when the steps of a selection begin. -/
def Selection.widths (selection : Selection) (size : OperandSize) (slot : Slot) : UInt8 :=
  let width := selection.form.width.bytes size
  if slot = .src then selection.form.sourceWidth.elim width (·.bytes size) else width

instance (first second : Step) : Decidable (first.Apart second) :=
  inferInstanceAs (Decidable (¬_ ∧ ¬_))

theorem Shape.apart_steps (shape : Shape) : shape.steps.Pairwise Step.Apart := by
  cases shape <;> decide

theorem Selection.apart_steps {selection : Selection} (regular : selection.Regular) :
    selection.steps.Pairwise Step.Apart := by
  unfold steps
  rcases regular.extra with plain | ⟨added, rm⟩
  · rw [plain]
    exact (List.append_nil _).symm ▸ selection.form.shape.apart_steps
  · rw [added, rm]
    decide

theorem WidthClass.validWidth_bytes (width : WidthClass) (size : OperandSize) :
    ValidWidth (width.bytes size) := by
  unfold ValidWidth
  cases width <;> cases size <;> decide

theorem Shape.immediateLength_le {width : UInt8} (valid : ValidWidth width) (shape : Shape) :
    shape.immediateLength width ≤ 4 := by
  have small : width.toNat ≤ 4 := by
    rcases valid with rfl | rfl | rfl <;> decide
  cases shape <;> simp only [immediateLength] <;> omega

theorem Selection.validWidth_widths (selection : Selection) (size : OperandSize) (slot : Slot) :
    ValidWidth (selection.widths size slot) := by
  unfold widths
  split
  · cases selection.form.sourceWidth with
    | none => exact selection.form.width.validWidth_bytes size
    | some source => exact source.validWidth_bytes size
  · exact selection.form.width.validWidth_bytes size

theorem Step.readBy_iff {steps : List Step} {fields : OperandBytes} :
    ReadBy steps fields ↔
      ((∀ step ∈ steps, step.readsAddressing = false) → fields.addressing = none) ∧
        ((∀ step ∈ steps, step.readsImmediate = false) → fields.immediate = []) :=
  ⟨fun readBy => ⟨readBy.1, readBy.2⟩, fun both => ⟨both.1, both.2⟩⟩

namespace Selection

theorem signedWidth {selection : Selection} (regular : selection.Regular)
    (signed : selection.form.shape = .branch ∨ selection.form.shape = .signedImm)
    (size : OperandSize) :
    selection.form.width.bytes size = 1 ∨ selection.form.width.bytes size = 4 := by
  obtain ⟨-, isSigned, -⟩ := regular.form
  rcases isSigned signed with byte | dword
  · exact .inl (by rw [byte]; rfl)
  · exact .inr (by rw [dword]; rfl)

theorem wideWidth {selection : Selection} (regular : selection.Regular)
    (extended : selection.form.shape = .rmSignedImmToReg ∨
      selection.form.shape = .signedImmToRm) (size : OperandSize) :
    selection.form.width.bytes size = 2 ∨ selection.form.width.bytes size = 4 := by
  obtain ⟨-, -, isWide⟩ := regular.form
  rw [isWide extended]
  cases size
  · exact .inl rfl
  · exact .inr rfl

/-- What the steps of a selection call for is what the tables say. -/
theorem callsAll_iff {selection : Selection} (regular : selection.Regular) (size : OperandSize)
    (fields : OperandBytes) :
    Step.ReadBy selection.steps fields ∧
        Step.CallsAll fields selection.steps (selection.widths size) ↔
      fields.addressing.isSome = selection.form.shape.hasRm ∧
        fields.immediate.length = selection.immediateLength size := by
  have signed := fun isSigned => signedWidth regular isSigned size
  have wide := fun isExtended => wideWidth regular isExtended size
  obtain ⟨⟨source, -, -⟩, extra⟩ := regular
  obtain ⟨mnemonic, ⟨shape, width, sourceWidth⟩, added⟩ := selection
  rcases extra with plain | ⟨isAdded, isRm⟩
  · obtain rfl : added = .implied := plain
    cases shape <;>
      simp_all [Step.readBy_iff, Step.readsAddressing, Step.readsImmediate, steps, Shape.steps,
        signExtendedByteSteps, Step.CallsAll, Step.Calls, Step.resize, widths, Shape.hasRm,
        immediateLength, Shape.immediateLength, and_comm]
  · obtain rfl : added = .groupImm := isAdded
    obtain rfl : shape = .rm := isRm
    simp_all [Step.readBy_iff, Step.readsAddressing, Step.readsImmediate, steps, Shape.steps,
        Step.CallsAll, Step.Calls, Step.resize, widths, Shape.hasRm,
        immediateLength, Shape.immediateLength]

/-- The steps of a selection take the operand encoding first, then the immediate. -/
theorem taken_eq {selection : Selection} (regular : selection.Regular) {size : OperandSize}
    {fields : OperandBytes}
    (addressing : fields.addressing.isSome = selection.form.shape.hasRm)
    (immediate : fields.immediate.length = selection.immediateLength size) :
    selection.steps.flatMap (Step.taken fields) = fields.bytes := by
  obtain ⟨mnemonic, ⟨shape, width, sourceWidth⟩, added⟩ := selection
  rcases regular.extra with plain | ⟨isAdded, isRm⟩
  · obtain rfl : added = .implied := plain
    cases shape <;>
      simp_all [steps, Shape.steps, signExtendedByteSteps, Step.taken, OperandBytes.bytes,
        Shape.hasRm, immediateLength, Shape.immediateLength]
  · obtain rfl : added = .groupImm := isAdded
    obtain rfl : shape = .rm := isRm
    simp [steps, Shape.steps, Step.taken, OperandBytes.bytes]

theorem requireMemory_notMem {selection : Selection} (regular : selection.Regular)
    (other : selection.form.shape ≠ .addressToReg) : Step.requireMemory ∉ selection.steps := by
  have notMem : ∀ shape : Shape, shape ≠ .addressToReg → Step.requireMemory ∉ shape.steps := by
    intro shape
    cases shape <;> decide
  intro isIn
  rcases List.mem_append.mp isIn with inForm | inExtra
  · exact notMem _ other inForm
  · refine notMem _ ?_ inExtra
    rcases regular.extra with plain | ⟨added, -⟩
    · rw [plain]
      decide
    · rw [added]
      decide

/-- An operand encoding at the cursor selects memory exactly if the next byte does. -/
theorem atMemory_iff {pass : Pass} {fields : OperandBytes} {encoding : Addressing}
    (present : fields.addressing = some encoding) (holds : pass.stream.Holds fields.bytes) :
    pass.AtMemory ↔
      ∀ addressing ∈ fields.addressing, addressing.modRm.isMemory = true := by
  have mapped : pass.stream.byteAt? pass.stream.cursor = some encoding.modRm.byte := by
    rw [OperandBytes.bytes, present] at holds
    exact (Stream.holds_cons.mp holds).1
  rw [present]
  constructor
  · rintro ⟨⟨byte⟩, found, memory⟩ _ ⟨⟩
    rw [mapped] at found
    obtain rfl := Option.some.inj found
    exact memory
  · intro memory
    exact ⟨encoding.modRm, mapped, memory encoding rfl⟩

/-- The steps of a selection fit exactly if the bytes that it calls for stand at the cursor. -/
theorem fitsAll_iff {selection : Selection} (regular : selection.Regular) {size : OperandSize}
    {pass : Pass} (widths : pass.widths = selection.widths size) (fields : OperandBytes) :
    Step.ReadBy selection.steps fields ∧ Step.FitsAll fields selection.steps pass ↔
      selection.Takes size fields ∧ pass.stream.Holds fields.bytes := by
  have calls := callsAll_iff regular size fields
  have parts : (Step.ReadBy selection.steps fields ∧
      Step.CallsAll fields selection.steps (selection.widths size)) ∧
        pass.stream.Holds (selection.steps.flatMap (Step.taken fields)) ↔
      (fields.addressing.isSome = selection.form.shape.hasRm ∧
        fields.immediate.length = selection.immediateLength size) ∧
          pass.stream.Holds fields.bytes := by
    rw [calls]
    exact and_congr_right fun lengths => by rw [taken_eq regular lengths.1 lengths.2]
  by_cases address : selection.form.shape = .addressToReg
  · -- The byte that is only looked at is the first byte of the encoding.
    have steps : selection.steps =
        [.requireMemory, .modRm .src false (some (.dest, false))] := by
      rcases regular.extra with plain | ⟨-, rm⟩
      · rw [Selection.steps, address, plain]
        rfl
      · rw [address] at rm
        cases rm
    have hasRm : selection.form.shape.hasRm = true := by
      rw [address]
      rfl
    have split : Step.FitsAll fields selection.steps pass ↔ pass.AtMemory ∧
        Step.CallsAll fields selection.steps (selection.widths size) ∧
          pass.stream.Holds (selection.steps.flatMap (Step.taken fields)) := by
      rw [steps, ← widths]
      exact and_congr_right fun _ => (Step.fitsAll_iff (by decide) fields pass).trans
        (and_congr_left fun _ => (and_iff_right trivial).symm)
    rw [split, and_left_comm, ← and_assoc (a := Step.ReadBy _ _), parts]
    constructor
    · intro given
      rcases given with ⟨atMemory, ⟨addressing, immediate⟩, holds⟩
      obtain ⟨encoding, present⟩ := Option.isSome_iff_exists.mp (addressing.trans hasRm)
      exact ⟨⟨addressing, fun _ => (atMemory_iff present holds).mp atMemory, immediate⟩, holds⟩
    · intro given
      rcases given with ⟨takes, holds⟩
      obtain ⟨encoding, present⟩ := Option.isSome_iff_exists.mp (takes.addressing.trans hasRm)
      exact ⟨(atMemory_iff present holds).mpr (takes.memory address),
        ⟨takes.addressing, takes.immediate⟩, holds⟩
  · rw [Step.fitsAll_iff (requireMemory_notMem regular address), widths, ← and_assoc, parts]
    constructor
    · intro given
      rcases given with ⟨⟨addressing, immediate⟩, holds⟩
      exact ⟨⟨addressing, fun isAddress => absurd isAddress address, immediate⟩, holds⟩
    · intro given
      rcases given with ⟨takes, holds⟩
      exact ⟨⟨takes.addressing, takes.immediate⟩, holds⟩

/-- Operand encodings have at most six bytes. -/
theorem length_operandBytes_le (fields : OperandBytes) :
    fields.bytes.length ≤ 6 + fields.immediate.length := by
  have addressing : (fields.addressing.elim [] Addressing.bytes).length ≤ 6 := by
    cases fields.addressing with
    | none => exact Nat.zero_le _
    | some encoding => exact encoding.length_bytes_le
  rw [OperandBytes.bytes, List.length_append]
  exact Nat.add_le_add_right addressing _

theorem length_bytes_le {selection : Selection} {size : OperandSize} {fields : OperandBytes}
    (takes : selection.Takes size fields) : fields.bytes.length ≤ 14 := by
  have short := Shape.immediateLength_le (selection.form.width.validWidth_bytes size)
  have immediate : fields.immediate.length ≤ 8 := by
    rw [takes.immediate]
    exact Nat.add_le_add (short _) (short _)
  exact Nat.le_trans (length_operandBytes_le fields) (Nat.add_le_add_left immediate 6)

/-- Where a group member adds an immediate, the form has none. -/
theorem immediateLength_le {selection : Selection} (regular : selection.Regular)
    (size : OperandSize) : selection.immediateLength size ≤ 4 := by
  have short := Shape.immediateLength_le (selection.form.width.validWidth_bytes size)
  rw [immediateLength]
  rcases regular.extra with plain | ⟨-, rm⟩
  · rw [plain]
    exact short _
  · have none : Shape.immediateLength (selection.form.width.bytes size) .rm = 0 := rfl
    rw [rm, none, Nat.zero_add]
    exact short _

theorem length_bytes_le_of_regular {selection : Selection} (regular : selection.Regular)
    {size : OperandSize} {fields : OperandBytes} (takes : selection.Takes size fields) :
    fields.bytes.length ≤ 10 := by
  have immediate : fields.immediate.length ≤ 4 := by
    rw [takes.immediate]
    exact immediateLength_le regular size
  exact Nat.le_trans (length_operandBytes_le fields) (Nat.add_le_add_left immediate 6)

end Selection

end I386
