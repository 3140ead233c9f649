import I386.Decoder.Staging
import I386.Encoding.OpcodeMap
import I386.Instruction

/-!
Contract: decoding one instruction.

Owns:
- the run of prefixes, and the operand size that it selects;
- choosing a row of the opcode maps, and the member of a group;
- what is refused: prefixes and opcodes without meaning, near branches of 16 bits, and
  instructions of more than fifteen bytes;
- decoding the operands of the chosen form, and the resulting instruction.

Decoding never looks past the bytes that belong to the instruction, except that a refused one may
have been looked at up to the byte that decides the refusal.

Does not own: how operands are staged.
-/

namespace I386

/-- The greatest length of an instruction in bytes, prefixes included. -/
def maxLength : Nat := 15

/-- The address-size override, which has no meaning here. -/
def addressSizeOverride : UInt8 := 0x67

/-- The byte that escapes to the two-byte map. -/
def escapeByte : UInt8 := 0x0F

/-- An opcode found after the prefixes of an instruction. -/
structure Opcode where
  /-- The last byte of the opcode. -/
  byte : UInt8
  /-- The whole opcode, with `0F` in the high byte for the two-byte map. -/
  code : UInt16
  row : Row

/-- The operation and form chosen for an opcode. -/
structure Selection where
  mnemonic : Mnemonic
  form : Form
  /-- The pattern that a group member adds. -/
  extra : Shape

namespace Pass

/-- Read prefixes from `byte` on, which has been fetched, until a byte that is none; that byte and
the prefixes found are the result. `room` is the number of prefixes that may still come, and
`start` is the address of the instruction. -/
def readPrefixes (start : UInt32) : Nat → PrefixSet → UInt8 → PassM (PrefixSet × UInt8)
  | room, prefixes, byte =>
      match Prefix.ofByte? byte with
      | some found =>
          match room with
          | 0 => refuse (.instructionTooLong start)
          | room + 1 => do
              let next ← fetchByte
              readPrefixes start room (prefixes.insert found) next
      | none =>
          if byte = addressSizeOverride then
            refuse (.unsupportedOpcode byte.toUInt16 start)
          else
            pure (prefixes, byte)

/-- Find the row of the opcode whose first byte has been fetched. -/
def readOpcode (byte : UInt8) : PassM Opcode :=
  if byte = escapeByte then do
    let second ← fetchByte
    return ⟨second, 0x0F00 ||| second.toUInt16, OpcodeMap.twoByteRow second⟩
  else
    pure ⟨byte, byte.toUInt16, OpcodeMap.oneByteRow byte⟩

/-- Choose the operation of a row. The member of a group is chosen by the register field of the
ModR/M byte, which is not consumed. -/
def select? (row : Row) : PassM (Option Selection) :=
  match row with
  | .unassigned => pure none
  | .instruction mnemonic form => pure (some ⟨mnemonic, form, .implied⟩)
  | .group group form => do
      let byte ← peekByte
      let modRm : ModRm := ⟨byte⟩
      return (group.member? modRm.reg).map fun member => ⟨member.mnemonic, form, member.extra⟩

/-- A relative branch whose displacement has four bytes. -/
def isNearBranch (form : Form) : Bool :=
  form.shape == .branch && form.width == .dword

/-- Choose the operation of an opcode, or refuse it: a near branch has no 16-bit form. -/
def select (start : UInt32) (size : OperandSize) (opcode : Opcode) : PassM Selection := do
  match ← select? opcode.row with
  | none => refuse (.unsupportedOpcode opcode.code start)
  | some selection =>
      if isNearBranch selection.form && size == .bits16 then
        refuse (.unsupportedOpcode opcode.code start)
      else
        pure selection

/-- Begin an instruction with the widths of its form. -/
def begin (opcode : UInt8) (form : Form) (size : OperandSize) : PassM Unit := do
  modifyDecoder fun decoder => decoder.start opcode (form.width.bytes size) size
  match form.sourceWidth with
  | some width => modifyOperand .src fun operand => { operand with width := width.bytes size }
  | none => pure ()

/-- The operand size that a set of prefixes selects; an override counts once however often it
stands there. -/
def effectiveSize (prefixes : PrefixSet) (default : OperandSize) : OperandSize :=
  if prefixes.contains .operandSize then default.toggled else default

/-- Note the address after the instruction, and refuse one that is too long. The result is the
length. -/
def finish (start : UInt32) : PassM UInt32 := do
  let next ← cursor
  modifyContext fun context => { context with nextAddress := next }
  let size := next - start
  if size.toNat > maxLength then
    refuse (.instructionTooLong start)
  else
    pure size

/-- Decode the instruction at the cursor. Afterwards the cursor is on the next one. -/
def decode : PassM Instruction := do
  let start ← cursor
  let first ← fetchByte
  let (prefixes, byte) ← readPrefixes start (maxLength - 1) .empty first
  let decoder ← currentDecoder
  let operandSize := effectiveSize prefixes decoder.defaultSize
  let opcode ← readOpcode byte
  let selection ← select start operandSize opcode
  begin opcode.byte selection.form operandSize
  selection.form.shape.decode
  selection.extra.decode
  let size ← finish start
  let decoder ← currentDecoder
  return {
    address := start
    size
    prefixes := if byte = escapeByte then prefixes.insert .twoByte else prefixes
    opcode := opcode.code
    mnemonic := selection.mnemonic
    operandSize
    dest := decoder.dest
    src := decoder.src
    src2 := decoder.src2
    branchTarget :=
      if decoder.context.isBranch then some decoder.context.branchTarget else none }

end Pass

end I386
