import I386.Text.Hex
import I386.Violation

/-!
Contract: errors in what is decoded.

Owns:
- the four ways an instruction stream can fail to hold an instruction, each with the address that
  it names;
- their texts;
- `Fault`, the two kinds of failure of a decoding operation.

Does not own: when each arises.
-/

namespace I386

/-- An error in the instruction stream. -/
inductive DecodeError where
  /-- A byte was needed at an address where none is mapped. -/
  | readOutOfBounds (address : UInt32)
  /-- The ModR/M byte at the address selects a register where memory is required. -/
  | invalidModRm (byte : UInt8) (address : UInt32)
  /-- The instruction at the address has an opcode without meaning. -/
  | unsupportedOpcode (opcode : UInt16) (address : UInt32)
  /-- The instruction at the address is longer than any encoding may be. -/
  | instructionTooLong (address : UInt32)
deriving DecidableEq, Repr

namespace DecodeError

/-- The address that an error names. -/
def address : DecodeError → UInt32
  | readOutOfBounds address => address
  | invalidModRm _ address => address
  | unsupportedOpcode _ address => address
  | instructionTooLong address => address

/-- The error, as shown to the user: addresses have eight digits, opcodes four and bytes two. -/
def message : DecodeError → String
  | readOutOfBounds address =>
      "Unexpected end of instruction stream reading address: " ++
        Text.hexPadded 8 address.toNat
  | invalidModRm byte address =>
      "Invalid ModR/M byte " ++ Text.hexPadded 2 byte.toNat ++ " at address: " ++
        Text.hexPadded 8 address.toNat
  | unsupportedOpcode opcode address =>
      "An unsupported opcode was encountered: " ++ Text.hexPadded 4 opcode.toNat ++
        " at address: " ++ Text.hexPadded 8 address.toNat
  | instructionTooLong address =>
      "Instruction exceeds the maximum length of 15 bytes at address: " ++
        Text.hexPadded 8 address.toNat

end DecodeError

/-- How a decoding operation fails: the stream is at fault, or the caller is. -/
inductive Fault where
  | decode (error : DecodeError)
  | violation (violation : Violation)
deriving DecidableEq, Repr

end I386
