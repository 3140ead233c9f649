import I386.Violation

/-!
Contract: how wide operands are.

Owns:
- the operand-size attribute, 16 or 32 bits, and reading it from a number;
- the width classes of the opcode map and their widths in bytes at either operand size;
- masking and sign-extending values at a width in bytes.

Widths are byte counts. A value of any other width than one, two or four bytes is a `Violation`.

Does not own: which width an instruction has.
-/

namespace I386

/-- The operand-size attribute in effect for encodings that come in two widths. -/
inductive OperandSize where
  | bits16
  | bits32
deriving DecidableEq, Repr

namespace OperandSize

/-- The width in bytes of an operand that follows the attribute. -/
def bytes : OperandSize → UInt8
  | bits16 => 2
  | bits32 => 4

/-- The size in bits. -/
def bits : OperandSize → Nat
  | bits16 => 16
  | bits32 => 32

/-- The size that an operand-size override selects. -/
def toggled : OperandSize → OperandSize
  | bits16 => bits32
  | bits32 => bits16

/-- The size with the given number of bits, if there is one. -/
def ofBits? (bits : UInt32) : Option OperandSize :=
  if bits = 16 then some bits16
  else if bits = 32 then some bits32
  else none

/-- The refusal of a number of bits that is no operand size. -/
def refusal (bits : UInt32) : String :=
  "Bad value for operand size: " ++ toString bits.toNat ++ " (expected 16 or 32)"

end OperandSize

/-- The width class of an encoding in the opcode map. -/
inductive WidthClass where
  | byte
  | word
  /-- Two or four bytes, after the operand-size attribute. -/
  | full
  | dword
deriving DecidableEq, Repr

/-- The width in bytes of a class at an operand size. -/
def WidthClass.bytes : WidthClass → OperandSize → UInt8
  | byte, _ => 1
  | word, _ => 2
  | full, size => size.bytes
  | dword, _ => 4

/-- The mask that covers an operand of `width` bytes. -/
def widthMask (width : UInt8) : Except Violation UInt32 :=
  if width = 1 then .ok 0xFF
  else if width = 2 then .ok 0xFFFF
  else if width = 4 then .ok 0xFFFFFFFF
  else .error (.operandWidth width)

/-- The low `width` bytes of a value, sign-extended to 32 bits. -/
def signExtend (value : UInt32) (width : UInt8) : Except Violation UInt32 :=
  if width = 1 then .ok value.toUInt8.toInt8.toInt32.toUInt32
  else if width = 2 then .ok value.toUInt16.toInt16.toInt32.toUInt32
  else if width = 4 then .ok value
  else .error (.operandWidth width)

/-- The word by which memory references of `width` bytes are qualified. -/
def widthName (width : UInt8) : String :=
  if width = 1 then "byte"
  else if width = 2 then "word"
  else "dword"

end I386
