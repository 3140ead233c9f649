import I386.Encoding.Mnemonic
import I386.Encoding.Prefix
import I386.Operand
import I386.Width

/-!
Contract: a decoded instruction.

Owns:
- everything that decoding found out about an instruction;
- the address after it;
- its text.

Does not own: decoding.
-/

namespace I386

/-- A decoded instruction. Its operands hold the values staged while it was decoded. -/
structure Instruction where
  address : UInt32
  /-- Length in bytes, prefixes included. -/
  size : UInt32
  prefixes : PrefixSet
  /-- The opcode, with `0F` in the high byte for the two-byte map. -/
  opcode : UInt16
  mnemonic : Mnemonic
  operandSize : OperandSize
  dest : Operand
  src : Operand
  src2 : Operand
  /-- The target, if the instruction is a relative branch. -/
  branchTarget : Option UInt32
deriving DecidableEq, Repr

namespace Instruction

/-- The address of the next instruction in sequence. -/
def nextAddress (instruction : Instruction) : UInt32 :=
  instruction.address + instruction.size

/-- The operands in the order in which they are written. -/
def operands (instruction : Instruction) : List Operand :=
  [instruction.dest, instruction.src2, instruction.src].filter (·.kind ≠ .none)

/-- The prefixes that are written: a lock, and one repetition, of which `rep` has precedence. -/
def prefixText (instruction : Instruction) : String :=
  (if instruction.prefixes.contains .lock then "lock " else "") ++
    (if instruction.prefixes.contains .rep then "rep "
    else if instruction.prefixes.contains .repne then "repne "
    else "")

/-- What is written after the mnemonic: the target of a relative branch, else the operands. -/
def operandText (instruction : Instruction) : Except Violation String :=
  match instruction.branchTarget with
  | some target => .ok (" " ++ MicroOp.numberText target)
  | none => do
      let texts ← instruction.operands.mapM Operand.text
      return if texts.isEmpty then "" else " " ++ ", ".intercalate texts

/-- The text of an instruction. -/
def text (instruction : Instruction) : Except Violation String := do
  let operands ← instruction.operandText
  return instruction.prefixText ++ instruction.mnemonic.text ++ operands

end Instruction

end I386
