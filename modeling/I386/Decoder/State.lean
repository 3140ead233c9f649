import I386.Encoding.Shape
import I386.Operand
import I386.Width

/-!
Contract: what a decoder remembers while it works on an instruction.

Owns:
- the context of the instruction: opcode, operand size, resolved branch, address of the next
  instruction, and scratch cells for address computation;
- the three operand slots;
- beginning an instruction, which clears all of that.

The context and the slots stay as the last instruction left them until the next one begins. An
instruction that is refused before its operands are decoded never begins.

Does not own: the stream and the machine that instructions are decoded from and staged on.
-/

namespace I386

/-- Staging cells. Only `address` is used in decoding. -/
structure Scratch where
  t0 : UInt32
  t1 : UInt32
  t2 : UInt32
  t3 : UInt32
  address : UInt32
deriving DecidableEq, Repr

/-- All staging cells zero. -/
def Scratch.zero : Scratch :=
  ⟨0, 0, 0, 0, 0⟩

/-- What is known about the instruction being decoded, apart from its operands. -/
structure Context where
  /-- The last opcode byte. -/
  opcode : UInt8
  /-- A relative branch has been resolved to `branchTarget`. -/
  isBranch : Bool
  branchTarget : UInt32
  /-- The address after the instruction. -/
  nextAddress : UInt32
  operandSize : OperandSize
  scratch : Scratch
deriving DecidableEq, Repr

/-- The context at the beginning of an instruction. -/
def Context.start (opcode : UInt8) (size : OperandSize) : Context :=
  ⟨opcode, false, 0, 0, size, .zero⟩

/-- The context of the instruction last begun, and its operand slots. -/
structure Decoder where
  context : Context
  /-- The operand size of instructions without an override. -/
  defaultSize : OperandSize
  dest : Operand
  src : Operand
  src2 : Operand
deriving DecidableEq, Repr

namespace Decoder

/-- A decoder that has not decoded anything. -/
def ofSize (size : OperandSize) : Decoder :=
  ⟨.start 0 size, size, .ofWidth 0, .ofWidth 0, .ofWidth 0⟩

/-- The operand in a slot. -/
def slot (decoder : Decoder) : Slot → Operand
  | .dest => decoder.dest
  | .src => decoder.src
  | .src2 => decoder.src2

/-- The decoder with another operand in a slot. -/
def setSlot (decoder : Decoder) (slot : Slot) (operand : Operand) : Decoder :=
  match slot with
  | .dest => { decoder with dest := operand }
  | .src => { decoder with src := operand }
  | .src2 => { decoder with src2 := operand }

/-- Begin an instruction: reset the context and empty the slots, which all get the same width. -/
def start (decoder : Decoder) (opcode width : UInt8) (size : OperandSize) : Decoder :=
  { decoder with
    context := .start opcode size
    dest := .ofWidth width
    src := .ofWidth width
    src2 := .ofWidth width }

/-- Begin an instruction at the default operand size. -/
def startDefault (decoder : Decoder) (opcode width : UInt8) : Decoder :=
  decoder.start opcode width decoder.defaultSize

end Decoder

end I386
