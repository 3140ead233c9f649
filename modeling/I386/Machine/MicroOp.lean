import I386.Register
import I386.Text.Hex
import I386.Width

/-!
Contract: the register transfers by which operands are staged.

Owns:
- the five micro-operations: three loads into a staging cell and two stores from one;
- their text.

Does not own: executing them.
-/

namespace I386

/-- A register transfer. A load brings its value into a staging cell; a store carries the value
of a staging cell. -/
inductive MicroOp where
  | loadImmediate (value : UInt32)
  | loadRegister (number width : UInt8)
  | loadMemory (address : UInt32) (width : UInt8)
  | storeRegister (number width : UInt8) (value : UInt32)
  | storeMemory (address : UInt32) (width : UInt8) (value : UInt32)
deriving DecidableEq, Repr

namespace MicroOp

/-- A number as operands are written: hexadecimal digits and the letter `h`. -/
def numberText (value : UInt32) : String :=
  Text.hex value.toNat ++ "h"

/-- A memory reference as micro-operations are written. -/
def memoryText (address : UInt32) (width : UInt8) : String :=
  widthName width ++ " [" ++ numberText address ++ "]"

/-- A micro-operation as a line of text. A register of no valid width has no name. -/
def text : MicroOp → Except Violation String
  | loadImmediate value => .ok ("li " ++ numberText value)
  | loadRegister number width => do
      let name ← Register.name number width
      return "lr " ++ name
  | loadMemory address width => .ok ("lm " ++ memoryText address width)
  | storeRegister number width value => do
      let name ← Register.name number width
      return "sr " ++ name ++ " <- " ++ numberText value
  | storeMemory address width value =>
      .ok ("sm " ++ memoryText address width ++ " <- " ++ numberText value)

end MicroOp

end I386
