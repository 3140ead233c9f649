import I386.Width

/-!
Contract: the settings of a listing.

Owns:
- the settings and their defaults.

Does not own: where settings come from.
-/

namespace I386

/-- The settings of a listing. -/
structure Config where
  /-- The operand size of instructions without an override. -/
  operandSize : OperandSize
  /-- Show the transfers of every instruction. -/
  traceMicroOps : Bool
  /-- The least size of the machine's memory in bytes. -/
  memorySize : Nat
  /-- The address at which the image is mapped and loaded. -/
  loadAddress : UInt32
deriving DecidableEq, Repr

/-- 32-bit operands, no transfers, and one mebibyte of memory with the image at the second page. -/
def Config.default : Config :=
  ⟨.bits32, false, 0x100000, 0x1000⟩

end I386
