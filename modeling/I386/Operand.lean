import I386.Machine.MicroOp

/-!
Contract: the slots into which operands are decoded.

Owns:
- what a slot holds, and which kind of operand that makes it;
- the text of an operand;
- the transfer that writes a value to where an operand designates.

A slot is filled in steps, and what an earlier step or instruction left in a field stays there
until something overwrites it; the kind says which fields count.

Does not own: filling slots.
-/

namespace I386

/-- What an operand is. -/
inductive OperandKind where
  | none
  | register
  | memory
  | immediate
deriving DecidableEq, Repr

/-- A decoded operand. Its kind says whether `number`, `address` or `immediate` designates it;
`value` is what was staged for it. -/
structure Operand where
  kind : OperandKind
  /-- Width in bytes. -/
  width : UInt8
  /-- Register number. -/
  number : UInt8
  /-- Memory address. -/
  address : UInt32
  /-- Staged value. -/
  value : UInt32
  /-- Immediate as it was fetched. -/
  immediate : UInt32
  /-- Immediate after sign extension. -/
  signedImmediate : Int32
deriving DecidableEq, Repr

namespace Operand

/-- An empty slot of a width. -/
def ofWidth (width : UInt8) : Operand :=
  ⟨.none, width, 0, 0, 0, 0, 0⟩

/-- The text of an operand: a register's name, a qualified memory reference, or the staged value
of an immediate. An empty slot has no text, and a register of no valid width no name. -/
def text (operand : Operand) : Except Violation String :=
  match operand.kind with
  | .none => .ok ""
  | .register => Register.name operand.number operand.width
  | .memory =>
      .ok (widthName operand.width ++ " ptr [" ++ MicroOp.numberText operand.address ++ "]")
  | .immediate => .ok (MicroOp.numberText operand.value)

/-- The transfer that writes a value to where the operand designates. Only registers and memory
can be written. -/
def writeOp (operand : Operand) (value : UInt32) : Except Violation MicroOp :=
  match operand.kind with
  | .register => .ok (.storeRegister operand.number operand.width value)
  | .memory => .ok (.storeMemory operand.address operand.width value)
  | .none => .error .writeToNothing
  | .immediate => .error .writeToImmediate

end Operand

end I386
