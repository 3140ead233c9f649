import I386.Encoding.ModRm

/-!
Contract: the operand patterns of instructions, as short programs over operand slots.

Owns:
- the three slots that an instruction's operands are decoded into;
- the steps by which a slot is filled: each reads the bytes that it needs and stages what its
  encoding designates;
- the patterns, and the steps that each consists of, in the order in which they are taken.

Every step takes the width of its slot as it finds it, unless it says otherwise.

Does not own: taking the steps.
-/

namespace I386

/-- An operand slot: a destination, a source and a second source. -/
inductive Slot where
  | dest
  | src
  | src2
deriving DecidableEq, Repr

/-- One step in decoding operands. -/
inductive Step where
  /-- Decode a whole ModR/M encoding into a register-or-memory operand, whose value is staged if
  `load`. If `field` names a slot, the register field goes there first, its value staged as the
  second component says. -/
  | modRm (operand : Slot) (load : Bool) (field : Option (Slot × Bool))
  /-- Refuse a ModR/M byte that selects a register. The byte is not consumed. -/
  | requireMemory
  /-- Read an immediate. -/
  | immediate (slot : Slot)
  /-- Read an immediate of one or four bytes and sign-extend it. -/
  | signedImmediate (slot : Slot)
  /-- The accumulator, which the opcode implies. -/
  | accumulator (slot : Slot) (load : Bool)
  /-- The register in the low three bits of the opcode. -/
  | opcodeRegister (slot : Slot) (load : Bool)
  /-- Read a 32-bit memory offset. -/
  | offset (slot : Slot) (load : Bool)
  /-- CL, always loaded. The slot becomes one byte wide. -/
  | cl (slot : Slot)
  /-- DX, always loaded. The slot becomes two bytes wide. -/
  | dx (slot : Slot)
  /-- The constant 1. -/
  | one (slot : Slot)
  /-- Make a slot one byte wide. -/
  | narrowToByte (slot : Slot)
  /-- Demand a destination of two or four bytes. -/
  | requireWideDest
  /-- Cut the source's staged value to a two-byte destination. -/
  | clipSource
  /-- Resolve the branch target from the destination, relative to the cursor. -/
  | branchTarget
deriving DecidableEq, Repr

/-- The operand pattern of an instruction. -/
inductive Shape where
  /-- No operands, or only implied ones. -/
  | implied
  | regToRm
  | storeRegToRm
  | rmToReg
  | loadRmToReg
  | addressToReg
  | immToAcc
  | rmImmToReg
  | rmSignedImmToReg
  | immToRm
  | storeImmToRm
  | signedImmToRm
  | immToOpcodeReg
  | storeImmToOpcodeReg
  | accWithOpcodeReg
  | imm
  | opcodeReg
  | rm
  | storeToRm
  /-- An immediate source after the operand of a group. -/
  | groupImm
  | branch
  | signedImm
  | shiftByOne
  | shiftByCl
  | shiftByImm
  | doubleShiftByImm
  | doubleShiftByCl
  | inputImm
  | inputDx
  | outputImm
  | outputDx
  | offsetToAcc
  | accToOffset
deriving DecidableEq, Repr

/-- A sign-extended byte as source, cut to the destination. -/
def signExtendedByteSteps : List Step :=
  [.narrowToByte .src, .signedImmediate .src, .clipSource]

/-- The steps of a pattern, in the order in which they are taken. -/
def Shape.steps : Shape → List Step
  | implied => []
  | regToRm => [.modRm .dest true (some (.src, true))]
  | storeRegToRm => [.modRm .dest false (some (.src, true))]
  | rmToReg => [.modRm .src true (some (.dest, true))]
  | loadRmToReg => [.modRm .src true (some (.dest, false))]
  | addressToReg => [.requireMemory, .modRm .src false (some (.dest, false))]
  | immToAcc => [.accumulator .dest true, .immediate .src]
  | rmImmToReg => [.modRm .src2 true (some (.dest, false)), .immediate .src]
  | rmSignedImmToReg =>
      [.requireWideDest, .modRm .src2 true (some (.dest, false))] ++ signExtendedByteSteps
  | immToRm => [.modRm .dest true none, .immediate .src]
  | storeImmToRm => [.modRm .dest false none, .immediate .src]
  | signedImmToRm => [.requireWideDest, .modRm .dest true none] ++ signExtendedByteSteps
  | immToOpcodeReg => [.opcodeRegister .dest true, .immediate .src]
  | storeImmToOpcodeReg => [.opcodeRegister .dest false, .immediate .src]
  | accWithOpcodeReg => [.opcodeRegister .dest true, .accumulator .src true]
  | imm => [.immediate .dest]
  | opcodeReg => [.opcodeRegister .dest true]
  | rm => [.modRm .dest true none]
  | storeToRm => [.modRm .dest false none]
  | groupImm => [.immediate .src]
  | branch => [.signedImmediate .dest, .branchTarget]
  | signedImm => [.signedImmediate .dest]
  | shiftByOne => [.modRm .dest true none, .one .src]
  | shiftByCl => [.modRm .dest true none, .cl .src]
  | shiftByImm => [.modRm .dest true none, .narrowToByte .src, .immediate .src]
  | doubleShiftByImm =>
      [.modRm .dest true (some (.src2, true)), .narrowToByte .src, .immediate .src]
  | doubleShiftByCl => [.modRm .dest true (some (.src2, true)), .cl .src]
  | inputImm => [.narrowToByte .src, .immediate .src, .accumulator .dest false]
  | inputDx => [.dx .src, .accumulator .dest false]
  | outputImm => [.accumulator .src true, .narrowToByte .dest, .immediate .dest]
  | outputDx => [.accumulator .src true, .dx .dest]
  | offsetToAcc => [.offset .src true, .accumulator .dest false]
  | accToOffset => [.accumulator .src true, .offset .dest false]

end I386
