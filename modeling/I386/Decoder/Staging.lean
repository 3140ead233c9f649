import I386.Decoder.Address

/-!
Contract: taking the steps of operand patterns.

Owns:
- what each step does to the slots, the stream and the machine;
- decoding the operands of a pattern, step by step.

Does not own: which pattern an opcode has.
-/

namespace I386

namespace Pass

/-- Stage the immediate of a slot. -/
def stageImmediate (slot : Slot) (value : UInt32) : PassM Unit := do
  let value ← transfer (.loadImmediate value)
  modifyOperand slot fun operand => { operand with value }

/-- Fetch an immediate of the slot's width; the slot is an immediate even if that fails. -/
def fetchImmediate (slot : Slot) : PassM UInt32 := do
  modifyOperand slot fun operand => { operand with kind := .immediate }
  let operand ← operand slot
  let immediate ← fetch operand.width
  modifyOperand slot fun operand => { operand with immediate }
  return immediate

/-- Fill a slot with an immediate and stage it. -/
def fillImmediate (slot : Slot) : PassM Unit := do
  let immediate ← fetchImmediate slot
  stageImmediate slot immediate

/-- Sign-extend a value. A width that has no sign is a violation. -/
def extended (value : UInt32) (width : UInt8) : PassM UInt32 :=
  match signExtend value width with
  | .ok extended => pure extended
  | .error violation => violate violation

/-- Fill a slot with a sign-extended immediate and stage it. Two bytes are no width for it. -/
def fillSignedImmediate (slot : Slot) : PassM Unit := do
  let operand ← operand slot
  if operand.width = 1 ∨ operand.width = 4 then
    let immediate ← fetchImmediate slot
    let extended ← extended immediate operand.width
    modifyOperand slot fun operand => { operand with signedImmediate := extended.toInt32 }
    stageImmediate slot extended
  else
    violate (.signedImmediateWidth operand.width)

/-- Fill a slot with the memory operand at a 32-bit offset and stage its value if `load`. The slot
is a memory operand even if the offset cannot be read. -/
def fillOffset (slot : Slot) (load : Bool) : PassM Unit := do
  modifyOperand slot fun operand => { operand with kind := .memory }
  let offset ← fetch 4
  stageAddress slot offset
  if load then stageMemory slot

/-- Fill a slot with a register of its own width and stage its value. -/
def fillFixedRegister (slot : Slot) (number width : UInt8) : PassM Unit := do
  modifyOperand slot fun operand => { operand with width }
  fillRegister slot number true

/-- Fill a slot with the constant 1 and stage it. -/
def fillOne (slot : Slot) : PassM Unit := do
  modifyOperand slot fun operand => { operand with kind := .immediate, immediate := 1 }
  stageImmediate slot 1

/-- Refuse a ModR/M byte that selects a register; nothing is consumed. -/
def requireMemory : PassM Unit := do
  let byte ← peekByte
  let modRm : ModRm := ⟨byte⟩
  if !modRm.isMemory then
    let address ← cursor
    refuse (.invalidModRm byte address)

/-- Demand a destination of two or four bytes. -/
def requireWideDest : PassM Unit := do
  let dest ← operand .dest
  if ¬(dest.width = 2 ∨ dest.width = 4) then
    violate (.destinationWidth dest.width)

/-- Cut the source's staged value to the destination if that has two bytes. -/
def clipSource : PassM Unit := do
  let dest ← operand .dest
  if dest.width = 2 then
    modifyOperand .src fun operand => { operand with value := operand.value &&& 0xFFFF }

/-- Resolve the target of a relative branch: the destination's signed immediate added to the
address after it. -/
def resolveBranch : PassM Unit := do
  let dest ← operand .dest
  let after ← cursor
  modifyContext fun context =>
    { context with branchTarget := dest.signedImmediate.toUInt32 + after, isBranch := true }

end Pass

open Pass in
/-- Take a step. -/
def Step.run : Step → PassM Unit
  | modRm slot load field => do
      let _ ← resolve slot load field
  | requireMemory => Pass.requireMemory
  | immediate slot => fillImmediate slot
  | signedImmediate slot => fillSignedImmediate slot
  | accumulator slot load => fillRegister slot Register.accumulator load
  | opcodeRegister slot load => do
      let decoder ← currentDecoder
      fillRegister slot (decoder.context.opcode &&& 7) load
  | offset slot load => fillOffset slot load
  | cl slot => fillFixedRegister slot Register.cl 1
  | dx slot => fillFixedRegister slot Register.dx 2
  | one slot => fillOne slot
  | narrowToByte slot => modifyOperand slot fun operand => { operand with width := 1 }
  | requireWideDest => Pass.requireWideDest
  | clipSource => Pass.clipSource
  | branchTarget => resolveBranch

/-- Take steps one after the other. -/
def Step.runAll : List Step → PassM Unit
  | [] => pure ()
  | step :: rest => do
      step.run
      runAll rest

/-- Decode the operands of a pattern. -/
def Shape.decode (shape : Shape) : PassM Unit :=
  Step.runAll shape.steps

/-- Write a value to where an operand designates. -/
def Operand.writeBack (operand : Operand) (value : UInt32) : PassM Unit :=
  match operand.writeOp value with
  | .ok op => do
      let _ ← Pass.transfer op
  | .error violation => Pass.violate violation

end I386
