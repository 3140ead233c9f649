import I386.Decoder.Pass
import I386.Encoding.ModRm

/-!
Contract: resolving a ModR/M encoding to operands.

Owns:
- reading the displacement that an encoding calls for;
- the effective address: base, scaled index and displacement, added modulo 2^32, the registers
  loaded into the address cell of the scratch pool on the way;
- filling a register-or-memory slot, and a slot for the register field, from a whole encoding.

Does not own: which instructions have such operands.
-/

namespace I386.Pass

/-- Fetch the displacement that a ModR/M byte calls for. -/
def displacement (modRm : ModRm) : PassM Displacement :=
  match modRm.displacementSize with
  | .none => pure .none
  | .byte => do
      let byte ← fetchByte
      return .byte byte.toInt8
  | .dword => do
      let word ← fetch 4
      return .dword word.toInt32

/-- Load a register into the address cell. -/
def loadAddressRegister (number : UInt8) : PassM UInt32 := do
  let value ← transfer (.loadRegister number 4)
  modifyContext fun context =>
    { context with scratch := { context.scratch with address := value } }
  return value

/-- The scaled index of a SIB byte. The number of ESP says that there is none. -/
def scaledIndex (sib : Sib) : PassM UInt32 :=
  if sib.index = Register.stackPointer then
    pure 0
  else do
    let value ← loadAddressRegister sib.index
    return value <<< sib.scale.toUInt32

/-- The base of an encoding with a SIB byte: a register, or a displacement in its place. -/
def sibBase (modRm : ModRm) (sib : Sib) : PassM UInt32 :=
  if sib.replacesBase modRm then fetch 4 else loadAddressRegister sib.base

/-- The part of the effective address that comes before the displacement. -/
def addressBase (modRm : ModRm) : PassM UInt32 :=
  if modRm.hasSib then do
    let byte ← fetchByte
    let sib := Sib.ofByte byte
    let index ← scaledIndex sib
    let base ← sibBase modRm sib
    return index + base
  else if modRm.hasBase then
    loadAddressRegister modRm.rm
  else
    pure 0

/-- The effective address of a memory encoding. -/
def effectiveAddress (modRm : ModRm) : PassM UInt32 := do
  let base ← addressBase modRm
  let displacement ← displacement modRm
  return base + displacement.word

/-- Stage the value of the register that a slot designates. -/
def stageRegister (slot : Slot) : PassM Unit := do
  let operand ← operand slot
  let value ← transfer (.loadRegister operand.number operand.width)
  modifyOperand slot fun operand => { operand with value }

/-- Stage the value of the memory that a slot designates. -/
def stageMemory (slot : Slot) : PassM Unit := do
  let operand ← operand slot
  let value ← transfer (.loadMemory operand.address operand.width)
  modifyOperand slot fun operand => { operand with value }

/-- Make a slot a register operand and stage its value if `load`. -/
def fillRegister (slot : Slot) (number : UInt8) (load : Bool) : PassM Unit := do
  modifyOperand slot fun operand => { operand with kind := .register, number }
  if load then stageRegister slot

/-- Stage the address of a slot. -/
def stageAddress (slot : Slot) (address : UInt32) : PassM Unit := do
  let address ← transfer (.loadImmediate address)
  modifyOperand slot fun operand => { operand with address }

/-- Resolve a ModR/M encoding into a register-or-memory slot and, if one is named, a slot for the
register field. Both must have their widths. The register field is filled before anything after
the ModR/M byte is read; the slot of a memory operand changes only after its address is known. -/
def resolve (slot : Slot) (load : Bool) (field : Option (Slot × Bool)) : PassM ModRm := do
  let byte ← fetchByte
  let modRm : ModRm := ⟨byte⟩
  match field with
  | some (fieldSlot, fieldLoad) => fillRegister fieldSlot modRm.reg fieldLoad
  | none => pure ()
  if modRm.isMemory then
    let address ← effectiveAddress modRm
    modifyOperand slot fun operand => { operand with kind := .memory }
    stageAddress slot address
    if load then stageMemory slot
  else
    fillRegister slot modRm.rm load
  return modRm

end I386.Pass
