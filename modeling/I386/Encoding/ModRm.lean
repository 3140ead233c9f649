import I386.Register

/-!
Contract: the fields of the ModR/M and SIB bytes and what they call for.

Owns:
- splitting both bytes into their fields;
- which encodings have a SIB byte, a base register or a displacement, and of what size;
- displacements and the words that they add to an address.

Does not own: reading the bytes, or computing addresses from register contents.
-/

namespace I386

/-- The size of the displacement that an encoding calls for. -/
inductive DisplacementSize where
  | none
  | byte
  | dword
deriving DecidableEq, Repr

/-- A displacement as it was read. -/
inductive Displacement where
  | none
  | byte (value : Int8)
  | dword (value : Int32)
deriving DecidableEq, Repr

namespace Displacement

/-- The signed value that a displacement adds; a missing one adds zero. -/
def value : Displacement → Int32
  | none => 0
  | byte value => value.toInt32
  | dword value => value

/-- The word that a displacement adds: sign-extended, and zero if it is missing. -/
def word (displacement : Displacement) : UInt32 :=
  displacement.value.toUInt32

end Displacement

/-- A ModR/M byte. -/
structure ModRm where
  byte : UInt8
deriving DecidableEq, Repr

namespace ModRm

/-- The mode, in the top two bits. -/
def mode (modRm : ModRm) : UInt8 :=
  modRm.byte >>> 6

/-- The register field, in the middle three bits. In groups it extends the opcode. -/
def reg (modRm : ModRm) : UInt8 :=
  (modRm.byte >>> 3) &&& 7

/-- The register-or-memory field, in the low three bits. -/
def rm (modRm : ModRm) : UInt8 :=
  modRm.byte &&& 7

/-- The register-or-memory operand is memory unless the mode is 3. -/
def isMemory (modRm : ModRm) : Bool :=
  modRm.mode != 3

/-- A SIB byte follows a memory encoding whose register-or-memory field is 4. -/
def hasSib (modRm : ModRm) : Bool :=
  modRm.isMemory && modRm.rm == 4

/-- A displacement stands in the place of EBP when the mode is 0. -/
def isDisplacementOnly (modRm : ModRm) : Bool :=
  modRm.mode == 0 && modRm.rm == Register.basePointer

/-- The register-or-memory field names a base register. -/
def hasBase (modRm : ModRm) : Bool :=
  modRm.isMemory && !modRm.hasSib && !modRm.isDisplacementOnly

/-- The displacement that follows the ModR/M byte and any SIB byte. -/
def displacementSize (modRm : ModRm) : DisplacementSize :=
  if modRm.mode = 1 then .byte
  else if modRm.mode = 2 || modRm.isDisplacementOnly then .dword
  else .none

end ModRm

/-- The fields of a SIB byte: a base register, and an index register scaled by a power of two. -/
structure Sib where
  base : UInt8
  index : UInt8
  scale : UInt8
deriving DecidableEq, Repr

namespace Sib

/-- The fields of a byte: the base in the low three bits, the scale in the top two. -/
def ofByte (byte : UInt8) : Sib :=
  ⟨byte &&& 7, (byte >>> 3) &&& 7, byte >>> 6⟩

/-- The byte that has the fields; bits that a field has no room for are dropped. -/
def toByte (sib : Sib) : UInt8 :=
  let index : UInt8 := (sib.index &&& 7) <<< 3
  let scale : UInt8 := sib.scale <<< 6
  (sib.base &&& 7) ||| index ||| scale

/-- A 32-bit displacement stands in the place of the base when that is EBP and the mode of the
ModR/M byte is 0. -/
def replacesBase (sib : Sib) (modRm : ModRm) : Bool :=
  sib.base == Register.basePointer && modRm.mode == 0

end Sib

end I386
