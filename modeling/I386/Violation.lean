/-!
Contract: broken contracts of the decoding machinery, kept apart from errors in what is decoded.

Owns:
- the requests that no correct caller makes: widths that name no register, operand or fetch, and
  writing to an operand that designates no storage;
- the text that names each.

Does not own: errors in an instruction stream; those are `DecodeError`.
-/

namespace I386

/-- A request that breaks the contract of the operation it was made to. -/
inductive Violation where
  /-- A register is one, two or four bytes wide. -/
  | registerWidth (width : UInt8)
  /-- An operand is one, two or four bytes wide. -/
  | operandWidth (width : UInt8)
  /-- One, two or four bytes are fetched at once. -/
  | fetchWidth (width : UInt8)
  /-- A signed immediate is one or four bytes wide. -/
  | signedImmediateWidth (width : UInt8)
  /-- A sign-extended byte needs a destination of two or four bytes. -/
  | destinationWidth (width : UInt8)
  /-- An empty operand slot designates no storage. -/
  | writeToNothing
  /-- An immediate designates no storage. -/
  | writeToImmediate
deriving DecidableEq, Repr

/-- The text that names a violation. -/
def Violation.message : Violation → String
  | .registerWidth width => "Invalid register width: " ++ toString width.toNat
  | .operandWidth width => "Invalid operand width: " ++ toString width.toNat
  | .fetchWidth width => "Invalid fetch width: " ++ toString width.toNat
  | .signedImmediateWidth width => "Invalid signed immediate width: " ++ toString width.toNat
  | .destinationWidth width => "Invalid destination width: " ++ toString width.toNat
  | .writeToNothing => "Invalid operand for write-back: None"
  | .writeToImmediate => "Invalid operand for write-back: Immediate"

end I386
