import I386.Register

/-!
Contract: the eight general registers and their narrower views.

Owns:
- the register file, initially zero;
- reading and writing a register at one, two or four bytes.

At two and four bytes a register number selects the low bytes of its own cell. At one byte,
numbers 0 to 3 select the lowest byte of their cell and numbers 4 to 7 the second byte of the
cell four places before. A write changes the selected bytes only. At any other width both
operations are violations.

Does not own: which instruction reads or writes what.
-/

namespace I386

/-- The contents of the eight general registers. -/
structure Registers where
  cells : Vector UInt32 8
deriving DecidableEq, Repr

namespace Registers

/-- All registers zero. -/
def zero : Registers :=
  ⟨Vector.replicate 8 0⟩

/-- The registers with the given contents, in order; those that are missing are zero, and
contents past the eighth are dropped. -/
def ofList (contents : List UInt32) : Registers :=
  ⟨Vector.ofFn fun position => contents.getD position.val 0⟩

/-- A one-byte register is the second byte of its cell. -/
def isHighByte (number : UInt8) : Bool :=
  4 ≤ (Register.position number).val

/-- The cell that holds a one-byte register. -/
def byteCell (number : UInt8) : Fin 8 :=
  ⟨number.toNat % 4, Nat.lt_of_lt_of_le (Nat.mod_lt _ (by decide)) (by decide)⟩

/-- The contents of a cell. -/
def cell (registers : Registers) (position : Fin 8) : UInt32 :=
  registers.cells[position]

/-- The contents of a register at a width in bytes. -/
def read (registers : Registers) (number width : UInt8) : Except Violation UInt32 :=
  if width = 1 then
    if isHighByte number then .ok ((registers.cell (byteCell number) >>> 8) &&& 0xFF)
    else .ok (registers.cell (byteCell number) &&& 0xFF)
  else if width = 2 then .ok (registers.cell (Register.position number) &&& 0xFFFF)
  else if width = 4 then .ok (registers.cell (Register.position number))
  else .error (.registerWidth width)

/-- The registers after changing one cell. -/
def modifyCell (registers : Registers) (position : Fin 8) (change : UInt32 → UInt32) :
    Registers :=
  ⟨registers.cells.set position (change (registers.cell position))⟩

/-- The registers after writing the low `width` bytes of a value to one of them. -/
def write (registers : Registers) (number width : UInt8) (value : UInt32) :
    Except Violation Registers :=
  if width = 1 then
    if isHighByte number then
      let placed := (value &&& 0xFF) <<< 8
      .ok (registers.modifyCell (byteCell number) fun held => (held &&& 0xFFFF00FF) ||| placed)
    else
      .ok (registers.modifyCell (byteCell number) fun held =>
        (held &&& 0xFFFFFF00) ||| (value &&& 0xFF))
  else if width = 2 then
    .ok (registers.modifyCell (Register.position number) fun held =>
      (held &&& 0xFFFF0000) ||| (value &&& 0xFFFF))
  else if width = 4 then
    .ok (registers.modifyCell (Register.position number) fun _ => value)
  else .error (.registerWidth width)

end Registers

end I386
