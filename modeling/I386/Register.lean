import I386.Violation

/-!
Contract: the names of the general registers.

Owns:
- the numbers that encodings use for registers with a fixed role;
- the name of a register number at a width in bytes.

Only the low three bits of a register number count. At one byte, numbers 4 to 7 name the second
lowest bytes of the first four registers.

Does not own: what registers hold.
-/

namespace I386.Register

/-- The number of AL, AX and EAX. -/
def accumulator : UInt8 := 0

/-- The number of CL, which counts shifts and rotates. -/
def cl : UInt8 := 1

/-- The number of DX, which selects a device in input and output. -/
def dx : UInt8 := 2

/-- The number of ESP, which as a SIB index means that there is no index. -/
def stackPointer : UInt8 := 4

/-- The number of EBP, which as a base without displacement means that there is no base. -/
def basePointer : UInt8 := 5

/-- The position of a register number among the eight registers. -/
def position (number : UInt8) : Fin 8 :=
  ⟨number.toNat % 8, Nat.mod_lt _ (by decide)⟩

/-- The names of the one-byte registers. -/
def byteNames : Vector String 8 :=
  #v["al", "cl", "dl", "bl", "ah", "ch", "dh", "bh"]

/-- The names of the two-byte registers. -/
def wordNames : Vector String 8 :=
  #v["ax", "cx", "dx", "bx", "sp", "bp", "si", "di"]

/-- The names of the four-byte registers. -/
def dwordNames : Vector String 8 :=
  #v["eax", "ecx", "edx", "ebx", "esp", "ebp", "esi", "edi"]

/-- The name of a register number at a width in bytes. -/
def name (number width : UInt8) : Except Violation String :=
  if width = 1 then .ok byteNames[position number]
  else if width = 2 then .ok wordNames[position number]
  else if width = 4 then .ok dwordNames[position number]
  else .error (.registerWidth width)

end I386.Register
