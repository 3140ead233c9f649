/-!
Contract: the bytes that may stand before an opcode.

Owns:
- the ten accepted prefixes and the byte of each;
- sets of prefixes as bit sets, in which the escape to the two-byte opcode map has a bit too.

Does not own: how many prefixes an instruction may have.
-/

namespace I386

/-- What the bytes before an opcode say. The escape `0F` is no prefix by itself, but is kept with
them. -/
inductive Prefix where
  | segmentES
  | segmentCS
  | segmentSS
  | segmentDS
  | segmentFS
  | segmentGS
  | operandSize
  | lock
  | repne
  | rep
  | twoByte
deriving DecidableEq, Repr

namespace Prefix

/-- The prefix that a byte is. -/
def ofByte? (byte : UInt8) : Option Prefix :=
  if byte = 0x26 then some segmentES
  else if byte = 0x2E then some segmentCS
  else if byte = 0x36 then some segmentSS
  else if byte = 0x3E then some segmentDS
  else if byte = 0x64 then some segmentFS
  else if byte = 0x65 then some segmentGS
  else if byte = 0x66 then some operandSize
  else if byte = 0xF0 then some lock
  else if byte = 0xF2 then some repne
  else if byte = 0xF3 then some rep
  else none

/-- The bit that stands for a prefix in a set. -/
def bit : Prefix → UInt32
  | segmentES => 0x1
  | segmentCS => 0x2
  | segmentSS => 0x4
  | segmentDS => 0x8
  | segmentFS => 0x10
  | segmentGS => 0x20
  | operandSize => 0x40
  | lock => 0x80
  | repne => 0x100
  | rep => 0x200
  | twoByte => 0x800

end Prefix

/-- A set of prefixes: neither order nor repetition counts. -/
structure PrefixSet where
  bits : UInt32
deriving DecidableEq, Repr

namespace PrefixSet

/-- No prefix. -/
def empty : PrefixSet :=
  ⟨0⟩

/-- The set with one more prefix. -/
def insert (prefixes : PrefixSet) (member : Prefix) : PrefixSet :=
  ⟨prefixes.bits ||| member.bit⟩

/-- A prefix is in the set. -/
def contains (prefixes : PrefixSet) (member : Prefix) : Bool :=
  prefixes.bits &&& member.bit != 0

end PrefixSet

end I386
