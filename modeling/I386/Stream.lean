import I386.DecodeError
import I386.LittleEndian

/-!
Contract: a stream of instruction bytes mapped into the 32-bit address space, read at a cursor.

Owns:
- the mapping: `bytes` stand at `base` and the addresses after it, past the end of the address
  space and on from zero if they reach it;
- the cursor, which every fetched byte moves on by one and which a failed fetch leaves at the
  address that could not be read;
- fetching little-endian values of one, two and four bytes;
- the mapped bytes between two addresses.

Does not own: what the bytes mean.
-/

namespace I386

/-- Bytes mapped at `base`, with the address of the next byte to fetch. -/
structure Stream where
  bytes : Array UInt8
  base : UInt32
  cursor : UInt32
deriving DecidableEq, Repr

namespace Stream

/-- The bytes mapped at an address, with the cursor on the first of them. -/
def mapped (bytes : Array UInt8) (base : UInt32) : Stream :=
  ⟨bytes, base, base⟩

/-- The position in the mapping that an address would have, counted on from the base. -/
def offset (stream : Stream) (address : UInt32) : Nat :=
  (address - stream.base).toNat

/-- The byte mapped at an address. -/
def byteAt? (stream : Stream) (address : UInt32) : Option UInt8 :=
  stream.bytes[stream.offset address]?

/-- No byte is mapped at the cursor. -/
def atEnd (stream : Stream) : Bool :=
  (stream.byteAt? stream.cursor).isNone

/-- The stream with its cursor elsewhere. -/
def seek (stream : Stream) (address : UInt32) : Stream :=
  { stream with cursor := address }

/-- The mapped bytes from `start` up to `stop`, both counted on from the base and cut at the end
of the mapping. -/
def slice (stream : Stream) (start stop : UInt32) : Array UInt8 :=
  let first := min (stream.offset start) stream.bytes.size
  let last := max first (min (stream.offset stop) stream.bytes.size)
  stream.bytes.extract first last

/-- The byte at the cursor, which stays where it is. -/
def peekByte : EStateM Fault Stream UInt8 := fun stream =>
  match stream.byteAt? stream.cursor with
  | some byte => .ok byte stream
  | none => .error (.decode (.readOutOfBounds stream.cursor)) stream

/-- The byte at the cursor, which moves on. -/
def fetchByte : EStateM Fault Stream UInt8 := fun stream =>
  match stream.byteAt? stream.cursor with
  | some byte => .ok byte (stream.seek (stream.cursor + 1))
  | none => .error (.decode (.readOutOfBounds stream.cursor)) stream

/-- The next `count` bytes, one at a time. -/
def fetchBytes : Nat → EStateM Fault Stream (List UInt8)
  | 0 => pure []
  | count + 1 => do
      let byte ← fetchByte
      let rest ← fetchBytes count
      return byte :: rest

/-- The next little-endian value of `width` bytes. The width is checked before anything is
fetched. -/
def fetch (width : UInt8) : EStateM Fault Stream UInt32 :=
  if width = 1 ∨ width = 2 ∨ width = 4 then do
    let bytes ← fetchBytes width.toNat
    return LittleEndian.ofBytes bytes
  else
    throw (.violation (.fetchWidth width))

end Stream

end I386
