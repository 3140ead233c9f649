import Std.Data.ExtTreeMap
import I386.LittleEndian
import I386.Width

/-!
Contract: byte-addressed memory whose size is a power of two and in which addresses wrap.

Owns:
- memory as what it held at first and the bytes stored since;
- the sizes that memory can have: powers of two below a limit;
- the index of an address, which is the address modulo the size;
- storing a run of bytes, and reading and writing little-endian values of one, two and four
  bytes.

Consecutive addresses wrap at the end of the address space and indices at the end of memory, so
bytes of one run can land on each other; the later one stays.

Does not own: what memory a host has left.
-/

namespace I386

/-- Memory of `size` bytes: `initial` gives what every index held at first, `stored` the bytes
that have been stored since. -/
structure Memory where
  size : Nat
  initial : Nat → UInt8
  stored : Std.ExtTreeMap Nat UInt8

namespace Memory

/-- The least power of two that is at least `requested`, and at least one. -/
def roundedSize (requested : Nat) : Nat :=
  if requested ≤ 1 then 1 else Nat.pow 2 ((requested - 1).log2 + 1)

/-- Memory has fewer bytes than this, since distances within it are signed 64-bit numbers. -/
def sizeLimit : Nat := 0x8000000000000000

/-- There can be memory of at least the requested size. -/
def isPossible (requested : Nat) : Bool :=
  roundedSize requested < sizeLimit

/-- Memory of at least the requested size that holds what `initial` says. -/
def ofFn (requested : Nat) (initial : Nat → UInt8) : Memory :=
  ⟨roundedSize requested, initial, ∅⟩

/-- Memory of at least the requested size, all zero. -/
def zero (requested : Nat) : Memory :=
  ofFn requested fun _ => 0

/-- The byte that an index holds. -/
def byteAt (memory : Memory) (index : Nat) : UInt8 :=
  memory.stored.getD index (memory.initial index)

/-- The bits of an address that select a byte of memory. -/
def addressMask (memory : Memory) : UInt32 :=
  UInt32.ofNat (memory.size - 1)

/-- The index that an address selects. -/
def index (memory : Memory) (address : UInt32) : Nat :=
  (address &&& memory.addressMask).toNat

/-- The byte that an address selects. -/
def readByte (memory : Memory) (address : UInt32) : UInt8 :=
  memory.byteAt (memory.index address)

/-- Memory after storing one byte. -/
def storeByte (memory : Memory) (address : UInt32) (byte : UInt8) : Memory :=
  { memory with stored := memory.stored.insert (memory.index address) byte }

/-- Memory after storing bytes at consecutive addresses, in order. -/
def storeBytes (memory : Memory) (address : UInt32) : List UInt8 → Memory
  | [] => memory
  | byte :: rest => (memory.storeByte address byte).storeBytes (address + 1) rest

/-- The bytes at `count` consecutive addresses. -/
def readBytes (memory : Memory) (address : UInt32) : Nat → List UInt8
  | 0 => []
  | count + 1 => memory.readByte address :: memory.readBytes (address + 1) count

/-- The little-endian value of `width` bytes at an address. -/
def read (memory : Memory) (address : UInt32) (width : UInt8) : Except Violation UInt32 := do
  let mask ← widthMask width
  return LittleEndian.ofBytes (memory.readBytes address width.toNat) &&& mask

/-- Memory after writing the low `width` bytes of a value at an address. The width is checked
before anything is stored. -/
def write (memory : Memory) (address : UInt32) (width : UInt8) (value : UInt32) :
    Except Violation Memory := do
  let mask ← widthMask width
  return memory.storeBytes address (LittleEndian.bytes width.toNat (value &&& mask))

end Memory

end I386
