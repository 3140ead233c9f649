import I386.Decoder.State
import I386.Machine
import I386.Stream

/-!
Contract: decoding as a computation on a stream, a machine and a decoder.

Owns:
- the state of a decoding pass, and computations on it that can fail;
- the elementary actions from which all decoding is put together: fetching and peeking at the
  stream, transfers on the machine, and reading and changing the decoder.

A computation that fails leaves the state as far as it got: bytes that were fetched stay fetched,
transfers that were made stay made.

Does not own: any rule of the instruction encoding.
-/

namespace I386

/-- The state of a decoding pass. -/
structure Pass where
  stream : Stream
  machine : Machine
  decoder : Decoder

/-- A computation on a decoding pass. -/
abbrev PassM := EStateM Fault Pass

namespace Pass

/-- Run a computation on the stream. -/
def onStream {α : Type} (action : EStateM Fault Stream α) : PassM α := fun pass =>
  match action pass.stream with
  | .ok result stream => .ok result { pass with stream }
  | .error fault stream => .error fault { pass with stream }

/-- The address of the next byte. -/
def cursor : PassM UInt32 := fun pass =>
  .ok pass.stream.cursor pass

/-- Fetch a byte. -/
def fetchByte : PassM UInt8 :=
  onStream Stream.fetchByte

/-- Look at the next byte. -/
def peekByte : PassM UInt8 :=
  onStream Stream.peekByte

/-- Fetch a little-endian value. -/
def fetch (width : UInt8) : PassM UInt32 :=
  onStream (Stream.fetch width)

/-- Perform a transfer on the machine; the result is the value of the staging cell after it. -/
def transfer (op : MicroOp) : PassM UInt32 := fun pass =>
  match Machine.perform op pass.machine with
  | .ok value machine => .ok value { pass with machine }
  | .error violation machine => .error (.violation violation) { pass with machine }

/-- The decoder. -/
def currentDecoder : PassM Decoder := fun pass =>
  .ok pass.decoder pass

/-- Change the decoder. -/
def modifyDecoder (change : Decoder → Decoder) : PassM Unit := fun pass =>
  .ok () { pass with decoder := change pass.decoder }

/-- The operand in a slot. -/
def operand (slot : Slot) : PassM Operand := fun pass =>
  .ok (pass.decoder.slot slot) pass

/-- Change the operand in a slot. -/
def modifyOperand (slot : Slot) (change : Operand → Operand) : PassM Unit :=
  modifyDecoder fun decoder => decoder.setSlot slot (change (decoder.slot slot))

/-- Change the context. -/
def modifyContext (change : Context → Context) : PassM Unit :=
  modifyDecoder fun decoder => { decoder with context := change decoder.context }

/-- Fail with an error in the stream. -/
def refuse {α : Type} (error : DecodeError) : PassM α :=
  throw (.decode error)

/-- Fail with a violation. -/
def violate {α : Type} (violation : Violation) : PassM α :=
  throw (.violation violation)

end Pass

end I386
