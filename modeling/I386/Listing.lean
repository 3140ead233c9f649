import I386.Config
import I386.Decoder

/-!
Contract: listing the instructions of an image.

Owns:
- the linear sweep: from the load address on, each instruction where the one before it ends, until
  the image or the allowed number of instructions is used up;
- the entry of an instruction and the lines it is shown as.

The machine needs memory of the size that the settings ask for. An image must fit into that memory,
into which it is loaded at the address where it is mapped. The first instruction that cannot be
decoded ends the listing without a result.

Does not own: reading images and settings.
-/

namespace I386

/-- Why an image has no listing. -/
inductive ListingError where
  /-- The image has `size` bytes and memory only `capacity`. -/
  | imageTooLarge (size capacity : Nat)
  /-- The instruction at the address cannot be decoded. -/
  | decoding (address : UInt32) (error : DecodeError)
deriving DecidableEq, Repr

/-- The error, as shown to the user. -/
def ListingError.message : ListingError → String
  | .imageTooLarge size capacity =>
      "Program image of " ++ toString size ++ " bytes doesn't fit in " ++ toString capacity ++
        " bytes of memory"
  | .decoding address error =>
      "Decoding instruction at " ++ Text.hexPadded 8 address.toNat ++ ": " ++ error.message

/-- How listing an image stops: an error in the image, a size that no memory can have, or a
violation, which a sound opcode map rules out. -/
inductive ListingFault where
  | refused (error : ListingError)
  | impossibleMemory (requested : Nat)
  | violation (violation : Violation)
deriving DecidableEq, Repr

/-- What is shown of one instruction. -/
structure ListingEntry where
  address : UInt32
  bytes : List UInt8
  instruction : Instruction
  /-- The transfers that decoding it made, if they are recorded. -/
  microOps : List MicroOp
deriving DecidableEq, Repr

namespace ListingEntry

/-- Bytes as two-digit hexadecimal numbers, separated by spaces. -/
def bytesText (bytes : List UInt8) : String :=
  " ".intercalate (bytes.map fun byte => Text.hexPadded 2 byte.toNat)

/-- A text filled up with spaces to at least `width` characters. -/
def filled (width : Nat) (text : String) : String :=
  String.ofList (text.toList.rightpad width ' ')

/-- The line of an instruction: address, bytes in a column of 24 characters, text. -/
def line (entry : ListingEntry) : Except Violation String := do
  let text ← entry.instruction.text
  return Text.hexPadded 8 entry.address.toNat ++ "  " ++
    filled 24 (bytesText entry.bytes) ++ " " ++ text

/-- The line of a transfer, indented below its instruction. -/
def microOpLine (op : MicroOp) : Except Violation String := do
  let text ← op.text
  return "          " ++ text

/-- The lines of an entry: the instruction, then the transfers in order. -/
def lines (entry : ListingEntry) : Except Violation (List String) := do
  let line ← entry.line
  let microOps ← entry.microOps.mapM microOpLine
  return line :: microOps

end ListingEntry

namespace Listing

/-- The state in which the sweep over an image begins. -/
def start (config : Config) (image : Array UInt8) : Pass :=
  let machine := Machine.ofMemorySize config.memorySize
  let machine := machine.loadImage config.loadAddress image.toList
  { stream := .mapped image config.loadAddress
    machine := machine.setTrace config.traceMicroOps
    decoder := .ofSize config.operandSize }

/-- Decode the instruction at the cursor into an entry, taking the transfers it made. -/
def step (pass : Pass) : Except ListingFault (ListingEntry × Pass) :=
  let address := pass.stream.cursor
  match Pass.decode pass with
  | .error (.decode error) _ => .error (.refused (.decoding address error))
  | .error (.violation violation) _ => .error (.violation violation)
  | .ok instruction after =>
      let bytes := after.stream.slice address instruction.nextAddress
      let (microOps, machine) := after.machine.takeTrace
      .ok (⟨address, bytes.toList, instruction, microOps⟩, { after with machine })

/-- Sweep over the rest of the stream, at most `limit` instructions, adding to the entries so
far. -/
def sweep (entries : Array ListingEntry) : Nat → Pass → Except ListingFault (Array ListingEntry)
  | 0, _ => .ok entries
  | limit + 1, pass =>
      if pass.stream.atEnd then
        .ok entries
      else
        match step pass with
        | .ok (entry, after) => sweep (entries.push entry) limit after
        | .error fault => .error fault

/-- The number of instructions to list: as many as are asked for, else as many as the image has
bytes, since each instruction has at least one. -/
def limit (image : Array UInt8) (count : Option Nat) : Nat :=
  count.getD image.size

/-- The entries of an image, or of its first `count` instructions. -/
def entries (config : Config) (image : Array UInt8) (count : Option Nat) :
    Except ListingFault (List ListingEntry) :=
  let capacity := Memory.roundedSize config.memorySize
  if ¬ Memory.isPossible config.memorySize then
    .error (.impossibleMemory config.memorySize)
  else if image.size > capacity then
    .error (.refused (.imageTooLarge image.size capacity))
  else
    (sweep #[] (limit image count) (start config image)).map Array.toList

/-- The lines of entries, in order. -/
def render (entries : List ListingEntry) : Except Violation (List String) := do
  let blocks ← entries.mapM ListingEntry.lines
  return blocks.flatten

/-- The listing of an image, or of its first `count` instructions. -/
def lines (config : Config) (image : Array UInt8) (count : Option Nat) :
    Except ListingFault (List String) := do
  let entries ← entries config image count
  (render entries).mapError .violation

end Listing

end I386
