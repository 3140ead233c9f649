import I386.Machine.Memory
import I386.Machine.MicroOp
import I386.Machine.Registers

/-!
Contract: a machine on which register transfers are carried out.

Owns:
- the state that transfers act on: registers, memory, and a record of the transfers made;
- performing a micro-operation, which first records it if recording is on and then carries it
  out;
- switching recording on and off, and taking what was recorded.

Does not own: which transfers an instruction makes.
-/

namespace I386

/-- Registers, memory and, while recording is on, the transfers made since they were last taken. -/
structure Machine where
  registers : Registers
  memory : Memory
  trace : Option (Array MicroOp)

namespace Machine

/-- A machine with zero registers and the given memory, not recording. -/
def ofMemory (memory : Memory) : Machine :=
  ⟨.zero, memory, none⟩

/-- A machine with zero registers and zero memory of at least the requested size. -/
def ofMemorySize (requested : Nat) : Machine :=
  ofMemory (.zero requested)

/-- Switch recording on or off; either way nothing recorded before is kept. -/
def setTrace (machine : Machine) (on : Bool) : Machine :=
  { machine with trace := if on then some #[] else none }

/-- The transfers recorded since they were last taken, oldest first. -/
def recorded (machine : Machine) : List MicroOp :=
  (machine.trace.getD #[]).toList

/-- Take the recorded transfers; recording stays as it was. -/
def takeTrace (machine : Machine) : List MicroOp × Machine :=
  (machine.recorded, { machine with trace := machine.trace.map fun _ => #[] })

/-- Record a transfer, if recording is on. -/
def record (machine : Machine) (op : MicroOp) : Machine :=
  { machine with trace := machine.trace.map (·.push op) }

/-- Store an image at consecutive addresses of memory. -/
def loadImage (machine : Machine) (address : UInt32) (image : List UInt8) : Machine :=
  { machine with memory := machine.memory.storeBytes address image }

/-- Carry out a transfer: the value it brings or carries, and the machine after it. -/
def execute (machine : Machine) : MicroOp → Except Violation (UInt32 × Machine)
  | .loadImmediate value => .ok (value, machine)
  | .loadRegister number width => do
      let value ← machine.registers.read number width
      return (value, machine)
  | .loadMemory address width => do
      let value ← machine.memory.read address width
      return (value, machine)
  | .storeRegister number width value => do
      let registers ← machine.registers.write number width value
      return (value, { machine with registers })
  | .storeMemory address width value => do
      let memory ← machine.memory.write address width value
      return (value, { machine with memory })

/-- Record a transfer, then carry it out. -/
def perform (op : MicroOp) : EStateM Violation Machine UInt32 := fun machine =>
  let machine := machine.record op
  match machine.execute op with
  | .ok (value, machine) => .ok value machine
  | .error violation => .error violation machine

end Machine

end I386
