import I386.Decoder
import I386.Proofs.Mapping

/-!
Contract: what the actions on a decoding pass do when nothing stands in their way.

Owns:
- the transfers a machine has recorded, as a list that grows at its end;
- the contents of registers and memory at valid widths;
- the elementary changes of a pass: bytes skipped, transfers recorded, operand slots updated;
- the outcome of each staging action in these terms;
- what an action leaves, whether it succeeds or not, and what writing back leaves.

Does not own: which actions a pattern consists of.
-/

namespace I386

/-! ## Recorded transfers -/

namespace Machine

/-- The machine after recording transfers, if recording is on. -/
def recordAll (machine : Machine) (ops : List MicroOp) : Machine :=
  { machine with trace := machine.trace.map (· ++ ops.toArray) }

@[simp] theorem registers_recordAll (machine : Machine) (ops : List MicroOp) :
    (machine.recordAll ops).registers = machine.registers := rfl

@[simp] theorem memory_recordAll (machine : Machine) (ops : List MicroOp) :
    (machine.recordAll ops).memory = machine.memory := rfl

@[simp] theorem recordAll_nil (machine : Machine) : machine.recordAll [] = machine := by
  cases machine with
  | mk registers memory trace => cases trace <;> simp [recordAll]

@[simp] theorem recordAll_recordAll (machine : Machine) (first second : List MicroOp) :
    (machine.recordAll first).recordAll second = machine.recordAll (first ++ second) := by
  cases machine with
  | mk registers memory trace => cases trace <;> simp [recordAll]

theorem record_eq_recordAll (machine : Machine) (op : MicroOp) :
    machine.record op = machine.recordAll [op] := by
  cases machine with
  | mk registers memory trace => cases trace <;> simp [record, recordAll]

end Machine

/-! ## Contents at valid widths -/

/-- The contents of a register, which a valid width always has. -/
def Registers.contents (registers : Registers) (number width : UInt8) : UInt32 :=
  (registers.read number width).toOption.getD 0

/-- The contents of memory at an address, which a valid width always has. -/
def Memory.contents (memory : Memory) (address : UInt32) (width : UInt8) : UInt32 :=
  (memory.read address width).toOption.getD 0

theorem Registers.read_ok_iff {registers : Registers} {number width : UInt8} {value : UInt32} :
    registers.read number width = .ok value ↔
      ValidWidth width ∧ value = registers.contents number width := by
  constructor
  · intro held
    refine ⟨?_, by rw [contents, held]; rfl⟩
    by_cases valid : ValidWidth width
    · exact valid
    · unfold ValidWidth at valid
      simp only [not_or] at valid
      simp [read, valid] at held
  · intro given
    rcases given with ⟨valid, rfl⟩
    unfold contents
    rcases valid with rfl | rfl | rfl
    · by_cases high : isHighByte number <;> simp [read, high, Except.toOption]
    · simp [read, Except.toOption]
    · simp [read, Except.toOption]

theorem Memory.read_ok_iff {memory : Memory} {address : UInt32} {width : UInt8}
    {value : UInt32} :
    memory.read address width = .ok value ↔
      ValidWidth width ∧ value = memory.contents address width := by
  constructor
  · intro held
    refine ⟨?_, by rw [contents, held]; rfl⟩
    by_cases valid : ValidWidth width
    · exact valid
    · unfold ValidWidth at valid
      simp only [not_or] at valid
      simp [read, widthMask, valid, bind, Except.bind] at held
  · intro given
    rcases given with ⟨valid, rfl⟩
    rcases valid with rfl | rfl | rfl <;> rfl

/-- At any other width there are no contents, whatever the registers hold. -/
theorem Registers.read_of_invalid {registers : Registers} {number width : UInt8}
    (invalid : ¬ValidWidth width) :
    registers.read number width = .error (.registerWidth width) := by
  unfold ValidWidth at invalid
  simp only [not_or] at invalid
  simp [read, invalid]

theorem Memory.read_of_invalid {memory : Memory} {address : UInt32} {width : UInt8}
    (invalid : ¬ValidWidth width) : memory.read address width = .error (.operandWidth width) := by
  unfold ValidWidth at invalid
  simp only [not_or] at invalid
  simp [read, widthMask, invalid, bind, Except.bind]

/-! ## Operand slots -/

namespace Decoder

theorem slot_setSlot (decoder : Decoder) (changed slot : Slot) (operand : Operand) :
    (decoder.setSlot changed operand).slot slot =
      if slot = changed then operand else decoder.slot slot := by
  cases changed <;> cases slot <;> rfl

/-- Every slot has a width that operands can have. -/
def Sized (decoder : Decoder) : Prop :=
  ∀ slot, ValidWidth (decoder.slot slot).width

end Decoder

namespace Pass

/-- A pass at the beginning of bytes mapped at `0x1000`, on a small machine that records its
transfers and has registers with the given contents. -/
def ofBytes (bytes : Array UInt8) (registers : List UInt32) : Pass where
  stream := .mapped bytes 0x1000
  machine := ⟨.ofList registers, .zero 0x100, some #[]⟩
  decoder := (Decoder.ofSize .bits32).startDefault 0 4

/-! ## Changes of a pass -/

/-- The pass with its cursor moved on by a number of bytes. -/
def skip (pass : Pass) (count : Nat) : Pass :=
  { pass with stream := pass.stream.skip count }

@[simp] theorem skip_zero (pass : Pass) : pass.skip 0 = pass := by
  simp [skip]

@[simp] theorem skip_skip (pass : Pass) (first second : Nat) :
    (pass.skip first).skip second = pass.skip (first + second) := by
  simp [skip]

def recordAll (pass : Pass) (ops : List MicroOp) : Pass :=
  { pass with machine := pass.machine.recordAll ops }

def update (pass : Pass) (slot : Slot) (change : Operand → Operand) : Pass :=
  { pass with decoder := pass.decoder.setSlot slot (change (pass.decoder.slot slot)) }

@[simp] theorem decoder_skip (pass : Pass) (count : Nat) :
    (pass.skip count).decoder = pass.decoder := rfl

@[simp] theorem decoder_recordAll (pass : Pass) (ops : List MicroOp) :
    (pass.recordAll ops).decoder = pass.decoder := rfl

@[simp] theorem stream_update (pass : Pass) (slot : Slot) (change : Operand → Operand) :
    (pass.update slot change).stream = pass.stream := rfl

@[simp] theorem machine_update (pass : Pass) (slot : Slot) (change : Operand → Operand) :
    (pass.update slot change).machine = pass.machine := rfl

theorem slot_update (pass : Pass) (changed slot : Slot) (change : Operand → Operand) :
    (pass.update changed change).decoder.slot slot =
      if slot = changed then change (pass.decoder.slot slot) else pass.decoder.slot slot := by
  unfold update
  rw [Decoder.slot_setSlot]
  by_cases same : slot = changed
  · rw [if_pos same, if_pos same, same]
  · rw [if_neg same, if_neg same]

/-! ## Elementary actions -/

theorem fetchByte_ok_iff {pass after : Pass} {byte : UInt8} :
    fetchByte pass = .ok byte after ↔
      pass.stream.byteAt? pass.stream.cursor = some byte ∧ after = pass.skip 1 := by
  unfold fetchByte onStream
  cases fetched : Stream.fetchByte pass.stream with
  | ok found stream =>
      obtain ⟨mapped, rfl⟩ := Stream.fetchByte_ok_iff.mp fetched
      simp only [EStateM.Result.ok.injEq, mapped, Option.some.injEq, eq_comm (a := after), skip]
  | error fault stream =>
      simp only [reduceCtorEq, false_iff, not_and]
      intro mapped
      rw [Stream.fetchByte_ok_iff.mpr ⟨mapped, rfl⟩] at fetched
      cases fetched

theorem fetchByte_eq {pass : Pass} {byte : UInt8} {rest : List UInt8}
    (holds : pass.stream.Holds (byte :: rest)) : fetchByte pass = .ok byte (pass.skip 1) :=
  fetchByte_ok_iff.mpr ⟨(Stream.holds_cons.mp holds).1, rfl⟩

theorem peekByte_ok_iff {pass after : Pass} {byte : UInt8} :
    peekByte pass = .ok byte after ↔
      pass.stream.byteAt? pass.stream.cursor = some byte ∧ after = pass := by
  unfold peekByte onStream
  cases peeked : Stream.peekByte pass.stream with
  | ok found stream =>
      obtain ⟨mapped, rfl⟩ := Stream.peekByte_ok_iff.mp peeked
      simp only [EStateM.Result.ok.injEq, mapped, Option.some.injEq, eq_comm (a := after)]
  | error fault stream =>
      simp only [reduceCtorEq, false_iff, not_and]
      intro mapped
      rw [Stream.peekByte_ok_iff.mpr ⟨mapped, rfl⟩] at peeked
      cases peeked

theorem fetchByte_of_unmapped (pass : Pass)
    (unmapped : pass.stream.byteAt? pass.stream.cursor = none) :
    fetchByte pass = .error (.decode (.readOutOfBounds pass.stream.cursor)) pass := by
  unfold fetchByte onStream Stream.fetchByte
  rw [unmapped]

theorem peekByte_of_unmapped (pass : Pass)
    (unmapped : pass.stream.byteAt? pass.stream.cursor = none) :
    peekByte pass = .error (.decode (.readOutOfBounds pass.stream.cursor)) pass := by
  unfold peekByte onStream Stream.peekByte
  rw [unmapped]

theorem fetch_ok_iff {pass after : Pass} {width : UInt8} {value : UInt32} :
    fetch width pass = .ok value after ↔
      ValidWidth width ∧ ∃ bytes : List UInt8, bytes.length = width.toNat ∧
        pass.stream.Holds bytes ∧ value = LittleEndian.ofBytes bytes ∧
          after = pass.skip width.toNat := by
  unfold fetch onStream
  cases fetched : Stream.fetch width pass.stream with
  | ok found stream =>
      obtain ⟨valid, bytes, length, holds, rfl, rfl⟩ := Stream.fetch_ok_iff.mp fetched
      constructor
      · intro same
        obtain ⟨rfl, rfl⟩ := EStateM.Result.ok.inj same
        exact ⟨valid, bytes, length, holds, rfl, rfl⟩
      · intro given
        rcases given with ⟨-, others, otherLength, otherHolds, rfl, rfl⟩
        have again := Stream.fetch_ok_iff.mpr ⟨valid, others, otherLength, otherHolds, rfl, rfl⟩
        rw [fetched] at again
        rw [(EStateM.Result.ok.inj again).1]
        rfl
  | error fault stream =>
      simp only [reduceCtorEq, false_iff]
      intro given
      rcases given with ⟨valid, bytes, length, holds, -, -⟩
      rw [Stream.fetch_ok_iff.mpr ⟨valid, bytes, length, holds, rfl, rfl⟩] at fetched
      cases fetched

theorem fetch_eq {pass : Pass} {width : UInt8} {bytes : List UInt8} (valid : ValidWidth width)
    (length : bytes.length = width.toNat) (holds : pass.stream.Holds bytes) :
    fetch width pass = .ok (LittleEndian.ofBytes bytes) (pass.skip bytes.length) :=
  fetch_ok_iff.mpr ⟨valid, bytes, length, holds, rfl, by rw [length]⟩

theorem operand_ok_iff {pass after : Pass} {slot : Slot} {found : Operand} :
    operand slot pass = .ok found after ↔ found = pass.decoder.slot slot ∧ after = pass := by
  change EStateM.Result.ok _ _ = _ ↔ _
  rw [EStateM.Result.ok.injEq, eq_comm (b := found), eq_comm (b := after)]

theorem modifyOperand_eq (pass : Pass) (slot : Slot) (change : Operand → Operand) :
    modifyOperand slot change pass = .ok () (pass.update slot change) := rfl

theorem modifyOperand_ok_iff {pass after : Pass} {slot : Slot} {change : Operand → Operand}
    {result : Unit} :
    modifyOperand slot change pass = .ok result after ↔ after = pass.update slot change := by
  change EStateM.Result.ok _ _ = _ ↔ _
  rw [EStateM.Result.ok.injEq, eq_comm (b := after)]
  exact and_iff_right rfl

/-- The outcome of a load, which is recorded whether it brings a value or not. -/
def loaded (pass : Pass) (value : Except Violation UInt32) : EStateM.Result Fault Pass UInt32 :=
  match value with
  | .ok value => .ok value pass
  | .error violation => .error (.violation violation) pass

theorem loaded_ok_iff {pass after : Pass} {held : Except Violation UInt32} {value : UInt32} :
    pass.loaded held = .ok value after ↔ held = .ok value ∧ after = pass := by
  cases held with
  | ok found => simp only [loaded, EStateM.Result.ok.injEq, Except.ok.injEq, eq_comm (a := after)]
  | error violation => simp [loaded]

theorem transfer_loadImmediate (pass : Pass) (value : UInt32) :
    transfer (.loadImmediate value) pass =
      (pass.recordAll [.loadImmediate value]).loaded (.ok value) := by
  simp [transfer, Machine.perform, Machine.execute, Machine.record_eq_recordAll, recordAll, loaded]

theorem transfer_loadRegister (pass : Pass) (number width : UInt8) :
    transfer (.loadRegister number width) pass =
      (pass.recordAll [.loadRegister number width]).loaded
        (pass.machine.registers.read number width) := by
  cases held : pass.machine.registers.read number width <;>
    simp [transfer, Machine.perform, Machine.execute, Machine.record_eq_recordAll, recordAll,
      loaded, held, bind, Except.bind, pure, Except.pure]

theorem transfer_loadMemory (pass : Pass) (address : UInt32) (width : UInt8) :
    transfer (.loadMemory address width) pass =
      (pass.recordAll [.loadMemory address width]).loaded
        (pass.machine.memory.read address width) := by
  cases held : pass.machine.memory.read address width <;>
    simp [transfer, Machine.perform, Machine.execute, Machine.record_eq_recordAll, recordAll,
      loaded, held, bind, Except.bind, pure, Except.pure]

theorem transfer_loadRegister_ok_iff {pass after : Pass} {number width : UInt8}
    {value : UInt32} :
    transfer (.loadRegister number width) pass = .ok value after ↔
      ValidWidth width ∧ value = pass.machine.registers.contents number width ∧
        after = pass.recordAll [.loadRegister number width] := by
  rw [transfer_loadRegister, loaded_ok_iff, Registers.read_ok_iff, and_assoc]

theorem transfer_loadMemory_ok_iff {pass after : Pass} {address : UInt32} {width : UInt8}
    {value : UInt32} :
    transfer (.loadMemory address width) pass = .ok value after ↔
      ValidWidth width ∧ value = pass.machine.memory.contents address width ∧
        after = pass.recordAll [.loadMemory address width] := by
  rw [transfer_loadMemory, loaded_ok_iff, Memory.read_ok_iff, and_assoc]

/-! ## What is left -/

/-- The pass that an outcome leaves, be it a success or a failure. -/
def left {α : Type} : EStateM.Result Fault Pass α → Pass
  | .ok _ after => after
  | .error _ after => after

end Pass

/-- Writing back is a transfer whose value is dropped, or it is refused. -/
theorem Operand.left_writeBack (operand : Operand) (value : UInt32) (pass : Pass) :
    Pass.left (operand.writeBack value pass) = pass ∨
      ∃ op, Pass.left (operand.writeBack value pass) = Pass.left (Pass.transfer op pass) := by
  unfold writeBack
  cases operand.writeOp value with
  | error violation => exact .inl rfl
  | ok op =>
      refine .inr ⟨op, ?_⟩
      cases ran : Pass.transfer op pass with
      | ok held after => exact congrArg Pass.left (bind_of_ok ran)
      | error fault failed => exact congrArg Pass.left (bind_of_error ran)

end I386
