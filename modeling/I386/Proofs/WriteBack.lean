import I386.Proofs.MemoryReads
import I386.Proofs.RegisterBytes

/-!
Contract: writing a staged value to a destination.

Owns:
- the immediates that instructions have as source, which fit in the width of the destination;
- what writing a value that fits does to a pass;
- the bytes that it leaves alone.

Main statement: writing the immediate of an instruction to its destination, be it a register or in
memory, makes it read as that immediate and changes no other byte.

Does not own: what an instruction computes.
-/

namespace I386

/-! ## Immediates -/

namespace Role

/-- The operand of a role is an immediate. -/
def isImmediate : Role → Bool
  | immediate => true
  | byteImmediate => true
  | signedImmediate => true
  | signedByte => true
  | one => true
  | _ => false

/-- The operand of a role has the width of its slot. -/
def keepsWidth : Role → Bool
  | cl => false
  | dx => false
  | byteImmediate => false
  | signedByte => false
  | _ => true

section Filled

variable {role : Role} {fields : OperandBytes} {registers : Registers} {memory : Memory}
  {opcode width dest : UInt8}

theorem isImmediate_of_kind
    (isKind : (role.filled fields registers memory opcode width dest).kind = .immediate) :
    role.isImmediate = true := by
  obtain ⟨addressing, immediate⟩ := fields
  cases role with
  | rm load =>
      cases addressing with
      | none => cases isKind
      | some rm =>
          simp only [filled, Option.elim, Operand.withRm] at isKind
          split at isKind <;> cases isKind
  | field load => cases addressing <;> cases isKind
  | immediate => rfl
  | byteImmediate => rfl
  | signedImmediate => rfl
  | signedByte => rfl
  | one => rfl
  | _ => cases isKind

theorem width_filled (keeps : role.keepsWidth = true) :
    (role.filled fields registers memory opcode width dest).width = width := by
  obtain ⟨addressing, immediate⟩ := fields
  cases role with
  | rm load =>
      cases addressing with
      | none => rfl
      | some rm => exact Operand.width_withRm ..
  | field load => cases addressing <;> rfl
  | cl => cases keeps
  | dx => cases keeps
  | byteImmediate => cases keeps
  | signedByte => cases keeps
  | _ => rfl

end Filled

end Role

namespace Selection

variable {selection : Selection} (regular : selection.Regular)

include regular

/-- Where the source is an immediate, the destination has the width of its slot. -/
theorem keepsWidth_dest (source : (selection.role .src).isImmediate = true) :
    (selection.role .dest).keepsWidth = true := by
  unfold role at source ⊢
  rcases regular.extra with plain | ⟨added, rm⟩
  · rw [plain] at source ⊢
    revert source
    generalize selection.form.shape = shape
    cases shape <;> decide
  · rw [added, rm]
    rfl

/-- An immediate of a whole operand has as many bytes as the destination is wide. -/
theorem length_of_immediate (isRole : selection.role .src = .immediate) (size : OperandSize) :
    selection.immediateLength size = (selection.widths size .dest).toNat := by
  unfold role at isRole
  unfold immediateLength
  have width : selection.widths size .dest = selection.form.width.bytes size := rfl
  rcases regular.extra with plain | ⟨added, rm⟩
  · rw [plain] at isRole ⊢
    cases shape : selection.form.shape <;>
      simp_all [Shape.roles, Roles.slot, Shape.immediateLength]
  · rw [added, rm, width]
    exact Nat.zero_add _

/-- A sign-extended byte goes to a destination of two or four bytes. -/
theorem width_of_signedByte (isRole : selection.role .src = .signedByte) (size : OperandSize) :
    selection.widths size .dest = 2 ∨ selection.widths size .dest = 4 := by
  have width : selection.widths size .dest = selection.form.width.bytes size := rfl
  obtain ⟨-, -, full⟩ := regular.form
  unfold role at isRole
  have isFull : selection.form.width = .full := by
    apply full
    rcases regular.extra with plain | ⟨added, rm⟩
    · rw [plain] at isRole
      cases shape : selection.form.shape <;> simp_all [Shape.roles, Roles.slot]
    · rw [added, rm] at isRole
      cases isRole
  rw [width, isFull]
  cases size
  · exact .inl rfl
  · exact .inr rfl

/-- An immediate that is a source fits in the width of the destination. -/
theorem value_lt {size : OperandSize} {operands : OperandBytes}
    (takes : selection.Takes size operands) (source : (selection.role .src).isImmediate = true)
    (registers : Registers) (memory : Memory) (opcode : UInt8) :
    ((selection.role .src).filled operands registers memory opcode (selection.widths size .src)
      (selection.widths size .dest)).value.toNat < 256 ^ (selection.widths size .dest).toNat := by
  have valid := selection.validWidth_widths size .dest
  have word : (LittleEndian.ofBytes operands.immediate).toNat <
      256 ^ operands.immediate.length := by
    rw [LittleEndian.toNat_ofBytes _ (length_immediate_le regular takes)]
    exact LittleEndian.number_lt _
  have least : 256 ≤ 256 ^ (selection.widths size .dest).toNat := by
    rcases valid with width | width | width <;> rw [width] <;> decide
  rw [takes.immediate] at word
  cases isRole : selection.role .src with
  | immediate =>
      rw [length_of_immediate regular isRole] at word
      exact word
  | byteImmediate =>
      rw [length_of_role regular (.inr isRole)] at word
      exact Nat.lt_of_lt_of_le word least
  | signedImmediate =>
      obtain ⟨isDest, -⟩ := signed_of_role regular isRole
      cases isDest
  | signedByte =>
      rcases width_of_signedByte regular isRole size with two | four
      · rw [two]
        simp only [Role.filled, Operand.clippedTo, if_true]
        rw [toNat_and_mask 16 rfl]
        exact Nat.mod_lt _ (by decide)
      · rw [four]
        exact UInt32.toNat_lt _
  | one =>
      have small : (1 : UInt32).toNat < 256 := by decide
      exact Nat.lt_of_lt_of_le small least
  | _ =>
      rw [isRole] at source
      cases source

end Selection

/-! ## Writing back -/

namespace Pass

/-- What writing a value to an operand does to the pass: the operand reads as that value, the store
is recorded, and nothing else has changed. -/
structure WritesBack (operand : Operand) (value : UInt32) (before after : Pass) : Prop where
  stream : after.stream = before.stream
  decoder : after.decoder = before.decoder
  size : after.machine.memory.size = before.machine.memory.size
  recorded : ∀ op, operand.writeOp value = .ok op →
    after.machine.trace = before.machine.trace.map (·.push op)
  register : operand.kind = .register →
    after.machine.registers.read operand.number operand.width = .ok value
  memory : operand.kind = .memory →
    after.machine.memory.read operand.address operand.width = .ok value
  /-- Outside the lanes of the operand the register file is as before. -/
  lanes : ∀ lane : Nat,
    (operand.kind = .register → lane < Registers.firstLane operand.number operand.width ∨
      Registers.firstLane operand.number operand.width + operand.width.toNat ≤ lane) →
    after.machine.registers.byteAt lane = before.machine.registers.byteAt lane
  /-- At an index that no address of the operand selects, memory is as before. -/
  bytes : ∀ index : Nat,
    (operand.kind = .memory → ∀ place < operand.width.toNat,
      before.machine.memory.index (operand.address + UInt32.ofNat place) ≠ index) →
    after.machine.memory.byteAt index = before.machine.memory.byteAt index

theorem writeBack_of_execute {operand : Operand} {value result : UInt32} {pass : Pass}
    {op : MicroOp} {machine : Machine} (isOp : operand.writeOp value = .ok op)
    (ran : (pass.machine.record op).execute op = .ok (result, machine)) :
    operand.writeBack value pass = .ok () { pass with machine } := by
  have transferred : transfer op pass = .ok result { pass with machine } := by
    simp only [transfer, Machine.perform, ran]
  unfold Operand.writeBack
  rw [isOp]
  exact bind_of_ok transferred

/-- Writing a value that fits in the width of a register or of memory succeeds. -/
theorem exists_writeBack {pass : Pass} {operand : Operand} {value : UInt32} {exponent : Nat}
    (size : pass.machine.memory.size = 2 ^ exponent) (roomy : 4 ≤ pass.machine.memory.size)
    (valid : ValidWidth operand.width)
    (storage : operand.kind = .register ∨ operand.kind = .memory)
    (fits : value.toNat < 256 ^ operand.width.toNat) :
    ∃ after, operand.writeBack value pass = .ok () after ∧ WritesBack operand value pass after := by
  rcases storage with isRegister | inMemory
  · obtain ⟨registers, isWritten, lanes⟩ :=
      Registers.exists_write valid pass.machine.registers operand.number value
    let op := MicroOp.storeRegister operand.number operand.width value
    have isOp : operand.writeOp value = .ok op := by simp [Operand.writeOp, isRegister, op]
    have ran : (pass.machine.record op).execute op =
        .ok (value, { pass.machine.record op with registers }) := by
      simp [op, Machine.execute, Machine.record, isWritten, bind, Except.bind, pure, Except.pure]
    refine ⟨_, writeBack_of_execute isOp ran, ?_⟩
    constructor
    · rfl
    · rfl
    · rfl
    · intro found isFound
      cases isOp.symm.trans isFound
      rfl
    · intro _
      exact Registers.read_of_write valid _ _ fits isWritten
    · simp [isRegister]
    · intro lane outside
      refine (lanes lane).trans (if_neg ?_)
      have apart := outside isRegister
      omega
    · exact fun index _ => rfl
  · let written :=
      pass.machine.memory.storeBytes operand.address (LittleEndian.bytes operand.width.toNat value)
    have isWritten : pass.machine.memory.write operand.address operand.width value = .ok written :=
      Memory.write_eq _ _ valid fits
    let op := MicroOp.storeMemory operand.address operand.width value
    have isOp : operand.writeOp value = .ok op := by simp [Operand.writeOp, inMemory, op]
    have ran : (pass.machine.record op).execute op =
        .ok (value, { pass.machine.record op with memory := written }) := by
      simp [op, Machine.execute, Machine.record, isWritten, bind, Except.bind, pure, Except.pure]
    refine ⟨_, writeBack_of_execute isOp ran, ?_⟩
    constructor
    · rfl
    · rfl
    · exact Memory.size_storeBytes _ _ _
    · intro found isFound
      cases isOp.symm.trans isFound
      rfl
    · simp [inMemory]
    · intro _
      exact Memory.read_of_write _ size valid roomy fits isWritten
    · exact fun lane _ => rfl
    · intro index outside
      apply Memory.byteAt_storeBytes_of_apart
      rw [LittleEndian.length_bytes]
      exact outside inMemory

/-- The immediate that is the source of a decoded instruction fits in its destination. -/
theorem source_fits {pass after : Pass} {instruction : Instruction}
    (ran : decode pass = .ok instruction after) (immediate : instruction.src.kind = .immediate) :
    ValidWidth instruction.dest.width ∧
      instruction.src.value.toNat < 256 ^ instruction.dest.width.toNat := by
  obtain ⟨encoding, selection, ⟨encodes, -⟩, rfl, -⟩ := decode_ok_iff.mp ran
  have regular := encodes.regular
  have dest := pass.operand_instruction encoding regular .dest
  have src := pass.operand_instruction encoding regular .src
  have isSource : (selection.role .src).isImmediate = true := by
    apply Role.isImmediate_of_kind
    rw [← src]
    exact immediate
  have width : ((pass.instruction encoding selection).operand .dest).width =
      selection.widths (encoding.operandSize pass.decoder.defaultSize) .dest := by
    rw [dest]
    exact Role.width_filled (Selection.keepsWidth_dest regular isSource)
  have fits := Selection.value_lt regular encodes.operands isSource pass.machine.registers
    pass.machine.memory encoding.opcode.found.byte
  have valid := selection.validWidth_widths (encoding.operandSize pass.decoder.defaultSize) .dest
  rw [← width] at valid
  rw [← src, ← width] at fits
  exact ⟨valid, fits⟩

/-- Writing the immediate of a decoded instruction to its destination, a register or memory,
succeeds: the immediate fits, the destination reads as it, and every other byte of the registers
and of memory is as before. -/
theorem decode_write_back {pass after : Pass} {instruction : Instruction} {requested : Nat}
    (size : pass.machine.memory.size = Memory.roundedSize requested)
    (roomy : 4 ≤ pass.machine.memory.size) (ran : decode pass = .ok instruction after)
    (storage : instruction.dest.kind = .register ∨ instruction.dest.kind = .memory)
    (immediate : instruction.src.kind = .immediate) :
    instruction.src.value.toNat < 256 ^ instruction.dest.width.toNat ∧
      ∃ written, instruction.dest.writeBack instruction.src.value after = .ok () written ∧
        WritesBack instruction.dest instruction.src.value after written := by
  obtain ⟨exponent, power⟩ := Memory.exists_roundedSize requested
  obtain ⟨valid, fits⟩ := source_fits ran immediate
  have memory : after.machine.memory = pass.machine.memory := by
    rw [machine_of_decode_ok ran, Machine.memory_recordAll]
  have afterSize : after.machine.memory.size = 2 ^ exponent := by rw [memory, size, power]
  have afterRoomy : 4 ≤ after.machine.memory.size := by rwa [memory]
  exact ⟨fits, exists_writeBack afterSize afterRoomy valid storage fits⟩

/-- `mov ah, 7Fh` puts its immediate into the second byte of the register file and leaves the
first one, which is AL, as it was. -/
theorem decode_write_back_ah :
    let pass := ofBytes #[0xB4, 0x7F] [0x11223344]
    pass.machine.memory.size = Memory.roundedSize 0x100 ∧ 4 ≤ pass.machine.memory.size ∧
      ∃ (instruction : Instruction) (after written : Pass),
        decode pass = .ok instruction after ∧ instruction.dest.kind = .register ∧
          instruction.src.kind = .immediate ∧
          instruction.dest.writeBack instruction.src.value after = .ok () written ∧
          written.machine.registers.read 4 1 = .ok 0x7F ∧
          written.machine.registers.byteAt 0 = 0x44 := by
  intro pass
  let encoding : Encoding := ⟨[], .oneByte 0xB4, none, [0x7F]⟩
  let selection : Selection := ⟨.mov, ⟨.storeImmToOpcodeReg, .byte, none⟩, .implied⟩
  have row : OpcodeMap.oneByteRow 0xB4 = .instruction .mov ⟨.storeImmToOpcodeReg, .byte, none⟩ := by
    decide +kernel
  have encodes : encoding.Encodes pass.decoder.defaultSize selection := by
    have proper : encoding.opcode.Proper := ⟨by decide, by decide, by decide⟩
    refine ⟨by simp [encoding], proper, ?_, ?_, ⟨rfl, ?_, rfl⟩, by decide⟩
    · show (OpcodeMap.oneByteRow 0xB4).selection? _ = _
      rw [row]
      rfl
    · intro _ near
      cases near.1
    · intro atMemory
      cases atMemory
  have stands : pass.stream.Holds encoding.bytes :=
    ⟨by decide +kernel, by decide +kernel, trivial⟩
  have ran := decode_of_encodes encodes stands
  have size : pass.machine.memory.size = Memory.roundedSize 0x100 := by decide +kernel
  have roomy : 4 ≤ pass.machine.memory.size := by decide +kernel
  have isRegister : (pass.instruction encoding selection).dest.kind = .register := by
    decide +kernel
  have immediate : (pass.instruction encoding selection).src.kind = .immediate := by
    decide +kernel
  have number : (pass.instruction encoding selection).dest.number = 4 := by decide +kernel
  have width : (pass.instruction encoding selection).dest.width = 1 := by decide +kernel
  have value : (pass.instruction encoding selection).src.value = 0x7F := by decide +kernel
  obtain ⟨-, written, wrote, writesBack⟩ :=
    decode_write_back size roomy ran (.inl isRegister) immediate
  have readBack := writesBack.register isRegister
  have kept := writesBack.lanes 0 fun _ => by
    rw [number, width]
    decide
  have held : (pass.staged encoding selection).finished.machine.registers.byteAt 0 = 0x44 := by
    decide +kernel
  rw [number, width, value] at readBack
  exact ⟨size, roomy, _, _, written, ran, isRegister, immediate, wrote, readBack, kept.trans held⟩

end Pass

end I386
