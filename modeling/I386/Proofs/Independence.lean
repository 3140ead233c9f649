import Mathlib.Data.List.Forall2
import I386.Proofs.BranchTarget
import I386.Proofs.Parallel

/-!
Contract: what of a machine counts for decoding.

Owns:
- what an operand, an instruction and an outcome say without what the machine supplied;
- decoding with two machines, up to the end of the operands and beyond;
- the texts of instructions that differ in a value staged from memory.

Main statement: decoding with another machine succeeds or fails alike and tells the same but for
addresses and values, and if the registers hold the same, but for values loaded from memory, which
the text does not show.

Does not own: what the addresses and values are.
-/

namespace I386

/-! ## Outlines -/

/-- The operand without what the machine supplies: addresses, and the values of registers and
memory. -/
def Operand.outline (operand : Operand) : Operand :=
  { operand with
    address := 0
    value := if operand.kind = .immediate then operand.value else 0 }

def Instruction.outline (instruction : Instruction) : Instruction :=
  { instruction with
    dest := instruction.dest.outline
    src := instruction.src.outline
    src2 := instruction.src2.outline }

theorem Instruction.outline_congr {instruction other : Instruction}
    (address : other.address = instruction.address) (size : other.size = instruction.size)
    (prefixes : other.prefixes = instruction.prefixes)
    (opcode : other.opcode = instruction.opcode)
    (mnemonic : other.mnemonic = instruction.mnemonic)
    (operandSize : other.operandSize = instruction.operandSize)
    (target : other.branchTarget = instruction.branchTarget)
    (operands : ∀ slot, (other.operand slot).outline = (instruction.operand slot).outline) :
    other.outline = instruction.outline := by
  have dest : other.dest.outline = instruction.dest.outline := operands .dest
  have src : other.src.outline = instruction.src.outline := operands .src
  have src2 : other.src2.outline = instruction.src2.outline := operands .src2
  simp only [outline, address, size, prefixes, opcode, mnemonic, operandSize, target, dest, src,
    src2]

namespace Pass

/-- What an outcome says without what the machine supplies, and where it leaves the cursor. -/
def outlined : EStateM.Result Fault Pass Instruction → Except Fault Instruction × Stream
  | .ok instruction after => (.ok instruction.outline, after.stream)
  | .error fault failed => (.error fault, failed.stream)

theorem outlined_retraced (trace : Option (Array MicroOp))
    (outcome : EStateM.Result Fault Pass Instruction) :
    outlined (mapPass (·.retraced trace) outcome) = outlined outcome := by
  cases outcome <;> rfl

end Pass

/-! ## Operands -/

/-- The operands are the same, or they are in memory and differ in a value that one of the
transfers loaded from there. -/
def Operand.SameButLoaded (ops : List MicroOp) (operand found : Operand) : Prop :=
  found = operand ∨
    operand.kind = .memory ∧ .loadMemory operand.address operand.width ∈ ops ∧
      found = { operand with value := found.value }

/-- The text of an operand in memory is its address. -/
theorem Operand.SameButLoaded.text {ops : List MicroOp} {operand found : Operand}
    (same : operand.SameButLoaded ops found) : found.text = operand.text := by
  rcases same with rfl | ⟨memory, -, found⟩
  · rfl
  · rw [found]
    simp only [Operand.text, memory]

section Operands

variable (operand : Operand) (registers others : Registers) (memory other : Memory)

-- Proved by `simp`: by `rfl` the kernel would work out what the registers and memories hold.
theorem Operand.outline_withRegister (number : UInt8) (load : Bool) :
    (operand.withRegister others number load).outline =
      (operand.withRegister registers number load).outline := by
  simp [outline, withRegister]

theorem Operand.outline_withMemory (address found : UInt32) (load : Bool) :
    (operand.withMemory other found load).outline =
      (operand.withMemory memory address load).outline := by
  simp [outline, withMemory]

/-- What is at the address of a memory operand decides its value and nothing else. -/
theorem Operand.withMemory_value (address : UInt32) (load : Bool) :
    operand.withMemory other address load =
      { operand.withMemory memory address load with
        value := (operand.withMemory other address load).value } := by
  simp [withMemory]

theorem Operand.outline_withRm (rm : Addressing) (load : Bool) :
    (operand.withRm others other rm load).outline =
      (operand.withRm registers memory rm load).outline := by
  unfold withRm
  split
  · exact operand.outline_withMemory memory other _ _ load
  · exact operand.outline_withRegister registers others rm.modRm.rm load

variable (role : Role) (fields : OperandBytes) (opcode width dest : UInt8)

/-- What a role makes of the machine is not in the outline. -/
theorem Role.outline_filled :
    (role.filled fields others other opcode width dest).outline =
      (role.filled fields registers memory opcode width dest).outline := by
  obtain ⟨addressing, immediate⟩ := fields
  cases role with
  | offset load => exact Operand.outline_withMemory _ memory other _ _ load
  | _ =>
      cases addressing <;>
        simp only [filled, Option.elim, Operand.outline_withRegister _ registers others,
          Operand.outline_withRm _ registers others memory]

/-- With another memory, a role gives the same operand but for a value that it loads. -/
theorem Role.filled_memory :
    Operand.SameButLoaded (role.transfers fields registers opcode width)
      (role.filled fields registers memory opcode width dest)
      (role.filled fields registers other opcode width dest) := by
  obtain ⟨addressing, immediate⟩ := fields
  cases role with
  | rm load =>
      cases addressing with
      | none => exact .inl (by simp only [filled, Option.elim])
      | some rm =>
          cases isMemory : rm.modRm.isMemory with
          | false => exact .inl (by simp [filled, Operand.withRm, isMemory])
          | true =>
              simp only [filled, Option.elim, Operand.withRm, isMemory, if_true]
              cases load with
              | false => exact .inl (by simp [Operand.withMemory])
              | true =>
                  refine .inr ⟨by simp [Operand.withMemory], ?_,
                    Operand.withMemory_value _ memory other _ true⟩
                  simp [transfers, Addressing.transfers, isMemory, Operand.withMemory,
                    memoryTransfers, Operand.ofWidth]
  | offset load =>
      simp only [filled]
      cases load with
      | false => exact .inl (by simp [Operand.withMemory])
      | true =>
          refine .inr ⟨by simp [Operand.withMemory], ?_,
            Operand.withMemory_value _ memory other _ true⟩
          simp [transfers, Operand.withMemory, memoryTransfers, Operand.ofWidth]
  | _ => exact .inl (by simp only [filled])

end Operands

/-! ## Texts -/

theorem Operand.mapM_text_filter {operands others : List Operand}
    (same : List.Forall₂ (fun operand other : Operand =>
      other.kind = operand.kind ∧ other.text = operand.text) operands others) :
    (others.filter (·.kind ≠ .none)).mapM text = (operands.filter (·.kind ≠ .none)).mapM text := by
  induction same with
  | nil => rfl
  | cons both rest inductionHypothesis =>
      obtain ⟨kind, text⟩ := both
      rw [List.filter_cons, List.filter_cons, kind]
      split
      · rw [List.mapM_cons, List.mapM_cons, text, inductionHypothesis]
      · exact inductionHypothesis

/-- Instructions with the same outline whose operands have the same texts have the same text. -/
theorem Instruction.text_congr {instruction other : Instruction}
    (outline : other.outline = instruction.outline)
    (texts : ∀ slot, (other.operand slot).text = (instruction.operand slot).text) :
    other.text = instruction.text := by
  have kinds (slot : Slot) : (other.operand slot).kind = (instruction.operand slot).kind := by
    have same : (other.outline.operand slot).kind = (instruction.outline.operand slot).kind := by
      rw [outline]
    cases slot <;> exact same
  have operands : other.operands.mapM Operand.text = instruction.operands.mapM Operand.text :=
    Operand.mapM_text_filter <| .cons ⟨kinds .dest, texts .dest⟩ <|
      .cons ⟨kinds .src2, texts .src2⟩ <| .cons ⟨kinds .src, texts .src⟩ .nil
  have target : other.outline.branchTarget = instruction.outline.branchTarget := by rw [outline]
  have prefixes : other.outline.prefixes = instruction.outline.prefixes := by rw [outline]
  have mnemonic : other.outline.mnemonic = instruction.outline.mnemonic := by rw [outline]
  change other.branchTarget = instruction.branchTarget at target
  change other.prefixes = instruction.prefixes at prefixes
  change other.mnemonic = instruction.mnemonic at mnemonic
  unfold text operandText prefixText
  rw [target, prefixes, mnemonic, operands]

namespace Pass

/-! ## Two machines -/

section Machines

variable {exact reads : Prop}

theorem alike_begun (heading : Heading) (stream : Stream) {machine other : Machine}
    (decoder found : Decoder) (registers : exact → other.registers = machine.registers)
    (recording : machine.trace = some #[]) (otherRecording : other.trace = some #[]) :
    (heading.begun ⟨stream, machine, decoder⟩).Alike exact reads
      (heading.begun ⟨stream, other, found⟩) where
  stream := by
    unfold Heading.begun
    rw [stream_begun, stream_begun]
  opcode := by rw [context_begun, context_begun]
  slots := by
    unfold Heading.begun
    rw [slots_begun, slots_begun]
    exact fun slot => ⟨rfl, rfl, fun _ => rfl⟩
  registers := by
    rw [machine_begun, machine_begun]
    exact registers
  recording := by
    rw [machine_begun, machine_begun, recording, otherRecording]
    exact ⟨rfl, rfl⟩
  recorded := by
    rw [machine_begun, machine_begun, Machine.recorded, recording, Machine.recorded,
      otherRecording]
    exact ⟨rfl, fun _ => rfl, by simp⟩

theorem alike_self (heading : Heading) {pass : Pass} (recording : pass.machine.trace = some #[]) :
    (heading.begun pass).Alike exact reads (heading.begun pass) :=
  alike_begun heading pass.stream pass.decoder pass.decoder (fun _ => rfl) recording recording

/-- Outcomes that succeed together, or fail together with the same fault at the same cursor. -/
inductive Concurs (exact reads : Prop) :
    EStateM.Result Fault Pass Instruction → EStateM.Result Fault Pass Instruction → Prop where
  | ok (instruction other : Instruction) {after reached : Pass}
      (recorded : RecordsAlike exact reads after.machine.recorded reached.machine.recorded) :
      Concurs exact reads (.ok instruction after) (.ok other reached)
  | error (fault : Fault) {failed stopped : Pass} (stream : stopped.stream = failed.stream)
      (recorded : RecordsAlike exact reads failed.machine.recorded stopped.machine.recorded) :
      Concurs exact reads (.error fault failed) (.error fault stopped)

theorem Concurs.recorded {outcome result : EStateM.Result Fault Pass Instruction}
    (concurs : Concurs exact reads outcome result) :
    RecordsAlike exact reads (left outcome).machine.recorded (left result).machine.recorded := by
  cases concurs with
  | ok instruction other recorded => exact recorded
  | error fault stream recorded => exact recorded

theorem concurs_concluded (heading : Heading) (start : UInt32) {decoded other : Pass}
    (alike : decoded.Alike exact reads other) :
    Concurs exact reads (heading.concluded start decoded) (heading.concluded start other) := by
  unfold Heading.concluded
  rw [alike.stream]
  split
  · exact .ok _ _ alike.recorded
  · exact .error _ alike.stream alike.recorded

theorem concurs_decodeOperands {heading : Heading} (regular : heading.selection.Regular)
    (isRead : ∀ step ∈ heading.selection.steps, step.loadsMemory = true → reads) (start : UInt32)
    {pass other : Pass} (alike : (heading.begun pass).Alike exact reads (heading.begun other)) :
    Concurs exact reads (decodeOperands start heading pass)
      (decodeOperands start heading other) := by
  rcases Selection.matches_steps regular isRead alike with same | ⟨address, byte, atRegister⟩
  · generalize ran : Step.runAll heading.selection.steps (heading.begun pass) = outcome at same
    generalize otherRan : Step.runAll heading.selection.steps (heading.begun other) = result
      at same
    cases same with
    | ok _ decoded =>
        rw [decodeOperands_of_ok start ran, decodeOperands_of_ok start otherRan]
        exact concurs_concluded heading start decoded
    | exhausted failed _ =>
        rw [decodeOperands_of_error start ran, decodeOperands_of_error start otherRan]
        exact .error _ failed.stream failed.recorded
    | violation violation failed =>
        rw [decodeOperands_of_error start ran, decodeOperands_of_error start otherRan]
        exact .error _ failed.stream failed.recorded
  · have otherAtRegister : (heading.begun other).AtRegister byte := by
      unfold AtRegister
      rw [alike.stream]
      exact atRegister
    have ran := Selection.runAll_of_register regular address atRegister
    have otherRan := Selection.runAll_of_register regular address otherAtRegister
    rw [alike.stream] at otherRan
    rw [decodeOperands_of_error start ran, decodeOperands_of_error start otherRan]
    exact .error _ alike.stream alike.recorded

end Machines

/-- The pass with another machine. -/
def onMachine (pass : Pass) (machine : Machine) : Pass :=
  { pass with machine }

theorem concurs_decode (pass : Pass) (machine : Machine) :
    Concurs (machine.registers = pass.machine.registers) True
      (decode (pass.retraced (some #[])))
      (decode ((pass.onMachine machine).retraced (some #[]))) := by
  rcases decode_outcome pass.stream pass.decoder.defaultSize with
    ⟨error, after, refused⟩ | ⟨heading, between, regular, ran⟩
  · have own : decode (pass.retraced (some #[])) = _ := refused _ _ rfl
    have others : decode ((pass.onMachine machine).retraced (some #[])) = _ := refused _ _ rfl
    rw [own, others]
    exact .error _ rfl ⟨rfl, fun _ => rfl, by simp [Machine.recorded]⟩
  · have own : decode (pass.retraced (some #[])) = _ := ran _ _ rfl
    have others : decode ((pass.onMachine machine).retraced (some #[])) = _ := ran _ _ rfl
    rw [own, others]
    exact concurs_decodeOperands regular (fun _ _ _ => trivial) pass.stream.cursor
      (alike_begun heading between pass.decoder pass.decoder id rfl rfl)

section Instruction

variable {pass : Pass} {encoding : Encoding} {selection : Selection}

/-- With another machine that has the same registers, an encoding stands for the same operands but
for values that are loaded from memory. -/
theorem operand_onMachine (encodes : encoding.Encodes pass.decoder.defaultSize selection)
    (holds : pass.stream.Holds encoding.bytes) {machine : Machine}
    (registers : machine.registers = pass.machine.registers) (slot : Slot) :
    ((pass.instruction encoding selection).operand slot).SameButLoaded pass.transfers
      (((pass.onMachine machine).instruction encoding selection).operand slot) := by
  have regular := encodes.regular
  have others := (pass.onMachine machine).operand_instruction encoding regular slot
  rw [show (pass.onMachine machine).machine.registers = pass.machine.registers from registers]
    at others
  rw [others, pass.operand_instruction encoding regular slot]
  rcases Role.filled_memory pass.machine.registers pass.machine.memory machine.memory
    (selection.role slot) encoding.operands encoding.opcode.found.byte
    (selection.widths (encoding.operandSize pass.decoder.defaultSize) slot)
    (selection.widths (encoding.operandSize pass.decoder.defaultSize) .dest) with
    same | ⟨memory, recorded, same⟩
  · exact .inl same
  · refine .inr ⟨memory, ?_, same⟩
    have isFilled : slot ∈ selection.order := by
      rw [Selection.mem_order_iff regular]
      intro empty
      rw [empty] at recorded
      cases recorded
    rw [transfers_of_encodes encodes holds]
    exact List.mem_flatMap.mpr ⟨slot, isFilled, recorded⟩

theorem outline_onMachine (encodes : encoding.Encodes pass.decoder.defaultSize selection)
    (holds : pass.stream.Holds encoding.bytes) (machine : Machine) :
    ((pass.onMachine machine).instruction encoding selection).outline =
      (pass.instruction encoding selection).outline := by
  have regular := encodes.regular
  have outlines (slot : Slot) :
      (((pass.onMachine machine).instruction encoding selection).operand slot).outline =
        ((pass.instruction encoding selection).operand slot).outline := by
    rw [operand_instruction _ encoding regular, operand_instruction _ encoding regular]
    exact Role.outline_filled ..
  have target : ((pass.onMachine machine).instruction encoding selection).branchTarget =
      (pass.instruction encoding selection).branchTarget :=
    .trans (branchTarget_instruction encodes holds) (branchTarget_instruction encodes holds).symm
  exact Instruction.outline_congr rfl rfl rfl rfl rfl rfl target outlines

end Instruction

theorem outlined_onMachine (pass : Pass) (machine : Machine) :
    outlined (decode (pass.onMachine machine)) = outlined (decode pass) := by
  cases ran : decode pass with
  | ok instruction after =>
      obtain ⟨encoding, selection, ⟨encodes, holds⟩, rfl, rfl⟩ := decode_ok_iff.mp ran
      obtain ⟨-, remains, -⟩ := encodes_iff.mp ⟨encodes, holds⟩
      have others : decode (pass.onMachine machine) = _ := decode_of_encodes encodes holds
      have own : (pass.staged encoding selection).stream = _ := stream_staged remains
      have stands : encoding.Encodes (pass.onMachine machine).decoder.defaultSize selection ∧
          (pass.onMachine machine).stream.Holds encoding.bytes := ⟨encodes, holds⟩
      obtain ⟨-, otherRemains, -⟩ := encodes_iff.mp stands
      have otherOwn := stream_staged otherRemains
      rw [others]
      exact Prod.ext (congrArg Except.ok (outline_onMachine encodes holds machine))
        (otherOwn.trans own.symm)
  | error fault failed =>
      -- Two runs are compared from machines that have just begun to record.
      have concurs := pass.concurs_decode machine
      obtain ⟨stopped, own, -⟩ := error_retraced ran
      rw [← ran, decode_eq_retraced pass, decode_eq_retraced (pass.onMachine machine),
        outlined_retraced, outlined_retraced]
      rw [own] at concurs ⊢
      generalize decode ((pass.onMachine machine).retraced (some #[])) = outcome at concurs
      cases concurs with
      | error _ stream => exact congrArg (Except.error fault, ·) stream

/-- Decoding with another machine succeeds or fails alike, leaves the cursor alike and tells the
same but for addresses and values that the machine supplies. If the registers hold the same, then
it makes the same transfers and gives the same text, and only values loaded from memory differ. -/
theorem decode_independent_of_machine (pass : Pass) (machine : Machine) :
    outlined (decode (pass.onMachine machine)) = outlined (decode pass) ∧
    (left (decode pass)).machine = pass.machine.recordAll pass.transfers ∧
    (left (decode (pass.onMachine machine))).machine =
      machine.recordAll (pass.onMachine machine).transfers ∧
    (pass.onMachine machine).transfers.map MicroOp.outline =
      pass.transfers.map MicroOp.outline ∧
    (machine.registers = pass.machine.registers →
      (pass.onMachine machine).transfers = pass.transfers ∧
      ∀ (instruction other : Instruction) (after reached : Pass),
        decode pass = .ok instruction after →
        decode (pass.onMachine machine) = .ok other reached →
          other.text = instruction.text ∧
            ∀ slot, (instruction.operand slot).SameButLoaded pass.transfers
              (other.operand slot)) := by
  have recorded := (pass.concurs_decode machine).recorded
  refine ⟨pass.outlined_onMachine machine, machine_decode pass,
    machine_decode (pass.onMachine machine), recorded.outline, ?_⟩
  intro registers
  refine ⟨recorded.same registers, ?_⟩
  intro instruction other after reached ran otherRan
  obtain ⟨encoding, selection, ⟨encodes, holds⟩, rfl, rfl⟩ := decode_ok_iff.mp ran
  have others : decode (pass.onMachine machine) = _ := decode_of_encodes encodes holds
  rw [others] at otherRan
  cases otherRan
  have operands := operand_onMachine encodes holds registers
  exact ⟨Instruction.text_congr (outline_onMachine encodes holds machine)
    fun slot => (operands slot).text, operands⟩

/-- `imul ax, word ptr [ebx + 4], -2` with two memories. -/
theorem decode_independent_of_machine_imul :
    let pass := ofBytes #[0x66, 0x6B, 0x43, 0x04, 0xFE] []
    let machine : Machine := ⟨pass.machine.registers, .ofFn 16 fun _ => 1, none⟩
    machine.registers = pass.machine.registers ∧
      ∃ (instruction other : Instruction) (after reached : Pass),
        decode pass = .ok instruction after ∧
          decode (pass.onMachine machine) = .ok other reached ∧
          other.text = instruction.text ∧
          instruction.src2.value = 0 ∧ other.src2.value = 0x0101 ∧
          .loadMemory instruction.src2.address instruction.src2.width ∈ pass.transfers := by
  have stands : (ofBytes #[0x66, 0x6B, 0x43, 0x04, 0xFE] []).stream.Holds imulEncoding.bytes :=
    ⟨rfl, rfl, rfl, rfl, rfl, trivial⟩
  intro pass machine
  have otherRan : decode (pass.onMachine machine) = _ := decode_of_encodes encodes_imul stands
  obtain ⟨-, -, -, -, exactly⟩ := decode_independent_of_machine pass machine
  obtain ⟨-, agree⟩ := exactly rfl
  obtain ⟨text, operands⟩ := agree _ _ _ _ decode_imul otherRan
  have value : (pass.instruction imulEncoding imulSelection).src2.value = 0 := by
    decide +kernel
  have otherValue :
      ((pass.onMachine machine).instruction imulEncoding imulSelection).src2.value = 0x0101 := by
    decide +kernel
  refine ⟨rfl, _, _, _, _, decode_imul, otherRan, text, value, otherValue, ?_⟩
  rcases operands .src2 with same | ⟨-, loaded, -⟩
  · have values := congrArg Operand.value same
    have differ : (0x0101 : UInt32) = 0 := otherValue.symm.trans (values.trans value)
    cases differ
  · exact loaded

end Pass

end I386
