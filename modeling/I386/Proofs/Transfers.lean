import I386.Proofs.History
import I386.Proofs.OperandTable

/-!
Contract: the transfers that decoding makes.

Owns:
- what decoding adds to the record of a machine, which is the same whatever was recorded before;
- the transfers of each step, and of a sequence of steps;
- the transfers of each operand of an instruction, and the order in which its operands are staged.

Main statement: the transfers of a decoded instruction are those of its operands, in order.

Does not own: what decoding that fails transfers before it does.
-/

namespace I386

/-! ## What decoding records -/

theorem Machine.recorded_recordAll {machine : Machine} (recording : machine.trace.isSome = true)
    (ops : List MicroOp) : (machine.recordAll ops).recorded = machine.recorded ++ ops := by
  obtain ⟨trace, present⟩ := Option.isSome_iff_exists.mp recording
  simp [recorded, recordAll, present]

namespace Pass

/-- What decoding records on a machine that has just begun to record. -/
def transfers (pass : Pass) : List MicroOp :=
  (left (decode (pass.retraced (some #[])))).machine.recorded

theorem machine_decodeOperands (start : UInt32) (heading : Heading) (pass : Pass) :
    (left (decodeOperands start heading pass)).machine =
      (left (Step.runAll heading.selection.steps (heading.begun pass))).machine := by
  cases ran : Step.runAll heading.selection.steps (heading.begun pass) with
  | ok value decoded =>
      rw [decodeOperands_of_ok start ran, left_concluded]
      rfl
  | error fault failed =>
      rw [decodeOperands_of_error start ran]
      rfl

/-- Whatever was recorded before, decoding does the same and adds the same loads to it. -/
theorem exists_transfers (pass : Pass) :
    ∃ ops, (∀ op ∈ ops, op.Loads) ∧
      (left (decode (pass.retraced (some #[])))).machine =
        (pass.retraced (some #[])).machine.recordAll ops ∧
      ∀ trace, decode (pass.retraced trace) =
        mapPass (·.retraced (trace.map (· ++ ops.toArray)))
          (decode (pass.retraced (some #[]))) := by
  let base := pass.retraced (some #[])
  rcases decode_outcome pass.stream pass.decoder.defaultSize with
    ⟨error, after, refused⟩ | ⟨heading, between, regular, ran⟩
  · have own : decode base = _ := refused base.machine pass.decoder rfl
    rw [own]
    refine ⟨[], by simp, (Machine.recordAll_nil _).symm, fun trace => ?_⟩
    refine (refused { pass.machine with trace } pass.decoder rfl).trans ?_
    simp [base, mapPass, retraced]
  · have own : decode base = _ := ran base.machine pass.decoder rfl
    obtain ⟨ops, outcome⟩ :=
      exists_outcome regular pass.stream.cursor ⟨between, base.machine, pass.decoder⟩
    obtain ⟨loads, conduct⟩ := exists_conduct_steps regular ⟨between, base.machine, pass.decoder⟩
    have recorded := outcome.recorded
    have again := conduct.recorded
    rw [← machine_decodeOperands pass.stream.cursor, machine_begun] at again
    have same : loads = ops := by
      have recording : base.machine.trace.isSome = true := rfl
      have both := congrArg Machine.recorded (again.symm.trans recorded)
      simpa only [Machine.recorded_recordAll recording, List.append_cancel_left_eq] using both
    rw [own]
    refine ⟨ops, same ▸ conduct.loads, recorded, fun trace => ?_⟩
    calc decode (pass.retraced trace)
        = decodeOperands pass.stream.cursor heading
            ⟨between, { pass.machine with trace }, pass.decoder⟩ := ran _ _ rfl
      _ = mapPass (·.reframed (trace.map (· ++ ops.toArray)) pass.decoder.defaultSize)
            (decodeOperands pass.stream.cursor heading
              ⟨between, base.machine, pass.decoder⟩) := outcome.frame trace pass.decoder
      _ = mapPass (·.retraced (trace.map (· ++ ops.toArray)))
            (decodeOperands pass.stream.cursor heading
              ⟨between, base.machine, pass.decoder⟩) := by
          apply mapPass_congr
          rw [show pass.decoder.defaultSize = _ from outcome.defaultSize.symm]
          rfl

theorem transfers_eq_of_recorded {pass : Pass} {ops : List MicroOp}
    (recorded : (left (decode (pass.retraced (some #[])))).machine =
      (pass.retraced (some #[])).machine.recordAll ops) : pass.transfers = ops := by
  rw [transfers, recorded, Machine.recorded_recordAll rfl]
  rfl

theorem loads_of_mem_transfers {pass : Pass} {op : MicroOp} (isIn : op ∈ pass.transfers) :
    op.Loads := by
  obtain ⟨ops, loads, recorded, -⟩ := pass.exists_transfers
  rw [transfers_eq_of_recorded recorded] at isIn
  exact loads op isIn

theorem decode_eq_retraced (pass : Pass) :
    decode pass =
      mapPass (·.retraced (pass.machine.trace.map (· ++ pass.transfers.toArray)))
        (decode (pass.retraced (some #[]))) := by
  obtain ⟨ops, -, recorded, frame⟩ := pass.exists_transfers
  rw [transfers_eq_of_recorded recorded]
  exact frame pass.machine.trace

/-- What fails does so recording nothing but its own transfers. -/
theorem error_retraced {pass failed : Pass} {fault : Fault}
    (ran : decode pass = .error fault failed) :
    ∃ stopped, decode (pass.retraced (some #[])) = .error fault stopped ∧
      failed.stream = stopped.stream := by
  rw [decode_eq_retraced] at ran
  cases own : decode (pass.retraced (some #[])) with
  | ok instruction after =>
      rw [own] at ran
      cases ran
  | error found stopped =>
      rw [own] at ran
      cases ran
      exact ⟨stopped, rfl, rfl⟩

theorem machine_decode (pass : Pass) :
    (left (decode pass)).machine = pass.machine.recordAll pass.transfers := by
  obtain ⟨ops, -, recorded, -⟩ := pass.exists_transfers
  rw [decode_eq_retraced, transfers_eq_of_recorded recorded]
  generalize decode (pass.retraced (some #[])) = outcome at recorded
  cases outcome with
  | ok instruction after =>
      have machine : after.machine = _ := recorded
      show ({ after.machine with trace := _ } : Machine) = _
      rw [machine]
      rfl
  | error fault failed =>
      have machine : failed.machine = _ := recorded
      show ({ failed.machine with trace := _ } : Machine) = _
      rw [machine]
      rfl

theorem machine_of_decode_ok {pass after : Pass} {instruction : Instruction}
    (ran : decode pass = .ok instruction after) :
    after.machine = pass.machine.recordAll pass.transfers := by
  have machine := pass.machine_decode
  rw [ran] at machine
  exact machine

end Pass

/-! ## The transfers of an operand -/

def registerTransfers (number width : UInt8) (load : Bool) : List MicroOp :=
  if load then [.loadRegister number width] else []

/-- The address of a memory operand is staged before its value. -/
def memoryTransfers (address : UInt32) (width : UInt8) (load : Bool) : List MicroOp :=
  .loadImmediate address :: if load then [.loadMemory address width] else []

namespace Addressing

/-- The registers of an address are loaded index first. -/
def loads (encoding : Addressing) : List MicroOp :=
  (encoding.index.toList.map Prod.fst ++ encoding.base.toList).map (.loadRegister · 4)

def transfers (encoding : Addressing) (registers : Registers) (width : UInt8) (load : Bool) :
    List MicroOp :=
  if encoding.modRm.isMemory then
    encoding.loads ++ memoryTransfers (encoding.address registers) width load
  else
    registerTransfers encoding.modRm.rm width load

end Addressing

/-- The transfers by which an operand of a role is staged in a slot of the given width. -/
def Role.transfers (role : Role) (fields : OperandBytes) (registers : Registers)
    (opcode width : UInt8) : List MicroOp :=
  let word := LittleEndian.ofBytes fields.immediate
  match role with
  | .empty => []
  | .rm load => fields.addressing.elim [] fun rm => rm.transfers registers width load
  | .field load => fields.addressing.elim [] fun rm => registerTransfers rm.modRm.reg width load
  | .opcodeRegister load => registerTransfers (opcode &&& 7) width load
  | .accumulator load => registerTransfers Register.accumulator width load
  | .cl => registerTransfers Register.cl 1 true
  | .dx => registerTransfers Register.dx 2 true
  | .offset load => memoryTransfers word width load
  | .immediate => [.loadImmediate word]
  | .byteImmediate => [.loadImmediate word]
  | .signedImmediate => [.loadImmediate (signExtension word width)]
  | .signedByte => [.loadImmediate (signExtension word 1)]
  | .one => [.loadImmediate 1]

/-! ## The transfers of steps -/

namespace Step

/-- The transfers of a step that finds its bytes, in slots of the given widths. -/
def transfers (fields : OperandBytes) (registers : Registers) (opcode : UInt8)
    (widths : Slot → UInt8) : Step → List MicroOp
  | modRm slot load field => fields.addressing.elim [] fun rm =>
      (field.elim [] fun target => registerTransfers rm.modRm.reg (widths target.1) target.2) ++
        rm.transfers registers (widths slot) load
  | immediate _ => [.loadImmediate (LittleEndian.ofBytes fields.immediate)]
  | signedImmediate slot =>
      [.loadImmediate (signExtension (LittleEndian.ofBytes fields.immediate) (widths slot))]
  | accumulator slot load => registerTransfers Register.accumulator (widths slot) load
  | opcodeRegister slot load => registerTransfers (opcode &&& 7) (widths slot) load
  | offset slot load => memoryTransfers (LittleEndian.ofBytes fields.immediate) (widths slot) load
  | cl _ => registerTransfers Register.cl 1 true
  | dx _ => registerTransfers Register.dx 2 true
  | one _ => [.loadImmediate 1]
  | _ => []

/-- The transfers of a sequence of steps. -/
def transfersAll (fields : OperandBytes) (registers : Registers) (opcode : UInt8) :
    List Step → (Slot → UInt8) → List MicroOp
  | [], _ => []
  | step :: rest, widths =>
      step.transfers fields registers opcode widths ++
        transfersAll fields registers opcode rest (step.resize widths)

end Step

namespace Pass

theorem machine_registerFilled (pass : Pass) (slot : Slot) (number : UInt8) (load : Bool) :
    (pass.registerFilled slot number load).machine =
      pass.machine.recordAll (registerTransfers number (pass.widths slot) load) := by
  cases load with
  | false => exact pass.machine.recordAll_nil.symm
  | true =>
      simp only [registerFilled, if_true, registerStaged, machine_update, slot_update]
      rfl

theorem machine_memoryFilled (pass : Pass) (slot : Slot) (address : UInt32) (load : Bool) :
    (pass.memoryFilled slot address load).machine =
      pass.machine.recordAll (memoryTransfers address (pass.widths slot) load) := by
  cases load with
  | false => rfl
  | true =>
      simp only [memoryFilled, addressStaged, memoryStaged, if_true, machine_update, slot_update,
        decoder_recordAll]
      exact Machine.recordAll_recordAll _ _ _

theorem machine_located (pass : Pass) (encoding : Addressing) :
    (pass.located encoding).machine = pass.machine.recordAll encoding.loads := by
  unfold located indexLoaded baseLoaded Addressing.loads
  cases encoding.index <;> cases encoding.base <;>
    simp [skip, addressRegisterLoaded]

theorem machine_fieldFilled (pass : Pass) (modRm : ModRm) (field : Option (Slot × Bool)) :
    (pass.fieldFilled modRm field).machine = pass.machine.recordAll
      (field.elim [] fun target =>
        registerTransfers modRm.reg (pass.widths target.1) target.2) := by
  cases field with
  | none => exact pass.machine.recordAll_nil.symm
  | some target => exact pass.machine_registerFilled target.1 modRm.reg target.2

theorem machine_resolved (pass : Pass) (encoding : Addressing) (slot : Slot) (load : Bool)
    (field : Option (Slot × Bool)) :
    (pass.resolved encoding slot load field).machine = pass.machine.recordAll
      ((field.elim [] fun target =>
          registerTransfers encoding.modRm.reg (pass.widths target.1) target.2) ++
        encoding.transfers pass.machine.registers (pass.widths slot) load) := by
  have filled := (pass.skip 1).machine_fieldFilled encoding.modRm field
  have widths : ((pass.skip 1).fieldFilled encoding.modRm field).widths = pass.widths :=
    funext fun other => (pass.skip 1).width_fieldFilled encoding.modRm field other
  unfold resolved Addressing.transfers
  by_cases memory : encoding.modRm.isMemory = true
  · rw [if_pos memory, if_pos memory, machine_memoryFilled, machine_located, widths_located,
      widths, filled, Machine.recordAll_recordAll, Machine.recordAll_recordAll]
    rfl
  · rw [if_neg memory, if_neg memory, machine_registerFilled, widths, filled,
      Machine.recordAll_recordAll]
    rfl

end Pass

namespace Step

theorem machine_effect (step : Step) (fields : OperandBytes) (pass : Pass) :
    (step.effect fields pass).machine = pass.machine.recordAll
      (step.transfers fields pass.machine.registers pass.decoder.context.opcode pass.widths) := by
  cases step with
  | modRm slot load field =>
      rw [effect, transfers]
      cases fields.addressing with
      | none => exact pass.machine.recordAll_nil.symm
      | some encoding => exact pass.machine_resolved encoding slot load field
  | accumulator slot load => exact pass.machine_registerFilled slot _ load
  | opcodeRegister slot load => exact pass.machine_registerFilled slot _ load
  | offset slot load => exact (pass.skip _).machine_memoryFilled slot _ load
  | cl slot =>
      refine ((pass.update slot _).machine_registerFilled slot _ true).trans ?_
      simp [transfers, Pass.widths, Pass.slot_update]
  | dx slot =>
      refine ((pass.update slot _).machine_registerFilled slot _ true).trans ?_
      simp [transfers, Pass.widths, Pass.slot_update]
  | immediate slot => rfl
  | signedImmediate slot => rfl
  | one slot => rfl
  | requireMemory => exact pass.machine.recordAll_nil.symm
  | narrowToByte slot => exact pass.machine.recordAll_nil.symm
  | requireWideDest => exact pass.machine.recordAll_nil.symm
  | clipSource =>
      rw [effect, Pass.sourceClipped]
      split <;> exact pass.machine.recordAll_nil.symm
  | branchTarget => exact pass.machine.recordAll_nil.symm

theorem machine_effectAll (steps : List Step) (fields : OperandBytes) (pass : Pass) :
    (effectAll fields steps pass).machine = pass.machine.recordAll
      (transfersAll fields pass.machine.registers pass.decoder.context.opcode steps
        pass.widths) := by
  induction steps generalizing pass with
  | nil => exact pass.machine.recordAll_nil.symm
  | cons step rest inductionHypothesis =>
      have kept := step.keeps_effect fields pass
      rw [transfersAll, ← Machine.recordAll_recordAll, ← machine_effect, ← kept.registers,
        ← kept.opcode, ← step.widths_effect fields pass]
      exact inductionHypothesis (step.effect fields pass)

end Step

/-! ## The transfers of an instruction -/

/-- The slots that a step fills, in the order in which it does. -/
def Step.fills : Step → List Slot
  | modRm slot _ field => field.toList.map Prod.fst ++ [slot]
  | immediate slot => [slot]
  | signedImmediate slot => [slot]
  | accumulator slot _ => [slot]
  | opcodeRegister slot _ => [slot]
  | offset slot _ => [slot]
  | cl slot => [slot]
  | dx slot => [slot]
  | one slot => [slot]
  | _ => []

namespace Selection

/-- The slots of an instruction, in the order in which they are staged. -/
def order (selection : Selection) : List Slot :=
  selection.steps.flatMap Step.fills

/-- The transfers of an instruction whose operands are encoded by the given bytes. -/
def transfers (selection : Selection) (size : OperandSize) (fields : OperandBytes)
    (registers : Registers) (opcode : UInt8) : List MicroOp :=
  selection.order.flatMap fun slot =>
    (selection.role slot).transfers fields registers opcode (selection.widths size slot)

theorem transfersAll_steps {selection : Selection} (regular : selection.Regular)
    (size : OperandSize) (fields : OperandBytes) (registers : Registers) (opcode : UInt8) :
    Step.transfersAll fields registers opcode selection.steps (selection.widths size) =
      selection.transfers size fields registers opcode := by
  unfold transfers order steps role
  generalize selection.widths size = widths
  obtain ⟨addressing, immediate⟩ := fields
  rcases regular.extra with plain | ⟨added, rm⟩
  · rw [plain, Shape.steps, List.append_nil]
    cases selection.form.shape <;> cases addressing <;>
      simp [Shape.steps, signExtendedByteSteps, Step.transfersAll, Step.transfers, Step.resize,
        Step.fills, Shape.roles, Roles.slot, Role.transfers]
  · rw [added, rm]
    cases addressing <;>
      simp [Shape.steps, Step.transfersAll, Step.transfers, Step.fills, Shape.roles, Roles.slot,
        Role.transfers]

theorem nodup_order {selection : Selection} (regular : selection.Regular) :
    selection.order.Nodup := by
  unfold order steps
  rcases regular.extra with plain | ⟨added, rm⟩
  · rw [plain, Shape.steps, List.append_nil]
    cases selection.form.shape <;> decide
  · rw [added, rm]
    decide

theorem mem_order_iff {selection : Selection} (regular : selection.Regular) (slot : Slot) :
    slot ∈ selection.order ↔ selection.role slot ≠ .empty := by
  unfold order steps role
  rcases regular.extra with plain | ⟨added, rm⟩
  · rw [plain, Shape.steps, List.append_nil]
    cases selection.form.shape <;> cases slot <;> decide
  · rw [added, rm]
    cases slot <;> decide

/-- Every operand is staged once. -/
theorem exists_order {selection : Selection} (regular : selection.Regular) {slot : Slot}
    (isFilled : selection.role slot ≠ .empty) :
    ∃ early late, selection.order = early ++ slot :: late ∧ slot ∉ early ++ late := by
  obtain ⟨early, late, order⟩ := List.append_of_mem ((mem_order_iff regular slot).mpr isFilled)
  have distinct : (early ++ slot :: late).Nodup := order ▸ nodup_order regular
  exact ⟨early, late, order, (List.nodup_cons.mp (List.perm_middle.nodup_iff.mp distinct)).1⟩

end Selection

namespace Pass

theorem machine_staged {selection : Selection} (regular : selection.Regular) (pass : Pass)
    (encoding : Encoding) :
    (pass.staged encoding selection).machine = pass.machine.recordAll
      (selection.transfers (encoding.operandSize pass.decoder.defaultSize) encoding.operands
        pass.machine.registers encoding.opcode.found.byte) := by
  obtain ⟨machine, opcodeByte⟩ := keeps_begun
    ((pass.skip (encoding.prefixes.length + 1)).skip encoding.opcode.rest.length)
    encoding.opcode.found.byte selection.form (encoding.operandSize pass.decoder.defaultSize)
  unfold staged operandsDecoded
  rw [Step.machine_effectAll, machine, opcodeByte, widths_begun,
    Selection.transfersAll_steps regular]
  rfl

/-- The transfers of a decoded instruction are those of its operands, each staged once, in order. -/
theorem transfers_of_encodes {pass : Pass} {encoding : Encoding} {selection : Selection}
    (encodes : encoding.Encodes pass.decoder.defaultSize selection)
    (holds : pass.stream.Holds encoding.bytes) :
    pass.transfers = selection.transfers (encoding.operandSize pass.decoder.defaultSize)
      encoding.operands pass.machine.registers encoding.opcode.found.byte := by
  have regular := encodes.regular
  have ran : decode (pass.retraced (some #[])) = _ := decode_of_encodes encodes holds
  apply transfers_eq_of_recorded
  rw [ran]
  exact machine_staged regular (pass.retraced (some #[])) encoding

end Pass

end I386
