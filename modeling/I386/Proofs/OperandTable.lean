import I386.Proofs.Acceptance

/-!
Contract: what the operand slots hold after an instruction was decoded.

Owns:
- steps as changes of the slots alone, whose values come from registers and memory as they were;
- the table of operand patterns: the role of each slot, and the operand that a role stands for.

Main statement: decoding an instruction leaves in each slot the operand that the table gives.

Does not own: which bytes are an instruction.
-/

namespace I386

/-! ## Operands -/

namespace Operand

def withRegister (operand : Operand) (registers : Registers) (number : UInt8) (load : Bool) :
    Operand :=
  { operand with
    kind := .register
    number
    value := if load then registers.contents number operand.width else operand.value }

def withMemory (operand : Operand) (memory : Memory) (address : UInt32) (load : Bool) : Operand :=
  { operand with
    kind := .memory
    address
    value := if load then memory.contents address operand.width else operand.value }

/-- The operand made what a ModR/M encoding designates. -/
def withRm (operand : Operand) (registers : Registers) (memory : Memory) (rm : Addressing)
    (load : Bool) : Operand :=
  if rm.modRm.isMemory then operand.withMemory memory (rm.address registers) load
  else operand.withRegister registers rm.modRm.rm load

theorem width_withRm (operand : Operand) (registers : Registers) (memory : Memory)
    (rm : Addressing) (load : Bool) :
    (operand.withRm registers memory rm load).width = operand.width := by
  unfold withRm
  split <;> rfl

/-- The operand with its staged value cut to a destination of two bytes. -/
def clippedTo (operand : Operand) (dest : UInt8) : Operand :=
  if dest = 2 then { operand with value := operand.value &&& 0xFFFF } else operand

def withImmediate (operand : Operand) (value : UInt32) : Operand :=
  { operand with kind := .immediate, value, immediate := value }

def withSignedImmediate (operand : Operand) (value : UInt32) : Operand :=
  let extended := signExtension value operand.width
  { operand with
    kind := .immediate
    value := extended
    immediate := value
    signedImmediate := extended.toInt32 }

end Operand

abbrev Slots := Slot → Operand

def Slots.set (slots : Slots) (slot : Slot) (operand : Operand) : Slots :=
  fun other => if other = slot then operand else slots other

theorem Pass.slots_update (pass : Pass) (slot : Slot) (change : Operand → Operand) :
    (pass.update slot change).decoder.slot =
      Slots.set pass.decoder.slot slot (change (pass.decoder.slot slot)) := by
  funext other
  rw [slot_update]
  by_cases same : other = slot
  · rw [Slots.set, if_pos same, if_pos same, same]
  · rw [Slots.set, if_neg same, if_neg same]

theorem Slots.set_set (slots : Slots) (slot : Slot) (first second : Operand) :
    (slots.set slot first).set slot second = slots.set slot second := by
  funext other
  by_cases same : other = slot
  · simp only [set, if_pos same]
  · simp only [set, if_neg same]

theorem Slots.set_self (slots : Slots) (slot : Slot) (operand : Operand) :
    slots.set slot operand slot = operand :=
  if_pos rfl

theorem Slots.set_same (slots : Slots) (slot : Slot) : slots.set slot (slots slot) = slots := by
  funext other
  by_cases same : other = slot
  · rw [set, if_pos same, same]
  · rw [set, if_neg same]

/-! ## Steps on slots -/

/-- What a step does to the slots of an instruction with the given opcode byte. -/
def Step.fill (fields : OperandBytes) (registers : Registers) (memory : Memory)
    (opcode : UInt8) (slots : Slots) : Step → Slots
  | modRm slot load field =>
      fields.addressing.elim slots fun rm =>
        let slots := field.elim slots fun (fieldSlot, fieldLoad) =>
          slots.set fieldSlot ((slots fieldSlot).withRegister registers rm.modRm.reg fieldLoad)
        slots.set slot ((slots slot).withRm registers memory rm load)
  | requireMemory => slots
  | immediate slot =>
      slots.set slot ((slots slot).withImmediate (LittleEndian.ofBytes fields.immediate))
  | signedImmediate slot =>
      slots.set slot ((slots slot).withSignedImmediate (LittleEndian.ofBytes fields.immediate))
  | accumulator slot load =>
      slots.set slot ((slots slot).withRegister registers Register.accumulator load)
  | opcodeRegister slot load =>
      slots.set slot ((slots slot).withRegister registers (opcode &&& 7) load)
  | offset slot load =>
      slots.set slot
        ((slots slot).withMemory memory (LittleEndian.ofBytes fields.immediate) load)
  | cl slot =>
      slots.set slot
        ({ slots slot with width := 1 }.withRegister registers Register.cl true)
  | dx slot =>
      slots.set slot
        ({ slots slot with width := 2 }.withRegister registers Register.dx true)
  | one slot => slots.set slot ((slots slot).withImmediate 1)
  | narrowToByte slot => slots.set slot { slots slot with width := 1 }
  | requireWideDest => slots
  | clipSource => slots.set .src ((slots .src).clippedTo (slots .dest).width)
  | branchTarget => slots

namespace Pass

/-- What no step changes. -/
structure Keeps (pass after : Pass) : Prop where
  registers : after.machine.registers = pass.machine.registers
  memory : after.machine.memory = pass.machine.memory
  opcode : after.decoder.context.opcode = pass.decoder.context.opcode

theorem Keeps.trans {pass between after : Pass} (first : pass.Keeps between)
    (second : between.Keeps after) : pass.Keeps after :=
  ⟨second.registers.trans first.registers, second.memory.trans first.memory,
    second.opcode.trans first.opcode⟩

theorem keeps_registerFilled (pass : Pass) (slot : Slot) (number : UInt8) (load : Bool) :
    pass.Keeps (pass.registerFilled slot number load) := by
  cases load <;> cases slot <;> exact ⟨rfl, rfl, rfl⟩

theorem keeps_memoryFilled (pass : Pass) (slot : Slot) (address : UInt32) (load : Bool) :
    pass.Keeps (pass.memoryFilled slot address load) := by
  cases load <;> cases slot <;> exact ⟨rfl, rfl, rfl⟩

theorem keeps_fieldFilled (pass : Pass) (modRm : ModRm) (field : Option (Slot × Bool)) :
    pass.Keeps (pass.fieldFilled modRm field) := by
  cases field with
  | none => exact ⟨rfl, rfl, rfl⟩
  | some target => exact pass.keeps_registerFilled target.1 modRm.reg target.2

theorem keeps_located (pass : Pass) (encoding : Addressing) :
    pass.Keeps (pass.located encoding) := by
  unfold located indexLoaded baseLoaded
  cases encoding.base <;> cases encoding.index <;> exact ⟨rfl, rfl, rfl⟩

theorem keeps_resolved (pass : Pass) (encoding : Addressing) (slot : Slot) (load : Bool)
    (field : Option (Slot × Bool)) : pass.Keeps (pass.resolved encoding slot load field) := by
  have skipped : pass.Keeps (pass.skip 1) := ⟨rfl, rfl, rfl⟩
  apply (skipped.trans ((pass.skip 1).keeps_fieldFilled encoding.modRm field)).trans
  rw [resolved]
  split
  · exact (keeps_located _ encoding).trans (keeps_memoryFilled _ slot _ load)
  · exact keeps_registerFilled _ slot _ load

theorem slots_registerFilled (pass : Pass) (slot : Slot) (number : UInt8) (load : Bool) :
    (pass.registerFilled slot number load).decoder.slot =
      Slots.set pass.decoder.slot slot
        ((pass.decoder.slot slot).withRegister pass.machine.registers number load) := by
  cases load with
  | false =>
      simp only [registerFilled, Bool.false_eq_true, if_false, slots_update]
      rfl
  | true =>
      simp only [registerFilled, registerStaged, if_true, slots_update, decoder_recordAll,
        Slots.set_set, Slots.set_self, machine_update]
      rfl

theorem slots_memoryFilled (pass : Pass) (slot : Slot) (address : UInt32) (load : Bool) :
    (pass.memoryFilled slot address load).decoder.slot =
      Slots.set pass.decoder.slot slot
        ((pass.decoder.slot slot).withMemory pass.machine.memory address load) := by
  cases load with
  | false =>
      simp only [memoryFilled, addressStaged, Bool.false_eq_true, if_false, slots_update,
        decoder_recordAll, Slots.set_set, Slots.set_self]
      rfl
  | true =>
      simp only [memoryFilled, memoryStaged, addressStaged, if_true, slots_update,
        decoder_recordAll, Slots.set_set, Slots.set_self, machine_update]
      rfl

theorem slots_located (pass : Pass) (encoding : Addressing) :
    (pass.located encoding).decoder.slot = pass.decoder.slot :=
  funext fun slot => pass.slot_located encoding slot

theorem slots_fieldFilled (pass : Pass) (modRm : ModRm) (field : Option (Slot × Bool)) :
    (pass.fieldFilled modRm field).decoder.slot =
      field.elim pass.decoder.slot fun (slot, load) =>
        Slots.set pass.decoder.slot slot
          ((pass.decoder.slot slot).withRegister pass.machine.registers modRm.reg load) := by
  cases field with
  | none => rfl
  | some target => exact pass.slots_registerFilled target.1 modRm.reg target.2

theorem slots_valueStaged (pass : Pass) (slot : Slot) (value : UInt32) :
    (pass.valueStaged slot value).decoder.slot =
      Slots.set pass.decoder.slot slot { pass.decoder.slot slot with value } :=
  (pass.recordAll _).slots_update slot _

theorem slots_immediateFetched (pass : Pass) (slot : Slot) (bytes : List UInt8) :
    (pass.immediateFetched slot bytes).decoder.slot =
      Slots.set pass.decoder.slot slot { pass.decoder.slot slot with
        kind := .immediate
        immediate := LittleEndian.ofBytes bytes } := by
  simp only [immediateFetched, slots_update, decoder_skip, Slots.set_set, Slots.set_self]

end Pass

namespace Step

theorem slots_effect (step : Step) (fields : OperandBytes) (pass : Pass) :
    (step.effect fields pass).decoder.slot =
      step.fill fields pass.machine.registers pass.machine.memory pass.decoder.context.opcode
        pass.decoder.slot := by
  cases step with
  | modRm slot load field =>
      rw [effect, fill]
      cases fields.addressing with
      | none => rfl
      | some encoding =>
          rw [Option.elim_some, Option.elim_some, Pass.resolved]
          by_cases memory : encoding.modRm.isMemory = true
          · simp only [Operand.withRm, memory, if_true, Pass.slots_memoryFilled, Pass.slots_located,
              Pass.slots_fieldFilled, (Pass.keeps_located _ encoding).memory,
              (Pass.keeps_fieldFilled _ encoding.modRm field).memory, Pass.registers_fieldFilled]
            rfl
          · simp only [Operand.withRm, memory, Bool.false_eq_true, if_false,
              Pass.slots_registerFilled, Pass.slots_fieldFilled, Pass.registers_fieldFilled]
            rfl
  | requireMemory => rfl
  | immediate slot =>
      simp only [effect, Pass.immediateFilled, Pass.slots_valueStaged, Pass.slots_immediateFetched,
        Slots.set_set, Slots.set_self]
      rfl
  | signedImmediate slot =>
      simp only [effect, Pass.signedImmediateFilled, Pass.slots_valueStaged, Pass.slots_update,
        Pass.slots_immediateFetched, Slots.set_set, Slots.set_self]
      rfl
  | accumulator slot load => exact pass.slots_registerFilled slot _ load
  | opcodeRegister slot load => exact pass.slots_registerFilled slot _ load
  | offset slot load => exact (pass.skip _).slots_memoryFilled slot _ load
  | cl slot =>
      simp only [effect, Pass.fixedRegisterFilled, Pass.slots_registerFilled, Pass.slots_update,
        Slots.set_set, Slots.set_self]
      rfl
  | dx slot =>
      simp only [effect, Pass.fixedRegisterFilled, Pass.slots_registerFilled, Pass.slots_update,
        Slots.set_set, Slots.set_self]
      rfl
  | one slot =>
      simp only [effect, Pass.oneFilled, Pass.slots_valueStaged, Pass.slots_update,
        Slots.set_set, Slots.set_self]
      rfl
  | narrowToByte slot => exact pass.slots_update slot _
  | requireWideDest => rfl
  | clipSource =>
      rw [effect, Pass.sourceClipped, fill, Operand.clippedTo]
      split
      · exact pass.slots_update .src _
      · exact (Slots.set_same pass.decoder.slot .src).symm
  | branchTarget => rfl

theorem keeps_effect (step : Step) (fields : OperandBytes) (pass : Pass) :
    pass.Keeps (step.effect fields pass) := by
  cases step with
  | modRm slot load field =>
      rw [effect]
      cases fields.addressing with
      | none => exact ⟨rfl, rfl, rfl⟩
      | some encoding => exact pass.keeps_resolved encoding slot load field
  | accumulator slot load => exact pass.keeps_registerFilled slot _ load
  | opcodeRegister slot load => exact pass.keeps_registerFilled slot _ load
  | offset slot load => cases load <;> cases slot <;> exact ⟨rfl, rfl, rfl⟩
  | clipSource =>
      rw [effect, Pass.sourceClipped]
      split <;> exact ⟨rfl, rfl, rfl⟩
  | requireMemory => exact ⟨rfl, rfl, rfl⟩
  | requireWideDest => exact ⟨rfl, rfl, rfl⟩
  | branchTarget => exact ⟨rfl, rfl, rfl⟩
  | immediate slot => cases slot <;> exact ⟨rfl, rfl, rfl⟩
  | signedImmediate slot => cases slot <;> exact ⟨rfl, rfl, rfl⟩
  | cl slot => cases slot <;> exact ⟨rfl, rfl, rfl⟩
  | dx slot => cases slot <;> exact ⟨rfl, rfl, rfl⟩
  | one slot => cases slot <;> exact ⟨rfl, rfl, rfl⟩
  | narrowToByte slot => cases slot <;> exact ⟨rfl, rfl, rfl⟩

/-- What a sequence of steps leaves in the slots depends on the machine only as it was. -/
theorem slots_effectAll (steps : List Step) (fields : OperandBytes) (pass : Pass) :
    (effectAll fields steps pass).decoder.slot =
      steps.foldl (fill fields pass.machine.registers pass.machine.memory
        pass.decoder.context.opcode) pass.decoder.slot := by
  induction steps generalizing pass with
  | nil => rfl
  | cons step rest inductionHypothesis =>
      have kept := step.keeps_effect fields pass
      rw [effectAll, List.foldl_cons, List.foldl_cons, ← step.slots_effect]
      apply (inductionHypothesis (step.effect fields pass)).trans
      rw [kept.registers, kept.memory, kept.opcode]

end Step

/-! ## The table -/

/-- What an operand slot stands for. The value of a role that is not loaded stays zero. -/
inductive Role where
  | empty
  /-- The register or memory that a ModR/M encoding designates. -/
  | rm (load : Bool)
  /-- The register in the register field of a ModR/M byte. -/
  | field (load : Bool)
  | opcodeRegister (load : Bool)
  | accumulator (load : Bool)
  | cl
  | dx
  /-- The memory at a 32-bit offset. -/
  | offset (load : Bool)
  | immediate
  | byteImmediate
  | signedImmediate
  /-- A sign-extended byte, cut to a destination of two bytes. -/
  | signedByte
  | one
deriving DecidableEq, Repr

/-- The roles of the three slots. -/
structure Roles where
  dest : Role
  src : Role
  src2 : Role

def Roles.slot (roles : Roles) : Slot → Role
  | .dest => roles.dest
  | .src => roles.src
  | .src2 => roles.src2

/-- The table of operand patterns. -/
def Shape.roles : Shape → Roles
  | implied => ⟨.empty, .empty, .empty⟩
  | regToRm => ⟨.rm true, .field true, .empty⟩
  | storeRegToRm => ⟨.rm false, .field true, .empty⟩
  | rmToReg => ⟨.field true, .rm true, .empty⟩
  | loadRmToReg => ⟨.field false, .rm true, .empty⟩
  | addressToReg => ⟨.field false, .rm false, .empty⟩
  | immToAcc => ⟨.accumulator true, .immediate, .empty⟩
  | rmImmToReg => ⟨.field false, .immediate, .rm true⟩
  | rmSignedImmToReg => ⟨.field false, .signedByte, .rm true⟩
  | immToRm => ⟨.rm true, .immediate, .empty⟩
  | storeImmToRm => ⟨.rm false, .immediate, .empty⟩
  | signedImmToRm => ⟨.rm true, .signedByte, .empty⟩
  | immToOpcodeReg => ⟨.opcodeRegister true, .immediate, .empty⟩
  | storeImmToOpcodeReg => ⟨.opcodeRegister false, .immediate, .empty⟩
  | accWithOpcodeReg => ⟨.opcodeRegister true, .accumulator true, .empty⟩
  | imm => ⟨.immediate, .empty, .empty⟩
  | opcodeReg => ⟨.opcodeRegister true, .empty, .empty⟩
  | rm => ⟨.rm true, .empty, .empty⟩
  | storeToRm => ⟨.rm false, .empty, .empty⟩
  | groupImm => ⟨.empty, .immediate, .empty⟩
  | branch => ⟨.signedImmediate, .empty, .empty⟩
  | signedImm => ⟨.signedImmediate, .empty, .empty⟩
  | shiftByOne => ⟨.rm true, .one, .empty⟩
  | shiftByCl => ⟨.rm true, .cl, .empty⟩
  | shiftByImm => ⟨.rm true, .byteImmediate, .empty⟩
  | doubleShiftByImm => ⟨.rm true, .byteImmediate, .field true⟩
  | doubleShiftByCl => ⟨.rm true, .cl, .field true⟩
  | inputImm => ⟨.accumulator false, .byteImmediate, .empty⟩
  | inputDx => ⟨.accumulator false, .dx, .empty⟩
  | outputImm => ⟨.byteImmediate, .accumulator true, .empty⟩
  | outputDx => ⟨.dx, .accumulator true, .empty⟩
  | offsetToAcc => ⟨.accumulator false, .offset true, .empty⟩
  | accToOffset => ⟨.offset false, .accumulator true, .empty⟩

/-- The role of a slot in a selection: the pattern that a group member adds goes over the slots
that it fills. -/
def Selection.role (selection : Selection) (slot : Slot) : Role :=
  let added := selection.extra.roles.slot slot
  if added = .empty then selection.form.shape.roles.slot slot else added

namespace Machine

/-- The operand that a register is; its value is read if `load`. -/
def registerOperand (machine : Machine) (number width : UInt8) (load : Bool) :
    Except Violation Operand := do
  let value ← if load then machine.registers.read number width else pure 0
  return { Operand.ofWidth width with kind := .register, number, value }

/-- The operand that memory at an address is; its value is read if `load`. -/
def memoryOperand (machine : Machine) (address : UInt32) (width : UInt8) (load : Bool) :
    Except Violation Operand := do
  let value ← if load then machine.memory.read address width else pure 0
  return { Operand.ofWidth width with kind := .memory, address, value }

end Machine

/-- The operand that a role stands for in an encoding, on a machine, in a slot of the given width.
`dest` is the width of the destination. -/
def Role.operand (role : Role) (encoding : Encoding) (machine : Machine) (width dest : UInt8) :
    Except Violation Operand :=
  let empty := Operand.ofWidth width
  let bytes := encoding.operands.immediate
  let word := UInt32.ofNat (LittleEndian.number bytes)
  let extended := displacementWord bytes
  match role with
  | .empty => pure empty
  | .rm load => encoding.operands.addressing.elim (pure empty) fun rm =>
      if rm.modRm.isMemory then
        machine.memoryOperand (rm.address machine.registers) width load
      else
        machine.registerOperand rm.modRm.rm width load
  | .field load => encoding.operands.addressing.elim (pure empty) fun rm =>
      machine.registerOperand rm.modRm.reg width load
  | .opcodeRegister load => machine.registerOperand (encoding.opcode.found.byte &&& 7) width load
  | .accumulator load => machine.registerOperand 0 width load
  | .cl => machine.registerOperand 1 1 true
  | .dx => machine.registerOperand 2 2 true
  | .offset load => machine.memoryOperand word width load
  | .immediate => pure (empty.withImmediate word)
  | .byteImmediate => pure ((Operand.ofWidth 1).withImmediate word)
  | .signedImmediate =>
      pure { empty.withImmediate word with
        value := extended
        signedImmediate := extended.toInt32 }
  | .signedByte =>
      pure { (Operand.ofWidth 1).withImmediate word with
        value := if dest = 2 then extended &&& 0xFFFF else extended
        signedImmediate := extended.toInt32 }
  | .one => pure (empty.withImmediate 1)

/-! ## The slots that a selection leaves -/

theorem Machine.registerOperand_eq (machine : Machine) (number : UInt8) (load : Bool)
    {width : UInt8} (valid : ValidWidth width) :
    machine.registerOperand number width load =
      .ok ((Operand.ofWidth width).withRegister machine.registers number load) := by
  cases load with
  | false => rfl
  | true =>
      have held := Registers.read_ok_iff.mpr
        ⟨valid, (rfl : _ = machine.registers.contents number width)⟩
      unfold registerOperand
      rw [if_pos rfl, held]
      rfl

theorem Machine.memoryOperand_eq (machine : Machine) (address : UInt32) (load : Bool)
    {width : UInt8} (valid : ValidWidth width) :
    machine.memoryOperand address width load =
      .ok ((Operand.ofWidth width).withMemory machine.memory address load) := by
  cases load with
  | false => rfl
  | true =>
      have held := Memory.read_ok_iff.mpr
        ⟨valid, (rfl : _ = machine.memory.contents address width)⟩
      unfold memoryOperand
      rw [if_pos rfl, held]
      rfl

theorem signExtension_ofBytes {bytes : List UInt8} {width : UInt8}
    (length : bytes.length = width.toNat) (signed : width = 1 ∨ width = 4) :
    signExtension (LittleEndian.ofBytes bytes) width = displacementWord bytes := by
  rcases signed with rfl | rfl
  · obtain ⟨byte, rfl⟩ := List.length_eq_one_iff.mp length
    have low : (LittleEndian.ofBytes [byte]).toUInt8 = byte := by
      have small : byte.toNat < 256 := byte.toNat_lt
      apply UInt8.toNat_inj.mp
      rw [UInt32.toNat_toUInt8, LittleEndian.toNat_ofBytes _ (by simp), LittleEndian.number,
        LittleEndian.number]
      omega
    change (LittleEndian.ofBytes [byte]).toUInt8.toInt8.toInt32.toUInt32 = signedByte byte
    rw [low, signedByte_eq]
  · exact (Pass.displacementWord_of_length length).symm

/-- The operand that a role leaves in a slot, in the terms of the steps that fill it. -/
def Role.filled (role : Role) (fields : OperandBytes) (registers : Registers) (memory : Memory)
    (opcode width dest : UInt8) : Operand :=
  let empty := Operand.ofWidth width
  let word := LittleEndian.ofBytes fields.immediate
  match role with
  | .empty => empty
  | .rm load => fields.addressing.elim empty fun rm => empty.withRm registers memory rm load
  | .field load => fields.addressing.elim empty fun rm =>
      empty.withRegister registers rm.modRm.reg load
  | .opcodeRegister load => empty.withRegister registers (opcode &&& 7) load
  | .accumulator load => empty.withRegister registers Register.accumulator load
  | .cl => (Operand.ofWidth 1).withRegister registers Register.cl true
  | .dx => (Operand.ofWidth 2).withRegister registers Register.dx true
  | .offset load => empty.withMemory memory word load
  | .immediate => empty.withImmediate word
  | .byteImmediate => (Operand.ofWidth 1).withImmediate word
  | .signedImmediate => empty.withSignedImmediate word
  | .signedByte => ((Operand.ofWidth 1).withSignedImmediate word).clippedTo dest
  | .one => empty.withImmediate 1

/-- The steps of a pattern fill the slots as the table says. -/
theorem Shape.fill_eq_filled (shape : Shape) (fields : OperandBytes) (registers : Registers)
    (memory : Memory) (opcode : UInt8) (widths : Slot → UInt8) (slot : Slot) :
    shape.steps.foldl (Step.fill fields registers memory opcode)
        (fun slot => .ofWidth (widths slot)) slot =
      (shape.roles.slot slot).filled fields registers memory opcode (widths slot)
        (widths .dest) := by
  obtain ⟨addressing, immediate⟩ := fields
  cases addressing with
  | none => cases shape <;> cases slot <;> rfl
  | some rm =>
      cases shape with
      | signedImmToRm =>
          -- The source is cut to the destination, which has been filled before.
          cases slot with
          | src => exact congrArg (Operand.clippedTo _) (Operand.width_withRm ..)
          | dest => rfl
          | src2 => rfl
      | _ => cases slot <;> rfl

namespace Selection

theorem fill_eq_filled {selection : Selection} (regular : selection.Regular)
    (fields : OperandBytes) (registers : Registers) (memory : Memory) (opcode : UInt8)
    (widths : Slot → UInt8) (slot : Slot) :
    selection.steps.foldl (Step.fill fields registers memory opcode)
        (fun slot => .ofWidth (widths slot)) slot =
      (selection.role slot).filled fields registers memory opcode (widths slot)
        (widths .dest) := by
  unfold steps role
  rcases regular.extra with plain | ⟨added, rm⟩
  · rw [plain, Shape.steps, List.append_nil, Shape.fill_eq_filled]
    cases slot <;> rfl
  · rw [added, rm]
    obtain ⟨addressing, immediate⟩ := fields
    cases addressing <;> cases slot <;> rfl

theorem length_immediate_le {selection : Selection} (regular : selection.Regular)
    {size : OperandSize} {operands : OperandBytes} (takes : selection.Takes size operands) :
    operands.immediate.length ≤ 4 := by
  rw [takes.immediate, immediateLength]
  have short := Shape.immediateLength_le (selection.form.width.validWidth_bytes size)
  rcases regular.extra with plain | ⟨added, rm⟩
  · rw [plain]
    exact short selection.form.shape
  · rw [added, rm]
    exact (Nat.zero_add _).symm ▸ short .groupImm

/-- A signed immediate of a whole operand goes to the destination. -/
theorem signed_of_role {selection : Selection} (regular : selection.Regular) {slot : Slot}
    (role : selection.role slot = .signedImmediate) :
    slot = .dest ∧ (selection.form.shape = .branch ∨ selection.form.shape = .signedImm) ∧
      selection.extra = .implied := by
  unfold Selection.role at role
  rcases regular.extra with plain | ⟨added, rm⟩
  · rw [plain] at role
    cases shape : selection.form.shape <;> cases slot <;>
      simp_all [Shape.roles, Roles.slot]
  · rw [added, rm] at role
    cases slot <;> cases role

/-- An immediate of one byte, sign-extended or not, is the only one of its instruction. -/
theorem length_of_role {selection : Selection} (regular : selection.Regular) {slot : Slot}
    (role : selection.role slot = .signedByte ∨ selection.role slot = .byteImmediate)
    (size : OperandSize) : selection.immediateLength size = 1 := by
  unfold Selection.role at role
  unfold immediateLength
  rcases regular.extra with plain | ⟨added, rm⟩
  · rw [plain] at role ⊢
    cases shape : selection.form.shape <;> cases slot <;>
      simp_all [Shape.roles, Roles.slot, Shape.immediateLength]
  · rw [added, rm] at role
    cases slot <;> rcases role with role | role <;> cases role

/-- The table describes what the steps of a selection leave in each slot. -/
theorem operand_eq_filled {selection : Selection} (regular : selection.Regular)
    {size : OperandSize} {encoding : Encoding} (takes : selection.Takes size encoding.operands)
    (machine : Machine) (slot : Slot) :
    (selection.role slot).operand encoding machine (selection.widths size slot)
        (selection.widths size .dest) =
      .ok ((selection.role slot).filled encoding.operands machine.registers machine.memory
        encoding.opcode.found.byte (selection.widths size slot) (selection.widths size .dest)) := by
  have word : UInt32.ofNat (LittleEndian.number encoding.operands.immediate) =
      LittleEndian.ofBytes encoding.operands.immediate := by
    rw [← LittleEndian.toNat_ofBytes _ (length_immediate_le regular takes), UInt32.ofNat_toNat]
  have valid := selection.validWidth_widths size slot
  cases role : selection.role slot with
  | empty => rfl
  | rm load =>
      unfold Role.operand Role.filled
      cases encoding.operands.addressing with
      | none => rfl
      | some rm =>
          simp only [Option.elim_some, Operand.withRm]
          rw [machine.memoryOperand_eq _ load valid, machine.registerOperand_eq _ load valid]
          split <;> rfl
  | field load =>
      unfold Role.operand Role.filled
      cases encoding.operands.addressing with
      | none => rfl
      | some rm => exact machine.registerOperand_eq rm.modRm.reg load valid
  | opcodeRegister load => exact machine.registerOperand_eq _ load valid
  | accumulator load => exact machine.registerOperand_eq _ load valid
  | cl => exact machine.registerOperand_eq _ true (.inl rfl)
  | dx => exact machine.registerOperand_eq _ true (.inr (.inl rfl))
  | offset load =>
      simp only [Role.operand, Role.filled, word]
      exact machine.memoryOperand_eq _ load valid
  | immediate =>
      simp only [Role.operand, Role.filled, word]
      rfl
  | byteImmediate =>
      simp only [Role.operand, Role.filled, word]
      rfl
  | signedImmediate =>
      obtain ⟨isDest, signed, plain⟩ := signed_of_role regular role
      have width : selection.widths size slot = selection.form.width.bytes size := by
        rw [isDest]
        rfl
      have length : encoding.operands.immediate.length =
          (selection.widths size slot).toNat := by
        rw [takes.immediate, immediateLength, plain, width]
        rcases signed with branch | signedImm
        · rw [branch]
          rfl
        · rw [signedImm]
          rfl
      have extended := signExtension_ofBytes length (width ▸ signedWidth regular signed size)
      simp only [Role.operand, Role.filled, word, ← extended]
      rfl
  | signedByte =>
      have length : encoding.operands.immediate.length = (1 : UInt8).toNat :=
        takes.immediate.trans (length_of_role regular (.inl role) size)
      have extended := signExtension_ofBytes length (.inl rfl)
      simp only [Role.operand, Role.filled, word, ← extended, Operand.clippedTo]
      split <;> rfl
  | one => rfl

end Selection

def Instruction.operand (instruction : Instruction) : Slot → Operand
  | .dest => instruction.dest
  | .src => instruction.src
  | .src2 => instruction.src2

namespace Pass

theorem slots_begun (pass : Pass) (opcode : UInt8) (selection : Selection)
    (size : OperandSize) :
    (pass.begun opcode selection.form size).decoder.slot =
      fun slot => .ofWidth (selection.widths size slot) := by
  funext slot
  unfold begun Selection.widths
  cases selection.form.sourceWidth <;> cases slot <;> rfl

theorem keeps_begun (pass : Pass) (opcode : UInt8) (form : Form) (size : OperandSize) :
    (pass.begun opcode form size).machine = pass.machine ∧
      (pass.begun opcode form size).decoder.context.opcode = opcode := by
  unfold begun
  cases form.sourceWidth <;> exact ⟨rfl, rfl⟩

theorem slots_operandsDecoded (pass : Pass) (size : OperandSize) (opcode : OpcodeBytes)
    (operands : OperandBytes) (selection : Selection) :
    (pass.operandsDecoded size opcode operands selection).decoder.slot =
      selection.steps.foldl
        (Step.fill operands pass.machine.registers pass.machine.memory opcode.found.byte)
        fun slot => .ofWidth (selection.widths size slot) := by
  obtain ⟨machine, opcodeByte⟩ := (pass.skip opcode.rest.length).keeps_begun opcode.found.byte
    selection.form size
  rw [operandsDecoded, Step.slots_effectAll, slots_begun, machine, opcodeByte]
  rfl

/-- The operands of an encoded instruction are those of the roles of its slots. -/
theorem operand_instruction (pass : Pass) (encoding : Encoding) {selection : Selection}
    (regular : selection.Regular) (slot : Slot) :
    (pass.instruction encoding selection).operand slot =
      (selection.role slot).filled encoding.operands pass.machine.registers pass.machine.memory
        encoding.opcode.found.byte
        (selection.widths (encoding.operandSize pass.decoder.defaultSize) slot)
        (selection.widths (encoding.operandSize pass.decoder.defaultSize) .dest) := by
  have held : (pass.instruction encoding selection).operand slot =
      (pass.staged encoding selection).decoder.slot slot := by
    cases slot <;> rfl
  rw [held, staged, slots_operandsDecoded, Selection.fill_eq_filled regular]
  rfl

/-- Decoding leaves in every slot the operand that the table of patterns gives, its width that of
the row at the operand size of the instruction, and its value that of a register or of memory as
they were before. -/
theorem decode_operands {pass after : Pass} {instruction : Instruction}
    (ran : decode pass = .ok instruction after) :
    ∃ (encoding : Encoding) (selection : Selection),
      encoding.Encodes pass.decoder.defaultSize selection ∧
        pass.stream.Holds encoding.bytes ∧
        instruction.operandSize = encoding.operandSize pass.decoder.defaultSize ∧
        ∀ slot : Slot,
          (selection.role slot).operand encoding pass.machine
              (selection.widths instruction.operandSize slot)
              (selection.widths instruction.operandSize .dest) =
            .ok (instruction.operand slot) := by
  obtain ⟨encoding, selection, ⟨encodes, holds⟩, rfl, rfl⟩ := decode_ok_iff.mp ran
  refine ⟨encoding, selection, encodes, holds, rfl, ?_⟩
  intro slot
  have regular := Row.regular_selection? encoding.opcode.regular_row encodes.selected
  have held : (pass.instruction encoding selection).operand slot =
      (pass.staged encoding selection).decoder.slot slot := by
    cases slot <;> rfl
  rw [held, staged, slots_operandsDecoded, Selection.fill_eq_filled regular]
  exact Selection.operand_eq_filled regular encodes.operands pass.machine slot

/-- `imul ax, word ptr [ebx + 4], -2`. -/
theorem decode_operands_imul :
    ∃ (instruction : Instruction) (after : Pass),
      decode (.ofBytes #[0x66, 0x6B, 0x43, 0x04, 0xFE] []) = .ok instruction after ∧
        instruction.dest = ⟨.register, 2, 0, 0, 0, 0, 0⟩ ∧
        instruction.src = ⟨.immediate, 1, 0, 0, 0xFFFE, 0xFE, -2⟩ ∧
        ∃ (encoding : Encoding) (selection : Selection),
          encoding.Encodes .bits32 selection ∧
            ∀ slot : Slot,
              (selection.role slot).operand encoding
                  (ofBytes #[0x66, 0x6B, 0x43, 0x04, 0xFE] []).machine
                  (selection.widths instruction.operandSize slot)
                  (selection.widths instruction.operandSize .dest) =
                .ok (instruction.operand slot) := by
  refine ⟨_, _, decode_imul, by decide +kernel, by decide +kernel, ?_⟩
  obtain ⟨found, chosen, isEncoding, -, -, operands⟩ := decode_operands decode_imul
  exact ⟨found, chosen, isEncoding, operands⟩

end Pass

end I386
