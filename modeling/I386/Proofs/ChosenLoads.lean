import I386.Proofs.Transfers

/-!
Contract: resolving an encoding with and without staging its operands.

Owns:
- passes that addresses cannot tell apart, and what computing an address does to both;
- a run that stages only what it is told to, next to one that stages everything.

Main statement: whether values are staged changes nothing else. The run that stages less ends as the
other one does, with the same operands but for zeros in place of the values, and makes the same
transfers but for those that would have brought them.

Does not own: what the values are.
-/

namespace I386

namespace Operand

/-- The transfer that brings the value of an operand. -/
def loads (operand : Operand) : List MicroOp :=
  match operand.kind with
  | .register => [.loadRegister operand.number operand.width]
  | .memory => [.loadMemory operand.address operand.width]
  | .none => []
  | .immediate => []

/-- The operand with its value if `load`, and with zero in its place if not. -/
def stagedIf (operand : Operand) (load : Bool) : Operand :=
  { operand with value := if load then operand.value else 0 }

theorem stagedIf_ofWidth (width : UInt8) (load : Bool) :
    (ofWidth width).stagedIf load = ofWidth width := by
  cases load <;> rfl

theorem withRegister_ofWidth (width : UInt8) (registers : Registers) (number : UInt8)
    (load : Bool) :
    (ofWidth width).withRegister registers number load =
      ((ofWidth width).withRegister registers number true).stagedIf load := by
  cases load <;> rfl

theorem withMemory_ofWidth (width : UInt8) (memory : Memory) (address : UInt32) (load : Bool) :
    (ofWidth width).withMemory memory address load =
      ((ofWidth width).withMemory memory address true).stagedIf load := by
  cases load <;> rfl

end Operand

/-- What the address of an operand is computed from: bytes and registers. -/
def Rules.withoutSlots : Rules where
  slots := False
  valid := True
  reads := False
  looks := False
  branches := False
  exact := True

/-- A slot is empty, and has a width that operands can have. -/
def Decoder.Fresh (decoder : Decoder) (slot : Slot) : Prop :=
  ∃ width, ValidWidth width ∧ decoder.slot slot = .ofWidth width

namespace Pass

/-! ## Verdicts -/

/-- Outcomes with the same verdict, which is no broken contract, on passes that are related. -/
inductive Agree {α : Type} (related : Pass → Pass → Prop) :
    EStateM.Result Fault Pass α → EStateM.Result Fault Pass α → Prop where
  | ok (value : α) {after reached : Pass} (isRelated : related after reached) :
      Agree related (.ok value after) (.ok value reached)
  | error (error : DecodeError) {failed stopped : Pass} (isRelated : related failed stopped) :
      Agree related (.error (.decode error) failed) (.error (.decode error) stopped)

theorem Agree.mono {α : Type} {early late : Pass → Pass → Prop}
    {outcome result : EStateM.Result Fault Pass α} (agree : Agree early outcome result)
    (weaker : ∀ after reached, early after reached → late after reached) :
    Agree late outcome result := by
  cases agree with
  | ok value isRelated => exact .ok value (weaker _ _ isRelated)
  | error error isRelated => exact .error error (weaker _ _ isRelated)

/-- Sequences agree if their parts do. What was related before the second part failed stays so. -/
theorem Agree.bind {α β : Type} {early late : Pass → Pass → Prop} {first other : PassM α}
    {next rest : α → PassM β} {pass elsewhere : Pass}
    (one : Agree early (first pass) (other elsewhere))
    (stays : ∀ after reached, early after reached → late after reached)
    (two : ∀ value after reached, early after reached →
      Agree late (next value after) (rest value reached)) :
    Agree late ((first >>= next) pass) ((other >>= rest) elsewhere) := by
  generalize ran : first pass = outcome at one
  generalize otherRan : other elsewhere = result at one
  cases one with
  | ok value isRelated =>
      rw [bind_of_ok ran, bind_of_ok otherRan]
      exact two value _ _ isRelated
  | error error isRelated =>
      rw [bind_of_error ran, bind_of_error otherRan]
      exact .error error (stays _ _ isRelated)

/-! ## Addresses -/

/-- Passes that a computation without slots cannot tell apart. -/
structure Twins (pass other : Pass) : Prop where
  stream : other.stream = pass.stream
  context : other.decoder.context = pass.decoder.context
  registers : other.machine.registers = pass.machine.registers
  memory : other.machine.memory = pass.machine.memory

/-- From twins to twins, with the same transfers and without a change of slots. -/
structure Along (pass other after reached : Pass) : Prop where
  twins : after.Twins reached
  decoder : after.decoder = { pass.decoder with context := after.decoder.context }
  otherDecoder : reached.decoder = { other.decoder with context := reached.decoder.context }
  recorded : ∃ ops, after.machine = pass.machine.recordAll ops ∧
    reached.machine = other.machine.recordAll ops

theorem Twins.along {pass other : Pass} (twins : pass.Twins other) : Along pass other pass other :=
  ⟨twins, rfl, rfl, [], pass.machine.recordAll_nil.symm, other.machine.recordAll_nil.symm⟩

theorem Along.trans {pass other between elsewhere after reached : Pass}
    (one : Along pass other between elsewhere) (two : Along between elsewhere after reached) :
    Along pass other after reached := by
  obtain ⟨-, decoder, otherDecoder, early, machine, otherMachine⟩ := one
  obtain ⟨twins, laterDecoder, laterOther, late, laterMachine, laterOtherMachine⟩ := two
  rw [decoder] at laterDecoder
  rw [otherDecoder] at laterOther
  rw [machine, Machine.recordAll_recordAll] at laterMachine
  rw [otherMachine, Machine.recordAll_recordAll] at laterOtherMachine
  exact ⟨twins, laterDecoder, laterOther, early ++ late, laterMachine, laterOtherMachine⟩

theorem agree_fetchByte {pass other : Pass} (twins : pass.Twins other) :
    Agree (Along pass other) (fetchByte pass) (fetchByte other) := by
  have stream := twins.stream
  cases mapped : pass.stream.byteAt? pass.stream.cursor with
  | none =>
      have unmapped : other.stream.byteAt? other.stream.cursor = none := stream ▸ mapped
      rw [fetchByte_of_unmapped pass mapped, fetchByte_of_unmapped other unmapped, stream]
      exact .error _ twins.along
  | some byte =>
      have otherMapped : other.stream.byteAt? other.stream.cursor = some byte := stream ▸ mapped
      have skipped : (pass.skip 1).Twins (other.skip 1) :=
        ⟨congrArg (Stream.skip · 1) stream, twins.context, twins.registers, twins.memory⟩
      rw [fetchByte_ok_iff.mpr ⟨mapped, rfl⟩, fetchByte_ok_iff.mpr ⟨otherMapped, rfl⟩]
      exact .ok byte ⟨skipped, rfl, rfl, [], pass.machine.recordAll_nil.symm,
        other.machine.recordAll_nil.symm⟩

/-- Without slots, a composed computation does the same to twins. -/
theorem Paired.agree {α : Type} {rules : Rules} {certain : Prop} {first second : PassM α}
    (paired : Paired rules certain first second) (valid : rules.valid) (bare : ¬rules.slots)
    (takes : ¬rules.looks) {pass other : Pass} (twins : pass.Twins other) :
    Agree (Along pass other) (first pass) (first other) := by
  induction paired generalizing pass other with
  | @pure _ _ value => exact .ok value twins.along
  | violate lenient violation => exact absurd valid lenient
  | fetchByte => exact agree_fetchByte twins
  | @load _ op _ alike known =>
      obtain ⟨value, held⟩ := MicroOp.exists_held_of_loads (alike.sized valid)
        pass.machine.registers pass.machine.memory
      have recorded : (pass.recordAll [op]).Twins (other.recordAll [op]) :=
        ⟨twins.stream, twins.context, twins.registers, twins.memory⟩
      rw [transfer_of_isLoad alike.isLoad, transfer_of_isLoad alike.isLoad, twins.registers,
        twins.memory, held]
      exact .ok value ⟨recorded, rfl, rfl, [op], rfl, rfl⟩
  | setAddressCell value _ =>
      refine .ok () ⟨⟨twins.stream, ?_, twins.registers, twins.memory⟩, rfl, rfl, [],
        pass.machine.recordAll_nil.symm, other.machine.recordAll_nil.symm⟩
      exact congrArg (fun context : Context =>
        { context with scratch := { context.scratch with address := value } }) twins.context
  | currentOpcode =>
      have opcode : I386.Pass.currentOpcode other =
          .ok pass.decoder.context.opcode other :=
        congrArg (fun context : Context => EStateM.Result.ok context.opcode other) twins.context
      rw [opcode]
      exact .ok _ twins.along
  | modifyOperand free slot alike keeps => exact absurd free bare
  | requireMemory looks => exact absurd looks takes
  | resolveBranch free isBranch => exact absurd free bare
  | withOperand free slot rest nextAgree => exact absurd free bare
  | bind one rest firstAgree nextAgree =>
      refine (firstAgree twins).bind (fun _ _ along => along) fun value after reached along => ?_
      exact (nextAgree value value (fun _ => rfl) along.twins).mono fun _ _ later =>
        along.trans later

/-! ## Chosen loads -/

/-- What a run leaves that stages the value of `slot` if `load` and that of `field` if `fieldLoad`,
next to what one leaves that stages both. Slots differ in values only, which are zero where they are
not staged, and the records in the loads of these values only. -/
structure Selects (before : Pass) (slot : Slot) (load : Bool) (field : Option Slot)
    (fieldLoad : Bool) (full reached : Pass) : Prop where
  stream : reached.stream = full.stream
  context : reached.decoder.context = full.decoder.context
  defaultSize : reached.decoder.defaultSize = full.decoder.defaultSize
  operand : reached.decoder.slot slot = (full.decoder.slot slot).stagedIf load
  register : ∀ target ∈ field,
    reached.decoder.slot target = (full.decoder.slot target).stagedIf fieldLoad
  others : ∀ other, other ≠ slot → other ∉ field →
    reached.decoder.slot other = full.decoder.slot other
  recorded : ∃ ops,
    let ofField := field.elim [] fun target => (full.decoder.slot target).loads
    let ofOperand := (full.decoder.slot slot).loads
    full.machine = before.machine.recordAll (ofField ++ ops ++ ofOperand) ∧
      reached.machine = before.machine.recordAll
        ((if fieldLoad then ofField else []) ++ ops ++ if load then ofOperand else [])

section Selects

variable {before full reached : Pass} {slot : Slot} {load : Bool} {field : Option Slot}
  {fieldLoad : Bool}

theorem Selects.twins (selects : Selects before slot load field fieldLoad full reached) :
    full.Twins reached := by
  obtain ⟨ops, machine, otherMachine⟩ := selects.recorded
  refine ⟨selects.stream, selects.context, ?_, ?_⟩
  · rw [machine, otherMachine]
    rfl
  · rw [machine, otherMachine]
    rfl

/-- As long as the operand is empty, what is done along leaves the rest to the choice. -/
theorem Selects.along (selects : Selects before slot load field fieldLoad full reached)
    {after stopped : Pass} (along : Along full reached after stopped) {width : UInt8}
    (empty : full.decoder.slot slot = .ofWidth width) :
    Selects before slot load field fieldLoad after stopped ∧
      after.decoder.slot slot = .ofWidth width := by
  obtain ⟨twins, decoder, otherDecoder, more, machine, otherMachine⟩ := along
  have slots : after.decoder.slot = full.decoder.slot := by
    rw [decoder]
    funext other
    cases other <;> rfl
  have otherSlots : stopped.decoder.slot = reached.decoder.slot := by
    rw [otherDecoder]
    funext other
    cases other <;> rfl
  have size : after.decoder.defaultSize = full.decoder.defaultSize := by rw [decoder]
  have otherSize : stopped.decoder.defaultSize = reached.decoder.defaultSize := by
    rw [otherDecoder]
  obtain ⟨ops, fullMachine, reachedMachine⟩ := selects.recorded
  have none : (Operand.ofWidth width).loads = [] := rfl
  rw [empty, none] at fullMachine reachedMachine
  refine ⟨⟨twins.stream, twins.context, ?_, ?_, ?_, ?_, ops ++ more, ?_⟩, ?_⟩
  · rw [size, otherSize, selects.defaultSize]
  · rw [slots, otherSlots, selects.operand]
  · rw [slots, otherSlots]
    exact selects.register
  · rw [slots, otherSlots]
    exact selects.others
  · rw [slots, empty, none]
    constructor
    · rw [machine, fullMachine, Machine.recordAll_recordAll]
      simp
    · rw [otherMachine, reachedMachine, Machine.recordAll_recordAll]
      simp
  · rw [slots, empty]

/-- Where nothing has been filled, there is nothing to choose. -/
theorem selects_of_fresh (fresh : full.decoder.Fresh slot)
    (fieldFresh : ∀ target ∈ field, full.decoder.Fresh target)
    (same : full.machine = before.machine) :
    Selects before slot load field fieldLoad full full := by
  have staged (target : Slot) (isFresh : full.decoder.Fresh target) (isLoaded : Bool) :
      full.decoder.slot target = (full.decoder.slot target).stagedIf isLoaded := by
    obtain ⟨width, -, empty⟩ := isFresh
    rw [empty, Operand.stagedIf_ofWidth]
  have none (target : Slot) (isFresh : full.decoder.Fresh target) :
      (full.decoder.slot target).loads = [] := by
    obtain ⟨width, -, empty⟩ := isFresh
    rw [empty]
    rfl
  have ofField : (field.elim [] fun target => (full.decoder.slot target).loads) = [] := by
    cases named : field with
    | none => rfl
    | some target => exact none target (fieldFresh target named)
  refine ⟨rfl, rfl, rfl, staged slot fresh load, fun target isIn => ?_, fun _ _ _ => rfl, [], ?_⟩
  · exact staged target (fieldFresh target isIn) fieldLoad
  · rw [ofField, none slot fresh]
    simp [same]

end Selects

/-! ## Filling a slot -/

/-- One slot has been filled with an operand, and transfers have been recorded. -/
structure Fills (slot : Slot) (operand : Operand) (ops : List MicroOp) (pass after : Pass) :
    Prop where
  stream : after.stream = pass.stream
  context : after.decoder.context = pass.decoder.context
  defaultSize : after.decoder.defaultSize = pass.decoder.defaultSize
  slots : after.decoder.slot = Slots.set pass.decoder.slot slot operand
  machine : after.machine = pass.machine.recordAll ops

theorem fills_registerFilled (pass : Pass) (slot : Slot) (number : UInt8) (load : Bool) :
    Fills slot ((pass.decoder.slot slot).withRegister pass.machine.registers number load)
      (registerTransfers number (pass.widths slot) load) pass
      (pass.registerFilled slot number load) where
  stream := pass.stream_registerFilled slot number load
  context := by cases load <;> cases slot <;> rfl
  defaultSize := by cases load <;> cases slot <;> rfl
  slots := pass.slots_registerFilled slot number load
  machine := pass.machine_registerFilled slot number load

theorem fills_memoryFilled (pass : Pass) (slot : Slot) (address : UInt32) (load : Bool) :
    Fills slot ((pass.decoder.slot slot).withMemory pass.machine.memory address load)
      (memoryTransfers address (pass.widths slot) load) pass
      (pass.memoryFilled slot address load) where
  stream := pass.stream_memoryFilled slot address load
  context := by cases load <;> cases slot <;> rfl
  defaultSize := by cases load <;> cases slot <;> rfl
  slots := pass.slots_memoryFilled slot address load
  machine := pass.machine_memoryFilled slot address load

section Fills

variable {before full reached after stopped : Pass} {slot : Slot} {load : Bool}
  {field : Option Slot} {fieldLoad : Bool} {operand : Operand} {width : UInt8}

/-- The register field is filled from the same pass in both runs. -/
theorem selects_of_field {target : Slot} (apart : slot ≠ target)
    (fresh : full.decoder.Fresh slot) (same : full.machine = before.machine)
    (fills : Fills target operand operand.loads full after)
    (otherFills : Fills target (operand.stagedIf fieldLoad)
      (if fieldLoad then operand.loads else []) full stopped) :
    Selects before slot load (some target) fieldLoad after stopped := by
  obtain ⟨width, -, empty⟩ := fresh
  have own : after.decoder.slot slot = .ofWidth width := by
    rw [fills.slots, Slots.set, if_neg apart, empty]
  have none : (Operand.ofWidth width).loads = [] := rfl
  have named : after.decoder.slot target = operand := by rw [fills.slots, Slots.set_self]
  refine ⟨?_, ?_, ?_, ?_, ?_, ?_, [], ?_⟩
  · rw [fills.stream, otherFills.stream]
  · rw [fills.context, otherFills.context]
  · rw [fills.defaultSize, otherFills.defaultSize]
  · rw [own, otherFills.slots, Slots.set, if_neg apart, empty, Operand.stagedIf_ofWidth]
  · intro other isIn
    cases isIn
    rw [named, otherFills.slots, Slots.set_self]
  · intro other _ outside
    have another : other ≠ target := fun isTarget => outside (isTarget ▸ rfl)
    rw [fills.slots, otherFills.slots, Slots.set, Slots.set, if_neg another, if_neg another]
  · rw [Option.elim_some, named, own, none, fills.machine, otherFills.machine, same]
    simp

/-- The operand is filled last. -/
theorem Selects.filled (selects : Selects before slot load field fieldLoad full reached)
    (apart : slot ∉ field) (empty : full.decoder.slot slot = .ofWidth width)
    (early : List MicroOp) (fills : Fills slot operand (early ++ operand.loads) full after)
    (otherFills : Fills slot (operand.stagedIf load)
      (early ++ if load then operand.loads else []) reached stopped) :
    Selects before slot load field fieldLoad after stopped := by
  obtain ⟨ops, fullMachine, reachedMachine⟩ := selects.recorded
  have none : (Operand.ofWidth width).loads = [] := rfl
  rw [empty, none] at fullMachine reachedMachine
  have own : after.decoder.slot slot = operand := by rw [fills.slots, Slots.set_self]
  have outside (other : Slot) (another : other ≠ slot) :
      after.decoder.slot other = full.decoder.slot other ∧
        stopped.decoder.slot other = reached.decoder.slot other := by
    rw [fills.slots, otherFills.slots, Slots.set, Slots.set, if_neg another, if_neg another]
    exact ⟨rfl, rfl⟩
  have another {target : Slot} (isIn : target ∈ field) : target ≠ slot :=
    fun isSlot => apart (isSlot ▸ isIn)
  have ofField : (field.elim [] fun target => (after.decoder.slot target).loads) =
      field.elim [] fun target => (full.decoder.slot target).loads := by
    cases named : field with
    | none => rfl
    | some target => rw [Option.elim_some, Option.elim_some, (outside target (another named)).1]
  refine ⟨?_, ?_, ?_, ?_, ?_, ?_, ops ++ early, ?_⟩
  · rw [fills.stream, otherFills.stream, selects.stream]
  · rw [fills.context, otherFills.context, selects.context]
  · rw [fills.defaultSize, otherFills.defaultSize, selects.defaultSize]
  · rw [own, otherFills.slots, Slots.set_self]
  · intro target isIn
    obtain ⟨kept, otherKept⟩ := outside target (another isIn)
    rw [kept, otherKept]
    exact selects.register target isIn
  · intro other isOther isOutside
    obtain ⟨kept, otherKept⟩ := outside other isOther
    rw [kept, otherKept]
    exact selects.others other isOther isOutside
  · rw [ofField, own]
    constructor
    · rw [fills.machine, fullMachine, Machine.recordAll_recordAll]
      simp
    · rw [otherFills.machine, reachedMachine, Machine.recordAll_recordAll]
      simp

end Fills

/-! ## Resolving -/

/-- What is left to do when the address of a memory operand is known. -/
theorem fillMemory_eq {pass : Pass} {slot : Slot} {load : Bool} (address : UInt32)
    (stageable : pass.CanStage slot load) :
    (do
      modifyOperand slot fun operand => { operand with kind := .memory }
      stageAddress slot address
      if load then stageMemory slot : PassM Unit) pass =
        .ok () (pass.memoryFilled slot address load) := by
  rw [bind_of_ok (modifyOperand_eq _ _ _), bind_of_ok (stageAddress_ok_iff.mpr rfl)]
  cases load with
  | false => rfl
  | true =>
      refine stageMemory_ok_iff.mpr ⟨?_, rfl⟩
      simpa [addressStaged, width_update] using stageable rfl

section Resolve

variable {before full reached : Pass} {slot : Slot} {load : Bool} {field : Option Slot}
  {fieldLoad : Bool} {width : UInt8}

theorem Selects.empty (selects : Selects before slot load field fieldLoad full reached)
    (empty : full.decoder.slot slot = .ofWidth width) :
    reached.decoder.slot slot = .ofWidth width := by
  rw [selects.operand, empty, Operand.stagedIf_ofWidth]

theorem Selects.registerFilled (selects : Selects before slot load field fieldLoad full reached)
    (apart : slot ∉ field) (empty : full.decoder.slot slot = .ofWidth width) (number : UInt8) :
    Selects before slot load field fieldLoad (full.registerFilled slot number true)
      (reached.registerFilled slot number load) := by
  have fills := full.fills_registerFilled slot number true
  have otherFills := reached.fills_registerFilled slot number load
  have widths : full.widths slot = width := congrArg Operand.width empty
  have otherWidths : reached.widths slot = width := congrArg Operand.width (selects.empty empty)
  rw [empty, widths] at fills
  rw [selects.empty empty, otherWidths, selects.twins.registers, Operand.withRegister_ofWidth]
    at otherFills
  exact selects.filled apart empty [] fills otherFills

theorem Selects.memoryFilled (selects : Selects before slot load field fieldLoad full reached)
    (apart : slot ∉ field) (empty : full.decoder.slot slot = .ofWidth width) (address : UInt32) :
    Selects before slot load field fieldLoad (full.memoryFilled slot address true)
      (reached.memoryFilled slot address load) := by
  have fills := full.fills_memoryFilled slot address true
  have otherFills := reached.fills_memoryFilled slot address load
  have widths : full.widths slot = width := congrArg Operand.width empty
  have otherWidths : reached.widths slot = width := congrArg Operand.width (selects.empty empty)
  rw [empty, widths] at fills
  rw [selects.empty empty, otherWidths, selects.twins.memory, Operand.withMemory_ofWidth]
    at otherFills
  exact selects.filled apart empty [.loadImmediate address] fills otherFills

theorem Selects.operandResolution
    (selects : Selects before slot load field fieldLoad full reached) (apart : slot ∉ field)
    (valid : ValidWidth width) (empty : full.decoder.slot slot = .ofWidth width) (modRm : ModRm) :
    Agree (Selects before slot load field fieldLoad) (operandResolution modRm slot true full)
      (operandResolution modRm slot load reached) := by
  have canStage {pass : Pass} (isLoaded : Bool)
      (isEmpty : pass.decoder.slot slot = .ofWidth width) : pass.CanStage slot isLoaded := by
    intro _
    rw [isEmpty]
    exact valid
  unfold Pass.operandResolution
  by_cases memory : modRm.isMemory = true
  · rw [if_pos memory, if_pos memory]
    have address : Paired .withoutSlots _ (effectiveAddress modRm) (effectiveAddress modRm) :=
      paired_effectiveAddress modRm
    refine (address.agree trivial id id selects.twins).bind
      (fun _ _ along => (selects.along along empty).1) fun address after stopped along => ?_
    obtain ⟨still, stillEmpty⟩ := selects.along along empty
    rw [fillMemory_eq address (canStage true stillEmpty),
      fillMemory_eq address (canStage load (still.empty stillEmpty))]
    exact .ok () (still.memoryFilled apart stillEmpty address)
  · rw [if_neg memory, if_neg memory,
      fillRegister_ok_iff.mpr ⟨canStage true empty, rfl⟩,
      fillRegister_ok_iff.mpr ⟨canStage load (selects.empty empty), rfl⟩]
    exact .ok () (selects.registerFilled apart empty modRm.rm)

/-- The register field is filled before anything else, in both runs. -/
theorem selects_fieldFilled {pass : Pass} (apart : slot ∉ field)
    (same : pass.machine = before.machine) (fresh : pass.decoder.Fresh slot)
    (fieldFresh : ∀ target ∈ field, pass.decoder.Fresh target) (modRm : ModRm) :
    Selects before slot load field fieldLoad
      (pass.fieldFilled modRm (field.map fun target => (target, true)))
      (pass.fieldFilled modRm (field.map fun target => (target, fieldLoad))) := by
  cases field with
  | none => exact selects_of_fresh fresh fieldFresh same
  | some target =>
      obtain ⟨width, -, empty⟩ := fieldFresh target rfl
      have fills := pass.fills_registerFilled target modRm.reg true
      have otherFills := pass.fills_registerFilled target modRm.reg fieldLoad
      have widths : pass.widths target = width := congrArg Operand.width empty
      rw [empty, widths] at fills otherFills
      rw [Operand.withRegister_ofWidth] at otherFills
      exact selects_of_field (fun isTarget => apart (isTarget ▸ rfl)) fresh same fills otherFills

theorem fieldFilling_eq {pass : Pass} (fieldFresh : ∀ target ∈ field, pass.decoder.Fresh target)
    (modRm : ModRm) (isLoaded : Bool) :
    ((field.map fun target => (target, isLoaded)).elim (pure ()) fun target =>
      fillRegister target.1 modRm.reg target.2 : PassM Unit) pass =
        .ok () (pass.fieldFilled modRm (field.map fun target => (target, isLoaded))) := by
  refine fillField_ok_iff.mpr ⟨?_, rfl⟩
  cases field with
  | none => exact nofun
  | some target =>
      rintro _ ⟨⟩ -
      obtain ⟨width, valid, empty⟩ := fieldFresh target rfl
      show ValidWidth (pass.decoder.slot target).width
      rw [empty]
      exact valid

theorem slot_fieldFilled_of_apart {pass : Pass} (apart : slot ∉ field) (modRm : ModRm)
    (isLoaded : Bool) :
    (pass.fieldFilled modRm (field.map fun target => (target, isLoaded))).decoder.slot slot =
      pass.decoder.slot slot := by
  rw [slots_fieldFilled]
  cases field with
  | none => rfl
  | some target =>
      have another : slot ≠ target := fun isTarget => apart (isTarget ▸ rfl)
      exact if_neg another

/-- Resolving an encoding into empty slots, with and without staging the values of the operand and
of the register field: against the run that stages both, every other one ends with the same verdict
and leaves the same stream, context and slots, but for zeros in place of the values that it does
not stage, and the same record, but for the loads of these values. -/
theorem resolve_selects_loads {pass : Pass} {slot : Slot} {field : Option Slot}
    (apart : slot ∉ field) (fresh : pass.decoder.Fresh slot)
    (fieldFresh : ∀ target ∈ field, pass.decoder.Fresh target) (load fieldLoad : Bool) :
    Agree (Selects pass slot load field fieldLoad)
      (resolve slot true (field.map fun target => (target, true)) pass)
      (resolve slot load (field.map fun target => (target, fieldLoad)) pass) := by
  rw [resolve_eq, resolve_eq]
  cases mapped : pass.stream.byteAt? pass.stream.cursor with
  | none =>
      have missing := fetchByte_of_unmapped pass mapped
      rw [bind_of_error missing, bind_of_error missing]
      exact .error _ (selects_of_fresh fresh fieldFresh rfl)
  | some byte =>
      have fetched : fetchByte pass = .ok byte (pass.skip 1) := fetchByte_ok_iff.mpr ⟨mapped, rfl⟩
      have same : (pass.skip 1).machine = pass.machine := rfl
      have startFresh : (pass.skip 1).decoder.Fresh slot := fresh
      have startFieldFresh : ∀ target ∈ field, (pass.skip 1).decoder.Fresh target := fieldFresh
      have selects : Selects pass slot load field fieldLoad _ _ :=
        selects_fieldFilled apart same startFresh startFieldFresh ⟨byte⟩
      obtain ⟨width, valid, empty⟩ := startFresh
      have stillEmpty := (slot_fieldFilled_of_apart apart ⟨byte⟩ true).trans empty
      rw [bind_of_ok fetched, bind_of_ok fetched,
        bind_of_ok (fieldFilling_eq startFieldFresh ⟨byte⟩ true),
        bind_of_ok (fieldFilling_eq startFieldFresh ⟨byte⟩ fieldLoad)]
      have resolves := selects.operandResolution apart valid stillEmpty ⟨byte⟩
      refine resolves.bind (fun _ _ kept => kept) fun _ after reached kept => ?_
      exact Agree.ok (ModRm.mk byte) kept

/-- `[eax + 0x10]` without its value, and ECX. -/
theorem resolve_selects_loads_memory :
    let pass := ofBytes #[0x48, 0x10] [1, 2, 3]
    (Slot.dest ∉ some Slot.src ∧ pass.decoder.Fresh .dest ∧
      ∀ target ∈ some Slot.src, pass.decoder.Fresh target) ∧
      Agree (Selects pass .dest false (some .src) true)
        (resolve .dest true (some (.src, true)) pass)
        (resolve .dest false (some (.src, true)) pass) := by
  intro pass
  have apart : Slot.dest ∉ some Slot.src := nofun
  have fresh : pass.decoder.Fresh .dest := ⟨4, .inr (.inr rfl), rfl⟩
  have fieldFresh : ∀ target ∈ some Slot.src, pass.decoder.Fresh target := by
    rintro _ ⟨⟩
    exact ⟨4, .inr (.inr rfl), rfl⟩
  exact ⟨⟨apart, fresh, fieldFresh⟩, resolve_selects_loads apart fresh fieldFresh false true⟩

end Resolve

end Pass

end I386
