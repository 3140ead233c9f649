import I386.Proofs.Addressing

/-!
Contract: resolving the encoding of a register-or-memory operand.

Owns:
- the slots that a resolved encoding leaves, with the values staged in them;
- when resolving succeeds: exactly if a complete encoding stands at the cursor and every value to
  be staged has a valid width.

Main statement: the address of a resolved memory operand is that of the form of its encoding, so
encodings of one form agree on it.

Does not own: which instructions have such operands.
-/

namespace I386.Pass

/-! ## Filled slots -/

/-- The pass with the value of the register that a slot designates staged in it. -/
def registerStaged (pass : Pass) (slot : Slot) : Pass :=
  let operand := pass.decoder.slot slot
  (pass.recordAll [.loadRegister operand.number operand.width]).update slot fun held =>
    { held with value := pass.machine.registers.contents operand.number operand.width }

def memoryStaged (pass : Pass) (slot : Slot) : Pass :=
  let operand := pass.decoder.slot slot
  (pass.recordAll [.loadMemory operand.address operand.width]).update slot fun held =>
    { held with value := pass.machine.memory.contents operand.address operand.width }

/-- The pass with a register operand in a slot, its value staged if `load`. -/
def registerFilled (pass : Pass) (slot : Slot) (number : UInt8) (load : Bool) : Pass :=
  let pass := pass.update slot fun operand => { operand with kind := .register, number }
  if load then pass.registerStaged slot else pass

def addressStaged (pass : Pass) (slot : Slot) (address : UInt32) : Pass :=
  (pass.recordAll [.loadImmediate address]).update slot fun operand => { operand with address }

/-- The pass with a memory operand in a slot, its value staged if `load`. -/
def memoryFilled (pass : Pass) (slot : Slot) (address : UInt32) (load : Bool) : Pass :=
  let pass := pass.update slot fun operand => { operand with kind := .memory }
  let pass := pass.addressStaged slot address
  if load then pass.memoryStaged slot else pass

/-- The pass with the register field of a ModR/M byte in the slot that is named for it, if any. -/
def fieldFilled (pass : Pass) (modRm : ModRm) (field : Option (Slot × Bool)) : Pass :=
  field.elim pass fun (slot, load) => pass.registerFilled slot modRm.reg load

/-- The pass after an encoding was resolved. -/
def resolved (pass : Pass) (encoding : Addressing) (slot : Slot) (load : Bool)
    (field : Option (Slot × Bool)) : Pass :=
  let pass := (pass.skip 1).fieldFilled encoding.modRm field
  if encoding.modRm.isMemory then
    (pass.located encoding).memoryFilled slot (encoding.address pass.machine.registers) load
  else
    pass.registerFilled slot encoding.modRm.rm load

/-- If a value is to be staged in a slot, the slot has a valid width. -/
def CanStage (pass : Pass) (slot : Slot) (load : Bool) : Prop :=
  load = true → ValidWidth (pass.decoder.slot slot).width

/-! ## What filling succeeds in -/

theorem width_update (pass : Pass) (changed slot : Slot) (change : Operand → Operand)
    (same : ∀ operand, (change operand).width = operand.width) :
    ((pass.update changed change).decoder.slot slot).width = (pass.decoder.slot slot).width := by
  rw [slot_update]
  by_cases isChanged : slot = changed
  · rw [if_pos isChanged, same]
  · rw [if_neg isChanged]

theorem stageRegister_ok_iff {pass after : Pass} {slot : Slot} :
    stageRegister slot pass = .ok () after ↔
      ValidWidth (pass.decoder.slot slot).width ∧ after = pass.registerStaged slot := by
  simp only [stageRegister, bind_ok_iff, operand_ok_iff, transfer_loadRegister_ok_iff,
    modifyOperand_ok_iff]
  constructor
  · intro succeeded
    rcases succeeded with ⟨_, _, ⟨rfl, rfl⟩, _, _, ⟨valid, rfl, rfl⟩, rfl⟩
    exact ⟨valid, rfl⟩
  · intro given
    rcases given with ⟨valid, rfl⟩
    exact ⟨_, _, ⟨rfl, rfl⟩, _, _, ⟨valid, rfl, rfl⟩, rfl⟩

theorem stageMemory_ok_iff {pass after : Pass} {slot : Slot} :
    stageMemory slot pass = .ok () after ↔
      ValidWidth (pass.decoder.slot slot).width ∧ after = pass.memoryStaged slot := by
  simp only [stageMemory, bind_ok_iff, operand_ok_iff, transfer_loadMemory_ok_iff,
    modifyOperand_ok_iff]
  constructor
  · intro succeeded
    rcases succeeded with ⟨_, _, ⟨rfl, rfl⟩, _, _, ⟨valid, rfl, rfl⟩, rfl⟩
    exact ⟨valid, rfl⟩
  · intro given
    rcases given with ⟨valid, rfl⟩
    exact ⟨_, _, ⟨rfl, rfl⟩, _, _, ⟨valid, rfl, rfl⟩, rfl⟩

theorem stageAddress_ok_iff {pass after : Pass} {slot : Slot} {address : UInt32} :
    stageAddress slot address pass = .ok () after ↔ after = pass.addressStaged slot address := by
  simp only [stageAddress, bind_ok_iff, transfer_loadImmediate, loaded_ok_iff,
    modifyOperand_ok_iff]
  constructor
  · intro succeeded
    rcases succeeded with ⟨_, _, ⟨⟨⟩, rfl⟩, rfl⟩
    rfl
  · rintro rfl
    exact ⟨_, _, ⟨rfl, rfl⟩, rfl⟩

theorem fillRegister_ok_iff {pass after : Pass} {slot : Slot} {number : UInt8} {load : Bool} :
    fillRegister slot number load pass = .ok () after ↔
      pass.CanStage slot load ∧ after = pass.registerFilled slot number load := by
  have width := pass.width_update slot slot
    (fun operand => { operand with kind := .register, number }) fun _ => rfl
  cases load with
  | false => simp [fillRegister, CanStage, registerFilled, modifyOperand_ok_iff]
  | true =>
      simp [fillRegister, CanStage, registerFilled, bind_ok_iff, modifyOperand_ok_iff,
        stageRegister_ok_iff, width]

/-! ## What filling leaves alone -/

@[simp] theorem stream_registerFilled (pass : Pass) (slot : Slot) (number : UInt8) (load : Bool) :
    (pass.registerFilled slot number load).stream = pass.stream := by
  cases load <;> rfl

@[simp] theorem registers_registerFilled (pass : Pass) (slot : Slot) (number : UInt8)
    (load : Bool) :
    (pass.registerFilled slot number load).machine.registers = pass.machine.registers := by
  cases load <;> rfl

theorem width_registerFilled (pass : Pass) (slot other : Slot) (number : UInt8) (load : Bool) :
    ((pass.registerFilled slot number load).decoder.slot other).width =
      (pass.decoder.slot other).width := by
  cases load <;> simp [registerFilled, registerStaged, width_update]

@[simp] theorem stream_fieldFilled (pass : Pass) (modRm : ModRm) (field : Option (Slot × Bool)) :
    (pass.fieldFilled modRm field).stream = pass.stream := by
  cases field with
  | none => rfl
  | some target => exact pass.stream_registerFilled target.1 modRm.reg target.2

@[simp] theorem registers_fieldFilled (pass : Pass) (modRm : ModRm)
    (field : Option (Slot × Bool)) :
    (pass.fieldFilled modRm field).machine.registers = pass.machine.registers := by
  cases field with
  | none => rfl
  | some target => exact pass.registers_registerFilled target.1 modRm.reg target.2

theorem width_fieldFilled (pass : Pass) (modRm : ModRm) (field : Option (Slot × Bool))
    (slot : Slot) :
    ((pass.fieldFilled modRm field).decoder.slot slot).width =
      (pass.decoder.slot slot).width := by
  cases field with
  | none => rfl
  | some target => exact pass.width_registerFilled target.1 slot modRm.reg target.2

@[simp] theorem slot_addressRegisterLoaded (pass : Pass) (number : UInt8) (slot : Slot) :
    (pass.addressRegisterLoaded number).decoder.slot slot = pass.decoder.slot slot := by
  cases slot <;> rfl

@[simp] theorem slot_located (pass : Pass) (encoding : Addressing) (slot : Slot) :
    (pass.located encoding).decoder.slot slot = pass.decoder.slot slot := by
  unfold located indexLoaded baseLoaded
  cases encoding.base <;> cases encoding.index <;> simp [skip]

/-! ## When resolving succeeds -/

/-- What resolving does once the register field is in its slot. -/
def operandResolution (modRm : ModRm) (slot : Slot) (load : Bool) : PassM Unit :=
  if modRm.isMemory then do
    let address ← effectiveAddress modRm
    modifyOperand slot fun operand => { operand with kind := .memory }
    stageAddress slot address
    if load then stageMemory slot
  else
    fillRegister slot modRm.rm load

theorem resolve_eq (slot : Slot) (load : Bool) (field : Option (Slot × Bool)) :
    resolve slot load field = (do
      let byte ← fetchByte
      field.elim (pure ()) fun target => fillRegister target.1 (ModRm.mk byte).reg target.2
      operandResolution ⟨byte⟩ slot load
      return ⟨byte⟩) := by
  unfold resolve
  refine congrArg (fetchByte >>= ·) (funext fun byte => ?_)
  have rest : ∀ modRm : ModRm,
      (if modRm.isMemory then do
        let address ← effectiveAddress modRm
        modifyOperand slot fun operand => { operand with kind := .memory }
        stageAddress slot address
        if load then do
          stageMemory slot
          pure modRm
        else pure modRm
      else do
        fillRegister slot modRm.rm load
        pure modRm) = (do
          operandResolution modRm slot load
          return modRm) := by
    intro modRm
    unfold operandResolution
    cases modRm.isMemory <;> cases load <;> simp
  cases field with
  | none => simpa using rest ⟨byte⟩
  | some target => exact congrArg (_ >>= ·) (funext fun _ => rest ⟨byte⟩)

theorem fillField_ok_iff {pass after : Pass} {modRm : ModRm} {field : Option (Slot × Bool)} :
    (field.elim (pure ()) fun target => fillRegister target.1 modRm.reg target.2 : PassM Unit)
        pass = .ok () after ↔
      (∀ target ∈ field, pass.CanStage target.1 target.2) ∧
        after = pass.fieldFilled modRm field := by
  cases field with
  | none => simp [fieldFilled, pure_ok_iff]
  | some target => simp [fieldFilled, fillRegister_ok_iff]

/-- A memory operand is filled once its encoding has been read to the end. -/
theorem operandResolution_eq {pass : Pass} {encoding : Addressing} {slot : Slot} {load : Bool}
    (memory : encoding.modRm.isMemory = true) (holds : pass.stream.Holds encoding.tail)
    (stageable : pass.CanStage slot load) :
    operandResolution encoding.modRm slot load pass =
      .ok () ((pass.located encoding).memoryFilled slot (encoding.address pass.machine.registers)
        load) := by
  have body : operandResolution encoding.modRm slot load = (do
      let address ← effectiveAddress encoding.modRm
      modifyOperand slot fun operand => { operand with kind := .memory }
      stageAddress slot address
      if load then stageMemory slot) := if_pos memory
  rw [body, bind_of_ok (effectiveAddress_eq memory holds),
    bind_of_ok (modifyOperand_eq _ _ _), bind_of_ok (stageAddress_ok_iff.mpr rfl)]
  cases load with
  | false => rfl
  | true =>
      refine stageMemory_ok_iff.mpr ⟨?_, rfl⟩
      simpa [addressStaged, width_update] using stageable rfl

/-- A memory operand that was filled was encoded by the bytes after its ModR/M byte. -/
theorem exists_tail_of_operandResolution_ok {pass after : Pass} {modRm : ModRm} {slot : Slot}
    {load : Bool} (memory : modRm.isMemory = true)
    (ran : operandResolution modRm slot load pass = .ok () after) :
    pass.CanStage slot load ∧
      ∃ encoding : Addressing, encoding.modRm = modRm ∧ pass.stream.Holds encoding.tail := by
  have body : operandResolution modRm slot load = (do
      let address ← effectiveAddress modRm
      modifyOperand slot fun operand => { operand with kind := .memory }
      stageAddress slot address
      if load then stageMemory slot) := if_pos memory
  rw [body] at ran
  obtain ⟨address, _, addressRan, rest⟩ := bind_ok_iff.mp ran
  obtain ⟨encoding, rfl, holds⟩ := exists_tail_of_effectiveAddress_ok addressRan
  refine ⟨?_, encoding, rfl, holds⟩
  rw [effectiveAddress_eq memory holds] at addressRan
  obtain ⟨-, rfl⟩ := EStateM.Result.ok.inj addressRan
  rw [bind_of_ok (modifyOperand_eq _ _ _), bind_of_ok (stageAddress_ok_iff.mpr rfl)] at rest
  rintro rfl
  simpa [addressStaged, width_update] using (stageMemory_ok_iff.mp rest).1

theorem canStage_fieldFilled {pass : Pass} {modRm : ModRm} {field : Option (Slot × Bool)}
    {slot : Slot} {load : Bool} :
    ((pass.skip 1).fieldFilled modRm field).CanStage slot load ↔ pass.CanStage slot load := by
  simp [CanStage, width_fieldFilled]

/-- Resolving succeeds exactly if a complete encoding stands at the cursor and the values to be
staged have valid widths. -/
theorem resolve_ok_iff {pass after : Pass} {slot : Slot} {load : Bool}
    {field : Option (Slot × Bool)} {modRm : ModRm} :
    resolve slot load field pass = .ok modRm after ↔
      (∀ target ∈ field, pass.CanStage target.1 target.2) ∧ pass.CanStage slot load ∧
        ∃ encoding : Addressing, encoding.modRm = modRm ∧ pass.stream.Holds encoding.bytes ∧
          after = pass.resolved encoding slot load field := by
  rw [resolve_eq]
  constructor
  · intro ran
    simp only [bind_ok_iff, fetchByte_ok_iff, pure_ok_iff] at ran
    obtain ⟨byte, _, ⟨mapped, rfl⟩, ⟨⟩, filled, fieldRan, ⟨⟩, _, operandRan, rfl, rfl⟩ := ran
    obtain ⟨fieldStageable, rfl⟩ := fillField_ok_iff.mp fieldRan
    refine ⟨fieldStageable, ?_⟩
    by_cases memory : (ModRm.mk byte).isMemory = true
    · obtain ⟨stageable, encoding, same, holds⟩ :=
        exists_tail_of_operandResolution_ok memory operandRan
      rw [← same] at memory operandRan stageable holds
      rw [operandResolution_eq memory holds stageable] at operandRan
      obtain ⟨-, rfl⟩ := EStateM.Result.ok.inj operandRan
      rw [stream_fieldFilled] at holds
      refine ⟨canStage_fieldFilled.mp stageable, encoding, same, ?_, ?_⟩
      · exact Stream.holds_cons.mpr ⟨by rw [same]; exact mapped, holds⟩
      · rw [resolved, if_pos memory]
    · rw [Bool.not_eq_true] at memory
      have body : operandResolution ⟨byte⟩ slot load =
          fillRegister slot (ModRm.mk byte).rm load := if_neg (by simp [memory])
      rw [body] at operandRan
      obtain ⟨stageable, rfl⟩ := fillRegister_ok_iff.mp operandRan
      refine ⟨canStage_fieldFilled.mp stageable, .ofRegister ⟨byte⟩ memory, rfl, ?_, ?_⟩
      · exact Stream.holds_cons.mpr ⟨mapped, Stream.holds_nil⟩
      · exact (if_neg (by simp [Addressing.ofRegister, memory])).symm
  · intro given
    rcases given with ⟨fieldStageable, stageable, encoding, rfl, holds, rfl⟩
    have tailHolds :
        ((pass.skip 1).fieldFilled encoding.modRm field).stream.Holds encoding.tail := by
      rw [stream_fieldFilled]
      exact (Stream.holds_cons.mp holds).2
    have operandRan : operandResolution encoding.modRm slot load
        ((pass.skip 1).fieldFilled encoding.modRm field) =
          .ok () (pass.resolved encoding slot load field) := by
      have canStage : ((pass.skip 1).fieldFilled encoding.modRm field).CanStage slot load :=
        canStage_fieldFilled.mpr stageable
      by_cases memory : encoding.modRm.isMemory = true
      · rw [operandResolution_eq memory tailHolds canStage, resolved, if_pos memory]
      · have body : operandResolution encoding.modRm slot load =
            fillRegister slot encoding.modRm.rm load := if_neg memory
        rw [body, resolved, if_neg memory]
        exact fillRegister_ok_iff.mpr ⟨canStage, rfl⟩
    have fieldRan : (field.elim (pure ()) fun target =>
        fillRegister target.1 encoding.modRm.reg target.2 : PassM Unit) (pass.skip 1) =
          .ok () ((pass.skip 1).fieldFilled encoding.modRm field) :=
      fillField_ok_iff.mpr ⟨fieldStageable, rfl⟩
    exact (bind_of_ok (fetchByte_eq holds)).trans ((bind_of_ok fieldRan).trans
      (bind_of_ok operandRan))

/-! ## The address of a resolved operand -/

@[simp] theorem stream_memoryFilled (pass : Pass) (slot : Slot) (address : UInt32) (load : Bool) :
    (pass.memoryFilled slot address load).stream = pass.stream := by
  cases load <;> rfl

theorem address_memoryFilled (pass : Pass) (slot : Slot) (address : UInt32) (load : Bool) :
    ((pass.memoryFilled slot address load).decoder.slot slot).address = address := by
  cases load <;> simp [memoryFilled, memoryStaged, addressStaged, slot_update]

theorem stream_located (pass : Pass) (encoding : Addressing) :
    (pass.located encoding).stream = pass.stream.skip encoding.tail.length := by
  unfold located skip
  rw [stream_baseLoaded, stream_indexLoaded]

theorem resolved_memory {pass : Pass} {encoding : Addressing} {slot : Slot} {load : Bool}
    {field : Option (Slot × Bool)} (memory : encoding.modRm.isMemory = true) :
    (pass.resolved encoding slot load field).stream = pass.stream.skip encoding.bytes.length ∧
      ((pass.resolved encoding slot load field).decoder.slot slot).address =
        encoding.address pass.machine.registers := by
  rw [resolved, if_pos memory]
  refine ⟨?_, ?_⟩
  · rw [stream_memoryFilled, stream_located, stream_fieldFilled]
    exact (Stream.skip_skip _ _ _).trans (by rw [Addressing.bytes, List.length_cons, Nat.add_comm])
  · rw [address_memoryFilled, registers_fieldFilled]
    rfl

/-- Resolving a memory encoding reads its bytes and no more. The address that it stages is the
sum of base, scaled index and displacement, modulo 2^32; any two encodings of one form, whatever
their bytes, have the same address on the same registers. -/
theorem resolve_address {pass after : Pass} {slot : Slot} {load : Bool}
    {field : Option (Slot × Bool)} {modRm : ModRm}
    (ran : resolve slot load field pass = .ok modRm after) (memory : modRm.isMemory = true) :
    ∃ encoding : Addressing,
      encoding.modRm = modRm ∧
      pass.stream.Holds encoding.bytes ∧
      after.stream = pass.stream.skip
        (1 + (if modRm.hasSib then 1 else 0) + displacementLength modRm encoding.sib) ∧
      (after.decoder.slot slot).address.toNat =
        encoding.form.sum pass.machine.registers % UInt32.size ∧
      ∀ (elsewhere reached : Pass) (otherSlot : Slot) (otherLoad : Bool)
        (otherField : Option (Slot × Bool)) (other : Addressing),
        elsewhere.machine.registers = pass.machine.registers →
        elsewhere.stream.Holds other.bytes →
        other.modRm.isMemory = true →
        other.form = encoding.form →
        resolve otherSlot otherLoad otherField elsewhere = .ok other.modRm reached →
        (reached.decoder.slot otherSlot).address = (after.decoder.slot slot).address := by
  obtain ⟨-, -, encoding, rfl, holds, rfl⟩ := resolve_ok_iff.mp ran
  obtain ⟨stream, address⟩ := pass.resolved_memory memory
  refine ⟨encoding, rfl, holds, ?_, ?_, ?_⟩
  · rw [stream, encoding.length_bytes]
  · rw [address, Addressing.address, UInt32.toNat_ofNat']
  · intro elsewhere reached otherSlot otherLoad otherField other registers otherHolds otherMemory
      form otherRan
    obtain ⟨fieldStageable, stageable, -⟩ := resolve_ok_iff.mp otherRan
    have again := resolve_ok_iff.mpr
      ⟨fieldStageable, stageable, other, rfl, otherHolds, rfl⟩
    obtain ⟨-, rfl⟩ := EStateM.Result.ok.inj (otherRan.symm.trans again)
    rw [(elsewhere.resolved_memory otherMemory).2, address, Addressing.address, Addressing.address,
      form, registers]

/-- `[eax + ecx * 4 - 4]`, encoded with a SIB byte and a signed byte. -/
theorem resolve_address_scaled :
    ∃ after : Pass,
      resolve .dest true none (.ofBytes #[0x44, 0x88, 0xFC] [0x100, 0x200]) = .ok ⟨0x44⟩ after ∧
      (ModRm.mk 0x44).isMemory = true ∧
      (after.decoder.slot .dest).address = 0x8FC ∧
      ∃ encoding : Addressing,
        (after.decoder.slot .dest).address.toNat =
          encoding.form.sum (.ofList [0x100, 0x200]) % UInt32.size := by
  obtain ⟨encoding, modRm, stands, address⟩ : ∃ encoding : Addressing,
      encoding.modRm = ⟨0x44⟩ ∧
      (ofBytes #[0x44, 0x88, 0xFC] [0x100, 0x200]).stream.Holds encoding.bytes ∧
      encoding.address (.ofList [0x100, 0x200]) = 0x8FC :=
    ⟨⟨⟨0x44⟩, some 0x88, [0xFC], rfl, rfl⟩, rfl, ⟨rfl, rfl, rfl, trivial⟩, by decide +kernel⟩
  have memory : encoding.modRm.isMemory = true := by
    rw [modRm]
    decide
  have ran : resolve .dest true none (ofBytes #[0x44, 0x88, 0xFC] [0x100, 0x200]) =
      .ok ⟨0x44⟩ ((ofBytes #[0x44, 0x88, 0xFC] [0x100, 0x200]).resolved encoding .dest true none) :=
    resolve_ok_iff.mpr ⟨by simp, fun _ => .inr (.inr rfl), encoding, modRm, stands, rfl⟩
  refine ⟨_, ran, by decide, (resolved_memory memory).2.trans address, ?_⟩
  obtain ⟨found, -, -, -, sum, -⟩ := resolve_address ran (by decide)
  exact ⟨found, sum⟩

end I386.Pass
