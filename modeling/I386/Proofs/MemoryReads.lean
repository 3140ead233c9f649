import I386.Proofs.Refusals

/-!
Contract: what decoding reads of memory.

Owns:
- the roles whose operands may be in memory, and those that are loaded from there;
- where in the transfers of an instruction memory is read;
- the opcodes after which it is not, even if decoding fails.

Main statement: decoding changes neither registers nor memory, and reads memory at most once, for
the operand that is loaded from there, right after its address was staged.

Does not own: what was read.
-/

namespace I386

/-- The transfers do not read memory. -/
def Unread (ops : List MicroOp) : Prop :=
  ∀ op ∈ ops, op.readsMemory = false

/-- The transfers read memory once, for an operand whose address they have just staged. -/
def ReadOnce (ops : List MicroOp) (operand : Operand) : Prop :=
  ∃ early late, Unread early ∧ Unread late ∧
    ops = early ++
      .loadImmediate operand.address :: .loadMemory operand.address operand.width :: late

theorem unread_append {first second : List MicroOp} :
    Unread (first ++ second) ↔ Unread first ∧ Unread second :=
  List.forall_mem_append

theorem unread_flatMap {slots : List Slot} {transfers : Slot → List MicroOp}
    (unread : ∀ slot ∈ slots, Unread (transfers slot)) : Unread (slots.flatMap transfers) := by
  intro op isIn
  obtain ⟨slot, isSlot, isTransfer⟩ := List.mem_flatMap.mp isIn
  exact unread slot isSlot op isTransfer

theorem unread_registerTransfers (number width : UInt8) (load : Bool) :
    Unread (registerTransfers number width load) := by
  cases load <;> simp [Unread, registerTransfers, MicroOp.readsMemory]

theorem Addressing.unread_loads (encoding : Addressing) : Unread encoding.loads := by
  intro op isIn
  obtain ⟨number, -, rfl⟩ := List.mem_map.mp isIn
  rfl

/-- The last two transfers of an operand in memory stage its address and load its value. -/
theorem readOnce_memoryTransfers {early : List MicroOp} (unread : Unread early)
    {operand : Operand} {address : UInt32} {width : UInt8} (isAddress : operand.address = address)
    (isWidth : operand.width = width) :
    ReadOnce (early ++ memoryTransfers address width true) operand := by
  subst isAddress isWidth
  exact ⟨early, [], unread, by simp [Unread], by simp [memoryTransfers]⟩

theorem ReadOnce.append {ops early late : List MicroOp} {operand : Operand}
    (once : ReadOnce ops operand) (before : Unread early) (after : Unread late) :
    ReadOnce (early ++ (ops ++ late)) operand := by
  obtain ⟨front, back, frontUnread, backUnread, rfl⟩ := once
  exact ⟨early ++ front, back ++ late, unread_append.mpr ⟨before, frontUnread⟩,
    unread_append.mpr ⟨backUnread, after⟩, by simp⟩

/-! ## Roles in memory -/

namespace Role

/-- The operand of a role may be in memory. -/
def addresses : Role → Bool
  | rm _ => true
  | offset _ => true
  | _ => false

/-- The value of an operand in memory is loaded. -/
def loads : Role → Bool
  | rm load => load
  | offset load => load
  | _ => false

section Filled

variable {role : Role} {fields : OperandBytes} {registers : Registers} {memory : Memory}
  {opcode width dest : UInt8}

theorem addresses_of_memory
    (inMemory : (role.filled fields registers memory opcode width dest).kind = .memory) :
    role.addresses = true := by
  obtain ⟨addressing, immediate⟩ := fields
  cases role with
  | rm load => rfl
  | offset load => rfl
  | field load => cases addressing <;> cases inMemory
  | signedByte =>
      simp only [filled, Operand.clippedTo] at inMemory
      split at inMemory <;> cases inMemory
  | _ => cases inMemory

/-- A role whose operand is not loaded from memory does not read it. -/
theorem unread_transfers
    (apart : role.loads = true →
      (role.filled fields registers memory opcode width dest).kind ≠ .memory) :
    Unread (role.transfers fields registers opcode width) := by
  obtain ⟨addressing, immediate⟩ := fields
  cases role with
  | rm load =>
      cases addressing with
      | none => simp [Unread, transfers]
      | some encoding =>
          simp only [transfers, Option.elim, Addressing.transfers]
          cases isMemory : encoding.modRm.isMemory with
          | false => exact unread_registerTransfers _ _ load
          | true =>
              cases load with
              | false =>
                  refine unread_append.mpr ⟨encoding.unread_loads, ?_⟩
                  simp [Unread, memoryTransfers, MicroOp.readsMemory]
              | true =>
                  refine absurd ?_ (apart rfl)
                  simp [filled, Operand.withRm, Operand.withMemory, isMemory]
  | field load =>
      cases addressing with
      | none => simp [Unread, transfers]
      | some encoding => exact unread_registerTransfers _ _ load
  | offset load =>
      cases load with
      | false => simp [Unread, transfers, memoryTransfers, MicroOp.readsMemory]
      | true => exact absurd (by simp [filled, Operand.withMemory]) (apart rfl)
  | opcodeRegister load => exact unread_registerTransfers _ _ load
  | accumulator load => exact unread_registerTransfers _ _ load
  | _ => simp [Unread, transfers, registerTransfers, MicroOp.readsMemory]

/-- A role whose operand is loaded from memory reads it there, after everything else. -/
theorem readOnce_transfers (isLoaded : role.loads = true)
    (inMemory : (role.filled fields registers memory opcode width dest).kind = .memory) :
    ReadOnce (role.transfers fields registers opcode width)
      (role.filled fields registers memory opcode width dest) := by
  obtain ⟨addressing, immediate⟩ := fields
  cases role with
  | rm load =>
      obtain rfl : load = true := isLoaded
      cases addressing with
      | none => cases inMemory
      | some encoding =>
          simp only [filled, Option.elim, Operand.withRm] at inMemory ⊢
          cases isMemory : encoding.modRm.isMemory with
          | false =>
              rw [isMemory] at inMemory
              cases inMemory
          | true =>
              simp only [transfers, Option.elim, Addressing.transfers, isMemory, if_true]
              exact readOnce_memoryTransfers encoding.unread_loads rfl rfl
  | offset load =>
      obtain rfl : load = true := isLoaded
      have none : Unread [] := by simp [Unread]
      exact readOnce_memoryTransfers none rfl rfl
  | _ => cases isLoaded

end Filled

end Role

namespace Selection

/-- Of the operands of an instruction at most one is in memory. -/
theorem eq_of_addresses {selection : Selection} (regular : selection.Regular)
    {first second : Slot} (isFirst : (selection.role first).addresses = true)
    (isSecond : (selection.role second).addresses = true) : second = first := by
  revert isFirst isSecond
  unfold role
  rcases regular.extra with plain | ⟨added, rm⟩
  · rw [plain]
    generalize selection.form.shape = shape
    cases shape <;> cases first <;> cases second <;> decide
  · rw [added, rm]
    cases first <;> cases second <;> decide

end Selection

/-! ## Opcodes that leave memory unread -/

/-- The opcodes of LEA, of the moves that only store, of POP to a register or memory, and of
SETcc. -/
def avoidsMemory (opcode : UInt16) : Bool :=
  opcode ∈ [0x8D, 0x88, 0x89, 0xC6, 0xC7, 0xA2, 0xA3, 0x8F] ||
    0x0F90 ≤ opcode && opcode ≤ 0x0F9F

namespace OpcodeBytes

theorem avoids_row (opcode : OpcodeBytes) (avoids : avoidsMemory opcode.found.code = true) :
    opcode.row.form.shape.steps.all (!·.loadsMemory) = true := by
  cases opcode with
  | oneByte byte =>
      have checked := OpcodeMap.check_oneByteRow
        (fun byte row => !avoidsMemory byte.toUInt16 || row.form.shape.steps.all (!·.loadsMemory))
        (by decide +kernel) byte
      rcases Bool.or_eq_true_iff.mp checked with other | steps
      · rw [Bool.not_eq_true'] at other
        cases other.symm.trans avoids
      · exact steps
  | twoByte second =>
      have checked := OpcodeMap.check_twoByteRow
        (fun second row => !avoidsMemory (0x0F00 ||| second.toUInt16) ||
          row.form.shape.steps.all (!·.loadsMemory))
        (fun second _ => by rw [Bool.or_eq_true]; exact .inr (by decide)) (by decide +kernel) second
      rcases Bool.or_eq_true_iff.mp checked with other | steps
      · rw [Bool.not_eq_true'] at other
        cases other.symm.trans avoids
      · exact steps

/-- No step of such an opcode loads from memory: only a member of a group adds steps, after an
operand that is loaded. -/
theorem avoids_steps {opcode : OpcodeBytes} {modRm : Option ModRm} {selection : Selection}
    (selected : opcode.row.selection? modRm = some selection)
    (avoids : avoidsMemory opcode.found.code = true) :
    ∀ step ∈ selection.steps, step.loadsMemory = false := by
  have steps := opcode.avoids_row avoids
  rw [← Row.form_selection? selected] at steps
  rcases (Row.regular_selection? opcode.regular_row selected).extra with plain | ⟨-, rm⟩
  · rw [Selection.steps, plain, Shape.steps, List.append_nil]
    simpa using steps
  · rw [rm] at steps
    cases steps

/-- The bytes at the cursor begin with one opcode only. -/
theorem eq_of_holds {opcode other : OpcodeBytes} {stream : Stream} (unescaped : opcode.Unescaped)
    (otherUnescaped : other.Unescaped) (holds : stream.Holds opcode.bytes)
    (otherHolds : stream.Holds other.bytes) : other = opcode := by
  rw [bytes_eq] at holds otherHolds
  obtain ⟨mapped, restHolds⟩ := Stream.holds_cons.mp holds
  obtain ⟨otherMapped, otherRestHolds⟩ := Stream.holds_cons.mp otherHolds
  have first : other.first = opcode.first := Option.some.inj (otherMapped.symm.trans mapped)
  cases opcode with
  | oneByte byte =>
      cases other with
      | oneByte found => exact congrArg oneByte first
      | twoByte second => exact absurd first.symm unescaped
  | twoByte second =>
      cases other with
      | oneByte byte => exact absurd first otherUnescaped
      | twoByte found =>
          have mapped := (Stream.holds_cons.mp restHolds).1
          have otherMapped := (Stream.holds_cons.mp otherRestHolds).1
          exact congrArg twoByte (Option.some.inj (otherMapped.symm.trans mapped))

end OpcodeBytes

namespace Pass

/-- After these opcodes memory is not read, whether decoding succeeds or not. -/
theorem unread_of_avoids {pass : Pass} {run : List UInt8} {opcode : OpcodeBytes}
    (atOpcode : pass.AtOpcode run opcode) (avoids : avoidsMemory opcode.found.code = true) :
    Unread pass.transfers := by
  let base := pass.retraced (some #[])
  have begins : base.BeginsWith run := atOpcode.beginsWith.retraced (some #[])
  obtain ⟨-, opcodeHolds⟩ := Stream.holds_append.mp atOpcode.holds
  cases read : readHeading base.stream.cursor base.decoder.defaultSize base with
  | error fault failed =>
      have ran : decode base = .error fault failed :=
        (decode_eq_halves base).trans (bind_of_error read)
      rw [transfers_eq_nil ran ((ofStream_readHeading _ _).machine_of_error read)]
      simp [Unread]
  | ok heading between =>
      have ran : decode base = decodeOperands base.stream.cursor heading between :=
        (decode_eq_halves base).trans (bind_of_ok read)
      have regular := regular_of_readHeading read
      rw [readHeading_of_run begins atOpcode.few] at read
      obtain ⟨found, -, unescaped, holds, -, selected, moved⟩ := opcode_of_readBare read
      have recording : between.machine.trace = some #[] := by
        rw [moved]
        rfl
      have alike : (heading.begun between).Alike True False (heading.begun between) :=
        alike_self heading recording
      obtain rfl := OpcodeBytes.eq_of_holds atOpcode.unescaped unescaped opcodeHolds holds
      have steps := OpcodeBytes.avoids_steps selected avoids
      -- Run in parallel with themselves where reading memory is not allowed, the steps read none.
      have isRead : ∀ step ∈ heading.selection.steps, step.loadsMemory = true → False :=
        fun step isStep => Bool.eq_false_iff.mp (steps step isStep)
      have recorded := (concurs_decodeOperands regular isRead base.stream.cursor alike).recorded
      intro op isIn
      rw [transfers, ran] at isIn
      exact Bool.eq_false_iff.mpr (recorded.reads op isIn)

/-! ## Reading memory -/

section Encoded

variable {pass : Pass} {encoding : Encoding} {selection : Selection}

theorem eq_of_memory (encodes : encoding.Encodes pass.decoder.defaultSize selection)
    {slot other : Slot}
    (inMemory : ((pass.instruction encoding selection).operand slot).kind = .memory)
    (otherInMemory : ((pass.instruction encoding selection).operand other).kind = .memory) :
    other = slot := by
  have regular := encodes.regular
  rw [operand_instruction _ _ regular] at inMemory otherInMemory
  exact Selection.eq_of_addresses regular (Role.addresses_of_memory inMemory)
    (Role.addresses_of_memory otherInMemory)

/-- For an operand that is not loaded from memory, memory is not read. -/
theorem unread_operand (encodes : encoding.Encodes pass.decoder.defaultSize selection)
    {slot : Slot} (apart : (selection.role slot).loads = true →
      ((pass.instruction encoding selection).operand slot).kind ≠ .memory) :
    Unread ((selection.role slot).transfers encoding.operands pass.machine.registers
      encoding.opcode.found.byte
      (selection.widths (encoding.operandSize pass.decoder.defaultSize) slot)) := by
  rw [operand_instruction _ _ encodes.regular] at apart
  exact Role.unread_transfers apart

theorem unread_of_encodes (encodes : encoding.Encodes pass.decoder.defaultSize selection)
    (holds : pass.stream.Holds encoding.bytes)
    (apart : ∀ slot, (selection.role slot).loads = true →
      ((pass.instruction encoding selection).operand slot).kind ≠ .memory) :
    Unread pass.transfers := by
  rw [transfers_of_encodes encodes holds]
  exact unread_flatMap fun slot _ => unread_operand encodes (apart slot)

/-- The operand that is loaded from memory is staged once, and no other one is in memory. -/
theorem readOnce_of_encodes (encodes : encoding.Encodes pass.decoder.defaultSize selection)
    (holds : pass.stream.Holds encoding.bytes) {slot : Slot}
    (loads : (selection.role slot).loads = true)
    (inMemory : ((pass.instruction encoding selection).operand slot).kind = .memory) :
    ReadOnce pass.transfers ((pass.instruction encoding selection).operand slot) := by
  have isFilled : selection.role slot ≠ .empty := by
    intro empty
    rw [empty] at loads
    cases loads
  obtain ⟨early, late, order, others⟩ := Selection.exists_order encodes.regular isFilled
  have unread (other : Slot) (isOther : other ∈ early ++ late) :=
    unread_operand encodes fun _ otherInMemory =>
      others (eq_of_memory encodes inMemory otherInMemory ▸ isOther)
  rw [operand_instruction pass encoding encodes.regular slot] at inMemory ⊢
  rw [transfers_of_encodes encodes holds, Selection.transfers, order, List.flatMap_append,
    List.flatMap_cons]
  refine (Role.readOnce_transfers loads inMemory).append ?_ ?_
  · exact unread_flatMap fun other isIn => unread other (List.mem_append_left _ isIn)
  · exact unread_flatMap fun other isIn => unread other (List.mem_append_right _ isIn)

end Encoded

/-- Decoding changes neither registers nor memory and only loads. At most one operand is in memory.
If it is one that the pattern loads, memory is read for it, once, right after its address was
staged; else memory is not read. After some opcodes it is not read even if decoding fails. -/
theorem decode_reads_only (pass : Pass) :
    (left (decode pass)).machine =
      { pass.machine with trace := pass.machine.trace.map (· ++ pass.transfers.toArray) } ∧
    (∀ op ∈ pass.transfers, op.Loads) ∧
    (∀ (instruction : Instruction) (after : Pass), decode pass = .ok instruction after →
      (∀ slot other, (instruction.operand slot).kind = .memory →
        (instruction.operand other).kind = .memory → other = slot) ∧
      ∃ (encoding : Encoding) (selection : Selection),
        encoding.Encodes pass.decoder.defaultSize selection ∧
          pass.stream.Holds encoding.bytes ∧
          ((∃ slot, (selection.role slot).loads = true ∧
              (instruction.operand slot).kind = .memory ∧
              ReadOnce pass.transfers (instruction.operand slot)) ∨
            (∀ slot, (selection.role slot).loads = true →
              (instruction.operand slot).kind ≠ .memory) ∧ Unread pass.transfers)) ∧
    ∀ (run : List UInt8) (opcode : OpcodeBytes), pass.AtOpcode run opcode →
      avoidsMemory opcode.found.code = true → Unread pass.transfers := by
  refine ⟨machine_decode pass, fun op isIn => loads_of_mem_transfers isIn, ?_,
    fun run opcode => unread_of_avoids⟩
  intro instruction after ran
  obtain ⟨encoding, selection, ⟨encodes, holds⟩, rfl, rfl⟩ := decode_ok_iff.mp ran
  refine ⟨fun slot other => eq_of_memory encodes, encoding, selection, encodes, holds, ?_⟩
  by_cases isLoaded : ∃ slot, (selection.role slot).loads = true ∧
      ((pass.instruction encoding selection).operand slot).kind = .memory
  · obtain ⟨slot, loads, inMemory⟩ := isLoaded
    exact .inl ⟨slot, loads, inMemory, readOnce_of_encodes encodes holds loads inMemory⟩
  · have apart := fun slot loads inMemory => isLoaded ⟨slot, loads, inMemory⟩
    exact .inr ⟨apart, unread_of_encodes encodes holds apart⟩

/-- `imul ax, word ptr [ebx + 4], -2` reads memory; the ModR/M byte of `lea` is missing. -/
theorem decode_reads_only_imul :
    let imul := ofBytes #[0x66, 0x6B, 0x43, 0x04, 0xFE] []
    let lea := ofBytes #[0x66, 0x8D] []
    (∃ (instruction : Instruction) (after : Pass), decode imul = .ok instruction after ∧
        instruction.src2.kind = .memory ∧ ∃ operand, ReadOnce imul.transfers operand) ∧
      lea.AtOpcode [0x66] (.oneByte 0x8D) ∧ Unread lea.transfers := by
  intro imul lea
  have unescaped : (OpcodeBytes.oneByte 0x8D).Unescaped := by
    show (0x8D : UInt8) ≠ 0x0F
    decide
  have atOpcode : lea.AtOpcode [0x66] (.oneByte 0x8D) :=
    ⟨by decide, List.forall_mem_singleton.mpr (by decide), by decide, by decide, unescaped,
      ⟨by decide +kernel, by decide +kernel, trivial⟩⟩
  refine ⟨⟨_, _, decode_imul, by decide +kernel, ?_⟩, atOpcode,
    (decode_reads_only lea).2.2.2 _ _ atOpcode (by decide)⟩
  obtain ⟨-, encoding, selection, -, -, reads⟩ := (decode_reads_only imul).2.2.1 _ _ decode_imul
  rcases reads with ⟨slot, -, -, once⟩ | ⟨-, unread⟩
  · exact ⟨_, once⟩
  · have loaded : imul.transfers.any MicroOp.readsMemory = true := by decide +kernel
    obtain ⟨op, isIn, isRead⟩ := List.any_eq_true.mp loaded
    cases isRead.symm.trans (unread op isIn)

end Pass

end I386
