import I386.Proofs.MemoryBytes
import I386.Proofs.RegisterBytes
import I386.Proofs.Transfers

/-!
Contract: the record of a machine as a program.

Owns:
- calls to a machine: transfers, taking what was recorded, and switching recording on or off;
- what one transfer does, which is the same whatever has been recorded;
- performing transfers in order.

Main statement: what is taken of the record, followed by what is left in it, is one micro-operation
for each transfer, in order; and performing these again brings the same values and leaves the same
registers and memory, as does any other sequence of calls with the same transfers.

Does not own: which transfers decoding makes.
-/

namespace I386

/-! ## Transfers of a valid width -/

/-- The width of the register or memory that is transferred. An immediate has none. -/
def MicroOp.width? : MicroOp → Option UInt8
  | loadImmediate _ => none
  | loadRegister _ width => some width
  | loadMemory _ width => some width
  | storeRegister _ width _ => some width
  | storeMemory _ width _ => some width

/-- A transfer is of one, two or four bytes. -/
def MicroOp.Sized (op : MicroOp) : Prop :=
  ∀ width ∈ op.width?, ValidWidth width

namespace Machine

/-- A transfer of a valid width succeeds. What it brings and what it leaves in registers and memory
depends on these alone, and if recording is on it is recorded as it was asked for. -/
theorem exists_perform {op : MicroOp} (sized : op.Sized) (registers : Registers)
    (memory : Memory) :
    ∃ (value : UInt32) (registersAfter : Registers) (memoryAfter : Memory),
      ∀ trace : Option (Array MicroOp), perform op ⟨registers, memory, trace⟩ =
        .ok value ⟨registersAfter, memoryAfter, trace.map (·.push op)⟩ := by
  cases op with
  | loadImmediate value => exact ⟨value, registers, memory, fun trace => rfl⟩
  | loadRegister number width =>
      have held := Registers.read_ok_iff.mpr ⟨sized width rfl,
        (rfl : _ = registers.contents number width)⟩
      refine ⟨registers.contents number width, registers, memory, fun trace => ?_⟩
      simp only [perform, execute, record, held]
      rfl
  | loadMemory address width =>
      have held := Memory.read_ok_iff.mpr ⟨sized width rfl,
        (rfl : _ = memory.contents address width)⟩
      refine ⟨memory.contents address width, registers, memory, fun trace => ?_⟩
      simp only [perform, execute, record, held]
      rfl
  | storeRegister number width value =>
      obtain ⟨written, isWritten, -⟩ :=
        Registers.exists_write (sized width rfl) registers number value
      refine ⟨value, written, memory, fun trace => ?_⟩
      simp only [perform, execute, record, isWritten]
      rfl
  | storeMemory address width value =>
      obtain ⟨mask, isMask, -⟩ := exists_widthMask (sized width rfl)
      refine ⟨value, registers,
        memory.storeBytes address (LittleEndian.bytes width.toNat (value &&& mask)),
        fun trace => ?_⟩
      simp only [perform, execute, record, Memory.write, isMask]
      rfl

/-- Perform transfers in order: the value that each brings or carries. -/
def performAll : List MicroOp → EStateM Violation Machine (List UInt32)
  | [] => pure []
  | op :: rest => do
      let value ← perform op
      let values ← performAll rest
      return value :: values

/-- What transfers of valid widths do together, whatever has been recorded. -/
theorem exists_performAll {ops : List MicroOp} (sized : ∀ op ∈ ops, op.Sized)
    (registers : Registers) (memory : Memory) :
    ∃ (values : List UInt32) (registersAfter : Registers) (memoryAfter : Memory),
      values.length = ops.length ∧
      ∀ trace : Option (Array MicroOp), performAll ops ⟨registers, memory, trace⟩ =
        .ok values ⟨registersAfter, memoryAfter, trace.map (· ++ ops.toArray)⟩ := by
  -- What a transfer does is known before a trace is chosen, so one choice of values serves all.
  induction ops generalizing registers memory with
  | nil =>
      refine ⟨[], registers, memory, rfl, fun trace => ?_⟩
      cases trace <;> simp [performAll, pure, EStateM.pure]
  | cons op rest inductionHypothesis =>
      obtain ⟨opSized, restSized⟩ := List.forall_mem_cons.mp sized
      obtain ⟨value, between, memoryBetween, first⟩ := exists_perform opSized registers memory
      obtain ⟨values, registersAfter, memoryAfter, length, remaining⟩ :=
        inductionHypothesis restSized between memoryBetween
      refine ⟨value :: values, registersAfter, memoryAfter, congrArg (· + 1) length,
        fun trace => ?_⟩
      refine (bind_of_ok (first trace)).trans ?_
      refine (bind_of_ok (remaining _)).trans ?_
      cases trace <;> simp [pure, EStateM.pure]

/-! ## Calls -/

/-- A call to a machine. -/
inductive Call where
  | transfer (op : MicroOp)
  | takeTrace
  | setTrace (on : Bool)
deriving DecidableEq, Repr

/-- The transfers among calls, in order. -/
def transfersOf (calls : List Call) : List MicroOp :=
  calls.filterMap fun call =>
    match call with
    | .transfer op => some op
    | _ => none

/-- What calls answer: the value of each transfer, and each piece of the record that was taken. -/
structure Answers where
  values : List UInt32
  pieces : List (List MicroOp)
deriving DecidableEq, Repr

/-- Serve calls in order. -/
def serve : List Call → EStateM Violation Machine Answers
  | [] => pure ⟨[], []⟩
  | .transfer op :: rest => do
      let value ← perform op
      let answers ← serve rest
      return { answers with values := value :: answers.values }
  | .takeTrace :: rest => do
      let piece ← modifyGet takeTrace
      let answers ← serve rest
      return { answers with pieces := piece :: answers.pieces }
  | .setTrace on :: rest => do
      modify (·.setTrace on)
      serve rest

/-- No call switches recording on or off. -/
def Steady (calls : List Call) : Prop :=
  ∀ on, Call.setTrace on ∉ calls

/-- The pieces that calls take, and what they leave recorded, are together what was recorded before
and a micro-operation for each transfer. -/
structure Faithful (calls : List Call) (before after : Option (Array MicroOp))
    (pieces : List (List MicroOp)) : Prop where
  /-- Every call to take the record is answered, be recording on or off. -/
  length : pieces.length = calls.count .takeTrace
  recorded : ∀ start, before = some start → Steady calls →
    ∃ pending, after = some pending ∧
      pieces.flatten ++ pending.toList = start.toList ++ transfersOf calls

section Faithful

variable {rest : List Call} {after : Option (Array MicroOp)} {pieces : List (List MicroOp)}

theorem Faithful.transfer {before : Option (Array MicroOp)} {op : MicroOp}
    (faithful : Faithful rest (before.map (·.push op)) after pieces) :
    Faithful (.transfer op :: rest) before after pieces := by
  refine ⟨by simpa using faithful.length, ?_⟩
  rintro start rfl steady
  obtain ⟨pending, left, whole⟩ := faithful.recorded (start.push op) rfl
    fun on isIn => steady on (List.mem_cons_of_mem _ isIn)
  refine ⟨pending, left, whole.trans ?_⟩
  rw [Array.toList_push, List.append_assoc]
  rfl

theorem Faithful.takeTrace {before : Option (Array MicroOp)}
    (faithful : Faithful rest (before.map fun _ => #[]) after pieces) :
    Faithful (.takeTrace :: rest) before after ((before.getD #[]).toList :: pieces) := by
  refine ⟨by simpa using faithful.length, ?_⟩
  rintro start rfl steady
  obtain ⟨pending, left, whole⟩ := faithful.recorded #[] rfl
    fun on isIn => steady on (List.mem_cons_of_mem _ isIn)
  refine ⟨pending, left, ?_⟩
  rw [List.flatten_cons, List.append_assoc, whole]
  rfl

theorem Faithful.setTrace {before : Option (Array MicroOp)} {on : Bool}
    (faithful : Faithful rest (if on then some #[] else none) after pieces) :
    Faithful (.setTrace on :: rest) before after pieces := by
  refine ⟨by simpa using faithful.length, ?_⟩
  intro start _ steady
  exact absurd List.mem_cons_self (steady on)

end Faithful

/-- Calls do to registers and memory what their transfers do, whether or not these are recorded. -/
theorem serve_of_performAll {calls : List Call} {registers registersAfter : Registers}
    {memory memoryAfter : Memory} {values : List UInt32}
    (sized : ∀ op ∈ transfersOf calls, op.Sized)
    (performed : performAll (transfersOf calls) ⟨registers, memory, none⟩ =
      .ok values ⟨registersAfter, memoryAfter, none⟩)
    (trace : Option (Array MicroOp)) :
    ∃ (pieces : List (List MicroOp)) (after : Option (Array MicroOp)),
      serve calls ⟨registers, memory, trace⟩ =
        .ok ⟨values, pieces⟩ ⟨registersAfter, memoryAfter, after⟩ ∧
      Faithful calls trace after pieces := by
  -- Every call leaves behind the trace with which the rest begins.
  induction calls generalizing registers memory values trace with
  | nil =>
      cases performed
      refine ⟨[], trace, rfl, rfl, ?_⟩
      rintro start rfl -
      exact ⟨start, rfl, (List.append_nil _).symm⟩
  | cons call rest inductionHypothesis =>
      cases call with
      | transfer op =>
          obtain ⟨opSized, restSized⟩ := List.forall_mem_cons.mp sized
          obtain ⟨value, between, memoryBetween, first⟩ := exists_perform opSized registers memory
          obtain ⟨found, _, ranFirst, ranRest⟩ := bind_ok_iff.mp performed
          obtain ⟨rfl, rfl⟩ := EStateM.Result.ok.inj ((first none).symm.trans ranFirst)
          obtain ⟨others, _, ranOthers, isValues⟩ := bind_ok_iff.mp ranRest
          obtain ⟨rfl, rfl⟩ := pure_ok_iff.mp isValues
          obtain ⟨pieces, after, served, faithful⟩ :=
            inductionHypothesis restSized ranOthers (trace.map (·.push op))
          refine ⟨pieces, after, ?_, faithful.transfer⟩
          exact (bind_of_ok (first trace)).trans (bind_of_ok served)
      | takeTrace =>
          obtain ⟨pieces, after, served, faithful⟩ :=
            inductionHypothesis sized performed (trace.map fun _ => #[])
          exact ⟨(trace.getD #[]).toList :: pieces, after, bind_of_ok served, faithful.takeTrace⟩
      | setTrace on =>
          obtain ⟨pieces, after, served, faithful⟩ :=
            inductionHypothesis sized performed (if on then some #[] else none)
          exact ⟨pieces, after, served, faithful.setTrace⟩

/-- On any machine, calls whose transfers have valid widths are answered. While recording stays on,
the pieces taken and what is left recorded are what had been recorded and then every transfer, once
and in order. Performing the transfers on any machine with the same registers and memory brings the
same values and leaves the same registers and memory; and so do any calls with the same transfers,
whenever they take the record, and be recording on, off or switched in between. -/
theorem serve_replays (machine : Machine) {calls : List Call}
    (sized : ∀ op ∈ transfersOf calls, op.Sized) :
    ∃ (answers : Answers) (after : Machine), serve calls machine = .ok answers after ∧
      answers.values.length = (transfersOf calls).length ∧
      answers.pieces.length = calls.count .takeTrace ∧
      (machine.trace.isSome = true → Steady calls →
        answers.pieces.flatten ++ after.recorded = machine.recorded ++ transfersOf calls) ∧
      ∀ other : Machine, other.registers = machine.registers → other.memory = machine.memory →
        (∃ replayed : Machine,
          performAll (transfersOf calls) other = .ok answers.values replayed ∧
            replayed.registers = after.registers ∧ replayed.memory = after.memory) ∧
        ∀ otherCalls : List Call, transfersOf otherCalls = transfersOf calls →
          ∃ (otherAnswers : Answers) (otherAfter : Machine),
            serve otherCalls other = .ok otherAnswers otherAfter ∧
              otherAnswers.values = answers.values ∧
              otherAfter.registers = after.registers ∧ otherAfter.memory = after.memory := by
  obtain ⟨registers, memory, trace⟩ := machine
  obtain ⟨values, registersAfter, memoryAfter, length, performed⟩ :=
    exists_performAll sized registers memory
  obtain ⟨pieces, traceAfter, served, faithful⟩ := serve_of_performAll sized (performed none) trace
  refine ⟨_, _, served, length, faithful.length, ?_, ?_⟩
  · intro recording steady
    obtain ⟨start, rfl⟩ := Option.isSome_iff_exists.mp recording
    obtain ⟨pending, rfl, whole⟩ := faithful.recorded start rfl steady
    exact whole
  · rintro ⟨_, _, otherTrace⟩ rfl rfl
    refine ⟨⟨_, performed otherTrace, rfl, rfl⟩, ?_⟩
    intro otherCalls same
    have otherSized : ∀ op ∈ transfersOf otherCalls, op.Sized := same ▸ sized
    obtain ⟨otherPieces, otherAfter, otherServed, -⟩ :=
      serve_of_performAll otherSized (same ▸ performed none) otherTrace
    exact ⟨_, _, otherServed, rfl, rfl, rfl⟩

/-- Calls that store AH, which is a part of EAX, and store across the end of memory. -/
def wrappingCalls : List Call :=
  [.transfer (.storeRegister 0 4 0x11223344), .takeTrace, .transfer (.storeRegister 4 1 0xAB),
    .transfer (.loadRegister 0 4), .transfer (.storeMemory 3 2 0x1BEEF), .takeTrace,
    .transfer (.loadMemory 0 1)]

theorem serve_replays_wrapping :
    let machine := (ofMemorySize 3).setTrace true
    (∀ op ∈ transfersOf wrappingCalls, op.Sized) ∧
      ∃ (answers : Answers) (after replayed : Machine),
        serve wrappingCalls machine = .ok answers after ∧
          answers.values = [0x11223344, 0xAB, 0x1122AB44, 0x1BEEF, 0xBE] ∧
          answers.pieces.map List.length = [1, 3] ∧ after.recorded = [.loadMemory 0 1] ∧
          performAll (answers.pieces.flatten ++ after.recorded) (ofMemorySize 3) =
            .ok answers.values replayed ∧
          replayed.registers = after.registers ∧ replayed.memory = after.memory := by
  intro machine
  have sized : ∀ op ∈ transfersOf wrappingCalls, op.Sized := by
    simp [wrappingCalls, transfersOf, MicroOp.Sized, MicroOp.width?, ValidWidth]
  obtain ⟨answers, after, served, -, -, whole, others⟩ := serve_replays machine sized
  obtain ⟨⟨replayed, again, registers, memory⟩, -⟩ := others (ofMemorySize 3) rfl rfl
  have isAnswers : (match serve wrappingCalls machine with
        | .ok answers _ => some answers
        | .error _ _ => none) =
      some ⟨[0x11223344, 0xAB, 0x1122AB44, 0x1BEEF, 0xBE],
        [[.storeRegister 0 4 0x11223344],
          [.storeRegister 4 1 0xAB, .loadRegister 0 4, .storeMemory 3 2 0x1BEEF]]⟩ := by
    decide +kernel
  rw [served] at isAnswers
  obtain rfl := Option.some.inj isAnswers
  have record := whole rfl (by simp [Steady, wrappingCalls])
  refine ⟨sized, _, after, replayed, served, rfl, rfl, ?_, ?_, registers, memory⟩
  · exact List.append_cancel_left record
  · rw [record]
    exact again

end Machine

end I386
