import I386.Proofs.Transfers

/-!
Contract: the same computation on machines that hold different things.

Owns:
- passes that are alike: the same stream, opcode, widths and register numbers, and records that
  differ only in what registers and memory supplied;
- computations that run in parallel: from passes that are alike, they succeed or fail together and
  leave passes that are alike;
- every step of an operand pattern but the look at a ModR/M byte runs in parallel with itself.

`exact` says that the registers of the two machines hold the same, and `reads` that memory may be
read. Two runs with `exact` compute the same addresses.

Main statement: the steps of an operation run in parallel with themselves, or both runs refuse the
same ModR/M byte before anything is transferred.

Does not own: what the operands hold afterwards.
-/

namespace I386

/-! ## What is alike -/

/-- Records that differ only in what machines supplied, and in nothing if `exact`. -/
structure RecordsAlike (exact reads : Prop) (first second : List MicroOp) : Prop where
  outline : second.map MicroOp.outline = first.map MicroOp.outline
  same : exact → second = first
  reads : ∀ op ∈ first, op.readsMemory = true → reads

theorem RecordsAlike.append {exact reads : Prop} {first second firstMore secondMore : List MicroOp}
    (front : RecordsAlike exact reads first second)
    (back : RecordsAlike exact reads firstMore secondMore) :
    RecordsAlike exact reads (first ++ firstMore) (second ++ secondMore) where
  outline := by rw [List.map_append, List.map_append, front.outline, back.outline]
  same := fun isExact => by rw [front.same isExact, back.same isExact]
  reads := fun op isIn => (List.mem_append.mp isIn).elim (front.reads op) (back.reads op)

theorem RecordsAlike.singleton {exact reads : Prop} {op other : MicroOp}
    (outline : other.outline = op.outline) (same : exact → other = op)
    (isRead : op.readsMemory = true → reads) : RecordsAlike exact reads [op] [other] where
  outline := congrArg ([·]) outline
  same := fun isExact => congrArg ([·]) (same isExact)
  reads := List.forall_mem_singleton.mpr isRead

/-! ## What is held -/

/-- Contents of the two machines at one width: there are both or none. -/
inductive HeldAlike (related : UInt32 → UInt32 → Prop) :
    Except Violation UInt32 → Except Violation UInt32 → Prop where
  | ok {value other : UInt32} (isRelated : related value other) :
      HeldAlike related (.ok value) (.ok other)
  | error (violation : Violation) : HeldAlike related (.error violation) (.error violation)

theorem heldAlike_register {exact : Prop} {first second : Registers} (same : exact → second = first)
    (number width : UInt8) :
    HeldAlike (fun value other => exact → other = value) (first.read number width)
      (second.read number width) := by
  by_cases valid : ValidWidth width
  · rw [Registers.read_ok_iff.mpr ⟨valid, rfl⟩, Registers.read_ok_iff.mpr ⟨valid, rfl⟩]
    exact .ok fun isExact => by rw [same isExact]
  · rw [Registers.read_of_invalid valid, Registers.read_of_invalid valid]
    exact .error _

theorem heldAlike_memory (first second : Memory) (address other : UInt32) (width : UInt8) :
    HeldAlike (fun _ _ => True) (first.read address width) (second.read other width) := by
  by_cases valid : ValidWidth width
  · rw [Memory.read_ok_iff.mpr ⟨valid, rfl⟩, Memory.read_ok_iff.mpr ⟨valid, rfl⟩]
    exact .ok trivial
  · rw [Memory.read_of_invalid valid, Memory.read_of_invalid valid]
    exact .error _

theorem HeldAlike.mono {strong weak : UInt32 → UInt32 → Prop}
    {first second : Except Violation UInt32} (alike : HeldAlike strong first second)
    (weaker : ∀ {value other : UInt32}, strong value other → weak value other) :
    HeldAlike weak first second := by
  cases alike with
  | ok isRelated => exact .ok (weaker isRelated)
  | error violation => exact .error violation

/-- Both loads have the same width, so both bring something or neither does. -/
theorem LoadsAlike.held {rules : Rules} {op other : MicroOp} (alike : LoadsAlike rules op other)
    {registers others : Registers} (same : rules.exact → others = registers)
    (memory found : Memory) :
    HeldAlike (fun value other => rules.exact ∧ op.readsMemory = false → other = value)
      (op.held registers memory) (other.held others found) := by
  obtain ⟨isLoad, outline, sameOp, -, -⟩ := alike
  cases op with
  | loadImmediate value =>
      cases other with
      | loadImmediate found => exact .ok fun known => MicroOp.loadImmediate.inj (sameOp known.1)
      | _ => cases outline
  | loadRegister number width =>
      cases other with
      | loadRegister otherNumber otherWidth =>
          obtain ⟨rfl, rfl⟩ := MicroOp.loadRegister.inj outline
          exact (heldAlike_register same _ _).mono fun same known => same known.1
      | _ => cases outline
  | loadMemory address width =>
      cases other with
      | loadMemory otherAddress otherWidth =>
          obtain ⟨-, rfl⟩ := MicroOp.loadMemory.inj outline
          exact (heldAlike_memory memory found _ _ _).mono fun _ known => nomatch known.2
      | _ => cases outline
  | storeRegister number width value => exact isLoad.elim
  | storeMemory address width value => exact isLoad.elim

namespace Pass

structure Alike (exact reads : Prop) (first second : Pass) : Prop where
  stream : second.stream = first.stream
  opcode : second.decoder.context.opcode = first.decoder.context.opcode
  slots : ∀ slot, (first.decoder.slot slot).Alike exact (second.decoder.slot slot)
  registers : exact → second.machine.registers = first.machine.registers
  recording : first.machine.trace.isSome = true ∧ second.machine.trace.isSome = true
  recorded : RecordsAlike exact reads first.machine.recorded second.machine.recorded

/-- Outcomes that succeed or fail together, on passes that are alike. A failure is for want of a
byte at the cursor, or breaks a contract. -/
inductive Matches {α : Type} (exact reads : Prop) (related : α → α → Prop) :
    EStateM.Result Fault Pass α → EStateM.Result Fault Pass α → Prop where
  | ok {value other : α} {after reached : Pass} (isRelated : related value other)
      (alike : after.Alike exact reads reached) :
      Matches exact reads related (.ok value after) (.ok other reached)
  | exhausted {failed stopped : Pass} (alike : failed.Alike exact reads stopped)
      (unmapped : failed.stream.byteAt? failed.stream.cursor = none) :
      Matches exact reads related (.error (.decode (.readOutOfBounds failed.stream.cursor)) failed)
        (.error (.decode (.readOutOfBounds failed.stream.cursor)) stopped)
  | violation (violation : Violation) {failed stopped : Pass}
      (alike : failed.Alike exact reads stopped) :
      Matches exact reads related (.error (.violation violation) failed)
        (.error (.violation violation) stopped)

/-- From passes that are alike, the computations have outcomes that match. -/
def Parallel {α : Type} (exact reads : Prop) (related : α → α → Prop)
    (first second : PassM α) : Prop :=
  ∀ pass other : Pass, pass.Alike exact reads other →
    Matches exact reads related (first pass) (second other)

section Parallel

variable {exact reads : Prop} {α β : Type} {related : α → α → Prop}

/-! ## Computations in parallel -/

theorem Parallel.pure {value other : α} (isRelated : related value other) :
    Parallel exact reads related (pure value) (pure other) :=
  fun _ _ alike => .ok isRelated alike

theorem parallel_violate (violation : Violation) :
    Parallel exact reads related (violate violation) (violate violation) :=
  fun _ _ alike => .violation violation alike

theorem Matches.bind {early : β → β → Prop} {first second : PassM β} {next other : β → PassM α}
    {pass elsewhere : Pass} (same : Matches exact reads early (first pass) (second elsewhere))
    (rest : ∀ value found, early value found →
      Parallel exact reads related (next value) (other found)) :
    Matches exact reads related ((first >>= next) pass) ((second >>= other) elsewhere) := by
  generalize ran : first pass = outcome at same
  generalize otherRan : second elsewhere = result at same
  cases same with
  | ok isRelated between =>
      rw [bind_of_ok ran, bind_of_ok otherRan]
      exact rest _ _ isRelated _ _ between
  | exhausted failed unmapped =>
      rw [bind_of_error ran, bind_of_error otherRan]
      exact .exhausted failed unmapped
  | violation violation failed =>
      rw [bind_of_error ran, bind_of_error otherRan]
      exact .violation violation failed

theorem Parallel.bind {early : β → β → Prop} {first second : PassM β} {next other : β → PassM α}
    (one : Parallel exact reads early first second)
    (rest : ∀ value found, early value found →
      Parallel exact reads related (next value) (other found)) :
    Parallel exact reads related (first >>= next) (second >>= other) :=
  fun pass elsewhere alike => (one pass elsewhere alike).bind rest

theorem Parallel.mono {strong : α → α → Prop} {first second : PassM α}
    (parallel : Parallel exact reads strong first second)
    (weaker : ∀ {value other : α}, strong value other → related value other) :
    Parallel exact reads related first second := by
  intro pass other alike
  have same := parallel pass other alike
  generalize first pass = outcome at same
  generalize second other = result at same
  cases same with
  | ok isRelated alike => exact .ok (weaker isRelated) alike
  | exhausted alike unmapped => exact .exhausted alike unmapped
  | violation violation alike => exact .violation violation alike

/-! ## The decoder -/

/-- Changes of the decoder that keep the opcode, and slots alike. -/
theorem Alike.of_decoder {pass other : Pass} (alike : pass.Alike exact reads other)
    {decoder found : Decoder} (opcode : decoder.context.opcode = pass.decoder.context.opcode)
    (otherOpcode : found.context.opcode = other.decoder.context.opcode)
    (slots : ∀ slot, (decoder.slot slot).Alike exact (found.slot slot)) :
    Alike exact reads { pass with decoder } { other with decoder := found } where
  stream := alike.stream
  opcode := otherOpcode.trans (alike.opcode.trans opcode.symm)
  slots := slots
  registers := alike.registers
  recording := alike.recording
  recorded := alike.recorded

theorem parallel_operand (slot : Slot) :
    Parallel exact reads (Operand.Alike exact) (operand slot) (operand slot) :=
  fun _ _ alike => .ok (alike.slots slot) alike

theorem parallel_modifyOperand (slot : Slot) {change other : Operand → Operand}
    (keeps : ∀ {operand found : Operand}, operand.Alike exact found →
      (change operand).Alike exact (other found)) :
    Parallel exact reads Eq (modifyOperand slot change) (modifyOperand slot other) := by
  intro pass elsewhere alike
  refine .ok rfl (alike.of_decoder ?_ ?_ fun target => ?_)
  · cases slot <;> rfl
  · cases slot <;> rfl
  · rw [Decoder.slot_setSlot, Decoder.slot_setSlot]
    by_cases same : target = slot
    · rw [if_pos same, if_pos same]
      exact keeps (alike.slots slot)
    · rw [if_neg same, if_neg same]
      exact alike.slots target

theorem parallel_modifyContext {change other : Context → Context}
    (keeps : ∀ context, (change context).opcode = context.opcode)
    (otherKeeps : ∀ context, (other context).opcode = context.opcode) :
    Parallel exact reads Eq (modifyContext change) (modifyContext other) :=
  fun _ _ alike => .ok rfl (alike.of_decoder (keeps _) (otherKeeps _) alike.slots)

/-! ## The stream -/

theorem Alike.skip {pass other : Pass} (alike : pass.Alike exact reads other) (count : Nat) :
    (pass.skip count).Alike exact reads (other.skip count) where
  stream := congrArg (Stream.skip · count) alike.stream
  opcode := alike.opcode
  slots := alike.slots
  registers := alike.registers
  recording := alike.recording
  recorded := alike.recorded

theorem parallel_fetchByte : Parallel exact reads Eq fetchByte fetchByte := by
  intro pass other alike
  have otherStream := alike.stream
  cases mapped : pass.stream.byteAt? pass.stream.cursor with
  | none =>
      have unmapped : other.stream.byteAt? other.stream.cursor = none := otherStream ▸ mapped
      rw [fetchByte_of_unmapped pass mapped, fetchByte_of_unmapped other unmapped, otherStream]
      exact .exhausted alike mapped
  | some byte =>
      have otherMapped : other.stream.byteAt? other.stream.cursor = some byte :=
        otherStream ▸ mapped
      have fetched : fetchByte pass = .ok byte (pass.skip 1) := fetchByte_ok_iff.mpr ⟨mapped, rfl⟩
      have otherFetched : fetchByte other = .ok byte (other.skip 1) :=
        fetchByte_ok_iff.mpr ⟨otherMapped, rfl⟩
      rw [fetched, otherFetched]
      exact .ok rfl (alike.skip 1)

/-! ## The machine -/

/-- A load on both sides, whatever is known of the values that it brings. -/
theorem parallel_transfer {rules : Rules} {op other : MicroOp} (alike : LoadsAlike rules op other) :
    Parallel rules.exact rules.reads
      (fun value other => rules.exact ∧ op.readsMemory = false → other = value)
      (transfer op) (transfer other) := by
  intro pass elsewhere passAlike
  have otherLoad : other.IsLoad :=
    MicroOp.isLoad_outline.mp (alike.outline ▸ MicroOp.isLoad_outline.mpr alike.isLoad)
  obtain ⟨recording, otherRecording⟩ := passAlike.recording
  have ops : RecordsAlike rules.exact rules.reads [op] [other] :=
    .singleton alike.outline alike.same alike.reads
  have recorded : (pass.recordAll [op]).Alike rules.exact rules.reads
      (elsewhere.recordAll [other]) := by
    refine ⟨passAlike.stream, passAlike.opcode, passAlike.slots, passAlike.registers, ?_, ?_⟩
    · exact ⟨Option.isSome_map.trans recording, Option.isSome_map.trans otherRecording⟩
    · have both := passAlike.recorded.append ops
      rw [← Machine.recorded_recordAll recording, ← Machine.recorded_recordAll otherRecording]
        at both
      exact both
  have held := alike.held passAlike.registers pass.machine.memory elsewhere.machine.memory
  rw [transfer_of_isLoad alike.isLoad, transfer_of_isLoad otherLoad]
  generalize op.held pass.machine.registers pass.machine.memory = mine at held
  generalize other.held elsewhere.machine.registers elsewhere.machine.memory = others at held
  cases held with
  | ok isRelated => exact .ok isRelated recorded
  | error violation => exact .violation violation recorded

/-! ## Composed computations -/

/-- What is put together in the same way on both sides runs in parallel. -/
theorem Paired.parallel {rules : Rules} {certain : Prop} {first second : PassM α}
    (paired : Paired rules certain first second) (lenient : ¬rules.valid) (takes : ¬rules.looks) :
    Parallel rules.exact rules.reads (fun value other => certain → other = value) first second := by
  induction paired with
  | pure same => exact .pure same
  | violate _ violation => exact parallel_violate violation
  | fetchByte => exact parallel_fetchByte.mono fun same _ => same.symm
  | load alike known =>
      exact (parallel_transfer alike).mono fun same isCertain => same (known isCertain)
  | setAddressCell value other =>
      have cell : Parallel rules.exact rules.reads Eq (I386.Pass.setAddressCell value)
          (I386.Pass.setAddressCell other) :=
        parallel_modifyContext (fun _ => rfl) fun _ => rfl
      exact cell.mono fun same _ => same.symm
  | currentOpcode => exact fun _ _ alike => .ok (fun _ => alike.opcode) alike
  | modifyOperand free slot alike keeps =>
      exact (parallel_modifyOperand slot alike).mono fun same _ => same.symm
  | requireMemory looks => exact absurd looks takes
  | resolveBranch free isBranch =>
      exact fun _ _ alike => .ok (fun _ => rfl) (alike.of_decoder rfl rfl alike.slots)
  | withOperand free slot rest nextParallel =>
      exact (parallel_operand slot).bind fun operand found alike =>
        nextParallel operand found alike (absurd · lenient)
  | bind one rest firstParallel nextParallel =>
      exact firstParallel.bind fun value found same => nextParallel value found same

end Parallel

end Pass

/-! ## Steps in parallel -/

namespace Step

theorem parallel_runAll {exact reads : Prop} {steps : List Step} (takes : requireMemory ∉ steps)
    (isRead : ∀ step ∈ steps, step.loadsMemory = true → reads) :
    Pass.Parallel exact reads Eq (runAll steps) (runAll steps) := by
  let rules : Rules := { Rules.lenient with exact, reads, looks := False }
  have obey : ∀ step ∈ steps, step.Obeys rules := fun step isIn =>
    ⟨isRead step isIn, fun looks => takes (looks ▸ isIn), fun _ => trivial, fun _ => id⟩
  have composed : Pass.Composed rules (runAll steps) := composed_runAll trivial obey
  exact (composed.parallel id id).mono fun same => (same trivial).symm

end Step

namespace Pass

/-- The byte at the cursor is a ModR/M byte that selects a register. -/
def AtRegister (pass : Pass) (byte : UInt8) : Prop :=
  pass.stream.byteAt? pass.stream.cursor = some byte ∧ (ModRm.mk byte).isMemory = false

theorem requireMemory_of_register {pass : Pass} {byte : UInt8} (atRegister : pass.AtRegister byte) :
    requireMemory pass = .error (.decode (.invalidModRm byte pass.stream.cursor)) pass := by
  obtain ⟨mapped, register⟩ := atRegister
  rw [requireMemory_of_mapped mapped, register]
  rfl

/-- Where the look at the next ModR/M byte is no refusal, it runs in parallel with itself. -/
theorem matches_requireMemory {exact reads : Prop} {pass other : Pass}
    (alike : pass.Alike exact reads other) :
    Matches exact reads Eq (requireMemory pass) (requireMemory other) ∨
      ∃ byte, pass.AtRegister byte := by
  have stream := alike.stream
  cases mapped : pass.stream.byteAt? pass.stream.cursor with
  | none =>
      have unmapped : other.stream.byteAt? other.stream.cursor = none := stream ▸ mapped
      rw [requireMemory_of_unmapped mapped, requireMemory_of_unmapped unmapped, stream]
      exact .inl (.exhausted alike mapped)
  | some byte =>
      cases memory : (ModRm.mk byte).isMemory with
      | false => exact .inr ⟨byte, mapped, memory⟩
      | true =>
          have ran : requireMemory pass = .ok () pass :=
            requireMemory_ok_iff.mpr ⟨⟨⟨byte⟩, mapped, memory⟩, rfl⟩
          have otherRan : requireMemory other = .ok () other :=
            requireMemory_ok_iff.mpr ⟨⟨⟨byte⟩, stream ▸ mapped, memory⟩, rfl⟩
          rw [ran, otherRan]
          exact .inl (.ok rfl alike)

end Pass

namespace Selection

theorem steps_of_address {selection : Selection} (regular : selection.Regular)
    (address : selection.form.shape = .addressToReg) :
    selection.steps = [.requireMemory, .modRm .src false (some (.dest, false))] := by
  rcases regular.extra with plain | ⟨-, rm⟩
  · rw [steps, address, plain]
    rfl
  · rw [address] at rm
    cases rm

/-- An address is not taken of a register. -/
theorem runAll_of_register {selection : Selection} (regular : selection.Regular)
    (address : selection.form.shape = .addressToReg) {pass : Pass} {byte : UInt8}
    (atRegister : pass.AtRegister byte) :
    Step.runAll selection.steps pass =
      .error (.decode (.invalidModRm byte pass.stream.cursor)) pass := by
  rw [steps_of_address regular address]
  exact bind_of_error (Pass.requireMemory_of_register atRegister)

/-- The steps of an operation run in parallel with themselves, unless both runs refuse to take the
address of a register. -/
theorem matches_steps {selection : Selection} (regular : selection.Regular) {exact reads : Prop}
    (isRead : ∀ step ∈ selection.steps, step.loadsMemory = true → reads) {pass other : Pass}
    (alike : pass.Alike exact reads other) :
    Pass.Matches exact reads Eq (Step.runAll selection.steps pass)
        (Step.runAll selection.steps other) ∨
      selection.form.shape = .addressToReg ∧ ∃ byte, pass.AtRegister byte := by
  by_cases address : selection.form.shape = .addressToReg
  · rcases Pass.matches_requireMemory alike with first | atRegister
    · rw [steps_of_address regular address]
      -- What comes after the look at the byte does not look again.
      have rest : Pass.Parallel exact reads Eq
          (Step.runAll [.modRm .src false (some (.dest, false))])
          (Step.runAll [.modRm .src false (some (.dest, false))]) :=
        Step.parallel_runAll (by decide) (by simp [Step.loadsMemory])
      exact .inl (first.bind fun _ _ _ => rest)
    · exact .inr ⟨address, atRegister⟩
  · exact .inl (Step.parallel_runAll (requireMemory_notMem regular address) isRead _ _ alike)

end Selection

end I386
