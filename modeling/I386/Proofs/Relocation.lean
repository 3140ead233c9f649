import I386.Proofs.Heading

/-!
Contract: decoding the same bytes at other addresses.

Owns:
- streams whose bytes and cursor stand further on, past the end of the address space and on from
  zero if they reach it;
- computations that move along with their stream: from further on they do the same, and what they
  say about places in the code is further on by as much;
- every part of decoding moves along.

Main statement: from the same bytes at other addresses, decoding gives the same instruction or
error, leaves the same machine, and names places that are further on by as much as the bytes are.

Addresses of operands are not places in the code: registers and encodings supply them, so they stay.

Does not own: which instruction the bytes are.
-/

namespace I386

/-! ## Further on -/

/-- The bytes and the cursor, `distance` further on. -/
def Stream.moved (stream : Stream) (distance : UInt32) : Stream :=
  { stream with
    base := stream.base + distance
    cursor := stream.cursor + distance }

/-- The error with the place that it names. -/
def DecodeError.moved (error : DecodeError) (distance : UInt32) : DecodeError :=
  match error with
  | readOutOfBounds address => readOutOfBounds (address + distance)
  | invalidModRm byte address => invalidModRm byte (address + distance)
  | unsupportedOpcode opcode address => unsupportedOpcode opcode (address + distance)
  | instructionTooLong address => instructionTooLong (address + distance)

/-- A violation names no place. -/
def Fault.moved (fault : Fault) (distance : UInt32) : Fault :=
  match fault with
  | .decode error => .decode (error.moved distance)
  | .violation broken => .violation broken

/-- The context of an instruction whose end has not been noted yet: a target that has been resolved
moves along. -/
def Context.retargeted (context : Context) (distance : UInt32) : Context :=
  { context with
    branchTarget :=
      if context.isBranch then context.branchTarget + distance else context.branchTarget }

/-- The context of an instruction whose end has been noted. -/
def Context.moved (context : Context) (distance : UInt32) : Context :=
  { context.retargeted distance with nextAddress := context.nextAddress + distance }

/-- The decoder without the places in the code that its context holds. -/
def Decoder.unplaced (decoder : Decoder) : Decoder :=
  { decoder with context := { decoder.context with branchTarget := 0, nextAddress := 0 } }

/-- The instruction and its target, if it has one. -/
def Instruction.moved (instruction : Instruction) (distance : UInt32) : Instruction :=
  { instruction with
    address := instruction.address + distance
    branchTarget := instruction.branchTarget.map (· + distance) }

namespace Stream

theorem byteAt?_moved (stream : Stream) (distance address : UInt32) :
    (stream.moved distance).byteAt? (address + distance) = stream.byteAt? address := by
  have offset : address + distance - (stream.base + distance) = address - stream.base := by grind
  show stream.bytes[(address + distance - (stream.base + distance)).toNat]? = _
  rw [offset]
  rfl

theorem skip_moved (stream : Stream) (distance : UInt32) (count : Nat) :
    (stream.moved distance).skip count = (stream.skip count).moved distance := by
  have cursor : stream.cursor + distance + UInt32.ofNat count =
      stream.cursor + UInt32.ofNat count + distance := by grind
  show ({ stream.moved distance with cursor := _ } : Stream) = _
  rw [show (stream.moved distance).cursor = stream.cursor + distance from rfl, cursor]
  rfl

end Stream

namespace Pass

/-- The pass while an instruction is being decoded, with its stream further on. -/
def moved (pass : Pass) (distance : UInt32) : Pass where
  stream := pass.stream.moved distance
  machine := pass.machine
  decoder := { pass.decoder with context := pass.decoder.context.retargeted distance }

theorem skip_moved (pass : Pass) (distance : UInt32) (count : Nat) :
    (pass.moved distance).skip count = (pass.skip count).moved distance := by
  show ({ pass.moved distance with stream := (pass.stream.moved distance).skip count } : Pass) = _
  rw [Stream.skip_moved]
  rfl

/-! ## Computations that move along -/

section Moves

variable {α β : Type} {distance : UInt32}

/-- The outcome with the stream and the places further on, and with a change of its value. -/
def movedOutcome (distance : UInt32) (change : α → α) :
    EStateM.Result Fault Pass α → EStateM.Result Fault Pass α
  | .ok value after => .ok (change value) (after.moved distance)
  | .error fault failed => .error (fault.moved distance) (failed.moved distance)

/-- From further on, the second computation does what the first one does, with a change of its
value. -/
def Moves (distance : UInt32) (change : α → α) (first second : PassM α) : Prop :=
  ∀ pass : Pass, second (pass.moved distance) = movedOutcome distance change (first pass)

/-- The computation does the same from wherever its stream stands, and its value is no place. -/
def Portable (action : PassM α) : Prop :=
  ∀ distance, Moves distance id action action

theorem Moves.bind {early : α → α} {late : β → β} {first second : PassM α}
    {next other : α → PassM β} (one : Moves distance early first second)
    (rest : ∀ value, Moves distance late (next value) (other (early value))) :
    Moves distance late (first >>= next) (second >>= other) := by
  intro pass
  have same := one pass
  cases ran : first pass with
  | ok value between =>
      rw [ran] at same
      rw [bind_of_ok ran, bind_of_ok same]
      exact rest value between
  | error fault failed =>
      rw [ran] at same
      rw [bind_of_error ran, bind_of_error same]
      rfl

theorem Moves.ite {change : α → α} {condition : Prop} [Decidable condition]
    {yes no otherYes otherNo : PassM α} (ofYes : Moves distance change yes otherYes)
    (ofNo : Moves distance change no otherNo) :
    Moves distance change (if condition then yes else no)
      (if condition then otherYes else otherNo) := by
  by_cases holds : condition
  · rwa [if_pos holds, if_pos holds]
  · rwa [if_neg holds, if_neg holds]

theorem moves_refuse {change : α → α} (error : DecodeError) :
    Moves distance change (refuse error) (refuse (error.moved distance)) :=
  fun _ => rfl

/-- The address of the next byte is a place. -/
theorem moves_cursor : Moves distance (· + distance) cursor cursor :=
  fun _ => rfl

theorem Portable.bind {first : PassM α} {next : α → PassM β} (one : Portable first)
    (rest : ∀ value, Portable (next value)) : Portable (first >>= next) :=
  fun distance => (one distance).bind fun value => rest value distance

theorem Portable.ite {condition : Prop} [Decidable condition] {yes no : PassM α}
    (ofYes : Portable yes) (ofNo : Portable no) : Portable (if condition then yes else no) :=
  fun distance => (ofYes distance).ite (ofNo distance)

theorem Portable.pure (value : α) : Portable (pure value) :=
  fun _ _ => rfl

theorem portable_violate (violation : Violation) : Portable (violate violation : PassM α) :=
  fun _ _ => rfl

end Moves

/-! ## Elementary actions -/

theorem portable_transfer (op : MicroOp) : Portable (transfer op) := by
  intro distance pass
  unfold transfer
  rw [show (pass.moved distance).machine = pass.machine from rfl]
  cases Machine.perform op pass.machine <;> rfl

theorem portable_operand (slot : Slot) : Portable (operand slot) := by
  intro distance pass
  cases slot <;> rfl

theorem portable_modifyOperand (slot : Slot) (change : Operand → Operand) :
    Portable (modifyOperand slot change) := by
  intro distance pass
  cases slot <;> rfl

/-- To look for the byte at the cursor moves along, whether the cursor moves past it or not. -/
theorem portable_of_next {action : PassM UInt8} (count : Nat)
    (missing : ∀ pass : Pass, pass.stream.byteAt? pass.stream.cursor = none →
      action pass = .error (.decode (.readOutOfBounds pass.stream.cursor)) pass)
    (found : ∀ (pass : Pass) (byte : UInt8), pass.stream.byteAt? pass.stream.cursor = some byte →
      action pass = .ok byte (pass.skip count)) : Portable action := by
  intro distance pass
  have same : (pass.moved distance).stream.byteAt? (pass.moved distance).stream.cursor =
      pass.stream.byteAt? pass.stream.cursor := pass.stream.byteAt?_moved distance _
  cases mapped : pass.stream.byteAt? pass.stream.cursor with
  | none =>
      rw [missing pass mapped, missing _ (same.trans mapped)]
      rfl
  | some byte =>
      rw [found pass byte mapped, found _ byte (same.trans mapped), skip_moved]
      rfl

theorem portable_fetchByte : Portable fetchByte :=
  portable_of_next 1 fetchByte_of_unmapped fun _ _ mapped => fetchByte_ok_iff.mpr ⟨mapped, rfl⟩

theorem portable_peekByte : Portable peekByte :=
  portable_of_next 0 peekByte_of_unmapped fun pass _ mapped =>
    peekByte_ok_iff.mpr ⟨mapped, pass.skip_zero⟩

/-- The place of a ModR/M byte is named only where it is refused. -/
theorem portable_requireMemory : Portable requireMemory := by
  intro distance
  apply (portable_peekByte distance).bind
  intro byte
  refine .ite ?_ (Portable.pure () distance)
  exact moves_cursor.bind fun address => moves_refuse (.invalidModRm byte address)

/-- A target is as far from the instruction as its displacement says, wherever that stands. -/
theorem portable_resolveBranch : Portable resolveBranch := by
  intro distance pass
  have target := UInt32.add_assoc pass.decoder.dest.signedImmediate.toUInt32 pass.stream.cursor
    distance
  have context : ((pass.moved distance).branchResolved).decoder.context =
      (pass.branchResolved.moved distance).decoder.context := by
    show ({ pass.decoder.context with
      branchTarget := pass.decoder.dest.signedImmediate.toUInt32 +
        (pass.stream.cursor + distance), isBranch := true } : Context) = _
    rw [← target]
    rfl
  show EStateM.Result.ok () (pass.moved distance).branchResolved = .ok () _
  exact congrArg (fun context => EStateM.Result.ok ()
    (⟨pass.stream.moved distance, pass.machine, { pass.decoder with context }⟩ : Pass)) context

/-- What decoding operands is put together from moves along. -/
theorem Paired.portable {α : Type} {rules : Rules} {certain : Prop} {first second : PassM α}
    (paired : Paired rules certain first second) (lenient : ¬rules.valid) : Portable first := by
  induction paired with
  | pure same => exact .pure _
  | violate _ violation => exact portable_violate violation
  | fetchByte => exact portable_fetchByte
  | load alike known => exact portable_transfer _
  | setAddressCell value other => exact fun _ _ => rfl
  | currentOpcode => exact fun _ _ => rfl
  | modifyOperand free slot alike keeps => exact portable_modifyOperand slot _
  | requireMemory looks => exact portable_requireMemory
  | resolveBranch free isBranch => exact portable_resolveBranch
  | withOperand free slot rest nextPortable =>
      apply (portable_operand slot).bind
      intro operand
      exact nextPortable operand operand (.refl _ operand) fun valid => absurd valid lenient
  | bind one rest firstPortable nextPortable =>
      exact firstPortable.bind fun value => nextPortable value value fun _ => rfl

theorem portable_runAll (steps : List Step) : Portable (Step.runAll steps) :=
  (Step.composed_lenient steps).portable id

/-! ## Headings -/

section Heading

variable {distance : UInt32}

/-- A run of prefixes names the start of its instruction if it is refused. -/
theorem moves_readPrefixes (start : UInt32) (room : Nat) (prefixes : PrefixSet) (byte : UInt8) :
    Moves distance id (readPrefixes start room prefixes byte)
      (readPrefixes (start + distance) room prefixes byte) := by
  induction room generalizing prefixes byte with
  | zero =>
      unfold readPrefixes
      cases Prefix.ofByte? byte with
      | none => exact .ite (moves_refuse (.unsupportedOpcode _ start)) (Portable.pure _ distance)
      | some found => exact moves_refuse (.instructionTooLong start)
  | succ room inductionHypothesis =>
      unfold readPrefixes
      cases Prefix.ofByte? byte with
      | none => exact .ite (moves_refuse (.unsupportedOpcode _ start)) (Portable.pure _ distance)
      | some found =>
          exact (portable_fetchByte distance).bind fun next =>
            inductionHypothesis (prefixes.insert found) next

theorem portable_readOpcode (byte : UInt8) : Portable (readOpcode byte) :=
  .ite (portable_fetchByte.bind fun _ => .pure _) (.pure _)

theorem portable_select? (row : Row) : Portable (select? row) := by
  cases row with
  | unassigned => exact .pure none
  | instruction mnemonic form => exact .pure _
  | group group form => exact portable_peekByte.bind fun byte => .pure _

theorem moves_select (start : UInt32) (size : OperandSize) (opcode : Opcode) :
    Moves distance id (select start size opcode) (select (start + distance) size opcode) := by
  apply (portable_select? opcode.row distance).bind
  intro found
  cases found with
  | none => exact moves_refuse (.unsupportedOpcode _ start)
  | some selection =>
      exact .ite (moves_refuse (.unsupportedOpcode _ start)) (Portable.pure selection distance)

/-- A heading says nothing about places. -/
theorem moves_readHeading (start : UInt32) (default : OperandSize) :
    Moves distance id (readHeading start default) (readHeading (start + distance) default) := by
  have run : Moves distance id (fetchByte >>= readPrefixes start (maxLength - 1) .empty)
      (fetchByte >>= readPrefixes (start + distance) (maxLength - 1) .empty) :=
    (portable_fetchByte distance).bind fun byte => moves_readPrefixes start _ .empty byte
  apply run.bind
  intro run
  apply (portable_readOpcode run.2 distance).bind
  intro opcode
  exact (moves_select start _ opcode).bind fun selection => Portable.pure _ distance

/-- A computation on the stream alone moves along whatever decoder the pass has, which stays. -/
theorem Moves.of_stream {α : Type} {first second : PassM α} (moves : Moves distance id first second)
    (one : OfStream first) (two : OfStream second) (pass : Pass) :
    ∃ (result : Except DecodeError α) (after : Stream),
      first pass = settled result { pass with stream := after } ∧
        second { pass with stream := pass.stream.moved distance } =
          settled (result.mapError (·.moved distance))
            { pass with stream := after.moved distance } := by
  obtain ⟨result, after, ran⟩ := one pass.stream
  obtain ⟨found, reached, otherRan⟩ := two (pass.stream.moved distance)
  -- The outcomes are compared with a decoder that moves to itself.
  have same : settled found ⟨reached, pass.machine, .ofSize .bits32⟩ =
      movedOutcome distance id (settled result ⟨after, pass.machine, .ofSize .bits32⟩) := by
    rw [← ran, ← otherRan]
    exact moves ⟨pass.stream, pass.machine, .ofSize .bits32⟩
  refine ⟨result, after, ran pass.machine pass.decoder, ?_⟩
  rw [otherRan pass.machine pass.decoder]
  cases result with
  | error error =>
      cases found with
      | ok value => cases same
      | error other =>
          obtain ⟨fault, left⟩ := EStateM.Result.error.inj same
          obtain rfl := Fault.decode.inj fault
          obtain rfl := congrArg Pass.stream left
          rfl
  | ok value =>
      cases found with
      | error other => cases same
      | ok other =>
          obtain ⟨rfl, left⟩ := EStateM.Result.ok.inj same
          obtain rfl := congrArg Pass.stream left
          rfl

/-! ## Instructions -/

/-- What decoding from further on gives and leaves, by the outcome of decoding here. After an error
the decoder may still hold places of an earlier instruction, which do not move. -/
inductive Relocates (distance : UInt32) :
    EStateM.Result Fault Pass Instruction → EStateM.Result Fault Pass Instruction → Prop where
  | ok (instruction : Instruction) (after : Pass) :
      Relocates distance (.ok instruction after) (.ok (instruction.moved distance)
        ⟨after.stream.moved distance, after.machine,
          { after.decoder with context := after.decoder.context.moved distance }⟩)
  | error (fault : Fault) (failed : Pass) (decoder : Decoder)
      (same : decoder.unplaced = failed.decoder.unplaced) :
      Relocates distance (.error fault failed)
        (.error (fault.moved distance) ⟨failed.stream.moved distance, failed.machine, decoder⟩)

/-- No branch has been resolved when an instruction begins. -/
theorem begun_moved (heading : Heading) (pass : Pass) (distance : UInt32) :
    heading.begun { pass with stream := pass.stream.moved distance } =
      (heading.begun pass).moved distance := by
  unfold Heading.begun begun
  cases heading.selection.form.sourceWidth <;> rfl

/-- The length of an instruction is the distance between two places. -/
theorem relocates_concluded (heading : Heading) (start : UInt32) (decoded : Pass) :
    Relocates distance (heading.concluded start decoded)
      (heading.concluded (start + distance) (decoded.moved distance)) := by
  have length : decoded.stream.cursor + distance - (start + distance) =
      decoded.stream.cursor - start := by grind
  have instruction (size : UInt32) :
      heading.instruction (start + distance) size (decoded.moved distance).decoder =
        (heading.instruction start size decoded.decoder).moved distance := by
    unfold Heading.instruction Instruction.moved moved Context.retargeted
    cases decoded.decoder.context.isBranch <;> rfl
  unfold Heading.concluded
  rw [show (decoded.moved distance).stream.cursor = decoded.stream.cursor + distance from rfl,
    length, instruction]
  by_cases short : (decoded.stream.cursor - start).toNat ≤ maxLength
  · rw [if_pos short, if_pos short]
    exact .ok _ decoded.finished
  · rw [if_neg short, if_neg short]
    exact .error (.decode (.instructionTooLong start)) decoded.finished _ rfl

theorem relocates_decodeOperands (heading : Heading) (start : UInt32) (pass : Pass) :
    Relocates distance (decodeOperands start heading pass)
      (decodeOperands (start + distance) heading
        { pass with stream := pass.stream.moved distance }) := by
  have steps := portable_runAll heading.selection.steps distance (heading.begun pass)
  rw [← begun_moved] at steps
  cases ran : Step.runAll heading.selection.steps (heading.begun pass) with
  | error fault failed =>
      rw [ran] at steps
      rw [decodeOperands_of_error start ran, decodeOperands_of_error (start + distance) steps]
      exact .error fault failed _ rfl
  | ok value decoded =>
      rw [ran] at steps
      rw [decodeOperands_of_ok start ran, decodeOperands_of_ok (start + distance) steps]
      exact relocates_concluded heading start decoded

end Heading

/-- From the same bytes at other addresses, which may reach past the end of the address space,
decoding gives the same instruction, or fails for the same reason, and leaves the same machine. The
address of the instruction, its target, the address after it and the cursor are further on by as
much as the bytes are, and so is the place that an error names. -/
theorem decode_relocates (pass : Pass) (distance : UInt32) :
    Relocates distance (decode pass)
      (decode { pass with stream := pass.stream.moved distance }) := by
  let other : Pass := { pass with stream := pass.stream.moved distance }
  obtain ⟨result, after, reads, otherReads⟩ :=
    (moves_readHeading pass.stream.cursor pass.decoder.defaultSize).of_stream
      (ofStream_readHeading _ _) (ofStream_readHeading _ _) pass
  cases result with
  | error error =>
      have here : decode pass = _ := (decode_eq_halves pass).trans (bind_of_error reads)
      have there : decode other = _ := (decode_eq_halves other).trans (bind_of_error otherReads)
      rw [here, there]
      exact .error (.decode error) { pass with stream := after } pass.decoder rfl
  | ok heading =>
      have here : decode pass = _ := (decode_eq_halves pass).trans (bind_of_ok reads)
      have there : decode other = _ := (decode_eq_halves other).trans (bind_of_ok otherReads)
      rw [here, there]
      exact relocates_decodeOperands heading pass.stream.cursor { pass with stream := after }

end Pass

end I386
