import I386.Proofs.Conduct

/-!
Contract: the two halves of decoding an instruction.

Owns:
- computations on the stream alone: machine and decoder take no part in them;
- the heading of an instruction, which is what prefixes, opcode and the choice of an operation say
  before the instruction begins, and reading it, which is such a computation;
- the other half, which begins the instruction, decodes its operands and looks at its length.

Main statements:
- decoding either refuses in the first half, whatever machine and decoder it has, or is the second
  half at the heading that was read;
- the second half adds transfers to the record, and depends neither on that nor on the decoder
  before.

Does not own: what the bytes of either half are.
-/

namespace I386

/-- What is found out about an instruction before it begins. -/
structure Heading where
  prefixes : PrefixSet
  /-- The first byte of the opcode. -/
  first : UInt8
  operandSize : OperandSize
  opcode : Opcode
  selection : Selection

namespace Pass

/-! ## Computations on the stream -/

/-- The outcome of a computation that breaks no contract. -/
def settled {α : Type} (result : Except DecodeError α) (pass : Pass) :
    EStateM.Result Fault Pass α :=
  match result with
  | .ok value => .ok value pass
  | .error error => .error (.decode error) pass

/-- The stream alone settles what a computation does. -/
def OfStream {α : Type} (action : PassM α) : Prop :=
  ∀ stream : Stream, ∃ (result : Except DecodeError α) (after : Stream),
    ∀ (machine : Machine) (decoder : Decoder),
      action ⟨stream, machine, decoder⟩ = settled result ⟨after, machine, decoder⟩

section OfStream

variable {α β : Type}

theorem OfStream.pure (value : α) : OfStream (pure value) :=
  fun stream => ⟨.ok value, stream, fun _ _ => rfl⟩

theorem OfStream.refuse (error : DecodeError) : OfStream (refuse error : PassM α) :=
  fun stream => ⟨.error error, stream, fun _ _ => rfl⟩

theorem OfStream.bind {first : PassM α} {next : α → PassM β} (one : OfStream first)
    (rest : ∀ value, OfStream (next value)) : OfStream (first >>= next) := by
  intro stream
  obtain ⟨result, between, ran⟩ := one stream
  cases result with
  | error error => exact ⟨.error error, between, fun machine decoder => bind_of_error (ran _ _)⟩
  | ok value =>
      obtain ⟨last, after, restRan⟩ := rest value between
      exact ⟨last, after, fun machine decoder => (bind_of_ok (ran _ _)).trans (restRan _ _)⟩

theorem OfStream.ite {condition : Prop} [Decidable condition] {yes no : PassM α}
    (ofYes : OfStream yes) (ofNo : OfStream no) : OfStream (if condition then yes else no) := by
  by_cases holds : condition
  · rwa [if_pos holds]
  · rwa [if_neg holds]

/-- What succeeds does so with any decoder. -/
theorem OfStream.of_ok {action : PassM α} (ofStream : OfStream action) {pass after : Pass}
    {value : α} (ran : action pass = .ok value after) (decoder : Decoder) :
    action { pass with decoder } = .ok value ⟨after.stream, pass.machine, decoder⟩ := by
  obtain ⟨result, stream, settles⟩ := ofStream pass.stream
  have own := ran.symm.trans (settles pass.machine pass.decoder)
  cases result with
  | error error => cases own
  | ok found =>
      obtain ⟨rfl, rfl⟩ := EStateM.Result.ok.inj own
      exact settles pass.machine decoder

/-- What fails leaves all but the stream as it was. -/
theorem OfStream.of_error {action : PassM α} (ofStream : OfStream action) {pass failed : Pass}
    {fault : Fault} (ran : action pass = .error fault failed) :
    failed = { pass with stream := failed.stream } := by
  obtain ⟨result, stream, settles⟩ := ofStream pass.stream
  have own := ran.symm.trans (settles pass.machine pass.decoder)
  cases result with
  | error error =>
      obtain ⟨-, rfl⟩ := EStateM.Result.error.inj own
      rfl
  | ok found => cases own

theorem OfStream.decoder_of_error {action : PassM α} (ofStream : OfStream action)
    {pass failed : Pass} {fault : Fault} (ran : action pass = .error fault failed) :
    failed.decoder = pass.decoder := by
  rw [ofStream.of_error ran]

theorem OfStream.machine_of_error {action : PassM α} (ofStream : OfStream action)
    {pass failed : Pass} {fault : Fault} (ran : action pass = .error fault failed) :
    failed.machine = pass.machine := by
  rw [ofStream.of_error ran]

theorem ofStream_fetchByte : OfStream fetchByte := by
  intro stream
  cases mapped : stream.byteAt? stream.cursor with
  | none =>
      refine ⟨.error (.readOutOfBounds stream.cursor), stream, fun machine decoder => ?_⟩
      exact fetchByte_of_unmapped ⟨stream, machine, decoder⟩ mapped
  | some byte =>
      exact ⟨.ok byte, stream.skip 1, fun machine decoder => fetchByte_ok_iff.mpr ⟨mapped, rfl⟩⟩

theorem ofStream_peekByte : OfStream peekByte := by
  intro stream
  cases mapped : stream.byteAt? stream.cursor with
  | none =>
      refine ⟨.error (.readOutOfBounds stream.cursor), stream, fun machine decoder => ?_⟩
      exact peekByte_of_unmapped ⟨stream, machine, decoder⟩ mapped
  | some byte =>
      exact ⟨.ok byte, stream, fun machine decoder => peekByte_ok_iff.mpr ⟨mapped, rfl⟩⟩

theorem ofStream_readPrefixes (start : UInt32) (room : Nat) (prefixes : PrefixSet)
    (byte : UInt8) : OfStream (readPrefixes start room prefixes byte) := by
  induction room generalizing prefixes byte with
  | zero =>
      unfold readPrefixes
      cases Prefix.ofByte? byte with
      | none => exact .ite (.refuse _) (.pure _)
      | some member => exact .refuse _
  | succ room inductionHypothesis =>
      unfold readPrefixes
      cases Prefix.ofByte? byte with
      | none => exact .ite (.refuse _) (.pure _)
      | some member => exact ofStream_fetchByte.bind fun next => inductionHypothesis _ next

theorem ofStream_readOpcode (byte : UInt8) : OfStream (readOpcode byte) :=
  .ite (ofStream_fetchByte.bind fun _ => .pure _) (.pure _)

theorem ofStream_select (start : UInt32) (size : OperandSize) (opcode : Opcode) :
    OfStream (select start size opcode) := by
  have chosen : OfStream (select? opcode.row) := by
    cases opcode.row with
    | unassigned => exact .pure none
    | instruction mnemonic form => exact .pure _
    | group group form => exact ofStream_peekByte.bind fun _ => .pure _
  apply chosen.bind
  intro found
  cases found with
  | none => exact .refuse _
  | some selection => exact .ite (.refuse _) (.pure _)

end OfStream

/-! ## The first half -/

/-- Find the operation of the opcode whose first byte has been fetched. -/
def readOperation (start : UInt32) (size : OperandSize) (prefixes : PrefixSet) (byte : UInt8) :
    PassM Heading := do
  let opcode ← readOpcode byte
  let selection ← select start size opcode
  return ⟨prefixes, byte, size, opcode, selection⟩

/-- Read the heading of the instruction at `start`. -/
def readHeading (start : UInt32) (default : OperandSize) : PassM Heading := do
  let run ← fetchByte >>= readPrefixes start (maxLength - 1) .empty
  readOperation start (effectiveSize run.1 default) run.1 run.2

theorem ofStream_readOperation (start : UInt32) (size : OperandSize) (prefixes : PrefixSet)
    (byte : UInt8) : OfStream (readOperation start size prefixes byte) := by
  apply (ofStream_readOpcode byte).bind
  intro opcode
  exact (ofStream_select start size opcode).bind fun selection => .pure _

theorem ofStream_readHeading (start : UInt32) (default : OperandSize) :
    OfStream (readHeading start default) := by
  apply (ofStream_fetchByte.bind fun byte => ofStream_readPrefixes _ _ _ byte).bind
  intro run
  exact ofStream_readOperation start _ run.1 run.2

/-- A heading that was read names an operation of the opcode maps. -/
theorem regular_of_readHeading {start : UInt32} {default : OperandSize} {heading : Heading}
    {pass after : Pass} (ran : readHeading start default pass = .ok heading after) :
    heading.selection.Regular := by
  simp only [readHeading, readOperation, bind_ok_iff, readOpcode_ok_iff, select_ok_iff,
    pure_ok_iff] at ran
  obtain ⟨_, _, -, _, _, ⟨opcode, -, -, -, rfl, -⟩, selection, _, ⟨-, selected, -⟩, rfl, -⟩ := ran
  rw [opcode.row_found] at selected
  exact Row.regular_selection? opcode.regular_row selected

end Pass

/-! ## The second half -/

namespace Heading

/-- The instruction with a heading, when its operands are decoded and its length is known. -/
def instruction (heading : Heading) (start length : UInt32) (decoder : Decoder) : Instruction where
  address := start
  size := length
  prefixes :=
    if heading.first = escapeByte then heading.prefixes.insert .twoByte else heading.prefixes
  opcode := heading.opcode.code
  mnemonic := heading.selection.mnemonic
  operandSize := heading.operandSize
  dest := decoder.dest
  src := decoder.src
  src2 := decoder.src2
  branchTarget := if decoder.context.isBranch then some decoder.context.branchTarget else none

/-- The pass in which the instruction with a heading has begun. -/
def begun (heading : Heading) (pass : Pass) : Pass :=
  pass.begun heading.opcode.byte heading.selection.form heading.operandSize

/-- What is left to do when the operands are decoded: to look at the length. -/
def concluded (heading : Heading) (start : UInt32) (decoded : Pass) :
    EStateM.Result Fault Pass Instruction :=
  if (decoded.stream.cursor - start).toNat ≤ maxLength then
    .ok (heading.instruction start (decoded.stream.cursor - start) decoded.decoder)
      decoded.finished
  else
    .error (.decode (.instructionTooLong start)) decoded.finished

/-- The context that a pass is left with describes an instruction with the heading, as far as its
decoding got. -/
structure Describes (heading : Heading) (pass : Pass) : Prop where
  opcode : pass.decoder.context.opcode = heading.opcode.byte
  operandSize : pass.decoder.context.operandSize = heading.operandSize
  /-- Only a relative branch has been resolved. -/
  branch : pass.decoder.context.isBranch = true → heading.selection.form.shape = .branch
  target : pass.decoder.context.isBranch = false → pass.decoder.context.branchTarget = 0
  nextAddress : pass.decoder.context.nextAddress = 0 ∨
    pass.decoder.context.nextAddress = pass.stream.cursor
  scratch : ∃ address, pass.decoder.context.scratch = { Scratch.zero with address }

/-- A context that follows the one at the beginning describes the instruction, whether its end
has been noted or not. -/
theorem describes_of_follows {heading : Heading} {before after : Pass} {nextAddress : UInt32}
    (follows : (Context.start heading.opcode.byte heading.operandSize).Follows
      (heading.selection.form.shape = .branch) before.decoder.context)
    (kept : after.decoder.context = { before.decoder.context with nextAddress })
    (next : nextAddress = 0 ∨ nextAddress = after.stream.cursor) : heading.Describes after := by
  have flag : after.decoder.context.isBranch = before.decoder.context.isBranch := by rw [kept]
  have target : after.decoder.context.branchTarget = before.decoder.context.branchTarget := by
    rw [kept]
  constructor
  · rw [kept]
    exact follows.opcode
  · rw [kept]
    exact follows.operandSize
  · intro isBranch
    rw [flag] at isBranch
    rcases follows.branch with ⟨unset, -⟩ | ⟨branches, -⟩
    · rw [unset] at isBranch
      cases isBranch
    · exact branches
  · intro plain
    rw [flag] at plain
    rcases follows.branch with ⟨-, zero⟩ | ⟨-, isSet⟩
    · exact target.trans zero
    · rw [isSet] at plain
      cases plain
  · rw [kept]
    exact next
  · rw [kept]
    exact follows.scratch

end Heading

namespace Pass

/-- Begin the instruction with a heading, decode its operands and look at its length. -/
def decodeOperands (start : UInt32) (heading : Heading) : PassM Instruction := do
  begin heading.opcode.byte heading.selection.form heading.operandSize
  Step.runAll heading.selection.steps
  let size ← finish start
  let decoder ← currentDecoder
  return heading.instruction start size decoder

theorem begin_heading (heading : Heading) (pass : Pass) :
    begin heading.opcode.byte heading.selection.form heading.operandSize pass =
      .ok () (heading.begun pass) :=
  begin_eq _ _ _ _

theorem decodeOperands_of_ok (start : UInt32) {heading : Heading} {pass decoded : Pass}
    (ran : Step.runAll heading.selection.steps (heading.begun pass) = .ok () decoded) :
    decodeOperands start heading pass = heading.concluded start decoded := by
  unfold decodeOperands
  rw [bind_of_ok (begin_heading heading pass), bind_of_ok ran]
  have finishing : finish start decoded =
      (if (decoded.stream.cursor - start).toNat > maxLength then
        refuse (.instructionTooLong start) else pure (decoded.stream.cursor - start) :
          PassM UInt32) decoded.finished := rfl
  unfold Heading.concluded
  by_cases short : (decoded.stream.cursor - start).toNat ≤ maxLength
  · rw [if_neg (Nat.not_lt.mpr short)] at finishing
    rw [if_pos short]
    exact bind_of_ok finishing
  · rw [if_pos (Nat.lt_of_not_le short)] at finishing
    rw [if_neg short]
    exact bind_of_error finishing

theorem decodeOperands_of_error (start : UInt32) {heading : Heading} {pass failed : Pass}
    {fault : Fault}
    (ran : Step.runAll heading.selection.steps (heading.begun pass) = .error fault failed) :
    decodeOperands start heading pass = .error fault failed := by
  unfold decodeOperands
  rw [bind_of_ok (begin_heading heading pass), bind_of_error ran]

/-- Of the decoder before, only the default operand size is left when an instruction has begun. -/
theorem begun_reframed (heading : Heading) (stream : Stream) (machine : Machine)
    (decoder other : Decoder) (trace : Option (Array MicroOp)) :
    heading.begun ⟨stream, { machine with trace }, other⟩ =
      (heading.begun ⟨stream, machine, decoder⟩).reframed trace other.defaultSize := by
  unfold Heading.begun begun
  cases heading.selection.form.sourceWidth <;> rfl

/-- The steps of a heading that was read break no contract once its instruction has begun. -/
theorem exists_conduct_steps {heading : Heading} (regular : heading.selection.Regular)
    (pass : Pass) :
    ∃ ops, Conduct (Step.runAll heading.selection.steps) (heading.begun pass) ops := by
  obtain ⟨action, composed, same⟩ :=
    heading.selection.exists_composed_steps regular heading.operandSize
  obtain ⟨ops, conduct⟩ := composed.exists_conduct trivial
    (pass.sized_begun heading.opcode.byte heading.selection heading.operandSize)
  refine ⟨ops, conduct.congr ?_⟩
  intro trace size
  obtain ⟨stream, machine, decoder⟩ := pass
  have framed := begun_reframed heading stream machine decoder
    { decoder with defaultSize := size } trace
  have isBegun := same ⟨stream, { machine with trace }, { decoder with defaultSize := size }⟩
    heading.opcode.byte
  exact framed ▸ isBegun

theorem context_begun (heading : Heading) (pass : Pass) :
    (heading.begun pass).decoder.context = .start heading.opcode.byte heading.operandSize := by
  unfold Heading.begun begun
  cases heading.selection.form.sourceWidth <;> rfl

theorem machine_begun (heading : Heading) (pass : Pass) :
    (heading.begun pass).machine = pass.machine := by
  unfold Heading.begun begun
  cases heading.selection.form.sourceWidth <;> rfl

/-- The steps of a heading do the same whatever was recorded and whatever the decoder held before
its instruction began. -/
theorem Conduct.steps_frame {heading : Heading} {pass : Pass} {ops : List MicroOp}
    (conduct : Conduct (Step.runAll heading.selection.steps) (heading.begun pass) ops)
    (trace : Option (Array MicroOp)) (decoder : Decoder) :
    Step.runAll heading.selection.steps
        (heading.begun ⟨pass.stream, { pass.machine with trace }, decoder⟩) =
      mapPass (·.reframed (trace.map (· ++ ops.toArray)) decoder.defaultSize)
        (Step.runAll heading.selection.steps (heading.begun pass)) := by
  rw [← conduct.frame]
  exact congrArg _ (begun_reframed heading pass.stream pass.machine pass.decoder decoder trace)

/-- What decoding the operands of a heading does from a pass, recording the given transfers. -/
structure Outcome (start : UInt32) (heading : Heading) (pass : Pass) (ops : List MicroOp) :
    Prop where
  recorded : (left (decodeOperands start heading pass)).machine = pass.machine.recordAll ops
  defaultSize : (left (decodeOperands start heading pass)).decoder.defaultSize =
    pass.decoder.defaultSize
  describes : heading.Describes (left (decodeOperands start heading pass))
  /-- Neither the transfers recorded before nor the decoder before count. -/
  frame : ∀ (trace : Option (Array MicroOp)) (decoder : Decoder),
    decodeOperands start heading ⟨pass.stream, { pass.machine with trace }, decoder⟩ =
      mapPass (·.reframed (trace.map (· ++ ops.toArray)) decoder.defaultSize)
        (decodeOperands start heading pass)

theorem mapPass_congr {α : Type} {first second : Pass → Pass}
    {outcome : EStateM.Result Fault Pass α}
    (same : first (left outcome) = second (left outcome)) :
    mapPass first outcome = mapPass second outcome := by
  cases outcome with
  | ok value after => exact congrArg (EStateM.Result.ok value) same
  | error fault failed => exact congrArg (EStateM.Result.error fault) same

theorem left_concluded (heading : Heading) (start : UInt32) (decoded : Pass) :
    left (heading.concluded start decoded) = decoded.finished := by
  unfold Heading.concluded
  split <;> rfl

theorem concluded_reframed (heading : Heading) (start : UInt32) (decoded : Pass)
    (trace : Option (Array MicroOp)) (size : OperandSize) :
    heading.concluded start (decoded.reframed trace size) =
      mapPass (·.reframed trace size) (heading.concluded start decoded) := by
  unfold Heading.concluded
  have stream : (decoded.reframed trace size).stream = decoded.stream := rfl
  rw [stream]
  split <;> rfl

theorem exists_outcome {heading : Heading} (regular : heading.selection.Regular) (start : UInt32)
    (pass : Pass) : ∃ ops, Outcome start heading pass ops := by
  obtain ⟨ops, conduct⟩ := exists_conduct_steps regular pass
  have recorded := conduct.recorded
  have defaultSize := conduct.defaultSize
  have follows := heading.selection.follows_steps regular (heading.begun pass)
  rw [machine_begun] at recorded
  rw [context_begun] at follows
  have size : (heading.begun pass).decoder.defaultSize = pass.decoder.defaultSize :=
    congrArg (·.decoder.defaultSize)
      (begun_reframed heading pass.stream pass.machine pass.decoder pass.decoder
        pass.machine.trace)
  have framed := conduct.steps_frame
  cases ran : Step.runAll heading.selection.steps (heading.begun pass) with
  | error fault failed =>
      have outcome := decodeOperands_of_error start ran
      rw [ran] at recorded defaultSize follows framed
      refine ⟨ops, ?_, ?_, ?_, ?_⟩
      · rw [outcome]
        exact recorded
      · rw [outcome]
        exact defaultSize.trans size
      · rw [outcome]
        exact Heading.describes_of_follows follows rfl (.inl follows.nextAddress)
      · intro trace decoder
        rw [outcome]
        exact decodeOperands_of_error start (framed trace decoder)
  | ok value decoded =>
      have outcome := decodeOperands_of_ok start ran
      rw [ran] at recorded defaultSize follows framed
      refine ⟨ops, ?_, ?_, ?_, ?_⟩
      · rw [outcome, left_concluded]
        exact recorded
      · rw [outcome, left_concluded]
        exact defaultSize.trans size
      · rw [outcome, left_concluded]
        exact Heading.describes_of_follows follows rfl (.inr rfl)
      · intro trace decoder
        rw [outcome, ← concluded_reframed]
        exact decodeOperands_of_ok start (framed trace decoder)

/-! ## Decoding in halves -/

theorem decode_eq_halves (pass : Pass) :
    decode pass =
      (readHeading pass.stream.cursor pass.decoder.defaultSize >>=
        decodeOperands pass.stream.cursor) pass := by
  let start := pass.stream.cursor
  have run := ofStream_fetchByte.bind fun byte =>
    ofStream_readPrefixes start (maxLength - 1) .empty byte
  obtain ⟨result, after, ran⟩ := run pass.stream
  have own : (fetchByte >>= readPrefixes start (maxLength - 1) .empty) pass =
      settled result { pass with stream := after } := ran pass.machine pass.decoder
  have split : readHeading start pass.decoder.defaultSize >>= decodeOperands start =
      (fetchByte >>= readPrefixes start (maxLength - 1) .empty) >>= fun run =>
        readOperation start (effectiveSize run.1 pass.decoder.defaultSize) run.1 run.2 >>=
          decodeOperands start := bind_assoc ..
  rw [decode_eq, split]
  cases result with
  | error error => exact (bind_of_error own).trans (bind_of_error own).symm
  | ok found =>
      -- Reading prefixes has left the decoder as it was, with its default operand size.
      refine (bind_of_ok own).trans (Eq.trans ?_ (bind_of_ok own).symm)
      simp only [readOperation, decodeOperands, bind_assoc, pure_bind]
      rfl

/-- Decoding refuses before the instruction begins, the same way whatever machine and decoder it
has and leaving them alone, or it decodes the operands of a heading. -/
theorem decode_outcome (stream : Stream) (default : OperandSize) :
    (∃ (error : DecodeError) (after : Stream), ∀ (machine : Machine) (decoder : Decoder),
      decoder.defaultSize = default →
        decode ⟨stream, machine, decoder⟩ = .error (.decode error) ⟨after, machine, decoder⟩) ∨
    ∃ (heading : Heading) (after : Stream), heading.selection.Regular ∧
      ∀ (machine : Machine) (decoder : Decoder), decoder.defaultSize = default →
        decode ⟨stream, machine, decoder⟩ =
          decodeOperands stream.cursor heading ⟨after, machine, decoder⟩ := by
  obtain ⟨result, after, ran⟩ := ofStream_readHeading stream.cursor default stream
  cases result with
  | error error =>
      refine .inl ⟨error, after, ?_⟩
      rintro machine decoder rfl
      rw [decode_eq_halves]
      exact bind_of_error (ran machine decoder)
  | ok heading =>
      have read : readHeading stream.cursor default ⟨stream, .ofMemorySize 0, .ofSize default⟩ =
          .ok heading ⟨after, .ofMemorySize 0, .ofSize default⟩ := ran _ _
      refine .inr ⟨heading, after, regular_of_readHeading read, ?_⟩
      · rintro machine decoder rfl
        rw [decode_eq_halves]
        exact bind_of_ok (ran machine decoder)

end Pass

end I386
