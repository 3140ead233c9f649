import I386.Proofs.BranchTarget
import I386.Proofs.History

/-!
Contract: when a decoder says that a branch has been resolved.

Owns:
- everything that a decoder can be asked for, in any order, at any widths and over any streams, and
  what all of it leaves in the context;
- the requests that resolve a relative branch: decoding its operands, alone or as part of an
  instruction.

Main statement: a decoder that has not resolved a branch has no target and has used no cell of the
scratch pool but the address cell, and only a relative branch whose displacement was read brings it
a target, which is the displacement added to the address after it.

Does not own: what the displacement is.
-/

namespace I386

namespace Context

/-! ## Contexts in order -/

/-- Without a branch there is no target, and only the address cell is in use. -/
structure Tidy (context : Context) : Prop where
  target : context.isBranch = false → context.branchTarget = 0
  scratch : ∃ address, context.scratch = { Scratch.zero with address }

theorem tidy_start (opcode : UInt8) (size : OperandSize) : (start opcode size).Tidy where
  target := fun _ => rfl
  scratch := ⟨0, rfl⟩

section Follows

variable {branches : Prop} {before after : Context}

theorem Tidy.of_follows (tidy : before.Tidy) (follows : before.Follows branches after) :
    after.Tidy where
  target := by
    intro plain
    rcases follows.branch with ⟨flag, target⟩ | ⟨-, isSet⟩
    · exact target.trans (tidy.target (flag.symm.trans plain))
    · cases isSet.symm.trans plain
  scratch := by
    obtain ⟨early, cells⟩ := tidy.scratch
    obtain ⟨late, kept⟩ := follows.scratch
    refine ⟨late, ?_⟩
    rw [kept, cells]

/-- Where no branch may be resolved, none is, and an earlier one stays. -/
theorem Follows.kept (follows : before.Follows branches after) (never : ¬branches) :
    after.isBranch = before.isBranch ∧ after.branchTarget = before.branchTarget :=
  follows.branch.resolve_right fun resolved => never resolved.1

end Follows

end Context

/-! ## Patterns -/

namespace Shape

theorem eq_branch_of_mem {shape : Shape} (isIn : Step.branchTarget ∈ shape.steps) :
    shape = .branch := by
  revert isIn
  cases shape <;> decide

theorem follows_decode (shape : Shape) (pass : Pass) :
    pass.decoder.context.Follows (shape = .branch)
      (Pass.left (shape.decode pass)).decoder.context :=
  (Step.follows_runAll shape.steps pass).mono eq_branch_of_mem

/-- A relative branch whose displacement was read has its target. -/
theorem context_of_branch_ok {pass resolved : Pass}
    (ran : branch.decode pass = .ok () resolved) :
    resolved.decoder.context.isBranch = true ∧
      resolved.decoder.context.branchTarget =
        resolved.decoder.dest.signedImmediate.toUInt32 + resolved.stream.cursor := by
  obtain ⟨-, between, -, rest⟩ := bind_ok_iff.mp ran
  have resolves : Step.runAll [.branchTarget] between = .ok () between.branchResolved := rfl
  cases resolves.symm.trans rest
  exact ⟨rfl, rfl⟩

/-- A relative branch whose displacement cannot be read leaves no target. -/
theorem follows_of_branch_error {pass failed : Pass} {fault : Fault}
    (ran : branch.decode pass = .error fault failed) :
    pass.decoder.context.Follows False failed.decoder.context := by
  rcases bind_error_iff.mp ran with missing | ⟨-, between, -, rest⟩
  · have follows := Step.follows_runAll [.signedImmediate .dest] pass
    have stopped : Step.runAll [.signedImmediate .dest] pass = .error fault failed :=
      bind_of_error missing
    rw [stopped] at follows
    exact follows.mono (by decide)
  · cases rest

end Shape

namespace Decoder

/-! ## Requests -/

/-- What a decoder can be asked for. Widths need not be ones that operands have, and whatever is
decoded may stand in any stream and be staged on any machine. -/
inductive Request where
  | start (opcode width : UInt8) (size : OperandSize)
  | startDefault (opcode width : UInt8)
  | resize (slot : Slot) (width : UInt8)
  | decodeShape (shape : Shape) (stream : Stream) (machine : Machine)
  | writeBack (operand : Operand) (value : UInt32) (stream : Stream) (machine : Machine)
  | decode (stream : Stream) (machine : Machine)

/-- The decoder after a request, be it a success or a failure. -/
def after (decoder : Decoder) : Request → Decoder
  | .start opcode width size => decoder.start opcode width size
  | .startDefault opcode width => decoder.startDefault opcode width
  | .resize slot width => decoder.setSlot slot { decoder.slot slot with width }
  | .decodeShape shape stream machine =>
      (Pass.left (shape.decode ⟨stream, machine, decoder⟩)).decoder
  | .writeBack operand value stream machine =>
      (Pass.left (operand.writeBack value ⟨stream, machine, decoder⟩)).decoder
  | .decode stream machine => (Pass.left (Pass.decode ⟨stream, machine, decoder⟩)).decoder

/-- The decoder after requests, in order. -/
def afterAll (decoder : Decoder) (requests : List Request) : Decoder :=
  requests.foldl after decoder

/-- A request resolves a relative branch, whose displacement has been read in the resolved pass: its
operands are decoded as such, or as those of an instruction whose heading names it. What becomes of
the instruction afterwards does not count. -/
inductive Resolves (decoder : Decoder) : Request → Pass → Prop where
  | ofShape {stream : Stream} {machine : Machine} {resolved : Pass}
      (ran : Shape.branch.decode ⟨stream, machine, decoder⟩ = .ok () resolved) :
      Resolves decoder (.decodeShape .branch stream machine) resolved
  | ofInstruction {stream : Stream} {machine : Machine} {heading : Heading}
      {between resolved : Pass}
      (read : Pass.readHeading stream.cursor decoder.defaultSize ⟨stream, machine, decoder⟩ =
        .ok heading between)
      (isBranch : heading.selection.form.shape = .branch)
      (ran : Shape.branch.decode (heading.begun between) = .ok () resolved) :
      Resolves decoder (.decode stream machine) resolved

/-! ## What requests leave -/

theorem decoder_transfer (op : MicroOp) (pass : Pass) :
    (Pass.left (Pass.transfer op pass)).decoder = pass.decoder := by
  unfold Pass.transfer
  cases Machine.perform op pass.machine <;> rfl

theorem decoder_writeBack (operand : Operand) (value : UInt32) (pass : Pass) :
    (Pass.left (operand.writeBack value pass)).decoder = pass.decoder := by
  rcases operand.left_writeBack value pass with kept | ⟨op, changed⟩
  · rw [kept]
  · rw [changed, decoder_transfer]

section Request

variable {decoder : Decoder}

/-- No request brings the context out of order. -/
theorem tidy_after (tidy : decoder.context.Tidy) (request : Request) :
    (decoder.after request).context.Tidy := by
  cases request with
  | start opcode width size => exact Context.tidy_start opcode size
  | startDefault opcode width => exact Context.tidy_start opcode decoder.defaultSize
  | resize slot width =>
      have kept : (decoder.after (.resize slot width)).context = decoder.context := by
        cases slot <;> rfl
      rw [kept]
      exact tidy
  | decodeShape shape stream machine =>
      exact tidy.of_follows (shape.follows_decode ⟨stream, machine, decoder⟩)
  | writeBack operand value stream machine =>
      rw [after, decoder_writeBack]
      exact tidy
  | decode stream machine =>
      have context := Pass.decode_context ⟨stream, machine, decoder⟩
      cases read : Pass.readHeading stream.cursor decoder.defaultSize
          ⟨stream, machine, decoder⟩ with
      | ok heading between =>
          have describes := (context.1 heading between read).1
          exact ⟨describes.target, describes.scratch⟩
      | error fault failed =>
          obtain ⟨refused, kept⟩ := context.2.1 fault failed read
          rw [after, refused, Pass.left, kept]
          exact tidy

theorem tidy_afterAll (tidy : decoder.context.Tidy) (requests : List Request) :
    (decoder.afterAll requests).context.Tidy := by
  induction requests generalizing decoder with
  | nil => exact tidy
  | cons request later inductionHypothesis => exact inductionHypothesis (tidy_after tidy request)

/-- Decoding an instruction that is a relative branch decodes the operands of one, and then looks at
the length. -/
theorem decode_of_branch {pass between : Pass} {heading : Heading}
    (read : Pass.readHeading pass.stream.cursor pass.decoder.defaultSize pass =
      .ok heading between)
    (isBranch : heading.selection.form.shape = .branch) :
    (∀ resolved, Shape.branch.decode (heading.begun between) = .ok () resolved →
      (Pass.left (Pass.decode pass)) = resolved.finished) ∧
    ∀ fault failed, Shape.branch.decode (heading.begun between) = .error fault failed →
      (Pass.left (Pass.decode pass)) = failed := by
  have halves : Pass.decode pass = Pass.decodeOperands pass.stream.cursor heading between :=
    (Pass.decode_eq_halves pass).trans (bind_of_ok read)
  have implied := Selection.extra_of_branch (Pass.regular_of_readHeading read) isBranch
  have steps : heading.selection.steps = Shape.branch.steps := by
    rw [Selection.steps, isBranch, implied]
    rfl
  constructor
  · intro resolved ran
    have stepsRan : Step.runAll heading.selection.steps (heading.begun between) =
        .ok () resolved := steps ▸ ran
    rw [halves, Pass.decodeOperands_of_ok _ stepsRan, Pass.left_concluded]
  · intro fault failed ran
    have stepsRan : Step.runAll heading.selection.steps (heading.begun between) =
        .error fault failed := steps ▸ ran
    rw [halves, Pass.decodeOperands_of_error _ stepsRan]
    rfl

theorem context_of_resolves {request : Request} {resolved : Pass}
    (resolves : decoder.Resolves request resolved) :
    (decoder.after request).context.isBranch = true ∧
      (decoder.after request).context.branchTarget =
        (decoder.after request).dest.signedImmediate.toUInt32 + resolved.stream.cursor := by
  cases resolves with
  | ofShape ran =>
      rw [after, ran]
      exact Shape.context_of_branch_ok ran
  | ofInstruction read isBranch ran =>
      have context := Shape.context_of_branch_ok ran
      rw [after, (decode_of_branch read isBranch).1 _ ran]
      exact context

/-- A branch that was not there before comes from a request that resolves it. -/
theorem exists_resolves {request : Request}
    (isSet : (decoder.after request).context.isBranch = true)
    (isNew : decoder.context.isBranch = false ∨
      (decoder.after request).context.branchTarget ≠ decoder.context.branchTarget) :
    ∃ resolved, decoder.Resolves request resolved := by
  -- What leaves both fields alone brings no branch.
  have changes (flag : (decoder.after request).context.isBranch = decoder.context.isBranch)
      (target : (decoder.after request).context.branchTarget = decoder.context.branchTarget) :
      False := by
    rcases isNew with plain | other
    · cases (isSet.symm.trans flag).trans plain
    · exact other target
  cases request with
  | start opcode width size => cases isSet
  | startDefault opcode width => cases isSet
  | resize slot width =>
      have kept : (decoder.after (.resize slot width)).context = decoder.context := by
        cases slot <;> rfl
      exact (changes (congrArg _ kept) (congrArg _ kept)).elim
  | writeBack operand value stream machine =>
      have kept := decoder_writeBack operand value ⟨stream, machine, decoder⟩
      exact (changes (congrArg (·.context.isBranch) kept)
        (congrArg (·.context.branchTarget) kept)).elim
  | decodeShape shape stream machine =>
      by_cases isBranch : shape = .branch
      · subst isBranch
        cases ran : Shape.branch.decode ⟨stream, machine, decoder⟩ with
        | ok value resolved => exact ⟨resolved, .ofShape ran⟩
        | error fault failed =>
            have kept := (Shape.follows_of_branch_error ran).kept id
            rw [after, ran] at changes
            exact (changes kept.1 kept.2).elim
      · have kept := (shape.follows_decode ⟨stream, machine, decoder⟩).kept isBranch
        exact (changes kept.1 kept.2).elim
  | decode stream machine =>
      have context := Pass.decode_context ⟨stream, machine, decoder⟩
      cases read : Pass.readHeading stream.cursor decoder.defaultSize
          ⟨stream, machine, decoder⟩ with
      | error fault failed =>
          obtain ⟨refused, kept⟩ := context.2.1 fault failed read
          rw [after, refused] at changes
          exact (changes (congrArg (·.context.isBranch) kept)
            (congrArg (·.context.branchTarget) kept)).elim
      | ok heading between =>
          have isBranch := (context.1 heading between read).1.branch isSet
          cases ran : Shape.branch.decode (heading.begun between) with
          | ok value resolved => exact ⟨resolved, .ofInstruction read isBranch ran⟩
          | error fault failed =>
              -- The instruction has begun, which has taken back an earlier branch.
              have kept := (Shape.follows_of_branch_error ran).kept id
              rw [after, (decode_of_branch read isBranch).2 _ _ ran, kept.1,
                Pass.context_begun] at isSet
              cases isSet

end Request

/-- Whatever a decoder has been asked for, it has no target without a branch and no scratch cell in
use but the address cell. Whatever it is asked for next, a relative branch whose displacement is
read leaves its target, which is the displacement added to the address after it, and a branch that
was not there before, or has another target, comes from that alone. -/
theorem branch_fields (size : OperandSize) (requests : List Request) :
    let decoder := (ofSize size).afterAll requests
    (decoder.context.isBranch = false → decoder.context.branchTarget = 0) ∧
    (decoder.context.scratch.t0 = 0 ∧ decoder.context.scratch.t1 = 0 ∧
      decoder.context.scratch.t2 = 0 ∧ decoder.context.scratch.t3 = 0) ∧
    ∀ request : Request,
      let later := decoder.after request
      (∀ resolved, decoder.Resolves request resolved →
        later.context.isBranch = true ∧
          later.context.branchTarget =
            later.dest.signedImmediate.toUInt32 + resolved.stream.cursor) ∧
      (later.context.isBranch = true →
        (decoder.context.isBranch = false ∨
          later.context.branchTarget ≠ decoder.context.branchTarget) →
        ∃ resolved, decoder.Resolves request resolved) := by
  intro decoder
  have tidy : decoder.context.Tidy := tidy_afterAll (Context.tidy_start 0 size) requests
  obtain ⟨address, cells⟩ := tidy.scratch
  refine ⟨tidy.target, ?_, fun request => ⟨fun resolved => context_of_resolves, exists_resolves⟩⟩
  rw [cells]
  exact ⟨rfl, rfl, rfl, rfl⟩

/-- A short branch, after a slot has been given a width that no operand has. -/
theorem branch_fields_short :
    let decoder := (ofSize .bits32).afterAll [.resize .dest 3]
    let request : Request := .decode (.mapped #[0xEB, 0x05] 0x1000) (.ofMemorySize 0x100)
    let later := decoder.after request
    (decoder.context.isBranch = false ∧ later.context.isBranch = true) ∧
      decoder.context.branchTarget = 0 ∧
      ∃ resolved, decoder.Resolves request resolved ∧
        later.context.branchTarget =
          later.dest.signedImmediate.toUInt32 + resolved.stream.cursor := by
  have before : ((ofSize .bits32).afterAll [.resize .dest 3]).context.isBranch = false := rfl
  have isSet : (((ofSize .bits32).afterAll [.resize .dest 3]).after
      (.decode (.mapped #[0xEB, 0x05] 0x1000) (.ofMemorySize 0x100))).context.isBranch = true := by
    decide +kernel
  obtain ⟨target, -, requests⟩ := branch_fields .bits32 [.resize .dest 3]
  obtain ⟨resolved, resolves⟩ := (requests _).2 isSet (.inl before)
  exact ⟨⟨before, isSet⟩, target before, resolved, resolves,
    ((requests _).1 resolved resolves).2⟩

end Decoder

end I386
