import I386.Proofs.Contracts
import I386.Proofs.OperandTable

/-!
Contract: the targets of relative branches.

Owns:
- which opcodes are relative branches, and how long their displacements are;
- what the context says about branches when operands have been decoded.

Main statement: an instruction has a target exactly if its opcode is a relative branch, and the
target is the address after the instruction moved by the displacement at the end of its encoding.

Does not own: indirect branches, whose targets are operands.
-/

namespace I386

/-! ## Relative branches -/

/-- The number of displacement bytes of the relative branch with an opcode. -/
def branchLength? (opcode : UInt16) : Option Nat :=
  if 0x70 ≤ opcode ∧ opcode ≤ 0x7F ∨ 0xE0 ≤ opcode ∧ opcode ≤ 0xE3 ∨ opcode = 0xEB then some 1
  else if opcode = 0xE8 ∨ opcode = 0xE9 ∨ 0x0F80 ≤ opcode ∧ opcode ≤ 0x0F8F then some 4
  else none

/-- An opcode is that of a relative branch exactly if its row is, and then its displacement has the
width of the row. -/
def Row.hasBranch (row : Row) (opcode : UInt16) : Bool :=
  [OperandSize.bits16, .bits32].all fun size =>
    branchLength? opcode =
      if row.form.shape = .branch then some (row.form.width.bytes size).toNat else none

/-- What is found in every row of either map, and of unassigned rows at the two-byte opcodes that
have none, holds of the row of each opcode. -/
theorem OpcodeBytes.check_row (check : UInt16 → Row → Bool)
    (oneByte : (OpcodeMap.oneByte.toList.zipIdx.all fun entry =>
      check (UInt8.ofNat entry.2).toUInt16 entry.1) = true)
    (gap : ∀ index : Fin 256, ¬(0x80 ≤ UInt8.ofNat index ∧ UInt8.ofNat index ≤ 0xBF) →
      check (0x0F00 ||| (UInt8.ofNat index).toUInt16) .unassigned = true)
    (twoByte : (OpcodeMap.twoByte.toList.zipIdx.all fun entry =>
      check (0x0F00 ||| (UInt8.ofNat entry.2 + OpcodeMap.twoByteStart).toUInt16) entry.1) = true)
    (opcode : OpcodeBytes) : check opcode.found.code opcode.row = true := by
  cases opcode with
  | oneByte byte =>
      exact OpcodeMap.check_oneByteRow (fun byte row => check byte.toUInt16 row) oneByte byte
  | twoByte second =>
      refine OpcodeMap.check_twoByteRow
        (fun second row => check (0x0F00 ||| second.toUInt16) row)
        (fun second outside => ?_) twoByte second
      simpa [outside] using gap ⟨second.toNat, second.toNat_lt⟩

theorem OpcodeBytes.hasBranch_row (opcode : OpcodeBytes) :
    opcode.row.hasBranch opcode.found.code = true :=
  opcode.check_row (fun code row => row.hasBranch code) (by decide +kernel) (by decide +kernel)
    (by decide +kernel)

/-- The opcode decides whether the selected operation is a relative branch. -/
theorem OpcodeBytes.branchLength?_of_selected {opcode : OpcodeBytes} {modRm : Option ModRm}
    {selection : Selection} (selected : opcode.row.selection? modRm = some selection)
    (size : OperandSize) :
    branchLength? opcode.found.code =
      if selection.form.shape = .branch then some (selection.form.width.bytes size).toNat
      else none := by
  have hasBranch := List.all_eq_true.mp opcode.hasBranch_row size (by cases size <;> decide)
  rw [Row.form_selection? selected]
  exact of_decide_eq_true hasBranch

namespace Pass

/-! ## The context -/

/-- When the operands of an encoding are decoded, the context is the one with which its
instruction began, but for the address cell and a resolved branch. -/
theorem context_staged {pass : Pass} {encoding : Encoding} {selection : Selection}
    (encodes : encoding.Encodes pass.decoder.defaultSize selection)
    (holds : pass.stream.Holds encoding.bytes) :
    (Context.start encoding.opcode.found.byte
        (encoding.operandSize pass.decoder.defaultSize)).Follows
      (selection.form.shape = .branch) (pass.staged encoding selection).decoder.context := by
  have regular := encodes.regular
  obtain ⟨-, remains, -⟩ := encodes_iff.mp ⟨encodes, holds⟩
  let before := (pass.skip (encoding.prefixes.length + 1)).skip encoding.opcode.rest.length
  let heading : Heading := ⟨.empty, encoding.opcode.first,
    encoding.operandSize pass.decoder.defaultSize, encoding.opcode.found, selection⟩
  have ran : Step.runAll selection.steps (heading.begun before) =
      .ok () (pass.staged encoding selection) :=
    (runAll_begun_ok_iff regular).mpr
      ⟨encoding.operands, remains.takes, (Stream.holds_append.mp remains.holds).2, rfl⟩
  have follows := selection.follows_steps regular (heading.begun before)
  rw [context_begun, ran] at follows
  exact follows

end Pass

/-! ## Decoding a branch -/

theorem Selection.extra_of_branch {selection : Selection} (regular : selection.Regular)
    (branch : selection.form.shape = .branch) : selection.extra = .implied := by
  rcases regular.extra with plain | ⟨-, rm⟩
  · exact plain
  · rw [branch] at rm
    cases rm

/-- After the opcode of a relative branch comes its displacement and nothing else. -/
theorem Selection.bytes_of_branch {selection : Selection} (regular : selection.Regular)
    (branch : selection.form.shape = .branch) {size : OperandSize} {operands : OperandBytes}
    (takes : selection.Takes size operands) :
    operands.bytes = operands.immediate ∧
      operands.immediate.length = (selection.form.width.bytes size).toNat := by
  have addressing := takes.addressing
  have immediate := takes.immediate
  rw [branch] at addressing
  rw [immediateLength, extra_of_branch regular branch, branch] at immediate
  have none : operands.addressing = none := by simpa [Shape.hasRm] using addressing
  refine ⟨?_, immediate⟩
  rw [OperandBytes.bytes, none]
  rfl

namespace Pass

section Branch

variable {pass : Pass} {encoding : Encoding} {selection : Selection}

/-- The destination of a relative branch holds the displacement. -/
theorem signedImmediate_of_branch
    (encodes : encoding.Encodes pass.decoder.defaultSize selection)
    (branch : selection.form.shape = .branch) :
    ((pass.staged encoding selection).decoder.slot .dest).signedImmediate =
      (displacementWord encoding.operands.immediate).toInt32 := by
  have regular := encodes.regular
  have role : selection.role .dest = .signedImmediate := by
    rw [Selection.role, Selection.extra_of_branch regular branch, branch]
    rfl
  obtain ⟨-, length⟩ := Selection.bytes_of_branch regular branch encodes.operands
  have extended := signExtension_ofBytes length
    (Selection.signedWidth regular (.inl branch) _)
  rw [staged, slots_operandsDecoded, Selection.fill_eq_filled regular, role, ← extended]
  rfl

/-- The last step of a relative branch adds the displacement to the address after it. -/
theorem context_of_branch (encodes : encoding.Encodes pass.decoder.defaultSize selection)
    (holds : pass.stream.Holds encoding.bytes) (branch : selection.form.shape = .branch) :
    (pass.staged encoding selection).decoder.context.isBranch = true ∧
      (pass.staged encoding selection).decoder.context.branchTarget =
        (pass.instruction encoding selection).nextAddress +
          displacementWord encoding.operands.immediate := by
  have regular := encodes.regular
  obtain ⟨-, remains, -⟩ := encodes_iff.mp ⟨encodes, holds⟩
  have steps : selection.steps = [.signedImmediate .dest, .branchTarget] := by
    rw [Selection.steps, branch, Selection.extra_of_branch regular branch]
    rfl
  obtain ⟨before, resolved⟩ : ∃ before : Pass,
      pass.staged encoding selection = before.branchResolved := by
    unfold staged operandsDecoded
    rw [steps]
    exact ⟨_, rfl⟩
  have displacement := signedImmediate_of_branch encodes branch
  have stream := stream_staged remains
  rw [resolved] at displacement stream ⊢
  refine ⟨rfl, ?_⟩
  have dest : (before.decoder.slot .dest).signedImmediate =
      (displacementWord encoding.operands.immediate).toInt32 := displacement
  have cursor : before.stream.cursor = (pass.instruction encoding selection).nextAddress :=
    congrArg Stream.cursor stream
  show (before.decoder.slot .dest).signedImmediate.toUInt32 + before.stream.cursor = _
  rw [dest, cursor, UInt32.add_comm]
  rfl

theorem branchTarget_instruction (encodes : encoding.Encodes pass.decoder.defaultSize selection)
    (holds : pass.stream.Holds encoding.bytes) :
    (pass.instruction encoding selection).branchTarget =
      if selection.form.shape = .branch then
        some ((pass.instruction encoding selection).nextAddress +
          displacementWord encoding.operands.immediate)
      else none := by
  have target : (pass.instruction encoding selection).branchTarget =
      if (pass.staged encoding selection).decoder.context.isBranch then
        some (pass.staged encoding selection).decoder.context.branchTarget else none := rfl
  rw [target]
  by_cases branch : selection.form.shape = .branch
  · obtain ⟨flag, resolved⟩ := context_of_branch encodes holds branch
    rw [if_pos branch, if_pos flag, resolved]
  · rcases (context_staged encodes holds).branch with ⟨flag, -⟩ | ⟨isOne, -⟩
    · rw [if_neg branch, flag]
      rfl
    · exact absurd isOne branch

end Branch

/-- An instruction has a branch target exactly if its opcode is that of a relative branch. The
target is the address after the instruction moved by the displacement, which is the last one or
four bytes of the encoding, and the context keeps it. After any other instruction the context says
that there is no branch. -/
theorem decode_branch {pass after : Pass} {instruction : Instruction}
    (ran : decode pass = .ok instruction after) :
    (instruction.branchTarget.isSome = true ↔
      (branchLength? instruction.opcode).isSome = true) ∧
    (∀ length, branchLength? instruction.opcode = some length →
      ∃ front last : List UInt8,
        pass.stream.Holds (front ++ last) ∧
          (front ++ last).length = instruction.size.toNat ∧ last.length = length ∧
          instruction.branchTarget = some (instruction.nextAddress + displacementWord last) ∧
          instruction.dest.signedImmediate = (displacementWord last).toInt32 ∧
          after.decoder.context.isBranch = true ∧
          after.decoder.context.branchTarget =
            instruction.nextAddress + displacementWord last) ∧
    (branchLength? instruction.opcode = none →
      instruction.branchTarget = none ∧ after.decoder.context.isBranch = false ∧
        after.decoder.context.branchTarget = 0) := by
  obtain ⟨encoding, selection, ⟨encodes, holds⟩, rfl, rfl⟩ := decode_ok_iff.mp ran
  have regular := encodes.regular
  obtain ⟨-, remains, short⟩ := encodes_iff.mp ⟨encodes, holds⟩
  have isBranch := OpcodeBytes.branchLength?_of_selected encodes.selected
    (encoding.operandSize pass.decoder.defaultSize)
  have opcode : (pass.instruction encoding selection).opcode = encoding.opcode.found.code := rfl
  rw [opcode, branchTarget_instruction encodes holds, isBranch]
  by_cases branch : selection.form.shape = .branch
  · obtain ⟨flag, resolved⟩ := context_of_branch encodes holds branch
    obtain ⟨bytes, length⟩ := Selection.bytes_of_branch regular branch encodes.operands
    rw [if_pos branch, if_pos branch]
    refine ⟨by simp, ?_, by simp⟩
    rintro _ ⟨⟩
    have few : encoding.prefixes.length ≤ 14 := by
      rw [encoding.length_bytes] at short
      omega
    have whole : encoding.bytes =
        (encoding.prefixes ++ encoding.opcode.bytes) ++ encoding.operands.immediate := by
      rw [Encoding.bytes, bytes]
    refine ⟨encoding.prefixes ++ encoding.opcode.bytes, encoding.operands.immediate, ?_, ?_,
      length, rfl, signedImmediate_of_branch encodes branch, flag, resolved⟩
    · rw [← whole]
      exact holds
    · rw [← whole]
      exact (toNat_length few remains.takes).symm
  · rcases (context_staged encodes holds).branch with ⟨flag, zero⟩ | ⟨isOne, -⟩
    · rw [if_neg branch, if_neg branch]
      exact ⟨by simp, by simp, fun _ => ⟨rfl, flag, zero⟩⟩
    · exact absurd isOne branch

/-- A jump to itself. -/
theorem decode_branch_jump :
    ∃ (instruction : Instruction) (after : Pass) (last : List UInt8),
      decode (ofBytes #[0xEB, 0xFE] []) = .ok instruction after ∧
        branchLength? instruction.opcode = some 1 ∧ last.length = 1 ∧
        instruction.branchTarget = some (instruction.nextAddress + displacementWord last) ∧
        instruction.branchTarget = some instruction.address ∧
        after.decoder.context.branchTarget = instruction.address := by
  let pass := ofBytes #[0xEB, 0xFE] []
  let encoding : Encoding := ⟨[], .oneByte 0xEB, none, [0xFE]⟩
  let selection : Selection := ⟨.jmp, ⟨.branch, .byte, none⟩, .implied⟩
  have row : OpcodeMap.oneByteRow 0xEB = .instruction .jmp ⟨.branch, .byte, none⟩ := by
    decide +kernel
  have encodes : encoding.Encodes pass.decoder.defaultSize selection := by
    refine ⟨by simp [encoding], ⟨by decide, by decide, by decide⟩, ?_, ?_, ⟨rfl, ?_, rfl⟩,
      by decide⟩
    · show (OpcodeMap.oneByteRow 0xEB).selection? _ = _
      rw [row]
      rfl
    · rintro - ⟨-, ⟨⟩⟩
    · rintro ⟨⟩
  have stands : pass.stream.Holds encoding.bytes := ⟨by decide +kernel, by decide +kernel, trivial⟩
  have ran := decode_of_encodes encodes stands
  have target : (pass.instruction encoding selection).branchTarget =
      some (pass.instruction encoding selection).address := by
    decide +kernel
  obtain ⟨front, last, -, -, length, moved, -, -, kept⟩ := (decode_branch ran).2.1 1 rfl
  refine ⟨_, _, last, ran, rfl, length, moved, target, ?_⟩
  rw [kept]
  exact Option.some.inj (moved.symm.trans target)

end Pass

end I386
