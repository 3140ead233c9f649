import I386.Proofs.Refusals

/-!
Contract: which operand patterns cannot be decoded at which widths.

Owns:
- the contracts of patterns: four of them have a width that their destination must not have;
- why a composed computation fails.

Main statement: a pattern whose destination breaks its contract is given up before anything is
read, transferred or changed. At all other widths it is decoded, or a byte is missing, or a
register stands where an address is taken.

Does not own: which patterns and widths the opcode maps put together.
-/

namespace I386

/-- The contract that a destination of `width` bytes breaks: a byte is sign-extended to two or four
bytes, and a signed immediate of the destination's own width has one or four. -/
def Shape.violation? (shape : Shape) (width : UInt8) : Option Violation :=
  match shape with
  | signedImmToRm => if width = 1 then some (.destinationWidth width) else none
  | rmSignedImmToReg => if width = 1 then some (.destinationWidth width) else none
  | branch => if width = 2 then some (.signedImmediateWidth width) else none
  | signedImm => if width = 2 then some (.signedImmediateWidth width) else none
  | _ => none

/-! ## Broken contracts -/

namespace Pass

theorem requireWideDest_of_narrow {pass : Pass} (narrow : ¬pass.WideDest) :
    requireWideDest pass =
      .error (.violation (.destinationWidth (pass.decoder.slot .dest).width)) pass := by
  have found : operand .dest pass = .ok (pass.decoder.slot .dest) pass := rfl
  unfold WideDest at narrow
  unfold requireWideDest
  rw [bind_of_ok found]
  simp only [narrow, not_false_eq_true, if_true]
  rfl

theorem fillSignedImmediate_of_unsigned {pass : Pass} {slot : Slot}
    (unsigned : ¬((pass.decoder.slot slot).width = 1 ∨ (pass.decoder.slot slot).width = 4)) :
    fillSignedImmediate slot pass =
      .error (.violation (.signedImmediateWidth (pass.decoder.slot slot).width)) pass := by
  have found : operand slot pass = .ok (pass.decoder.slot slot) pass := rfl
  unfold fillSignedImmediate
  rw [bind_of_ok found]
  simp only [unsigned, if_false]
  rfl

end Pass

namespace Shape

/-- The first step of the pattern finds out that its contract is broken. -/
theorem decode_of_violation? {shape : Shape} {pass : Pass} {violation : Violation}
    (broken : shape.violation? pass.decoder.dest.width = some violation) :
    shape.decode pass = .error (.violation violation) pass := by
  have narrow (byte : (pass.decoder.slot .dest).width = 1) : ¬pass.WideDest := by
    simp [Pass.WideDest, byte]
  have unsigned (word : (pass.decoder.slot .dest).width = 2) :
      ¬((pass.decoder.slot .dest).width = 1 ∨ (pass.decoder.slot .dest).width = 4) := by
    simp [word]
  cases shape with
  | signedImmToRm =>
      obtain ⟨byte, isBroken⟩ := Option.ite_none_right_eq_some.mp broken
      cases isBroken
      exact bind_of_error (Pass.requireWideDest_of_narrow (narrow byte))
  | rmSignedImmToReg =>
      obtain ⟨byte, isBroken⟩ := Option.ite_none_right_eq_some.mp broken
      cases isBroken
      exact bind_of_error (Pass.requireWideDest_of_narrow (narrow byte))
  | branch =>
      obtain ⟨word, isBroken⟩ := Option.ite_none_right_eq_some.mp broken
      cases isBroken
      exact bind_of_error (Pass.fillSignedImmediate_of_unsigned (unsigned word))
  | signedImm =>
      obtain ⟨word, isBroken⟩ := Option.ite_none_right_eq_some.mp broken
      cases isBroken
      exact bind_of_error (Pass.fillSignedImmediate_of_unsigned (unsigned word))
  | _ => cases broken

/-! ## Contracts that hold -/

/-- All other contracts are about bytes and about slots that the pattern itself has sized. -/
theorem permitsAll_of_violation? {shape : Shape} {pass : Pass} (sized : pass.decoder.Sized)
    (holds : shape.violation? pass.decoder.dest.width = none) :
    Step.PermitsAll shape.steps pass.widths := by
  have valid : pass.widths .dest = 1 ∨ pass.widths .dest = 2 ∨ pass.widths .dest = 4 := sized .dest
  have dest : pass.decoder.dest.width = pass.widths .dest := rfl
  rw [dest] at holds
  rcases valid with width | width | width <;> rw [width] at holds <;> cases shape <;>
    simp_all [violation?, steps, signExtendedByteSteps, Step.PermitsAll, Step.Permits, Step.resize]

theorem eq_addressToReg_of_mem {shape : Shape} (isIn : Step.requireMemory ∈ shape.steps) :
    shape = .addressToReg := by
  revert isIn
  cases shape <;> decide

end Shape

/-! ## Failures -/

/-- A composed computation fails for want of a byte, or a width breaks a contract, or it looks at a
ModR/M byte that selects a register. -/
theorem Pass.Paired.error {α : Type} {rules : Rules} {certain : Prop} {first second : PassM α}
    (paired : Paired rules certain first second) (lenient : ¬rules.valid) {pass failed : Pass}
    {fault : Fault} (ran : first pass = .error fault failed) :
    Exhausted fault failed ∨ (∃ violation, fault = .violation violation) ∨
      rules.looks ∧ ∃ byte address, fault = .decode (.invalidModRm byte address) := by
  induction paired generalizing pass with
  | pure same => cases ran
  | violate _ violation =>
      cases ran
      exact .inr (.inl ⟨violation, rfl⟩)
  | fetchByte => exact .inl (exhausted_of_fetchByte ran)
  | @load _ op _ alike known =>
      rw [transfer_of_isLoad alike.isLoad] at ran
      cases held : op.held pass.machine.registers pass.machine.memory with
      | ok value =>
          rw [held] at ran
          cases ran
      | error violation =>
          rw [held] at ran
          cases ran
          exact .inr (.inl ⟨violation, rfl⟩)
  | setAddressCell value other => cases ran
  | currentOpcode => cases ran
  | modifyOperand free slot alike keeps => cases ran
  | requireMemory looks =>
      cases mapped : pass.stream.byteAt? pass.stream.cursor with
      | none =>
          cases (requireMemory_of_unmapped mapped).symm.trans ran
          exact .inl ⟨rfl, mapped⟩
      | some byte =>
          rw [requireMemory_of_mapped mapped] at ran
          split at ran
          · cases ran
          · cases ran
            exact .inr (.inr ⟨looks, byte, _, rfl⟩)
  | resolveBranch free isBranch => cases ran
  | withOperand free slot rest nextError =>
      exact nextError (pass.decoder.slot slot) _ (.refl _ _) (absurd · lenient) ran
  | bind one rest firstError nextError =>
      rcases bind_error_iff.mp ran with early | ⟨value, between, -, late⟩
      · exact firstError early
      · exact nextError value value (fun _ => rfl) late

theorem Step.error_of_runAll {steps : List Step} {pass failed : Pass} {fault : Fault}
    (ran : runAll steps pass = .error fault failed) :
    Pass.Exhausted fault failed ∨ (∃ violation, fault = .violation violation) ∨
      requireMemory ∈ steps ∧ ∃ byte address, fault = .decode (.invalidModRm byte address) := by
  let rules : Rules := { Rules.lenient with looks := requireMemory ∈ steps }
  have obey : ∀ step ∈ steps, step.Obeys rules := fun step isIn =>
    ⟨fun _ => trivial, fun same => (same ▸ isIn : requireMemory ∈ steps), fun _ => trivial,
      fun _ => id⟩
  have composed : Pass.Composed rules (runAll steps) := composed_runAll trivial obey
  exact composed.error id ran

namespace Shape

/-- At widths that break no contract, a pattern fails for want of a byte, or because it takes the
address of a register. -/
theorem error_of_decode {shape : Shape} {pass failed : Pass} {fault : Fault}
    (sized : pass.decoder.Sized) (holds : shape.violation? pass.decoder.dest.width = none)
    (ran : shape.decode pass = .error fault failed) :
    Pass.Exhausted fault failed ∨
      shape = .addressToReg ∧ ∃ byte address, fault = .decode (.invalidModRm byte address) := by
  have permits : Step.PermitsAll shape.steps pass.widths := permitsAll_of_violation? sized holds
  obtain ⟨action, composed, same⟩ := Step.exists_composed_runAll shape.steps sized permits
  obtain ⟨ops, conduct⟩ := composed.exists_conduct trivial sized
  have decoded : action pass = .error fault failed := (same pass rfl).symm.trans ran
  obtain ⟨error, isError, -⟩ := conduct.obeys fault failed decoded
  rcases Step.error_of_runAll ran with missing | ⟨violation, broken⟩ | ⟨looks, invalid⟩
  · exact .inl missing
  · cases isError.symm.trans broken
  · exact .inr ⟨eq_addressToReg_of_mem looks, invalid⟩

/-- Whatever the widths of the slots are among those that operands can have, decoding a pattern
breaks a contract exactly if the width of its destination does, and then the pass is left as it
was. Otherwise decoding succeeds, or fails for want of a byte or, if an address is taken, because
of a ModR/M byte that selects a register. -/
theorem decode_violates_iff (shape : Shape) {pass : Pass} (sized : pass.decoder.Sized) :
    (∀ violation failed, shape.decode pass = .error (.violation violation) failed ↔
      shape.violation? pass.decoder.dest.width = some violation ∧ failed = pass) ∧
    (shape.violation? pass.decoder.dest.width = none →
      (∃ after, shape.decode pass = .ok () after) ∨
      (∃ address failed,
        shape.decode pass = .error (.decode (.readOutOfBounds address)) failed) ∨
      shape = .addressToReg ∧ ∃ byte address failed,
        shape.decode pass = .error (.decode (.invalidModRm byte address)) failed) := by
  constructor
  · intro violation failed
    constructor
    · intro ran
      cases contract : shape.violation? pass.decoder.dest.width with
      | none =>
          rcases error_of_decode sized contract ran with ⟨missing, -⟩ | ⟨-, byte, address, invalid⟩
          · cases missing
          · cases invalid
      | some broken =>
          cases (decode_of_violation? contract).symm.trans ran
          exact ⟨rfl, rfl⟩
    · intro given
      rcases given with ⟨broken, rfl⟩
      exact decode_of_violation? broken
  · intro holds
    cases ran : shape.decode pass with
    | ok value after => exact .inl ⟨after, rfl⟩
    | error fault failed =>
        rcases error_of_decode sized holds ran with ⟨rfl, -⟩ | ⟨address, byte, place, rfl⟩
        · exact .inr (.inl ⟨_, failed, rfl⟩)
        · exact .inr (.inr ⟨address, byte, place, failed, rfl⟩)

/-- With slots of one byte, a sign-extended byte cannot be added, and nothing is wrong with adding
an immediate. -/
theorem decode_violates_iff_byte :
    let pass : Pass := { Pass.ofBytes #[0xC0, 0x05] [] with
      decoder := (Decoder.ofSize .bits32).start 0x83 1 .bits32 }
    (pass.decoder.Sized ∧ immToRm.violation? pass.decoder.dest.width = none) ∧
      signedImmToRm.decode pass = .error (.violation (.destinationWidth 1)) pass ∧
      ((∃ after, immToRm.decode pass = .ok () after) ∨
        ∃ address failed,
          immToRm.decode pass = .error (.decode (.readOutOfBounds address)) failed) := by
  intro pass
  have sized : pass.decoder.Sized := by
    intro slot
    cases slot <;> exact .inl rfl
  have holds : immToRm.violation? pass.decoder.dest.width = none := rfl
  have broken : signedImmToRm.violation? pass.decoder.dest.width = some (.destinationWidth 1) := rfl
  refine ⟨⟨sized, holds⟩, ((decode_violates_iff _ sized).1 _ _).mpr ⟨broken, rfl⟩, ?_⟩
  rcases (decode_violates_iff immToRm sized).2 holds with decoded | missing | ⟨isAddress, -⟩
  · exact .inl decoded
  · exact .inr missing
  · cases isAddress

end Shape

end I386
