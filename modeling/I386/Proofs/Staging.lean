import I386.Proofs.Resolution

/-!
Contract: filling operand slots from something else than a ModR/M encoding.

Owns:
- the bytes that follow an opcode, split into an operand encoding and an immediate;
- the changes of a pass when a slot is filled, narrowed or cut, and when a branch is resolved;
- when each of these succeeds.

Does not own: which slots are filled, and in which order.
-/

namespace I386

/-- What follows an opcode: the encoding of a register-or-memory operand, if the pattern has one,
and the bytes of an immediate, branch displacement or memory offset. -/
structure OperandBytes where
  addressing : Option Addressing
  immediate : List UInt8

def OperandBytes.bytes (fields : OperandBytes) : List UInt8 :=
  fields.addressing.elim [] Addressing.bytes ++ fields.immediate

/-- The sign extension of a value, which a valid width always has. -/
def signExtension (value : UInt32) (width : UInt8) : UInt32 :=
  (signExtend value width).toOption.getD 0

theorem signExtend_eq {value : UInt32} {width : UInt8} (valid : ValidWidth width) :
    signExtend value width = .ok (signExtension value width) := by
  rcases valid with rfl | rfl | rfl <;> rfl

namespace Pass

/-! ## Changes that steps make -/

def valueStaged (pass : Pass) (slot : Slot) (value : UInt32) : Pass :=
  (pass.recordAll [.loadImmediate value]).update slot fun operand => { operand with value }

def immediateFetched (pass : Pass) (slot : Slot) (bytes : List UInt8) : Pass :=
  let pass := pass.update slot fun operand => { operand with kind := .immediate }
  (pass.skip bytes.length).update slot fun operand =>
    { operand with immediate := LittleEndian.ofBytes bytes }

/-- The pass with an immediate in a slot and staged. -/
def immediateFilled (pass : Pass) (slot : Slot) (bytes : List UInt8) : Pass :=
  (pass.immediateFetched slot bytes).valueStaged slot (LittleEndian.ofBytes bytes)

/-- The pass with a sign-extended immediate in a slot and staged. -/
def signedImmediateFilled (pass : Pass) (slot : Slot) (bytes : List UInt8) : Pass :=
  let extended := signExtension (LittleEndian.ofBytes bytes) (pass.decoder.slot slot).width
  let pass := (pass.immediateFetched slot bytes).update slot fun operand =>
    { operand with signedImmediate := extended.toInt32 }
  pass.valueStaged slot extended

/-- The pass with the memory operand at an offset in a slot, its value staged if `load`. -/
def offsetFilled (pass : Pass) (slot : Slot) (bytes : List UInt8) (load : Bool) : Pass :=
  (pass.skip bytes.length).memoryFilled slot (LittleEndian.ofBytes bytes) load

/-- The pass with a register of its own width in a slot and staged. -/
def fixedRegisterFilled (pass : Pass) (slot : Slot) (number width : UInt8) : Pass :=
  (pass.update slot fun operand => { operand with width }).registerFilled slot number true

def oneFilled (pass : Pass) (slot : Slot) : Pass :=
  let pass := pass.update slot fun operand => { operand with kind := .immediate, immediate := 1 }
  pass.valueStaged slot 1

def narrowed (pass : Pass) (slot : Slot) : Pass :=
  pass.update slot fun operand => { operand with width := 1 }

/-- The pass with the source's staged value cut to a destination of two bytes. -/
def sourceClipped (pass : Pass) : Pass :=
  if (pass.decoder.slot .dest).width = 2 then
    pass.update .src fun operand => { operand with value := operand.value &&& 0xFFFF }
  else
    pass

def branchResolved (pass : Pass) : Pass :=
  let target := (pass.decoder.slot .dest).signedImmediate.toUInt32 + pass.stream.cursor
  { pass with
    decoder := { pass.decoder with
      context := { pass.decoder.context with branchTarget := target, isBranch := true } } }

/-! ## When filling succeeds -/

theorem ok_iff_of_eq {action : PassM Unit} {pass changed after : Pass}
    (ran : action pass = .ok () changed) : action pass = .ok () after ↔ after = changed := by
  rw [ran, EStateM.Result.ok.injEq, eq_comm (b := after)]
  exact and_iff_right rfl

theorem stageImmediate_eq (pass : Pass) (slot : Slot) (value : UInt32) :
    stageImmediate slot value pass = .ok () (pass.valueStaged slot value) := by
  have ran : transfer (.loadImmediate value) pass =
      .ok value (pass.recordAll [.loadImmediate value]) := transfer_loadImmediate pass value
  exact bind_of_ok ran

theorem width_valueStaged (pass : Pass) (slot other : Slot) (value : UInt32) :
    ((pass.valueStaged slot value).decoder.slot other).width =
      (pass.decoder.slot other).width :=
  (pass.recordAll _).width_update slot other _ fun _ => rfl

theorem width_immediateFetched (pass : Pass) (slot other : Slot) (bytes : List UInt8) :
    ((pass.immediateFetched slot bytes).decoder.slot other).width =
      (pass.decoder.slot other).width := by
  simp [immediateFetched, width_update]

/-- Bytes that make up an immediate of a slot stand at the cursor. -/
def HasImmediate (pass : Pass) (slot : Slot) (bytes : List UInt8) : Prop :=
  bytes.length = (pass.decoder.slot slot).width.toNat ∧ pass.stream.Holds bytes

theorem fetchImmediate_ok_iff {pass after : Pass} {slot : Slot} {value : UInt32} :
    fetchImmediate slot pass = .ok value after ↔
      ValidWidth (pass.decoder.slot slot).width ∧ ∃ bytes : List UInt8,
        pass.HasImmediate slot bytes ∧ value = LittleEndian.ofBytes bytes ∧
          after = pass.immediateFetched slot bytes := by
  have width := pass.width_update slot slot
    (fun operand => { operand with kind := .immediate }) fun _ => rfl
  simp only [fetchImmediate, bind_ok_iff, modifyOperand_ok_iff, operand_ok_iff, fetch_ok_iff,
    pure_ok_iff]
  constructor
  · intro succeeded
    rcases succeeded with ⟨_, _, rfl, _, _, ⟨rfl, rfl⟩, _, _,
      ⟨valid, bytes, length, holds, rfl, rfl⟩, _, _, rfl, rfl, rfl⟩
    rw [width] at valid length
    refine ⟨valid, bytes, ⟨length, holds⟩, rfl, ?_⟩
    rw [width, ← length]
    rfl
  · intro given
    rcases given with ⟨valid, bytes, ⟨length, holds⟩, rfl, rfl⟩
    rw [← width] at valid length
    refine ⟨(), _, rfl, _, _, ⟨rfl, rfl⟩, _, _, ⟨valid, bytes, length, holds, rfl, rfl⟩, (), _, rfl,
      rfl, ?_⟩
    rw [← length]
    rfl

theorem fillImmediate_ok_iff {pass after : Pass} {slot : Slot} :
    fillImmediate slot pass = .ok () after ↔
      ValidWidth (pass.decoder.slot slot).width ∧ ∃ bytes : List UInt8,
        pass.HasImmediate slot bytes ∧ after = pass.immediateFilled slot bytes := by
  simp only [fillImmediate, bind_ok_iff, fetchImmediate_ok_iff, stageImmediate_eq,
    EStateM.Result.ok.injEq]
  constructor
  · intro succeeded
    rcases succeeded with ⟨_, _, ⟨valid, bytes, has, rfl, rfl⟩, -, rfl⟩
    exact ⟨valid, bytes, has, rfl⟩
  · intro given
    rcases given with ⟨valid, bytes, has, rfl⟩
    exact ⟨_, _, ⟨valid, bytes, has, rfl, rfl⟩, trivial, rfl⟩

theorem fillSignedImmediate_ok_iff {pass after : Pass} {slot : Slot} :
    fillSignedImmediate slot pass = .ok () after ↔
      ((pass.decoder.slot slot).width = 1 ∨ (pass.decoder.slot slot).width = 4) ∧
        ∃ bytes : List UInt8,
          pass.HasImmediate slot bytes ∧ after = pass.signedImmediateFilled slot bytes := by
  have first : operand slot pass = .ok (pass.decoder.slot slot) pass := rfl
  unfold fillSignedImmediate
  rw [bind_of_ok first]
  by_cases signed : (pass.decoder.slot slot).width = 1 ∨ (pass.decoder.slot slot).width = 4
  · have valid : ValidWidth (pass.decoder.slot slot).width := signed.elim .inl fun four =>
      .inr (.inr four)
    have extend (value : UInt32) : extended value (pass.decoder.slot slot).width =
        pure (signExtension value (pass.decoder.slot slot).width) := by
      unfold extended
      rw [signExtend_eq valid]
    simp only [if_pos signed, extend, pure_bind, bind_ok_iff, fetchImmediate_ok_iff,
      modifyOperand_ok_iff, stageImmediate_eq, EStateM.Result.ok.injEq]
    constructor
    · intro succeeded
      rcases succeeded with ⟨_, _, ⟨-, bytes, has, rfl, rfl⟩, _, _, rfl, -, rfl⟩
      exact ⟨signed, bytes, has, rfl⟩
    · intro given
      rcases given with ⟨-, bytes, has, rfl⟩
      exact ⟨_, _, ⟨valid, bytes, has, rfl, rfl⟩, (), _, rfl, trivial, rfl⟩
  · rw [if_neg signed]
    constructor
    · intro ran
      cases ran
    · intro given
      rcases given with ⟨isSigned, -⟩
      exact absurd isSigned signed

theorem fillOffset_ok_iff {pass after : Pass} {slot : Slot} {load : Bool} :
    fillOffset slot load pass = .ok () after ↔
      pass.CanStage slot load ∧ ∃ bytes : List UInt8,
        bytes.length = 4 ∧ pass.stream.Holds bytes ∧ after = pass.offsetFilled slot bytes load := by
  have stages (bytes : List UInt8) (length : bytes.length = 4)
      (holds : pass.stream.Holds bytes) : fillOffset slot load pass = .ok () after ↔
        pass.CanStage slot load ∧ after = pass.offsetFilled slot bytes load := by
    have fetched : fetch 4 (pass.update slot fun operand => { operand with kind := .memory }) =
        .ok (LittleEndian.ofBytes bytes) ((pass.update slot fun operand =>
          { operand with kind := .memory }).skip bytes.length) :=
      fetch_eq (.inr (.inr rfl)) length holds
    have body : fillOffset slot load pass =
        (if load then stageMemory slot else pure () : PassM Unit)
          (((pass.update slot fun operand => { operand with kind := .memory }).skip
            bytes.length).addressStaged slot (LittleEndian.ofBytes bytes)) :=
      (bind_of_ok (modifyOperand_eq pass slot _)).trans <|
        (bind_of_ok fetched).trans <| bind_of_ok (stageAddress_ok_iff.mpr rfl)
    rw [body]
    cases load with
    | false => simp [CanStage, pure_ok_iff, offsetFilled, memoryFilled, skip, update]
    | true =>
        refine stageMemory_ok_iff.trans (and_congr ?_ Iff.rfl)
        simp [CanStage, addressStaged, width_update]
  constructor
  · intro ran
    obtain ⟨_, _, filled, rest⟩ := bind_ok_iff.mp ran
    obtain rfl := modifyOperand_ok_iff.mp filled
    obtain ⟨_, _, fetched, -⟩ := bind_ok_iff.mp rest
    obtain ⟨-, bytes, length, holds, -, -⟩ := fetch_ok_iff.mp fetched
    obtain ⟨canStage, same⟩ := (stages bytes length holds).mp ran
    exact ⟨canStage, bytes, length, holds, same⟩
  · intro given
    rcases given with ⟨canStage, bytes, length, holds, same⟩
    exact (stages bytes length holds).mpr ⟨canStage, same⟩

theorem fillFixedRegister_ok_iff {pass after : Pass} {slot : Slot} {number width : UInt8}
    (valid : ValidWidth width) :
    fillFixedRegister slot number width pass = .ok () after ↔
      after = pass.fixedRegisterFilled slot number width := by
  unfold fillFixedRegister
  rw [bind_of_ok (modifyOperand_eq _ _ _), fillRegister_ok_iff]
  refine and_iff_right fun _ => ?_
  rw [slot_update, if_pos rfl]
  exact valid

theorem fillOne_eq (pass : Pass) (slot : Slot) :
    fillOne slot pass = .ok () (pass.oneFilled slot) := by
  unfold fillOne
  rw [bind_of_ok (modifyOperand_eq _ _ _), stageImmediate_eq]
  rfl

theorem clipSource_eq (pass : Pass) : clipSource pass = .ok () pass.sourceClipped := by
  have first : operand .dest pass = .ok (pass.decoder.slot .dest) pass := rfl
  unfold clipSource sourceClipped
  rw [bind_of_ok first]
  by_cases narrow : (pass.decoder.slot .dest).width = 2
  · simp only [if_pos narrow, modifyOperand_eq]
  · simp only [if_neg narrow]
    rfl

theorem resolveBranch_eq (pass : Pass) : resolveBranch pass = .ok () pass.branchResolved := rfl

/-! ## When demands are met -/

/-- The next byte is a ModR/M byte that selects memory. -/
def AtMemory (pass : Pass) : Prop :=
  ∃ modRm : ModRm,
    pass.stream.byteAt? pass.stream.cursor = some modRm.byte ∧ modRm.isMemory = true

theorem requireMemory_ok_iff {pass after : Pass} :
    requireMemory pass = .ok () after ↔ pass.AtMemory ∧ after = pass := by
  simp only [requireMemory, bind_ok_iff, peekByte_ok_iff]
  constructor
  · intro succeeded
    rcases succeeded with ⟨byte, _, ⟨mapped, rfl⟩, rest⟩
    cases memory : (ModRm.mk byte).isMemory with
    | false =>
        simp only [memory, Bool.not_false, if_true] at rest
        cases rest
    | true =>
        simp only [memory, Bool.not_true, Bool.false_eq_true, if_false, pure_ok_iff] at rest
        exact ⟨⟨⟨byte⟩, mapped, memory⟩, rest.2⟩
  · intro given
    rcases given with ⟨⟨modRm, mapped, memory⟩, rfl⟩
    refine ⟨modRm.byte, after, ⟨mapped, rfl⟩, ?_⟩
    simp only [memory, Bool.not_true, Bool.false_eq_true, if_false, pure_ok_iff, and_self]

def WideDest (pass : Pass) : Prop :=
  (pass.decoder.slot .dest).width = 2 ∨ (pass.decoder.slot .dest).width = 4

theorem requireWideDest_ok_iff {pass after : Pass} :
    requireWideDest pass = .ok () after ↔ pass.WideDest ∧ after = pass := by
  simp only [requireWideDest, bind_ok_iff, operand_ok_iff]
  constructor
  · intro succeeded
    rcases succeeded with ⟨_, _, ⟨rfl, same⟩, rest⟩
    rw [same] at rest
    by_cases wide : (pass.decoder.slot .dest).width = 2 ∨ (pass.decoder.slot .dest).width = 4
    · simp only [wide, not_true_eq_false, if_false, pure_ok_iff] at rest
      exact ⟨wide, rest.2⟩
    · simp only [wide, not_false_eq_true, if_true] at rest
      cases rest
  · intro given
    rcases given with ⟨wide, rfl⟩
    refine ⟨_, _, ⟨rfl, rfl⟩, ?_⟩
    unfold WideDest at wide
    simp only [wide, not_true_eq_false, if_false, pure_ok_iff, and_self]

end Pass

end I386
