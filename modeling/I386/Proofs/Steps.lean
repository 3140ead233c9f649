import I386.Proofs.Staging

/-!
Contract: the steps of operand patterns as changes of a pass.

Owns:
- the change that each step makes when its bytes stand at the cursor, and when they do;
- the bytes that a step takes and the widths that it leaves;
- sequences of steps: they succeed exactly if every step finds its bytes, and then they make the
  changes of their steps, one after the other.

Does not own: which steps a pattern consists of.
-/

namespace I386

/-! ## Steps -/

namespace Step

/-- The bytes that a step needs stand at the cursor, and its demands are met. -/
def Fits (fields : OperandBytes) (pass : Pass) : Step → Prop
  | modRm _ _ _ => ∃ encoding, fields.addressing = some encoding ∧ pass.stream.Holds encoding.bytes
  | requireMemory => pass.AtMemory
  | immediate slot => pass.HasImmediate slot fields.immediate
  | signedImmediate slot =>
      ((pass.decoder.slot slot).width = 1 ∨ (pass.decoder.slot slot).width = 4) ∧
        pass.HasImmediate slot fields.immediate
  | offset _ _ => fields.immediate.length = 4 ∧ pass.stream.Holds fields.immediate
  | requireWideDest => pass.WideDest
  | _ => True

/-- The change that a step makes to a pass that it fits. -/
def effect (fields : OperandBytes) (pass : Pass) : Step → Pass
  | modRm slot load field =>
      fields.addressing.elim pass fun encoding => pass.resolved encoding slot load field
  | requireMemory => pass
  | immediate slot => pass.immediateFilled slot fields.immediate
  | signedImmediate slot => pass.signedImmediateFilled slot fields.immediate
  | accumulator slot load => pass.registerFilled slot Register.accumulator load
  | opcodeRegister slot load => pass.registerFilled slot (pass.decoder.context.opcode &&& 7) load
  | offset slot load => pass.offsetFilled slot fields.immediate load
  | cl slot => pass.fixedRegisterFilled slot Register.cl 1
  | dx slot => pass.fixedRegisterFilled slot Register.dx 2
  | one slot => pass.oneFilled slot
  | narrowToByte slot => pass.narrowed slot
  | requireWideDest => pass
  | clipSource => pass.sourceClipped
  | branchTarget => pass.branchResolved

/-- A step succeeds exactly if it finds its bytes, and then makes its change. -/
theorem run_ok_iff {step : Step} {pass after : Pass} (sized : pass.decoder.Sized) :
    step.run pass = .ok () after ↔
      ∃ fields : OperandBytes, step.Fits fields pass ∧ after = step.effect fields pass := by
  have always {changed : Pass} : (∃ _ : OperandBytes, True ∧ after = changed) ↔ after = changed :=
    ⟨fun ⟨_, _, same⟩ => same, fun same => ⟨⟨none, []⟩, trivial, same⟩⟩
  have demanded {demand : Prop} :
      (∃ _ : OperandBytes, demand ∧ after = pass) ↔ demand ∧ after = pass :=
    ⟨fun ⟨_, met, same⟩ => ⟨met, same⟩, fun ⟨met, same⟩ => ⟨⟨none, []⟩, met, same⟩⟩
  cases step with
  | modRm slot load field =>
      constructor
      · intro ran
        obtain ⟨modRm, _, resolved, rest⟩ := bind_ok_iff.mp ran
        obtain ⟨-, rfl⟩ := pure_ok_iff.mp rest
        obtain ⟨-, -, encoding, -, holds, rfl⟩ := Pass.resolve_ok_iff.mp resolved
        exact ⟨⟨some encoding, []⟩, ⟨encoding, rfl, holds⟩, rfl⟩
      · intro given
        rcases given with ⟨fields, ⟨encoding, present, holds⟩, rfl⟩
        rw [effect, present]
        have resolved : Pass.resolve slot load field pass =
            .ok encoding.modRm (pass.resolved encoding slot load field) := Pass.resolve_ok_iff.mpr
          ⟨fun target _ _ => sized target.1, fun _ => sized slot, encoding, rfl, holds, rfl⟩
        exact bind_of_ok resolved
  | requireMemory => exact Pass.requireMemory_ok_iff.trans demanded.symm
  | immediate slot =>
      refine Pass.fillImmediate_ok_iff.trans ⟨?_, ?_⟩
      · intro given
        rcases given with ⟨-, bytes, has, rfl⟩
        exact ⟨⟨none, bytes⟩, has, rfl⟩
      · intro given
        rcases given with ⟨fields, has, rfl⟩
        exact ⟨sized slot, fields.immediate, has, rfl⟩
  | signedImmediate slot =>
      refine Pass.fillSignedImmediate_ok_iff.trans ⟨?_, ?_⟩
      · intro given
        rcases given with ⟨signed, bytes, has, rfl⟩
        exact ⟨⟨none, bytes⟩, ⟨signed, has⟩, rfl⟩
      · intro given
        rcases given with ⟨fields, ⟨signed, has⟩, rfl⟩
        exact ⟨signed, fields.immediate, has, rfl⟩
  | accumulator slot load =>
      exact (Pass.fillRegister_ok_iff.trans (and_iff_right fun _ => sized slot)).trans always.symm
  | opcodeRegister slot load =>
      have decoder : Pass.currentDecoder pass = .ok pass.decoder pass := rfl
      have ran : (opcodeRegister slot load).run pass =
          Pass.fillRegister slot (pass.decoder.context.opcode &&& 7) load pass :=
        bind_of_ok decoder
      rw [ran]
      exact (Pass.fillRegister_ok_iff.trans (and_iff_right fun _ => sized slot)).trans always.symm
  | offset slot load =>
      refine Pass.fillOffset_ok_iff.trans ⟨?_, ?_⟩
      · intro given
        rcases given with ⟨-, bytes, length, holds, rfl⟩
        exact ⟨⟨none, bytes⟩, ⟨length, holds⟩, rfl⟩
      · intro given
        rcases given with ⟨fields, ⟨length, holds⟩, rfl⟩
        exact ⟨fun _ => sized slot, fields.immediate, length, holds, rfl⟩
  | cl slot => exact (Pass.fillFixedRegister_ok_iff (.inl rfl)).trans always.symm
  | dx slot => exact (Pass.fillFixedRegister_ok_iff (.inr (.inl rfl))).trans always.symm
  | one slot =>
      exact (Pass.ok_iff_of_eq (pass.fillOne_eq slot)).trans always.symm
  | narrowToByte slot =>
      have ran : (narrowToByte slot).run pass = .ok () (pass.narrowed slot) := rfl
      exact (Pass.ok_iff_of_eq ran).trans always.symm
  | requireWideDest => exact Pass.requireWideDest_ok_iff.trans demanded.symm
  | clipSource => exact (Pass.ok_iff_of_eq pass.clipSource_eq).trans always.symm
  | branchTarget => exact (Pass.ok_iff_of_eq pass.resolveBranch_eq).trans always.symm

def readsAddressing : Step → Bool
  | modRm _ _ _ => true
  | _ => false

def readsImmediate : Step → Bool
  | immediate _ => true
  | signedImmediate _ => true
  | offset _ _ => true
  | _ => false

/-- A step depends only on the part of the bytes that it reads. -/
theorem effect_congr (step : Step) (first second : OperandBytes) (pass : Pass)
    (addressing : step.readsAddressing = true → first.addressing = second.addressing)
    (immediate : step.readsImmediate = true → first.immediate = second.immediate) :
    (step.Fits first pass ↔ step.Fits second pass) ∧
      step.effect first pass = step.effect second pass := by
  cases step <;> simp_all [readsAddressing, readsImmediate, Fits, effect]

/-! ## Sequences of steps -/

/-- Each step fits when those before it have been taken. -/
def FitsAll (fields : OperandBytes) : List Step → Pass → Prop
  | [], _ => True
  | step :: rest, pass => step.Fits fields pass ∧ FitsAll fields rest (step.effect fields pass)

/-- The changes of steps, one after the other. -/
def effectAll (fields : OperandBytes) (steps : List Step) (pass : Pass) : Pass :=
  steps.foldl (effect fields) pass

def Apart (first second : Step) : Prop :=
  ¬(first.readsAddressing = true ∧ second.readsAddressing = true) ∧
    ¬(first.readsImmediate = true ∧ second.readsImmediate = true)

theorem fitsAll_congr (steps : List Step) (first second : OperandBytes) (pass : Pass)
    (addressing : ∀ step ∈ steps, step.readsAddressing = true →
      first.addressing = second.addressing)
    (immediate : ∀ step ∈ steps, step.readsImmediate = true →
      first.immediate = second.immediate) :
    FitsAll first steps pass ↔ FitsAll second steps pass := by
  induction steps generalizing pass with
  | nil => exact Iff.rfl
  | cons step rest inductionHypothesis =>
      obtain ⟨fits, same⟩ := effect_congr step first second pass
        (addressing step List.mem_cons_self) (immediate step List.mem_cons_self)
      have restFits := inductionHypothesis (step.effect second pass)
        (fun other isIn => addressing other (List.mem_cons_of_mem _ isIn))
        (fun other isIn => immediate other (List.mem_cons_of_mem _ isIn))
      rw [FitsAll, FitsAll, fits, same, restFits]

end Step

/-! ## Widths -/

namespace Pass

def widths (pass : Pass) (slot : Slot) : UInt8 :=
  (pass.decoder.slot slot).width

theorem widths_update (pass : Pass) (slot : Slot) (change : Operand → Operand) (width : UInt8)
    (changed : (change (pass.decoder.slot slot)).width = width) :
    (pass.update slot change).widths = fun other =>
      if other = slot then width else pass.widths other := by
  funext other
  unfold widths
  rw [slot_update]
  by_cases same : other = slot
  · rw [if_pos same, if_pos same, same, changed]
  · rw [if_neg same, if_neg same]

theorem widths_registerFilled (pass : Pass) (slot : Slot) (number : UInt8) (load : Bool) :
    (pass.registerFilled slot number load).widths = pass.widths :=
  funext fun other => pass.width_registerFilled slot other number load

theorem widths_memoryFilled (pass : Pass) (slot : Slot) (address : UInt32) (load : Bool) :
    (pass.memoryFilled slot address load).widths = pass.widths := by
  funext other
  cases load <;> simp [widths, memoryFilled, memoryStaged, addressStaged, width_update]

theorem widths_located (pass : Pass) (encoding : Addressing) :
    (pass.located encoding).widths = pass.widths :=
  funext fun other => congrArg Operand.width (pass.slot_located encoding other)

theorem widths_resolved (pass : Pass) (encoding : Addressing) (slot : Slot) (load : Bool)
    (field : Option (Slot × Bool)) :
    (pass.resolved encoding slot load field).widths = pass.widths := by
  have filled : ((pass.skip 1).fieldFilled encoding.modRm field).widths = pass.widths :=
    funext fun other => (pass.skip 1).width_fieldFilled encoding.modRm field other
  unfold resolved
  by_cases memory : encoding.modRm.isMemory = true
  · rw [if_pos memory, widths_memoryFilled, widths_located, filled]
  · rw [if_neg memory, widths_registerFilled, filled]

theorem widths_immediateFilled (pass : Pass) (slot : Slot) (bytes : List UInt8) :
    (pass.immediateFilled slot bytes).widths = pass.widths := by
  funext other
  exact (width_valueStaged _ _ _ _).trans (width_immediateFetched _ _ _ _)

theorem widths_signedImmediateFilled (pass : Pass) (slot : Slot) (bytes : List UInt8) :
    (pass.signedImmediateFilled slot bytes).widths = pass.widths := by
  funext other
  simp [widths, signedImmediateFilled, width_valueStaged, width_update, width_immediateFetched]

theorem widths_fixedRegisterFilled (pass : Pass) (slot : Slot) (number width : UInt8) :
    (pass.fixedRegisterFilled slot number width).widths = fun other =>
      if other = slot then width else pass.widths other := by
  unfold fixedRegisterFilled
  rw [widths_registerFilled, widths_update _ _ _ width rfl]

theorem widths_oneFilled (pass : Pass) (slot : Slot) :
    (pass.oneFilled slot).widths = pass.widths := by
  funext other
  simp [widths, oneFilled, width_valueStaged, width_update]

theorem widths_sourceClipped (pass : Pass) : pass.sourceClipped.widths = pass.widths := by
  unfold sourceClipped
  by_cases narrow : (pass.decoder.slot .dest).width = 2
  · rw [if_pos narrow]
    exact funext fun other => pass.width_update .src other _ fun _ => rfl
  · rw [if_neg narrow]

/-! ## Bytes taken -/

theorem stream_resolved (pass : Pass) (encoding : Addressing) (slot : Slot) (load : Bool)
    (field : Option (Slot × Bool)) :
    (pass.resolved encoding slot load field).stream =
      pass.stream.skip encoding.bytes.length := by
  by_cases memory : encoding.modRm.isMemory = true
  · exact (resolved_memory memory).1
  · have length : encoding.bytes.length = 1 := by
      have mode : encoding.modRm.mode = 3 := by simpa [ModRm.isMemory] using memory
      rw [encoding.length_bytes]
      simp [ModRm.hasSib, memory, displacementLength, mode]
    rw [resolved, if_neg memory, stream_registerFilled, stream_fieldFilled, length]
    rfl

end Pass

namespace Step

/-- The widths of the slots after a step. -/
def resize (widths : Slot → UInt8) : Step → Slot → UInt8
  | cl slot => fun other => if other = slot then 1 else widths other
  | dx slot => fun other => if other = slot then 2 else widths other
  | narrowToByte slot => fun other => if other = slot then 1 else widths other
  | _ => widths

theorem widths_effect (step : Step) (fields : OperandBytes) (pass : Pass) :
    (step.effect fields pass).widths = step.resize pass.widths := by
  cases step with
  | modRm slot load field =>
      rw [effect]
      cases fields.addressing with
      | none => rfl
      | some encoding => exact pass.widths_resolved encoding slot load field
  | requireMemory => rfl
  | immediate slot => exact pass.widths_immediateFilled slot _
  | signedImmediate slot => exact pass.widths_signedImmediateFilled slot _
  | accumulator slot load => exact pass.widths_registerFilled slot _ load
  | opcodeRegister slot load => exact pass.widths_registerFilled slot _ load
  | offset slot load => exact (pass.skip _).widths_memoryFilled slot _ load
  | cl slot => exact pass.widths_fixedRegisterFilled slot _ 1
  | dx slot => exact pass.widths_fixedRegisterFilled slot _ 2
  | one slot => exact pass.widths_oneFilled slot
  | narrowToByte slot => exact pass.widths_update slot _ 1 rfl
  | requireWideDest => rfl
  | clipSource => exact pass.widths_sourceClipped
  | branchTarget => rfl

theorem validWidth_resize (step : Step) {widths : Slot → UInt8}
    (valid : ∀ slot, ValidWidth (widths slot)) (slot : Slot) :
    ValidWidth (step.resize widths slot) := by
  have changed (target : Slot) (width : UInt8) (isValid : ValidWidth width) :
      ValidWidth (if slot = target then width else widths slot) := by
    by_cases same : slot = target
    · rw [if_pos same]
      exact isValid
    · rw [if_neg same]
      exact valid slot
  cases step with
  | cl target => exact changed target 1 (.inl rfl)
  | dx target => exact changed target 2 (.inr (.inl rfl))
  | narrowToByte target => exact changed target 1 (.inl rfl)
  | _ => exact valid slot

theorem sized_effect {step : Step} {fields : OperandBytes} {pass : Pass}
    (sized : pass.decoder.Sized) : (step.effect fields pass).decoder.Sized := by
  intro slot
  have width := congrFun (step.widths_effect fields pass) slot
  unfold Pass.widths at width
  rw [width]
  exact step.validWidth_resize sized slot

/-- The bytes that a step takes. -/
def taken (fields : OperandBytes) : Step → List UInt8
  | modRm _ _ _ => fields.addressing.elim [] Addressing.bytes
  | immediate _ => fields.immediate
  | signedImmediate _ => fields.immediate
  | offset _ _ => fields.immediate
  | _ => []

theorem stream_effect (step : Step) (fields : OperandBytes) (pass : Pass) :
    (step.effect fields pass).stream = pass.stream.skip (step.taken fields).length := by
  cases step with
  | modRm slot load field =>
      rw [effect, taken]
      cases fields.addressing with
      | none => exact pass.stream.skip_zero.symm
      | some encoding => exact pass.stream_resolved encoding slot load field
  | immediate slot => rfl
  | signedImmediate slot => rfl
  | offset slot load => exact (pass.skip _).stream_memoryFilled slot _ load
  | accumulator slot load => simp [effect, taken]
  | opcodeRegister slot load => simp [effect, taken]
  | cl slot => simp [effect, taken, Pass.fixedRegisterFilled]
  | dx slot => simp [effect, taken, Pass.fixedRegisterFilled]
  | requireMemory => exact pass.stream.skip_zero.symm
  | one slot => exact pass.stream.skip_zero.symm
  | narrowToByte slot => exact pass.stream.skip_zero.symm
  | requireWideDest => exact pass.stream.skip_zero.symm
  | clipSource =>
      rw [effect, Pass.sourceClipped]
      split <;> exact pass.stream.skip_zero.symm
  | branchTarget => exact pass.stream.skip_zero.symm

/-! ## When a sequence succeeds -/

/-- There is nothing among the bytes that no step reads. -/
structure ReadBy (steps : List Step) (fields : OperandBytes) : Prop where
  addressing : (∀ step ∈ steps, step.readsAddressing = false) → fields.addressing = none
  immediate : (∀ step ∈ steps, step.readsImmediate = false) → fields.immediate = []

/-- Steps that fit succeed and make their changes in order. -/
theorem runAll_eq {steps : List Step} {fields : OperandBytes} {pass : Pass}
    (sized : pass.decoder.Sized) (fits : FitsAll fields steps pass) :
    runAll steps pass = .ok () (effectAll fields steps pass) := by
  induction steps generalizing pass with
  | nil => rfl
  | cons step rest inductionHypothesis =>
      obtain ⟨stepFits, restFits⟩ := fits
      have stepRan := (run_ok_iff sized).mpr ⟨fields, stepFits, rfl⟩
      exact (bind_of_ok stepRan).trans (inductionHypothesis (sized_effect sized) restFits)

/-- Steps that read different parts of the bytes succeed only on bytes that all of them fit. -/
theorem exists_fields_of_runAll_ok {steps : List Step} {pass after : Pass}
    (sized : pass.decoder.Sized) (apart : steps.Pairwise Apart)
    (ran : runAll steps pass = .ok () after) :
    ∃ fields : OperandBytes, ReadBy steps fields ∧ FitsAll fields steps pass := by
  induction steps generalizing pass with
  | nil => exact ⟨⟨none, []⟩, ⟨fun _ => rfl, fun _ => rfl⟩, trivial⟩
  | cons step rest inductionHypothesis =>
      obtain ⟨stepApart, restApart⟩ := List.pairwise_cons.mp apart
      obtain ⟨⟨⟩, between, stepRan, restRan⟩ := bind_ok_iff.mp ran
      obtain ⟨first, stepFits, rfl⟩ := (run_ok_iff sized).mp stepRan
      obtain ⟨second, restReadBy, restFits⟩ :=
        inductionHypothesis (sized_effect sized) restApart restRan
      -- Each part of the bytes comes from the side that reads it.
      let fields : OperandBytes :=
        ⟨if step.readsAddressing then first.addressing else second.addressing,
          if step.readsImmediate then first.immediate else second.immediate⟩
      obtain ⟨fits, same⟩ := effect_congr step first fields pass
        (fun reads => (if_pos reads).symm) (fun reads => (if_pos reads).symm)
      have fitsAll := fitsAll_congr rest second fields (step.effect first pass)
        (fun other isIn reads =>
          (if_neg fun stepReads => (stepApart other isIn).1 ⟨stepReads, reads⟩).symm)
        (fun other isIn reads =>
          (if_neg fun stepReads => (stepApart other isIn).2 ⟨stepReads, reads⟩).symm)
      refine ⟨fields, ⟨?_, ?_⟩, fits.mp stepFits, same ▸ fitsAll.mp restFits⟩
      · intro unread
        obtain ⟨stepUnread, restUnread⟩ := List.forall_mem_cons.mp unread
        exact (if_neg (by simp [stepUnread])).trans (restReadBy.addressing restUnread)
      · intro unread
        obtain ⟨stepUnread, restUnread⟩ := List.forall_mem_cons.mp unread
        exact (if_neg (by simp [stepUnread])).trans (restReadBy.immediate restUnread)

theorem runAll_ok_iff {steps : List Step} {pass after : Pass} (sized : pass.decoder.Sized)
    (apart : steps.Pairwise Apart) :
    runAll steps pass = .ok () after ↔
      ∃ fields : OperandBytes, ReadBy steps fields ∧ FitsAll fields steps pass ∧
        after = effectAll fields steps pass := by
  constructor
  · intro ran
    obtain ⟨fields, readBy, fits⟩ := exists_fields_of_runAll_ok sized apart ran
    rw [runAll_eq sized fits] at ran
    exact ⟨fields, readBy, fits, (EStateM.Result.ok.inj ran).2.symm⟩
  · intro given
    rcases given with ⟨fields, -, fits, rfl⟩
    exact runAll_eq sized fits

/-- The bytes have the lengths that a step calls for when the slots have the given widths. -/
def Calls (fields : OperandBytes) (widths : Slot → UInt8) : Step → Prop
  | modRm _ _ _ => fields.addressing.isSome = true
  | immediate slot => fields.immediate.length = (widths slot).toNat
  | signedImmediate slot =>
      (widths slot = 1 ∨ widths slot = 4) ∧ fields.immediate.length = (widths slot).toNat
  | offset _ _ => fields.immediate.length = 4
  | requireWideDest => widths .dest = 2 ∨ widths .dest = 4
  | _ => True

/-- Every step of a sequence gets what it calls for. -/
def CallsAll (fields : OperandBytes) : List Step → (Slot → UInt8) → Prop
  | [], _ => True
  | step :: rest, widths => step.Calls fields widths ∧ CallsAll fields rest (step.resize widths)

/-- A step that takes what it looks at fits exactly if what it calls for stands at the cursor. -/
theorem fits_iff {step : Step} (takes : step ≠ requireMemory) (fields : OperandBytes)
    (pass : Pass) :
    step.Fits fields pass ↔
      step.Calls fields pass.widths ∧ pass.stream.Holds (step.taken fields) := by
  cases step with
  | modRm slot load field =>
      rw [Fits, Calls, taken]
      cases fields.addressing <;> simp
  | requireMemory => exact absurd rfl takes
  | signedImmediate slot => exact and_assoc.symm
  | immediate slot => exact Iff.rfl
  | offset slot load => exact Iff.rfl
  | requireWideDest => exact (and_iff_left Stream.holds_nil).symm
  | _ => exact (and_iff_left Stream.holds_nil).symm

/-- A sequence fits exactly if what its steps call for stands at the cursor, in their order. -/
theorem fitsAll_iff {steps : List Step} (takes : requireMemory ∉ steps) (fields : OperandBytes)
    (pass : Pass) :
    FitsAll fields steps pass ↔
      CallsAll fields steps pass.widths ∧ pass.stream.Holds (steps.flatMap (taken fields)) := by
  induction steps generalizing pass with
  | nil => exact ⟨fun _ => ⟨trivial, Stream.holds_nil⟩, fun _ => trivial⟩
  | cons step rest inductionHypothesis =>
      have stepTakes : step ≠ requireMemory := fun same => takes (same ▸ List.mem_cons_self)
      have restTakes : requireMemory ∉ rest := fun isIn => takes (List.mem_cons_of_mem _ isIn)
      rw [FitsAll, CallsAll, fits_iff stepTakes, inductionHypothesis restTakes, widths_effect,
        stream_effect, List.flatMap_cons, Stream.holds_append, and_and_and_comm]

theorem stream_effectAll (steps : List Step) (fields : OperandBytes) (pass : Pass) :
    (effectAll fields steps pass).stream =
      pass.stream.skip (steps.flatMap (taken fields)).length := by
  induction steps generalizing pass with
  | nil => exact pass.stream.skip_zero.symm
  | cons step rest inductionHypothesis =>
      rw [effectAll, List.foldl_cons]
      refine (inductionHypothesis (step.effect fields pass)).trans ?_
      rw [stream_effect, Stream.skip_skip, List.flatMap_cons, List.length_append]

theorem runAll_append (first second : List Step) :
    runAll (first ++ second) = (do
      runAll first
      runAll second) := by
  induction first with
  | nil => rfl
  | cons step rest inductionHypothesis =>
      rw [List.cons_append, runAll, runAll, inductionHypothesis, bind_assoc]

end Step

end I386
