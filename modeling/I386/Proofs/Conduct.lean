import I386.Proofs.Locality

/-!
Contract: what all computations that decode operands have in common.

Owns:
- the look at a ModR/M byte, which changes nothing;
- contexts of one instruction, of which only the address cell changes until a branch is resolved;
- what a computation does from a pass whose slots have valid widths: the transfers that it records,
  the errors that it may end with, and what it does not depend on;
- the steps of an operand pattern at the widths that permit them, and the steps of every operation
  that the opcode maps select.

Main statements:
- at any widths, steps leave the context of the instruction alone but for its address cell, unless
  they resolve a branch;
- at widths that permit them, steps fail only for an error in the stream, make loads only, and
  depend neither on the transfers recorded before nor on the default operand size.

Does not own: which bytes the computations consume.
-/

namespace I386

/-- An error at a byte of the operands, which does not name the address of the instruction. -/
def DecodeError.AtByte : DecodeError → Prop
  | readOutOfBounds _ => True
  | invalidModRm _ _ => True
  | unsupportedOpcode _ _ => False
  | instructionTooLong _ => False

/-- A later context of the same instruction: only the address cell has changed, unless a branch
has been resolved. -/
structure Context.Follows (branches : Prop) (before after : Context) : Prop where
  opcode : after.opcode = before.opcode
  nextAddress : after.nextAddress = before.nextAddress
  operandSize : after.operandSize = before.operandSize
  scratch : ∃ address, after.scratch = { before.scratch with address }
  branch : (after.isBranch = before.isBranch ∧ after.branchTarget = before.branchTarget) ∨
    (branches ∧ after.isBranch = true)

theorem Context.Follows.refl (branches : Prop) (context : Context) :
    context.Follows branches context :=
  ⟨rfl, rfl, rfl, ⟨_, rfl⟩, .inl ⟨rfl, rfl⟩⟩

theorem Context.Follows.trans {branches : Prop} {first second third : Context}
    (one : first.Follows branches second) (two : second.Follows branches third) :
    first.Follows branches third := by
  obtain ⟨front, frontScratch⟩ := one.scratch
  obtain ⟨back, backScratch⟩ := two.scratch
  refine ⟨two.opcode.trans one.opcode, two.nextAddress.trans one.nextAddress,
    two.operandSize.trans one.operandSize, ⟨back, ?_⟩, ?_⟩
  · rw [backScratch, frontScratch]
  · rcases two.branch with ⟨backFlag, backTarget⟩ | resolved
    · rcases one.branch with ⟨frontFlag, frontTarget⟩ | ⟨isBranch, frontFlag⟩
      · exact .inl ⟨backFlag.trans frontFlag, backTarget.trans frontTarget⟩
      · exact .inr ⟨isBranch, backFlag.trans frontFlag⟩
    · exact .inr resolved

theorem Context.Follows.mono {branches other : Prop} {before after : Context}
    (follows : before.Follows branches after) (weaker : branches → other) :
    before.Follows other after :=
  { follows with branch := follows.branch.imp_right (And.imp_left weaker) }

namespace Pass

/-! ## The look at a ModR/M byte -/

theorem requireMemory_of_unmapped {pass : Pass}
    (unmapped : pass.stream.byteAt? pass.stream.cursor = none) :
    requireMemory pass = .error (.decode (.readOutOfBounds pass.stream.cursor)) pass :=
  bind_of_error (peekByte_of_unmapped pass unmapped)

theorem requireMemory_of_mapped {pass : Pass} {byte : UInt8}
    (mapped : pass.stream.byteAt? pass.stream.cursor = some byte) :
    requireMemory pass =
      if (ModRm.mk byte).isMemory then .ok () pass
      else .error (.decode (.invalidModRm byte pass.stream.cursor)) pass := by
  have peeked : peekByte pass = .ok byte pass := peekByte_ok_iff.mpr ⟨mapped, rfl⟩
  unfold requireMemory
  rw [bind_of_ok peeked]
  cases (ModRm.mk byte).isMemory <;> rfl

theorem left_requireMemory (pass : Pass) : left (requireMemory pass) = pass := by
  cases mapped : pass.stream.byteAt? pass.stream.cursor with
  | none =>
      rw [requireMemory_of_unmapped mapped]
      rfl
  | some byte =>
      rw [requireMemory_of_mapped mapped]
      split <;> rfl

/-! ## Contexts -/

theorem context_update (pass : Pass) (slot : Slot) (change : Operand → Operand) :
    (pass.update slot change).decoder.context = pass.decoder.context := by
  cases slot <;> rfl

/-- Whether a composed computation succeeds or not, the context follows the one before. -/
theorem Paired.follows {α : Type} {rules : Rules} {certain : Prop} {first second : PassM α}
    (paired : Paired rules certain first second) (lenient : ¬rules.valid) (pass : Pass) :
    pass.decoder.context.Follows rules.branches (left (first pass)).decoder.context := by
  induction paired generalizing pass with
  | pure same => exact .refl _ _
  | violate _ violation => exact .refl _ _
  | fetchByte =>
      cases mapped : pass.stream.byteAt? pass.stream.cursor with
      | none =>
          rw [fetchByte_of_unmapped pass mapped]
          exact .refl _ _
      | some byte =>
          rw [fetchByte_ok_iff.mpr ⟨mapped, rfl⟩]
          exact .refl _ _
  | load alike known =>
      rw [transfer_of_isLoad alike.isLoad]
      cases MicroOp.held _ pass.machine.registers pass.machine.memory <;> exact .refl _ _
  | setAddressCell value other => exact ⟨rfl, rfl, rfl, ⟨value, rfl⟩, .inl ⟨rfl, rfl⟩⟩
  | currentOpcode => exact .refl _ _
  | @modifyOperand _ free slot change other alike keeps =>
      have kept := pass.context_update slot change
      rw [modifyOperand_eq, left, kept]
      exact .refl _ _
  | requireMemory looks =>
      rw [left_requireMemory]
      exact .refl _ _
  | resolveBranch free isBranch => exact ⟨rfl, rfl, rfl, ⟨_, rfl⟩, .inr ⟨isBranch, rfl⟩⟩
  | withOperand free slot rest nextFollows =>
      exact nextFollows (pass.decoder.slot slot) _ (.refl _ _) (absurd · lenient) pass
  | @bind _ _ _ _ first _ next _ one rest firstFollows nextFollows =>
      have early := firstFollows pass
      cases ran : first pass with
      | ok value between =>
          rw [ran] at early
          rw [bind_of_ok ran]
          exact early.trans (nextFollows value value (fun _ => rfl) between)
      | error fault failed =>
          rw [ran] at early
          rw [bind_of_error ran]
          exact early

/-! ## Conduct -/

/-- The pass with another record of transfers and another default operand size. -/
def reframed (pass : Pass) (trace : Option (Array MicroOp)) (size : OperandSize) : Pass :=
  { pass with
    machine := { pass.machine with trace }
    decoder := { pass.decoder with defaultSize := size } }

/-- An outcome with a change made to the pass that it leaves. -/
def mapPass {α : Type} (change : Pass → Pass) :
    EStateM.Result Fault Pass α → EStateM.Result Fault Pass α
  | .ok value after => .ok value (change after)
  | .error fault failed => .error fault (change failed)

/-- What a computation does from a pass, recording the given transfers on the way. -/
structure Conduct {α : Type} (action : PassM α) (pass : Pass) (ops : List MicroOp) : Prop where
  loads : ∀ op ∈ ops, op.Loads
  recorded : (left (action pass)).machine = pass.machine.recordAll ops
  sized : (left (action pass)).decoder.Sized
  /-- No contract is broken. -/
  obeys : ∀ fault failed, action pass = .error fault failed →
    ∃ error : DecodeError, fault = .decode error ∧ error.AtByte
  /-- Neither the transfers recorded before nor the default operand size count. -/
  frame : ∀ trace size, action (pass.reframed trace size) =
    mapPass (·.reframed (trace.map (· ++ ops.toArray)) size) (action pass)

section Conduct

variable {α : Type}

/-- A success in every frame. -/
theorem conduct_of_ok {action : PassM α} {pass : Pass} (value : α) (after : Pass)
    (ops : List MicroOp)
    (ran : ∀ trace size, action (pass.reframed trace size) =
      .ok value (after.reframed (trace.map (· ++ ops.toArray)) size))
    (same : after.decoder.defaultSize = pass.decoder.defaultSize)
    (recorded : after.machine = pass.machine.recordAll ops) (loads : ∀ op ∈ ops, op.Loads)
    (sized : after.decoder.Sized) : Conduct action pass ops := by
  have own : action pass = .ok value after := by
    have still : after.reframed (pass.machine.trace.map (· ++ ops.toArray))
        pass.decoder.defaultSize = after := by
      rw [← same]
      unfold reframed
      congr
      rw [recorded]
      rfl
    exact (ran pass.machine.trace pass.decoder.defaultSize).trans (congrArg _ still)
  refine ⟨loads, ?_, ?_, ?_, ?_⟩
  · rw [own]
    exact recorded
  · rw [own]
    exact sized
  · rw [own]
    rintro _ _ ⟨⟩
  · intro trace size
    rw [own]
    exact ran trace size

/-- An error in the stream, in every frame, that leaves the pass as it is. -/
theorem conduct_of_refused {action : PassM α} {pass : Pass} {error : DecodeError}
    (atByte : error.AtByte)
    (refused : ∀ trace size, action (pass.reframed trace size) =
      .error (.decode error) (pass.reframed trace size))
    (sized : pass.decoder.Sized) : Conduct action pass [] := by
  have own : action pass = .error (.decode error) pass :=
    refused pass.machine.trace pass.decoder.defaultSize
  refine ⟨by simp, ?_, ?_, ?_, ?_⟩
  · rw [own]
    exact pass.machine.recordAll_nil.symm
  · rw [own]
    exact sized
  · rw [own]
    rintro _ _ ⟨⟩
    exact ⟨error, rfl, atByte⟩
  · intro trace size
    rw [own, refused]
    simp [mapPass]

/-- A success in every frame that records nothing. -/
theorem conduct_of_silent {action : PassM α} {pass : Pass} (value : α) (after : Pass)
    (ran : ∀ trace size, action (pass.reframed trace size) = .ok value (after.reframed trace size))
    (same : after.decoder.defaultSize = pass.decoder.defaultSize)
    (kept : after.machine = pass.machine) (sized : after.decoder.Sized) :
    Conduct action pass [] := by
  have recorded : after.machine = pass.machine.recordAll [] :=
    kept.trans pass.machine.recordAll_nil.symm
  refine conduct_of_ok value after [] ?_ same recorded (by simp) sized
  intro trace size
  rw [ran]
  simp

/-- What a computation does goes for one that agrees with it in every frame. -/
theorem Conduct.congr {first second : PassM α} {pass : Pass} {ops : List MicroOp}
    (conduct : Conduct second pass ops)
    (same : ∀ trace size, first (pass.reframed trace size) = second (pass.reframed trace size)) :
    Conduct first pass ops := by
  have own : first pass = second pass := same pass.machine.trace pass.decoder.defaultSize
  obtain ⟨loads, recorded, sized, obeys, frame⟩ := conduct
  rw [← own] at recorded sized
  refine ⟨loads, recorded, sized, ?_, ?_⟩
  · rw [own]
    exact obeys
  · intro trace size
    rw [same, own]
    exact frame trace size

/-- A load of a valid width succeeds, whatever was recorded before it. -/
theorem exists_value_of_loads {op : MicroOp} (loads : op.Loads) (pass : Pass) :
    ∃ value, ∀ trace size, transfer op (pass.reframed trace size) =
      .ok value ((pass.reframed trace size).recordAll [op]) := by
  obtain ⟨value, held⟩ :=
    MicroOp.exists_held_of_loads loads pass.machine.registers pass.machine.memory
  refine ⟨value, fun trace size => ?_⟩
  have still : op.held (pass.reframed trace size).machine.registers
      (pass.reframed trace size).machine.memory = .ok value := held
  rw [transfer_of_isLoad loads.isLoad, still]
  rfl

theorem sized_update {pass : Pass} {slot : Slot} {change : Operand → Operand}
    (sized : pass.decoder.Sized)
    (keeps : ∀ operand, ValidWidth operand.width → ValidWidth (change operand).width) :
    (pass.update slot change).decoder.Sized := by
  intro other
  rw [slot_update]
  by_cases same : other = slot
  · rw [if_pos same]
    exact keeps _ (sized other)
  · rw [if_neg same]
    exact sized other

theorem defaultSize_update (pass : Pass) (slot : Slot) (change : Operand → Operand) :
    (pass.update slot change).decoder.defaultSize = pass.decoder.defaultSize := by
  cases slot <;> rfl

theorem update_reframed (pass : Pass) (slot : Slot) (change : Operand → Operand)
    (trace : Option (Array MicroOp)) (size : OperandSize) :
    (pass.reframed trace size).update slot change =
      (pass.update slot change).reframed trace size := by
  cases slot <;> rfl

theorem Conduct.bind {β : Type} {first : PassM α} {next : α → PassM β} {pass : Pass}
    {ops : List MicroOp} (one : Conduct first pass ops)
    (two : ∀ value between, first pass = .ok value between →
      ∃ more, Conduct (next value) between more) :
    ∃ all, Conduct (first >>= next) pass all := by
  obtain ⟨loads, recorded, sized, obeys, frame⟩ := one
  cases ran : first pass with
  | error fault failed =>
      rw [ran] at recorded sized
      refine ⟨ops, loads, ?_, ?_, ?_, ?_⟩
      · rw [bind_of_error ran]
        exact recorded
      · rw [bind_of_error ran]
        exact sized
      · rw [bind_of_error ran]
        rintro _ _ ⟨⟩
        exact obeys fault failed ran
      · intro trace size
        have framed := frame trace size
        rw [ran] at framed
        rw [bind_of_error ran, bind_of_error framed]
        rfl
  | ok value between =>
      obtain ⟨more, second⟩ := two value between ran
      rw [ran] at recorded
      refine ⟨ops ++ more, ?_, ?_, ?_, ?_, ?_⟩
      · intro op isIn
        exact (List.mem_append.mp isIn).elim (loads op) (second.loads op)
      · rw [bind_of_ok ran, second.recorded, ← Machine.recordAll_recordAll]
        exact congrArg (Machine.recordAll · more) recorded
      · rw [bind_of_ok ran]
        exact second.sized
      · rw [bind_of_ok ran]
        exact second.obeys
      · intro trace size
        have framed := frame trace size
        rw [ran] at framed
        rw [bind_of_ok ran, bind_of_ok framed, second.frame]
        simp [Function.comp_def]

/-- The default operand size stays. -/
theorem Conduct.defaultSize {action : PassM α} {pass : Pass} {ops : List MicroOp}
    (conduct : Conduct action pass ops) :
    (left (action pass)).decoder.defaultSize = pass.decoder.defaultSize := by
  have own : action pass = mapPass (·.reframed _ pass.decoder.defaultSize) (action pass) :=
    conduct.frame pass.machine.trace pass.decoder.defaultSize
  cases ran : action pass with
  | ok value after =>
      rw [ran] at own
      exact congrArg (·.decoder.defaultSize) (EStateM.Result.ok.inj own).2
  | error fault failed =>
      rw [ran] at own
      exact congrArg (·.decoder.defaultSize) (EStateM.Result.error.inj own).2

theorem exists_conduct_fetchByte {pass : Pass} (sized : pass.decoder.Sized) :
    ∃ ops, Conduct fetchByte pass ops := by
  cases mapped : pass.stream.byteAt? pass.stream.cursor with
  | none =>
      have atByte : (DecodeError.readOutOfBounds pass.stream.cursor).AtByte := trivial
      exact ⟨[], conduct_of_refused atByte
        (fun trace size => fetchByte_of_unmapped (pass.reframed trace size) mapped) sized⟩
  | some byte =>
      exact ⟨[], conduct_of_silent byte (pass.skip 1)
        (fun _ _ => fetchByte_ok_iff.mpr ⟨mapped, rfl⟩) rfl rfl sized⟩

theorem exists_conduct_requireMemory {pass : Pass} (sized : pass.decoder.Sized) :
    ∃ ops, Conduct requireMemory pass ops := by
  cases mapped : pass.stream.byteAt? pass.stream.cursor with
  | none =>
      have atByte : (DecodeError.readOutOfBounds pass.stream.cursor).AtByte := trivial
      have missing (trace : Option (Array MicroOp)) (size : OperandSize) :
          (pass.reframed trace size).stream.byteAt? (pass.reframed trace size).stream.cursor =
            none := mapped
      exact ⟨[], conduct_of_refused atByte
        (fun trace size => requireMemory_of_unmapped (missing trace size)) sized⟩
  | some byte =>
      have looks (trace : Option (Array MicroOp)) (size : OperandSize) :=
        (requireMemory_of_mapped mapped : requireMemory (pass.reframed trace size) = _)
      cases memory : (ModRm.mk byte).isMemory with
      | true =>
          simp only [memory, if_true] at looks
          exact ⟨[], conduct_of_silent () pass looks rfl rfl sized⟩
      | false =>
          have atByte : (DecodeError.invalidModRm byte pass.stream.cursor).AtByte := trivial
          simp only [memory, Bool.false_eq_true, if_false] at looks
          exact ⟨[], conduct_of_refused atByte looks sized⟩

/-- From a pass whose slots have valid widths, a composed computation makes loads only. -/
theorem Paired.exists_conduct {rules : Rules} {certain : Prop} {first second : PassM α}
    (paired : Paired rules certain first second) (valid : rules.valid) {pass : Pass}
    (sized : pass.decoder.Sized) : ∃ ops, Conduct first pass ops := by
  induction paired generalizing pass with
  | @pure _ _ value =>
      exact ⟨[], conduct_of_silent value pass (fun _ _ => rfl) rfl rfl sized⟩
  | violate lenient violation => exact absurd valid lenient
  | fetchByte => exact exists_conduct_fetchByte sized
  | @load _ op _ alike known =>
      obtain ⟨value, ran⟩ := exists_value_of_loads (alike.sized valid) pass
      exact ⟨[op], conduct_of_ok value (pass.recordAll [op]) [op] ran rfl rfl
        (List.forall_mem_singleton.mpr (alike.sized valid)) sized⟩
  | setAddressCell value other =>
      let cell (context : Context) : Context :=
        { context with scratch := { context.scratch with address := value } }
      let after : Pass :=
        { pass with decoder := { pass.decoder with context := cell pass.decoder.context } }
      have ran (trace : Option (Array MicroOp)) (size : OperandSize) :
          I386.Pass.setAddressCell value (pass.reframed trace size) =
            .ok () (after.reframed trace size) := rfl
      exact ⟨[], conduct_of_silent () after ran rfl rfl sized⟩
  | currentOpcode =>
      exact ⟨[], conduct_of_silent pass.decoder.context.opcode pass (fun _ _ => rfl) rfl rfl
        sized⟩
  | @modifyOperand _ free slot change other alike keeps =>
      have ran (trace : Option (Array MicroOp)) (size : OperandSize) :
          I386.Pass.modifyOperand slot change (pass.reframed trace size) =
            .ok () ((pass.update slot change).reframed trace size) := by
        rw [modifyOperand_eq, update_reframed]
      exact ⟨[], conduct_of_silent () (pass.update slot change) ran
        (pass.defaultSize_update slot change) rfl (sized_update sized (keeps valid))⟩
  | requireMemory looks => exact exists_conduct_requireMemory sized
  | resolveBranch free isBranch =>
      have ran (trace : Option (Array MicroOp)) (size : OperandSize) :
          I386.Pass.resolveBranch (pass.reframed trace size) =
            .ok () (pass.branchResolved.reframed trace size) := rfl
      exact ⟨[], conduct_of_silent () pass.branchResolved ran rfl rfl sized⟩
  | @withOperand _ _ free slot next other rest inductionHypothesis =>
      obtain ⟨ops, conduct⟩ := inductionHypothesis (pass.decoder.slot slot) _ (.refl _ _)
        (fun _ => sized slot) sized
      refine ⟨ops, conduct.congr fun trace size => ?_⟩
      have slots : (pass.reframed trace size).decoder.slot slot = pass.decoder.slot slot := by
        cases slot <;> rfl
      exact slots ▸ bind_of_ok (operand_ok_iff.mpr ⟨rfl, rfl⟩)
  | bind one rest firstConduct nextConduct =>
      obtain ⟨ops, conduct⟩ := firstConduct sized
      refine conduct.bind ?_
      intro value between ran
      have left := conduct.sized
      rw [ran] at left
      exact nextConduct value value (fun _ => rfl) left

end Conduct

end Pass

/-! ## Steps -/

namespace Step

/-- Steps leave the context alone but for its address cell, also where they fail, unless one of them
resolves a branch. -/
theorem follows_runAll (steps : List Step) (pass : Pass) :
    pass.decoder.context.Follows (branchTarget ∈ steps)
      (Pass.left (runAll steps pass)).decoder.context := by
  let rules : Rules := { Rules.lenient with branches := branchTarget ∈ steps }
  have obey : ∀ step ∈ steps, step.Obeys rules := fun step isIn =>
    ⟨fun _ => trivial, fun _ => trivial, fun same => (same ▸ isIn : branchTarget ∈ steps),
      fun _ => id⟩
  have composed : Pass.Composed rules (runAll steps) := composed_runAll trivial obey
  exact composed.follows id pass

/-- The widths of the slots are ones at which a step can be taken. -/
def Permits (widths : Slot → UInt8) : Step → Prop
  | signedImmediate slot => widths slot = 1 ∨ widths slot = 4
  | requireWideDest => widths .dest = 2 ∨ widths .dest = 4
  | _ => True

/-- Each step can be taken at the widths that those before it leave. -/
def PermitsAll : List Step → (Slot → UInt8) → Prop
  | [], _ => True
  | step :: rest, widths => step.Permits widths ∧ PermitsAll rest (step.resize widths)

/-- At the right width, filling a slot with a signed immediate breaks no contract. -/
theorem exists_composed_signedImmediate (slot : Slot) {width : UInt8}
    (signed : width = 1 ∨ width = 4) :
    ∃ action : PassM Unit, Pass.Composed .sized action ∧
      ∀ pass : Pass, pass.widths slot = width →
        Pass.fillSignedImmediate slot pass = action pass := by
  have valid : ValidWidth width := signed.elim .inl fun four => .inr (.inr four)
  have extend (value : UInt32) : Pass.extended value width = pure (signExtension value width) := by
    unfold Pass.extended
    rw [signExtend_eq valid]
  refine ⟨do
    let immediate ← Pass.fetchImmediate slot
    let extended := signExtension immediate width
    Pass.modifyOperand slot fun operand => { operand with signedImmediate := extended.toInt32 }
    Pass.stageImmediate slot extended, ?_, ?_⟩
  · exact (Pass.composed_fetchImmediate trivial slot).bind fun immediate =>
      Pass.composed_stageSigned trivial slot _
  · intro pass same
    have first : Pass.operand slot pass = .ok (pass.decoder.slot slot) pass := rfl
    have isWidth : (pass.decoder.slot slot).width = width := same
    unfold Pass.fillSignedImmediate
    rw [bind_of_ok first, isWidth]
    simp only [if_pos signed, extend, pure_bind]

/-- At widths that permit it, a step breaks no contract. -/
theorem exists_composed_run (step : Step) {widths : Slot → UInt8}
    (permits : step.Permits widths) :
    ∃ action : PassM Unit, Pass.Composed .sized action ∧
      ∀ pass : Pass, pass.widths = widths → step.run pass = action pass := by
  by_cases demands : step.demandsWidth = true
  · cases step with
    | signedImmediate slot =>
        obtain ⟨action, composed, same⟩ := exists_composed_signedImmediate slot permits
        exact ⟨action, composed, fun pass widths => same pass (congrFun widths slot)⟩
    | requireWideDest =>
        refine ⟨pure (), Pass.Paired.pure fun _ => rfl, ?_⟩
        rintro pass rfl
        exact Pass.requireWideDest_ok_iff.mpr ⟨permits, rfl⟩
    | _ => cases demands
  · have obeys : step.Obeys .sized :=
      ⟨fun _ => trivial, fun _ => trivial, fun _ => trivial, (absurd · demands)⟩
    exact ⟨step.run, composed_run trivial obeys, fun _ _ => rfl⟩

/-- Steps that their widths permit together break no contract. -/
theorem exists_composed_runAll (steps : List Step) {widths : Slot → UInt8}
    (valid : ∀ slot, ValidWidth (widths slot)) (permits : PermitsAll steps widths) :
    ∃ action : PassM Unit, Pass.Composed .sized action ∧
      ∀ pass : Pass, pass.widths = widths → runAll steps pass = action pass := by
  induction steps generalizing widths with
  | nil => exact ⟨pure (), Pass.Paired.pure fun _ => rfl, fun _ _ => rfl⟩
  | cons step rest inductionHypothesis =>
      obtain ⟨stepPermits, restPermits⟩ := permits
      obtain ⟨first, firstComposed, firstSame⟩ := step.exists_composed_run stepPermits
      obtain ⟨next, nextComposed, nextSame⟩ :=
        inductionHypothesis (step.validWidth_resize valid) restPermits
      refine ⟨first >>= fun _ => next, firstComposed.bind fun _ => nextComposed, ?_⟩
      intro pass same
      have ran : step.run pass = first pass := firstSame pass same
      cases outcome : first pass with
      | ok value between =>
          have stepRan := ran.trans outcome
          have sized : pass.decoder.Sized := by
            intro slot
            have width : (pass.decoder.slot slot).width = widths slot := congrFun same slot
            rw [width]
            exact valid slot
          obtain ⟨fields, -, rfl⟩ := (run_ok_iff sized).mp stepRan
          have resized : (step.effect fields pass).widths = step.resize widths :=
            (step.widths_effect fields pass).trans (same ▸ rfl)
          rw [bind_of_ok outcome, ← nextSame _ resized]
          exact bind_of_ok stepRan
      | error fault failed =>
          rw [bind_of_error outcome]
          exact bind_of_error (ran.trans outcome)

end Step

namespace Selection

/-- The steps of every operation in the opcode maps can be taken at its widths. -/
theorem permitsAll_steps {selection : Selection} (regular : selection.Regular)
    (size : OperandSize) : Step.PermitsAll selection.steps (selection.widths size) := by
  have signed := fun isSigned => signedWidth regular isSigned size
  have wide := fun isExtended => wideWidth regular isExtended size
  obtain ⟨mnemonic, ⟨shape, width, sourceWidth⟩, added⟩ := selection
  rcases regular.extra with plain | ⟨isAdded, isRm⟩
  · obtain rfl : added = .implied := plain
    cases shape <;>
      simp_all [steps, Shape.steps, signExtendedByteSteps, Step.PermitsAll, Step.Permits,
        Step.resize, widths]
  · obtain rfl : added = .groupImm := isAdded
    obtain rfl : shape = .rm := isRm
    simp [steps, Shape.steps, Step.PermitsAll, Step.Permits]

/-- Only a relative branch resolves a branch target. -/
theorem shape_of_branchTarget_mem {selection : Selection} (regular : selection.Regular)
    (isIn : Step.branchTarget ∈ selection.steps) : selection.form.shape = .branch := by
  have ofShape : ∀ shape : Shape, Step.branchTarget ∈ shape.steps → shape = .branch := by
    intro shape
    cases shape <;> decide
  rcases List.mem_append.mp isIn with inForm | inExtra
  · exact ofShape _ inForm
  · have extra := ofShape _ inExtra
    rcases regular.extra with plain | ⟨added, -⟩
    · rw [plain] at extra
      cases extra
    · rw [added] at extra
      cases extra

/-- The steps of a selected operation break no contract once it has begun. -/
theorem exists_composed_steps {selection : Selection} (regular : selection.Regular)
    (size : OperandSize) :
    ∃ action : PassM Unit, Pass.Composed .sized action ∧
      ∀ (pass : Pass) (opcode : UInt8),
        Step.runAll selection.steps (pass.begun opcode selection.form size) =
          action (pass.begun opcode selection.form size) := by
  obtain ⟨action, composed, same⟩ := Step.exists_composed_runAll selection.steps
    (selection.validWidth_widths size) (permitsAll_steps regular size)
  exact ⟨action, composed, fun pass opcode => same _ (pass.widths_begun opcode selection size)⟩

/-- Only a relative branch changes more of the context than its address cell. -/
theorem follows_steps {selection : Selection} (regular : selection.Regular) (pass : Pass) :
    pass.decoder.context.Follows (selection.form.shape = .branch)
      (Pass.left (Step.runAll selection.steps pass)).decoder.context :=
  (Step.follows_runAll selection.steps pass).mono (shape_of_branchTarget_mem regular)

end Selection

end I386
