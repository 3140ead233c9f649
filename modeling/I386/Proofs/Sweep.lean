import Mathlib.Data.List.Forall2
import I386.Proofs.Contracts
import I386.Proofs.Remainder
import I386.Proofs.Transfers

/-!
Contract: the linear sweep over an image.

Owns:
- what a step of the sweep takes from what is left of the stream, and what its entry shows of it;
- runs of steps, and the outcome of a sweep as the run that it makes;
- the machine, which a run leaves as it was;
- the limit of a sweep over a whole image, which is never what ends it;
- the listing of a whole image as a run from its start.

Main statement: listing a whole image succeeds exactly if a run reaches its end, and fails exactly
with the fault of the step after a run that does not.

Does not own: how an instruction is decoded, and what the lines of an entry are.
-/

namespace I386

namespace Listing

/-! ## Steps -/

theorem step_ok_iff {pass after : Pass} {entry : ListingEntry} :
    step pass = .ok (entry, after) ↔
      ∃ (instruction : Instruction) (decoded : Pass),
        Pass.decode pass = .ok instruction decoded ∧
          entry = ⟨pass.stream.cursor,
            (decoded.stream.slice pass.stream.cursor instruction.nextAddress).toList,
            instruction, decoded.machine.recorded⟩ ∧
          after = { decoded with machine := decoded.machine.takeTrace.2 } := by
  unfold step
  cases ran : Pass.decode pass with
  | ok instruction decoded =>
      simp only [Except.ok.injEq, Prod.mk.injEq, EStateM.Result.ok.injEq]
      constructor
      · rintro ⟨rfl, rfl⟩
        exact ⟨instruction, decoded, ⟨rfl, rfl⟩, rfl, rfl⟩
      · rintro ⟨_, _, ⟨rfl, rfl⟩, rfl, rfl⟩
        exact ⟨rfl, rfl⟩
  | error fault failed => cases fault <;> simp

theorem step_refused_iff {pass : Pass} {error : ListingError} :
    step pass = .error (.refused error) ↔
      ∃ (cause : DecodeError) (failed : Pass),
        Pass.decode pass = .error (.decode cause) failed ∧
          error = .decoding pass.stream.cursor cause := by
  unfold step
  cases ran : Pass.decode pass with
  | ok instruction decoded => simp
  | error fault failed =>
      cases fault with
      | decode cause => simp [eq_comm]
      | violation violation => simp

/-- A step takes the bytes that its entry shows from the beginning of what is left. -/
structure Takes (pass : Pass) (entry : ListingEntry) (after : Pass) : Prop where
  address : entry.address = pass.stream.cursor
  instruction : entry.instruction.address = pass.stream.cursor
  size : entry.instruction.size.toNat = entry.bytes.length
  positive : 0 < entry.bytes.length
  holds : pass.stream.Holds entry.bytes
  stream : after.stream = pass.stream.skip entry.bytes.length

theorem takes_of_step_ok {pass after : Pass} {entry : ListingEntry}
    (bounded : pass.stream.bytes.size < UInt32.size) (stepped : step pass = .ok (entry, after)) :
    Takes pass entry after := by
  obtain ⟨instruction, decoded, ran, rfl, rfl⟩ := step_ok_iff.mp stepped
  obtain ⟨bytes, positive, -, holds, address, size, length, stream⟩ :=
    Pass.exists_bytes_of_decode_ok ran
  have shown : (decoded.stream.slice pass.stream.cursor instruction.nextAddress).toList =
      bytes := by
    rw [stream, Instruction.nextAddress, address, size]
    exact Stream.slice_of_holds bounded holds
  constructor
  · rfl
  · exact address
  · simpa only [shown] using length
  · simpa only [shown] using positive
  · simpa only [shown] using holds
  · simpa only [shown] using stream

@[simp] theorem takeTrace_recordAll (machine : Machine) (ops : List MicroOp) :
    (machine.recordAll ops).takeTrace.2 = machine.takeTrace.2 := by
  simp [Machine.takeTrace, Machine.recordAll, Function.comp_def]

/-- All that a step changes of a machine is its record, which ends up empty if there is one. -/
theorem keeps_of_step_ok {pass after : Pass} {entry : ListingEntry}
    (stepped : step pass = .ok (entry, after)) :
    after.machine = pass.machine.takeTrace.2 ∧
      after.decoder.defaultSize = pass.decoder.defaultSize := by
  obtain ⟨instruction, decoded, ran, -, rfl⟩ := step_ok_iff.mp stepped
  have defaultSize := pass.defaultSize_decode
  rw [ran] at defaultSize
  refine ⟨?_, defaultSize⟩
  show decoded.machine.takeTrace.2 = _
  rw [Pass.machine_of_decode_ok ran, takeTrace_recordAll]

/-! ## Runs -/

/-- Steps one after the other, from one pass to another, with the entries that they give. No step
is taken at the end of the stream. -/
inductive Run : Pass → List ListingEntry → Pass → Prop where
  | nil (pass : Pass) : Run pass [] pass
  | cons {pass between after : Pass} {entry : ListingEntry} {later : List ListingEntry}
      (more : pass.stream.atEnd = false) (stepped : step pass = .ok (entry, between))
      (rest : Run between later after) : Run pass (entry :: later) after

/-- The bytes that entries show, in order. -/
def shownBytes (run : List ListingEntry) : List UInt8 :=
  run.flatMap ListingEntry.bytes

@[simp] theorem shownBytes_nil : shownBytes [] = [] := rfl

@[simp] theorem shownBytes_cons (entry : ListingEntry) (later : List ListingEntry) :
    shownBytes (entry :: later) = entry.bytes ++ shownBytes later := rfl

@[simp] theorem shownBytes_append (front back : List ListingEntry) :
    shownBytes (front ++ back) = shownBytes front ++ shownBytes back :=
  List.flatMap_append

theorem Run.append_iff {pass after : Pass} {front back : List ListingEntry} :
    Run pass (front ++ back) after ↔
      ∃ between, Run pass front between ∧ Run between back after := by
  constructor
  · intro ran
    induction front generalizing pass with
    | nil => exact ⟨pass, .nil pass, ran⟩
    | cons entry later inductionHypothesis =>
        cases ran with
        | cons more stepped rest =>
            obtain ⟨between, one, other⟩ := inductionHypothesis rest
            exact ⟨between, .cons more stepped one, other⟩
  · rintro ⟨between, one, other⟩
    induction one with
    | nil pass => exact other
    | cons more stepped _ inductionHypothesis =>
        exact .cons more stepped (inductionHypothesis other)

/-- A run takes the bytes that its entries show, at least one each. -/
theorem Run.takes {pass after : Pass} {run : List ListingEntry} (ran : Run pass run after)
    (bounded : pass.stream.bytes.size < UInt32.size) :
    pass.stream.Holds (shownBytes run) ∧
      after.stream = pass.stream.skip (shownBytes run).length ∧
      run.length ≤ (shownBytes run).length := by
  induction ran with
  | nil pass => simp
  | @cons pass between after entry later more stepped rest inductionHypothesis =>
      have taken := takes_of_step_ok bounded stepped
      have stillBounded : between.stream.bytes.size < UInt32.size := by
        rw [taken.stream]
        exact bounded
      obtain ⟨holds, stream, short⟩ := inductionHypothesis stillBounded
      rw [taken.stream] at holds stream
      have positive := taken.positive
      refine ⟨Stream.holds_append.mpr ⟨taken.holds, holds⟩, ?_, ?_⟩
      · rw [stream, Stream.skip_skip, ← List.length_append, shownBytes_cons]
      · simp only [shownBytes_cons, List.length_append, List.length_cons]
        omega

theorem Run.rest {pass after : Pass} {run : List ListingEntry} (ran : Run pass run after)
    (bounded : pass.stream.bytes.size < UInt32.size) :
    pass.stream.rest = shownBytes run ++ after.stream.rest := by
  obtain ⟨holds, stream, -⟩ := ran.takes bounded
  rw [stream]
  exact Stream.rest_of_holds bounded holds

theorem Run.bounded {pass after : Pass} {run : List ListingEntry} (ran : Run pass run after)
    (bounded : pass.stream.bytes.size < UInt32.size) :
    after.stream.bytes.size < UInt32.size := by
  obtain ⟨-, stream, -⟩ := ran.takes bounded
  rw [stream]
  exact bounded

/-- The cursor is moved on by as many places as bytes are shown. -/
theorem Run.distance {pass after : Pass} {run : List ListingEntry} (ran : Run pass run after)
    (bounded : pass.stream.bytes.size < UInt32.size) :
    (after.stream.cursor - pass.stream.cursor).toNat = (shownBytes run).length := by
  obtain ⟨-, stream, -⟩ := ran.takes bounded
  have lengths := congrArg List.length (ran.rest bounded)
  have within := pass.stream.length_rest_le
  rw [List.length_append] at lengths
  rw [stream, Stream.cursor_skip, UInt32.add_comm, UInt32.add_sub_cancel,
    UInt32.toNat_ofNat_of_lt']
  omega

theorem takeTrace_start (config : Config) (image : Array UInt8) :
    (start config image).machine.takeTrace.2 = (start config image).machine := by
  unfold start Machine.setTrace Machine.takeTrace
  cases config.traceMicroOps <;> rfl

/-- From a machine that has nothing in its record, a run leaves the machine as it was. -/
theorem Run.keeps {pass after : Pass} {run : List ListingEntry} (ran : Run pass run after)
    (drained : pass.machine.takeTrace.2 = pass.machine) :
    after.machine = pass.machine ∧ after.decoder.defaultSize = pass.decoder.defaultSize := by
  induction ran with
  | nil pass => exact ⟨rfl, rfl⟩
  | @cons pass between after entry later more stepped rest inductionHypothesis =>
      obtain ⟨machine, defaultSize⟩ := keeps_of_step_ok stepped
      rw [drained] at machine
      rw [machine, defaultSize] at inductionHypothesis
      exact inductionHypothesis drained

/-! ## Sweeps -/

/-- A sweep succeeds with the entries of a run that the limit or the end of the stream ends. -/
theorem sweep_ok_iff {earlier all : Array ListingEntry} {limit : Nat} {pass : Pass} :
    sweep earlier limit pass = .ok all ↔
      ∃ (run : List ListingEntry) (after : Pass), Run pass run after ∧
        all = earlier ++ run.toArray ∧ run.length ≤ limit ∧
          (run.length = limit ∨ after.stream.atEnd = true) := by
  constructor
  · intro swept
    induction limit generalizing earlier pass with
    | zero =>
        cases swept
        exact ⟨[], pass, .nil pass, by simp, by simp, .inl rfl⟩
    | succ limit inductionHypothesis =>
        unfold sweep at swept
        cases atEnd : pass.stream.atEnd with
        | true =>
            rw [atEnd, if_pos rfl] at swept
            cases swept
            exact ⟨[], pass, .nil pass, by simp, by simp, .inr atEnd⟩
        | false =>
            rw [atEnd, if_neg Bool.false_ne_true] at swept
            cases stepped : step pass with
            | error fault =>
                rw [stepped] at swept
                cases swept
            | ok result =>
                rw [stepped] at swept
                obtain ⟨run, after, ran, rfl, short, ended⟩ := inductionHypothesis swept
                exact ⟨result.1 :: run, after, .cons atEnd stepped ran, by simp,
                  by simpa using short, by simpa using ended⟩
  · rintro ⟨run, after, ran, rfl, short, ended⟩
    induction ran generalizing earlier limit with
    | nil pass =>
        cases limit with
        | zero => simp [sweep]
        | succ limit =>
            have atEnd : pass.stream.atEnd = true := by simpa using ended
            simp [sweep, atEnd]
    | @cons pass between after entry later more stepped rest inductionHypothesis =>
        cases limit with
        | zero => simp at short
        | succ limit =>
            unfold sweep
            rw [more, if_neg Bool.false_ne_true, stepped]
            refine (inductionHypothesis (by simpa using short) (by simpa using ended)).trans ?_
            simp

/-- A sweep fails with the fault of the step after a run that stays below the limit. -/
theorem sweep_error_iff {earlier : Array ListingEntry} {limit : Nat} {pass : Pass}
    {fault : ListingFault} :
    sweep earlier limit pass = .error fault ↔
      ∃ (run : List ListingEntry) (after : Pass), Run pass run after ∧ run.length < limit ∧
        after.stream.atEnd = false ∧ step after = .error fault := by
  constructor
  · intro swept
    induction limit generalizing earlier pass with
    | zero => cases swept
    | succ limit inductionHypothesis =>
        unfold sweep at swept
        cases atEnd : pass.stream.atEnd with
        | true =>
            rw [atEnd, if_pos rfl] at swept
            cases swept
        | false =>
            rw [atEnd, if_neg Bool.false_ne_true] at swept
            cases stepped : step pass with
            | error found =>
                rw [stepped] at swept
                cases swept
                exact ⟨[], pass, .nil pass, by simp, atEnd, stepped⟩
            | ok result =>
                rw [stepped] at swept
                obtain ⟨run, after, ran, short, more, failed⟩ := inductionHypothesis swept
                exact ⟨result.1 :: run, after, .cons atEnd stepped ran, by simpa using short, more,
                  failed⟩
  · rintro ⟨run, after, ran, short, more, failed⟩
    induction ran generalizing earlier limit with
    | nil pass =>
        cases limit with
        | zero => simp at short
        | succ limit =>
            unfold sweep
            rw [more, if_neg Bool.false_ne_true, failed]
    | @cons pass between after entry later isMore stepped rest inductionHypothesis =>
        cases limit with
        | zero => simp at short
        | succ limit =>
            unfold sweep
            rw [isMore, if_neg Bool.false_ne_true, stepped]
            exact inductionHypothesis (by simpa using short) more failed

section Whole

variable {earlier all : Array ListingEntry} {limit : Nat} {pass : Pass}
  (bounded : pass.stream.bytes.size < UInt32.size) (enough : pass.stream.rest.length ≤ limit)

include bounded enough

/-- A limit that leaves room for every byte does not end a sweep: it succeeds at the end. -/
theorem sweep_whole_ok_iff :
    sweep earlier limit pass = .ok all ↔
      ∃ (run : List ListingEntry) (after : Pass), Run pass run after ∧
        after.stream.atEnd = true ∧ all = earlier ++ run.toArray := by
  rw [sweep_ok_iff]
  constructor
  · rintro ⟨run, after, ran, rfl, short, ended⟩
    refine ⟨run, after, ran, ?_, rfl⟩
    rcases ended with full | atEnd
    · -- As many entries as bytes leave nothing over.
      obtain ⟨-, -, few⟩ := ran.takes bounded
      have lengths := congrArg List.length (ran.rest bounded)
      rw [List.length_append] at lengths
      rw [Stream.atEnd_iff, ← List.length_eq_zero_iff]
      omega
    · exact atEnd
  · rintro ⟨run, after, ran, atEnd, rfl⟩
    obtain ⟨-, -, few⟩ := ran.takes bounded
    have lengths := congrArg List.length (ran.rest bounded)
    rw [List.length_append] at lengths
    exact ⟨run, after, ran, rfl, by omega, .inr atEnd⟩

/-- Nor does it keep a sweep from failing: it fails where a step does. -/
theorem sweep_whole_error_iff {fault : ListingFault} :
    sweep earlier limit pass = .error fault ↔
      ∃ (run : List ListingEntry) (after : Pass), Run pass run after ∧
        after.stream.atEnd = false ∧ step after = .error fault := by
  rw [sweep_error_iff]
  constructor
  · rintro ⟨run, after, ran, -, more, failed⟩
    exact ⟨run, after, ran, more, failed⟩
  · rintro ⟨run, after, ran, more, failed⟩
    obtain ⟨-, -, few⟩ := ran.takes bounded
    have lengths := congrArg List.length (ran.rest bounded)
    rw [List.length_append] at lengths
    have left : 0 < after.stream.rest.length := by
      rw [List.length_pos_iff]
      intro empty
      rw [(Stream.atEnd_iff _).mpr empty] at more
      cases more
    exact ⟨run, after, ran, by omega, more, failed⟩

/-- Any two limits with room for every byte are the same. -/
theorem sweep_eq_of_enough {other : Nat} (alsoEnough : pass.stream.rest.length ≤ other) :
    sweep earlier limit pass = sweep earlier other pass := by
  cases swept : sweep earlier other pass with
  | ok all =>
      rw [sweep_whole_ok_iff bounded enough]
      exact (sweep_whole_ok_iff bounded alsoEnough).mp swept
  | error fault =>
      rw [sweep_whole_error_iff bounded enough]
      exact (sweep_whole_error_iff bounded alsoEnough).mp swept

end Whole

/-! ## Whole images -/

theorem rest_start (config : Config) (image : Array UInt8) :
    (start config image).stream.rest = image.toList :=
  Stream.rest_mapped image.toList config.loadAddress

theorem lines_of_fits {config : Config} {image : Array UInt8}
    (possible : Memory.isPossible config.memorySize = true)
    (fits : image.size ≤ Memory.roundedSize config.memorySize) (count : Option Nat) :
    lines config image count =
      match sweep #[] (limit image count) (start config image) with
      | .ok all => (render all.toList).mapError .violation
      | .error fault => .error fault := by
  unfold lines entries
  rw [if_neg (not_not_intro possible), if_neg (Nat.not_lt.mpr fits)]
  cases sweep #[] (limit image count) (start config image) <;> rfl

/-- Only an image that fits into memory has a listing, or a fault within it. -/
theorem possible_and_fits (config : Config) (image : Array UInt8) (count : Option Nat)
    (possible : lines config image count ≠ .error (.impossibleMemory config.memorySize))
    (fits : lines config image count ≠ .error (.refused
      (.imageTooLarge image.size (Memory.roundedSize config.memorySize)))) :
    Memory.isPossible config.memorySize = true ∧
      image.size ≤ Memory.roundedSize config.memorySize := by
  unfold lines entries at possible fits
  by_cases isPossible : Memory.isPossible config.memorySize = true
  · rw [if_neg (not_not_intro isPossible)] at fits
    refine ⟨isPossible, Nat.le_of_not_lt fun large => ?_⟩
    rw [if_pos large] at fits
    exact fits rfl
  · rw [if_pos isPossible] at possible
    exact absurd rfl possible

theorem render_mapError_ok_iff {entries : List ListingEntry} {text : List String} :
    (render entries).mapError ListingFault.violation = .ok text ↔ render entries = .ok text := by
  cases render entries <;> simp [Except.mapError]

section Image

variable {config : Config} {image : Array UInt8} (short : image.size < UInt32.size)

include short

theorem lines_ok_iff {text : List String} :
    lines config image none = .ok text ↔
      Memory.isPossible config.memorySize = true ∧
        image.size ≤ Memory.roundedSize config.memorySize ∧
        ∃ (run : List ListingEntry) (after : Pass), Run (start config image) run after ∧
          after.stream.atEnd = true ∧ render run = .ok text := by
  have enough : (start config image).stream.rest.length ≤ limit image none :=
    (start config image).stream.length_rest_le
  constructor
  · intro listed
    obtain ⟨possible, fits⟩ := possible_and_fits config image none (by simp [listed])
      (by simp [listed])
    refine ⟨possible, fits, ?_⟩
    rw [lines_of_fits possible fits] at listed
    cases swept : sweep #[] (limit image none) (start config image) with
    | error fault => simp [swept] at listed
    | ok all =>
        rw [swept] at listed
        obtain ⟨run, after, ran, atEnd, rfl⟩ := (sweep_whole_ok_iff short enough).mp swept
        exact ⟨run, after, ran, atEnd, by simpa using render_mapError_ok_iff.mp listed⟩
  · rintro ⟨possible, fits, run, after, ran, atEnd, rendered⟩
    rw [lines_of_fits possible fits,
      (sweep_whole_ok_iff short enough).mpr ⟨run, after, ran, atEnd, rfl⟩]
    exact render_mapError_ok_iff.mpr (by simpa using rendered)

/-- Where an image fits into memory, it is refused for the step after a run. -/
theorem lines_refused_iff (possible : Memory.isPossible config.memorySize = true)
    (fits : image.size ≤ Memory.roundedSize config.memorySize) {error : ListingError} :
    lines config image none = .error (.refused error) ↔
      ∃ (run : List ListingEntry) (pass : Pass), Run (start config image) run pass ∧
        pass.stream.atEnd = false ∧ step pass = .error (.refused error) := by
  have enough : (start config image).stream.rest.length ≤ limit image none :=
    (start config image).stream.length_rest_le
  have swept : sweep #[] (limit image none) (start config image) = .error (.refused error) ↔ _ :=
    sweep_whole_error_iff short enough
  rw [lines_of_fits possible fits, ← swept]
  cases sweep #[] (limit image none) (start config image) with
  | error fault => simp
  | ok all => cases rendered : render all.toList <;> simp [rendered, Except.mapError]

end Image

end Listing

end I386
