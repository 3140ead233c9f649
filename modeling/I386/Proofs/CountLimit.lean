import I386.Proofs.Concatenation
import I386.Proofs.TracedListing

/-!
Contract: listings of at most so many instructions.

Owns:
- the runs that a limit or the end of the stream ends, and what a smaller limit makes of them;
- the same run over other bytes after those it shows;
- listings with a count, against those with a larger count or none.

Main statement: a count makes a listing of the first so many instructions, which does not depend on
what comes after them. A listing fails exactly if it would have to show the first instruction that
cannot be decoded, whatever the count is.

Does not own: what the lines of an instruction are.
-/

namespace I386

namespace Listing

/-! ## Where a sweep stops -/

/-- A run that a sweep makes: as many steps as the limit allows, or fewer that use the stream up. -/
def Stops (limit : Nat) (pass : Pass) (run : List ListingEntry) : Prop :=
  ∃ after : Pass, Run pass run after ∧ run.length ≤ limit ∧
    (run.length = limit ∨ after.stream.atEnd = true)

section Stops

variable {limit : Nat} {pass : Pass} {run : List ListingEntry}

theorem sweep_ok_iff_stops : sweep #[] limit pass = .ok run.toArray ↔ Stops limit pass run := by
  rw [sweep_ok_iff]
  constructor
  · rintro ⟨found, after, ran, same, ended⟩
    obtain rfl : run = found := by simpa using same
    exact ⟨after, ran, ended⟩
  · rintro ⟨after, ran, ended⟩
    exact ⟨run, after, ran, by simp, ended⟩

/-- A smaller limit cuts the run short. -/
theorem Stops.take {larger : Nat} (stops : Stops larger pass run) (fewer : limit ≤ larger) :
    Stops limit pass (run.take limit) := by
  obtain ⟨after, ran, short, ended⟩ := stops
  by_cases whole : run.length ≤ limit
  · rw [List.take_of_length_le whole]
    refine ⟨after, ran, whole, ?_⟩
    rcases ended with full | atEnd
    · exact .inl (by omega)
    · exact .inr atEnd
  · -- The run goes on beyond the limit, which therefore is what ends its first part.
    rw [← List.take_append_drop limit run] at ran
    obtain ⟨between, front, -⟩ := Run.append_iff.mp ran
    have length : (run.take limit).length = limit := List.length_take_of_le (by omega)
    exact ⟨between, front, by omega, .inl length⟩

end Stops

/-! ## The same run over other bytes -/

section Remapped

variable {pass after : Pass} {other : Stream}
  (bounded : pass.stream.bytes.size < UInt32.size)
  (otherBounded : other.bytes.size < UInt32.size)
  (cursor : other.cursor = pass.stream.cursor)

include bounded otherBounded cursor

/-- A step is the same wherever the bytes that its entry shows are mapped. -/
theorem step_of_same_bytes {entry : ListingEntry} (stepped : step pass = .ok (entry, after))
    (holds : other.Holds entry.bytes) :
    step { pass with stream := other } =
      .ok (entry, { after with stream := other.seek after.stream.cursor }) := by
  have taken := takes_of_step_ok bounded stepped
  obtain ⟨instruction, decoded, ran, isEntry, rfl⟩ := step_ok_iff.mp stepped
  have sameInstruction : entry.instruction = instruction := by rw [isEntry]
  have sameOps : entry.microOps = decoded.machine.recorded := by rw [isEntry]
  rw [← sameInstruction] at ran
  have sameBytes : ∀ index < entry.instruction.size.toNat,
      other.byteAt? (entry.instruction.address + UInt32.ofNat index) =
        pass.stream.byteAt? (entry.instruction.address + UInt32.ofNat index) := by
    intro index below
    rw [taken.size] at below
    rw [taken.instruction, Stream.holdsAt_iff.mp taken.holds index below, ← cursor,
      Stream.holdsAt_iff.mp holds index below]
  have next : entry.instruction.nextAddress = other.cursor + UInt32.ofNat entry.bytes.length := by
    rw [Instruction.nextAddress, taken.instruction, ← taken.size, UInt32.ofNat_toNat, cursor]
  have otherRan := Pass.decode_of_same_bytes ran cursor sameBytes
  have shown := Stream.slice_of_holds otherBounded holds
  refine step_ok_iff.mpr ⟨entry.instruction, _, otherRan, ?_, rfl⟩
  show entry = ⟨other.cursor,
    (other.slice other.cursor entry.instruction.nextAddress).toList, entry.instruction,
    decoded.machine.recorded⟩
  rw [next, shown, cursor, ← taken.address, ← sameOps]

end Remapped

/-- A run is the same wherever the bytes that it shows are mapped. -/
theorem Run.of_same_bytes {pass after : Pass} {run : List ListingEntry} {other : Stream}
    (ran : Run pass run after) (bounded : pass.stream.bytes.size < UInt32.size)
    (otherBounded : other.bytes.size < UInt32.size) (cursor : other.cursor = pass.stream.cursor)
    (holds : other.Holds (shownBytes run)) :
    Run { pass with stream := other } run
      { after with stream := other.seek after.stream.cursor } := by
  induction ran generalizing other with
  | nil pass =>
      rw [← cursor]
      exact .nil _
  | @cons pass between after entry later more stepped rest inductionHypothesis =>
      have taken := takes_of_step_ok bounded stepped
      obtain ⟨here, there⟩ := Stream.holds_append.mp holds
      have nextCursor : (other.skip entry.bytes.length).cursor = between.stream.cursor := by
        rw [taken.stream, Stream.cursor_skip, Stream.cursor_skip, cursor]
      have seek : other.seek between.stream.cursor = other.skip entry.bytes.length := by
        rw [← nextCursor]
        rfl
      have otherMore : other.atEnd = false := by
        rw [Bool.eq_false_iff, ne_eq, Stream.atEnd_iff, Stream.rest_of_holds otherBounded here]
        intro empty
        exact List.ne_nil_of_length_pos taken.positive (List.append_eq_nil_iff.mp empty).1
      have otherStepped := step_of_same_bytes bounded otherBounded cursor stepped here
      rw [seek] at otherStepped
      have stillBounded : between.stream.bytes.size < UInt32.size := by
        rw [taken.stream]
        exact bounded
      exact .cons otherMore otherStepped
        (inductionHypothesis stillBounded otherBounded nextCursor there)

/-! ## Counts -/

section Image

variable {config : Config} {image : Array UInt8} {run : List ListingEntry}
  (possible : Memory.isPossible config.memorySize = true)
  (fits : image.size ≤ Memory.roundedSize config.memorySize)

include possible fits

theorem lines_of_stops {count : Option Nat}
    (stops : Stops (limit image count) (start config image) run) :
    lines config image count = (render run).mapError .violation := by
  rw [lines_of_fits possible fits, sweep_ok_iff_stops.mpr stops]

/-- What a run shows can be written down. -/
theorem exists_lines_of_stops {count : Option Nat}
    (stops : Stops (limit image count) (start config image) run) :
    ∃ text, lines config image count = .ok text ∧ render run = .ok text := by
  have listed := lines_of_stops possible fits stops
  rcases lines_sound possible image count with ⟨text, ok⟩ | ⟨error, refused⟩
  · rw [listed] at ok
    exact ⟨text, listed.trans ok, render_mapError_ok_iff.mp ok⟩
  · rw [listed] at refused
    cases rendered : render run <;> simp [rendered, Except.mapError] at refused

theorem stops_of_lines {count : Option Nat} {text : List String}
    (listed : lines config image count = .ok text) :
    ∃ run, Stops (limit image count) (start config image) run ∧ render run = .ok text := by
  rw [lines_of_fits possible fits] at listed
  cases swept : sweep #[] (limit image count) (start config image) with
  | error fault => simp [swept] at listed
  | ok all =>
      rw [swept] at listed
      exact ⟨all.toList, sweep_ok_iff_stops.mp swept, render_mapError_ok_iff.mp listed⟩

theorem exists_lines_iff_stops {count : Option Nat} :
    (∃ text, lines config image count = .ok text) ↔
      ∃ run, Stops (limit image count) (start config image) run := by
  constructor
  · rintro ⟨text, listed⟩
    obtain ⟨run, stops, -⟩ := stops_of_lines possible fits listed
    exact ⟨run, stops⟩
  · rintro ⟨run, stops⟩
    obtain ⟨text, listed, -⟩ := exists_lines_of_stops possible fits stops
    exact ⟨text, listed⟩

/-- A listing fails where the step after a run fails, if it may take that step. -/
theorem lines_refused_of_run {count : Option Nat} {pass : Pass} {error : ListingError}
    (ran : Run (start config image) run pass) (below : run.length < limit image count)
    (more : pass.stream.atEnd = false) (failed : step pass = .error (.refused error)) :
    lines config image count = .error (.refused error) := by
  rw [lines_of_fits possible fits, sweep_error_iff.mpr ⟨run, pass, ran, below, more, failed⟩]

end Image

section Short

variable {config : Config} {image : Array UInt8} {run : List ListingEntry}
  (short : image.size < UInt32.size)

include short

/-- Every limit with room for the whole image stops at the same place. -/
theorem stops_of_enough {limit other : Nat} (enough : image.size ≤ limit)
    (alsoEnough : image.size ≤ other) (stops : Stops limit (start config image) run) :
    Stops other (start config image) run := by
  have left : (start config image).stream.rest.length = image.size := by
    rw [rest_start, Array.length_toList]
  rw [← sweep_ok_iff_stops] at stops ⊢
  rw [← stops]
  exact sweep_eq_of_enough short (by omega) (by omega)

/-- Of a larger count, or of none, a count leaves the beginning. -/
theorem Stops.take_of_larger {count : Nat} {larger : Option Nat}
    (stops : Stops (limit image larger) (start config image) run)
    (isLarger : ∀ most ∈ larger, count ≤ most) :
    Stops count (start config image) (run.take count) := by
  cases larger with
  | none =>
      -- The count may be more than the image has bytes, and then takes everything.
      have whole : Stops (max count image.size) (start config image) run :=
        stops_of_enough short (Nat.le_refl _) (Nat.le_max_right _ _) stops
      exact whole.take (Nat.le_max_left _ _)
  | some most => exact Stops.take stops (isLarger most rfl)

/-- A run that does not use the image up has fewer steps than the image has bytes. -/
theorem Run.length_lt {pass : Pass} (ran : Run (start config image) run pass)
    (more : pass.stream.atEnd = false) : run.length < image.size := by
  obtain ⟨-, -, few⟩ := ran.takes short
  have left : 0 < pass.stream.rest.length := by
    rw [List.length_pos_iff]
    intro empty
    rw [(Stream.atEnd_iff _).mpr empty] at more
    cases more
  have lengths := congrArg List.length (ran.rest short)
  rw [rest_start, List.length_append, Array.length_toList] at lengths
  omega

theorem Run.length_lt_limit {pass : Pass} {larger : Option Nat}
    (ran : Run (start config image) run pass) (more : pass.stream.atEnd = false)
    (isLarger : ∀ most ∈ larger, run.length < most) : run.length < limit image larger := by
  cases larger with
  | none => exact ran.length_lt short more
  | some most => exact isLarger most rfl

/-- An image that begins with the bytes of a run is listed like it as far as the run goes. -/
theorem exists_run_of_prefix {other : Array UInt8} {after : Pass}
    (otherShort : other.size < UInt32.size) (begins : shownBytes run <+: other.toList)
    (ran : Run (start config image) run after) :
    ∃ shown next, Run (start config other) shown next ∧
      shown.map ListingEntry.lines = run.map ListingEntry.lines := by
  obtain ⟨later, whole⟩ := begins
  -- First the rest of the image is left out, then that of the other one is added.
  let alone : Stream := .mapped (shownBytes run).toArray config.loadAddress
  have few : (shownBytes run).length < UInt32.size := by
    have lengths := congrArg List.length whole
    rw [List.length_append, Array.length_toList] at lengths
    exact Nat.lt_of_le_of_lt (Nat.le_of_add_right_le (Nat.le_of_eq lengths)) otherShort
  have aloneRan : Run { start config image with stream := alone } run
      { after with stream := alone.seek after.stream.cursor } :=
    ran.of_same_bytes short few rfl (Stream.holds_mapped few config.loadAddress)
  have continues : Continues later { start config image with stream := alone }
      (start config other) :=
    { bounded := few
      otherBounded := otherShort
      cursor := rfl
      rest := by rw [rest_start, ← whole]; exact congrArg (· ++ later) (Stream.rest_mapped _ _).symm
      registers := rfl
      trace := rfl
      defaultSize := rfl }
  obtain ⟨shown, next, otherRan, same, -⟩ := continues.run aloneRan
  exact ⟨shown, next, otherRan, same⟩

end Short

/-- What comes after the instructions that a count asks for does not matter. -/
theorem lines_eq_of_prefix {config : Config} {image other : Array UInt8} {count : Nat}
    {run : List ListingEntry} {after : Pass} (short : image.size < UInt32.size)
    (otherShort : other.size < UInt32.size)
    (possible : Memory.isPossible config.memorySize = true)
    (fits : image.size ≤ Memory.roundedSize config.memorySize)
    (otherFits : other.size ≤ Memory.roundedSize config.memorySize)
    (ran : Run (start config image) run after) (full : run.length = count)
    (begins : shownBytes run <+: other.toList) :
    lines config other (some count) = lines config image (some count) := by
  obtain ⟨shown, next, otherRan, same⟩ := exists_run_of_prefix short otherShort begins ran
  have sameLength : shown.length = run.length := by
    simpa using congrArg List.length same
  have stops : Stops (limit image (some count)) (start config image) run :=
    ⟨after, ran, Nat.le_of_eq full, .inl full⟩
  have otherStops : Stops (limit other (some count)) (start config other) shown :=
    ⟨next, otherRan, Nat.le_of_eq (sameLength.trans full), .inl (sameLength.trans full)⟩
  rw [lines_of_stops possible fits stops, lines_of_stops possible otherFits otherStops, render_eq,
    render_eq, same]

/-- The lines of the first entries are the first blocks of lines. -/
theorem render_take {entries : List ListingEntry} {blocks : List (List String)} (count : Nat)
    (each : List.Forall₂ (fun entry block => entry.lines = .ok block) entries blocks) :
    render (entries.take count) = .ok (blocks.take count).flatten := by
  rw [render, mapM_ok_of_forall₂ (List.forall₂_take count each)]
  rfl

/-- Listing at most `count` instructions succeeds exactly if as many can be decoded, or fewer that
use the image up. Other bytes after the first `count` instructions do not change the listing. It
consists of the first `count` blocks of any listing with a larger count or without one, where a
block is the line of an instruction and below it the lines of its transfers. If the instruction
after a run is the first that cannot be decoded, all counts up to the length of the run succeed, and
all larger counts, and none, fail with the error of that instruction. -/
theorem lines_limited {config : Config} {image : Array UInt8} (short : image.size < UInt32.size)
    (possible : Memory.isPossible config.memorySize = true)
    (fits : image.size ≤ Memory.roundedSize config.memorySize) :
    (∀ count : Nat,
      ((∃ text, lines config image (some count) = .ok text) ↔
        ∃ run, Stops count (start config image) run) ∧
      (∀ (run : List ListingEntry) (after : Pass), Run (start config image) run after →
        run.length = count →
          ∀ other : Array UInt8, other.size < UInt32.size →
            other.size ≤ Memory.roundedSize config.memorySize → shownBytes run <+: other.toList →
              lines config other (some count) = lines config image (some count)) ∧
      ∀ larger : Option Nat, (∀ most ∈ larger, count ≤ most) →
        ∀ text, lines config image larger = .ok text →
          ∃ (run : List ListingEntry) (blocks : List (List String)),
            Stops (limit image larger) (start config image) run ∧
              List.Forall₂ ListingEntry.Annotated run blocks ∧ text = blocks.flatten ∧
              lines config image (some count) = .ok (blocks.take count).flatten) ∧
    ∀ (run : List ListingEntry) (pass failed : Pass) (cause : DecodeError),
      Run (start config image) run pass → pass.stream.atEnd = false →
        Pass.decode pass = .error (.decode cause) failed →
          (∀ count ≤ run.length, ∃ text, lines config image (some count) = .ok text) ∧
          ∀ larger : Option Nat, (∀ most ∈ larger, run.length < most) →
            lines config image larger =
              .error (.refused (.decoding pass.stream.cursor cause)) := by
  refine ⟨fun count => ⟨exists_lines_iff_stops possible fits, ?_, ?_⟩, ?_⟩
  · intro run after ran full other otherShort otherFits begins
    exact lines_eq_of_prefix short otherShort possible fits otherFits ran full begins
  · intro larger isLarger text listed
    obtain ⟨run, stops, rendered⟩ := stops_of_lines possible fits listed
    obtain ⟨blocks, each, whole⟩ := blocks_of_render rendered
    refine ⟨run, blocks, stops, each.imp fun _ _ => ListingEntry.annotated_of_lines, whole, ?_⟩
    have fewer : Stops (limit image (some count)) (start config image) (run.take count) :=
      stops.take_of_larger short isLarger
    rw [lines_of_stops possible fits fewer, render_take count each]
    rfl
  · intro run pass failed cause ran more refused
    have stepped : step pass = .error (.refused (.decoding pass.stream.cursor cause)) :=
      step_refused_iff.mpr ⟨cause, failed, refused, rfl⟩
    constructor
    · intro count atMost
      have whole : Stops run.length (start config image) run :=
        ⟨pass, ran, Nat.le_refl _, .inl rfl⟩
      exact (exists_lines_iff_stops possible fits).mpr ⟨_, whole.take atMost⟩
    · intro larger isLarger
      exact lines_refused_of_run possible fits ran (ran.length_lt_limit short more isLarger) more
        stepped

/-- `add eax, ebx` and `nop`, and then an opcode that is cut off. -/
theorem lines_limited_add :
    let config := traced .default true
    let image := #[0x01, 0xD8, 0x90, 0x0F]
    let error := ListingFault.refused (.decoding 0x1003 (.readOutOfBounds 0x1004))
    image.size < UInt32.size ∧ Memory.isPossible config.memorySize = true ∧
      image.size ≤ Memory.roundedSize config.memorySize ∧
      (∃ blocks : List (List String),
        blocks.flatten = ["00001000  01 D8                    add eax, ebx", "          lr ebx",
          "          lr eax", "00001002  90                       nop"] ∧
        lines config image (some 1) = .ok (blocks.take 1).flatten) ∧
      ∃ reached : Nat,
        (∀ count ≤ reached, ∃ text, lines config image (some count) = .ok text) ∧
        ∀ larger : Option Nat, (∀ most ∈ larger, reached < most) →
          lines config image larger = .error error := by
  intro config image error
  have short : image.size < UInt32.size := by decide
  have possible : Memory.isPossible config.memorySize = true := by decide
  have fits : image.size ≤ Memory.roundedSize config.memorySize := by decide
  have two : lines config image (some 2) =
      .ok ["00001000  01 D8                    add eax, ebx", "          lr ebx",
        "          lr eax", "00001002  90                       nop"] := by
    decide +kernel
  have whole : lines config image none = .error error := by decide +kernel
  obtain ⟨counted, refused⟩ := lines_limited short possible fits
  obtain ⟨-, blocks, -, -, flat, one⟩ := (counted 1).2.2 (some 2) (by simp) _ two
  obtain ⟨run, pass, ran, more, failing⟩ := (lines_refused_iff short possible fits).mp whole
  obtain ⟨cause, failed, decodes, same⟩ := step_refused_iff.mp failing
  obtain ⟨succeeds, fails⟩ := refused run pass failed cause ran more decodes
  rw [← same] at fails
  exact ⟨short, possible, fits, ⟨blocks, flat.symm, one⟩, run.length, succeeds, fails⟩

end Listing

end I386
