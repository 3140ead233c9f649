import I386.Proofs.Independence
import I386.Proofs.Sweep

/-!
Contract: images one after the other.

Owns:
- passes from which the same is listed, as far as the first of them goes;
- the lines of entries that tell the same but for what memory holds;
- listing an image that continues another.

Main statement: where an image has a listing, an image that it is the beginning of has that listing
and then the one of the rest, or no listing if the rest has none.

Does not own: images that end within an instruction.
-/

namespace I386

namespace Pass

section Encoded

variable {pass other : Pass} {encoding : Encoding} {selection : Selection}
  (encodes : encoding.Encodes pass.decoder.defaultSize selection)
  (holds : pass.stream.Holds encoding.bytes) (otherHolds : other.stream.Holds encoding.bytes)
  (defaultSize : other.decoder.defaultSize = pass.decoder.defaultSize)
  (registers : other.machine.registers = pass.machine.registers)

include encodes holds otherHolds defaultSize registers

theorem transfers_eq_of_registers : other.transfers = pass.transfers := by
  rw [transfers_of_encodes encodes holds,
    transfers_of_encodes (defaultSize ▸ encodes) otherHolds, defaultSize, registers]

/-- The same encoding at the same address has the same text, whatever is in memory. -/
theorem text_instruction (cursor : other.stream.cursor = pass.stream.cursor) :
    (other.instruction encoding selection).text =
      (pass.instruction encoding selection).text := by
  have regular := encodes.regular
  have otherEncodes : encoding.Encodes other.decoder.defaultSize selection := defaultSize ▸ encodes
  have texts (slot : Slot) : ((other.instruction encoding selection).operand slot).text =
      ((pass.instruction encoding selection).operand slot).text := by
    rw [pass.operand_instruction encoding regular, other.operand_instruction encoding regular,
      registers, defaultSize]
    exact (Role.filled_memory ..).text
  have outlines (slot : Slot) :
      ((other.instruction encoding selection).operand slot).outline =
        ((pass.instruction encoding selection).operand slot).outline := by
    rw [pass.operand_instruction encoding regular, other.operand_instruction encoding regular,
      defaultSize]
    exact Role.outline_filled ..
  have target : (other.instruction encoding selection).branchTarget =
      (pass.instruction encoding selection).branchTarget := by
    rw [branchTarget_instruction encodes holds, branchTarget_instruction otherEncodes otherHolds]
    simp only [Instruction.nextAddress, instruction, instructionAt, cursor]
  have operandSize : (other.instruction encoding selection).operandSize =
      (pass.instruction encoding selection).operandSize :=
    congrArg encoding.operandSize defaultSize
  exact Instruction.text_congr
    (Instruction.outline_congr cursor rfl rfl rfl rfl operandSize target outlines) texts

end Encoded

/-- Where the same is left of the streams, decoding fails with the same fault, whatever else
differs. -/
theorem decode_error_of_same_rest {pass other failed : Pass} {fault : Fault}
    (bounded : pass.stream.bytes.size < UInt32.size)
    (otherBounded : other.stream.bytes.size < UInt32.size)
    (cursor : other.stream.cursor = pass.stream.cursor)
    (rest : other.stream.rest = pass.stream.rest)
    (defaultSize : other.decoder.defaultSize = pass.decoder.defaultSize)
    (ran : decode pass = .error fault failed) :
    ∃ stopped, decode other = .error fault stopped := by
  obtain ⟨onStream, first⟩ := decode_error_of_rest bounded otherBounded cursor rest ran
  have outlines := outlined_onMachine { pass with stream := other.stream } other.machine
  rw [first] at outlines
  -- The streams were exchanged first, then the machines; the decoders are left.
  cases second : decode (onMachine { pass with stream := other.stream } other.machine) with
  | ok instruction after => simp [second, outlined] at outlines
  | error found stopped =>
      rw [second] at outlines
      cases congrArg Prod.fst outlines
      have third := decode_error_of_defaultSize second defaultSize
      exact third

end Pass

/-! ## Entries -/

/-- The lines of an entry show nothing else of its instruction than the text. -/
theorem ListingEntry.lines_congr {entry other : ListingEntry}
    (address : other.address = entry.address) (bytes : other.bytes = entry.bytes)
    (text : other.instruction.text = entry.instruction.text)
    (microOps : other.microOps = entry.microOps) : other.lines = entry.lines := by
  unfold lines line
  rw [address, bytes, text, microOps]

namespace Listing

theorem render_eq (entries : List ListingEntry) :
    render entries = (entries.map ListingEntry.lines).mapM id >>= (pure ·.flatten) := by
  simp only [render, List.mapM_map, Function.id_comp]

/-- The lines of entries are those of some and then those of the others. -/
theorem render_append {front back : List ListingEntry} {early late : List String}
    (one : render front = .ok early) (other : render back = .ok late) :
    render (front ++ back) = .ok (early ++ late) := by
  unfold render at *
  rw [List.mapM_append]
  cases first : front.mapM ListingEntry.lines with
  | error violation => simp [first, bind, Except.bind] at one
  | ok blocks =>
      cases second : back.mapM ListingEntry.lines with
      | error violation => simp [second, bind, Except.bind] at other
      | ok others =>
          rw [first] at one
          rw [second] at other
          cases one
          cases other
          exact congrArg Except.ok List.flatten_append

/-! ## Passes that list the same -/

/-- A step takes the bytes of an encoding and shows the transfers of its operands. -/
theorem step_of_encodes {pass : Pass} {encoding : Encoding} {selection : Selection}
    (bounded : pass.stream.bytes.size < UInt32.size)
    (encodes : encoding.Encodes pass.decoder.defaultSize selection)
    (holds : pass.stream.Holds encoding.bytes) :
    step pass = .ok
      (⟨pass.stream.cursor, encoding.bytes, pass.instruction encoding selection,
          (pass.machine.recordAll pass.transfers).recorded⟩,
        ⟨pass.stream.skip encoding.bytes.length, pass.machine.takeTrace.2,
          (pass.staged encoding selection).finished.decoder⟩) := by
  have ran := Pass.decode_of_encodes encodes holds
  obtain ⟨-, remains, -⟩ := Pass.encodes_iff.mp ⟨encodes, holds⟩
  have stream : (pass.staged encoding selection).finished.stream = _ := Pass.stream_staged remains
  have machine : (pass.staged encoding selection).finished.machine =
      pass.machine.recordAll pass.transfers := Pass.machine_of_decode_ok ran
  have bytes := Stream.slice_of_holds bounded holds
  refine step_ok_iff.mpr ⟨_, _, ran, ?_, ?_⟩
  · rw [stream, machine]
    exact congrArg (ListingEntry.mk _ · _ _) bytes.symm
  · rw [stream, machine, takeTrace_recordAll]

/-- Of two passes, the second lists what the first does, and then goes on with what is mapped
after that. -/
structure Continues (later : List UInt8) (pass other : Pass) : Prop where
  bounded : pass.stream.bytes.size < UInt32.size
  otherBounded : other.stream.bytes.size < UInt32.size
  cursor : other.stream.cursor = pass.stream.cursor
  rest : other.stream.rest = pass.stream.rest ++ later
  registers : other.machine.registers = pass.machine.registers
  trace : other.machine.trace = pass.machine.trace
  defaultSize : other.decoder.defaultSize = pass.decoder.defaultSize

section Continues

variable {later : List UInt8} {pass other : Pass}

theorem Continues.atEnd_eq_false (continues : Continues later pass other)
    (more : pass.stream.atEnd = false) : other.stream.atEnd = false := by
  rw [Bool.eq_false_iff, ne_eq, Stream.atEnd_iff] at more ⊢
  rw [continues.rest]
  exact fun empty => more (List.append_eq_nil_iff.mp empty).1

theorem Continues.step {entry : ListingEntry} {after : Pass}
    (continues : Continues later pass other) (stepped : step pass = .ok (entry, after)) :
    ∃ shown next, Listing.step other = .ok (shown, next) ∧ shown.lines = entry.lines ∧
      Continues later after next := by
  obtain ⟨instruction, decoded, ran, -⟩ := step_ok_iff.mp stepped
  obtain ⟨encoding, selection, ⟨encodes, holds⟩, -⟩ := Pass.decode_ok_iff.mp ran
  have otherEncodes : encoding.Encodes other.decoder.defaultSize selection :=
    continues.defaultSize ▸ encodes
  have isPrefix := (Stream.holds_iff_prefix_rest continues.bounded).mp holds
  have otherHolds : other.stream.Holds encoding.bytes := by
    rw [Stream.holds_iff_prefix_rest continues.otherBounded, continues.rest]
    exact isPrefix.trans (List.prefix_append _ _)
  have own := step_of_encodes continues.bounded encodes holds
  have others := step_of_encodes continues.otherBounded otherEncodes otherHolds
  cases own.symm.trans stepped
  obtain ⟨machine, defaultSize⟩ := keeps_of_step_ok own
  obtain ⟨otherMachine, otherDefaultSize⟩ := keeps_of_step_ok others
  have transfers := Pass.transfers_eq_of_registers encodes holds otherHolds
    continues.defaultSize continues.registers
  refine ⟨_, _, others, ?_, ?_⟩
  · apply ListingEntry.lines_congr
    · exact continues.cursor
    · rfl
    · exact Pass.text_instruction encodes holds otherHolds continues.defaultSize
        continues.registers continues.cursor
    · simp only [Machine.recorded, Machine.recordAll, transfers, continues.trace]
  · constructor
    · exact continues.bounded
    · exact continues.otherBounded
    · exact congrArg (· + UInt32.ofNat encoding.bytes.length) continues.cursor
    · have whole := continues.rest
      rw [Stream.rest_of_holds continues.otherBounded otherHolds,
        Stream.rest_of_holds continues.bounded holds, List.append_assoc,
        List.append_cancel_left_eq] at whole
      exact whole
    · exact continues.registers
    · exact congrArg (Option.map fun _ => #[]) continues.trace
    · exact otherDefaultSize.trans (continues.defaultSize.trans defaultSize.symm)

/-- Where nothing follows, the second pass fails as the first does. -/
theorem Continues.step_error {fault : ListingFault} (continues : Continues [] pass other)
    (failed : Listing.step pass = .error fault) : Listing.step other = .error fault := by
  unfold Listing.step at failed ⊢
  cases ran : Pass.decode pass with
  | ok instruction after => simp [ran] at failed
  | error found stopped =>
      obtain ⟨_, others⟩ := Pass.decode_error_of_same_rest continues.bounded continues.otherBounded
        continues.cursor (by simpa using continues.rest) continues.defaultSize ran
      rw [ran] at failed
      rw [others, continues.cursor]
      cases found <;> exact failed

theorem Continues.run {run : List ListingEntry} {after : Pass}
    (continues : Continues later pass other) (ran : Run pass run after) :
    ∃ shown next, Run other shown next ∧
      shown.map ListingEntry.lines = run.map ListingEntry.lines ∧ Continues later after next := by
  induction ran generalizing other with
  | nil pass => exact ⟨[], other, .nil other, rfl, continues⟩
  | cons more stepped _ inductionHypothesis =>
      obtain ⟨entry, between, otherStepped, same, goesOn⟩ := continues.step stepped
      obtain ⟨shown, next, otherRan, others, ends⟩ := inductionHypothesis goesOn
      refine ⟨entry :: shown, next, ?_, by simp [same, others], ends⟩
      exact .cons (continues.atEnd_eq_false more) otherStepped otherRan

end Continues

/-! ## One image after the other -/

/-- An image that begins with another is listed as that one is, as far as that one goes. -/
theorem continues_start {config : Config} {front back : Array UInt8}
    (short : front.size + back.size < UInt32.size) :
    Continues back.toList (start config front) (start config (front ++ back)) where
  bounded := Nat.lt_of_le_of_lt (Nat.le_add_right _ _) short
  otherBounded := by
    show (front ++ back).size < UInt32.size
    simpa using short
  cursor := rfl
  rest := by simp [rest_start]
  registers := rfl
  trace := rfl
  defaultSize := rfl

/-- The settings for an image that stands after another. -/
def configAfter (config : Config) (front : Array UInt8) : Config :=
  { config with loadAddress := config.loadAddress + UInt32.ofNat front.size }

/-- Once the first image is used up, the second is listed as if it stood there alone. -/
theorem continues_after {config : Config} {front back : Array UInt8}
    (short : front.size + back.size < UInt32.size) {run shown : List ListingEntry}
    {last next : Pass} (frontRan : Run (start config front) run last)
    (atEnd : last.stream.atEnd = true) (bothRan : Run (start config (front ++ back)) shown next)
    (continues : Continues back.toList last next) :
    Continues [] (start (configAfter config front) back) next := by
  have frontShort : (start config front).stream.bytes.size < UInt32.size :=
    Nat.lt_of_le_of_lt (Nat.le_add_right _ _) short
  -- The first image leaves the machine as it was, but for what memory was loaded with.
  obtain ⟨machine, defaultSize⟩ := bothRan.keeps (takeTrace_start config (front ++ back))
  obtain ⟨-, stream, -⟩ := frontRan.takes frontShort
  have used := (Stream.atEnd_iff _).mp atEnd
  have whole := frontRan.rest frontShort
  rw [rest_start, used, List.append_nil] at whole
  constructor
  · exact Nat.lt_of_le_of_lt (Nat.le_add_left _ _) short
  · exact continues.otherBounded
  · rw [continues.cursor, stream, ← whole, Array.length_toList]
    rfl
  · rw [continues.rest, used, rest_start, List.append_nil, List.nil_append]
  · rw [machine]
    rfl
  · rw [machine]
    rfl
  · exact defaultSize

/-- Where an image has a listing, a longer image that begins with it has that listing followed by
the listing of the rest, or is refused as the rest is. -/
theorem lines_append {config : Config} {front back : Array UInt8} {listed : List String}
    (short : front.size + back.size < UInt32.size)
    (fits : front.size + back.size ≤ Memory.roundedSize config.memorySize)
    (ran : lines config front none = .ok listed) :
    lines config (front ++ back) none =
      (lines { config with loadAddress := config.loadAddress + UInt32.ofNat front.size } back
        none).map (listed ++ ·) := by
  have frontShort : front.size < UInt32.size := by omega
  have backShort : back.size < UInt32.size := by omega
  have bothShort : (front ++ back).size < UInt32.size := by simpa using short
  have bothFit : (front ++ back).size ≤ Memory.roundedSize config.memorySize := by simpa using fits
  have backFits : back.size ≤ Memory.roundedSize (configAfter config front).memorySize := by
    show back.size ≤ Memory.roundedSize config.memorySize
    omega
  obtain ⟨possible, -, run, last, frontRan, atEnd, rendered⟩ := (lines_ok_iff frontShort).mp ran
  have backPossible : Memory.isPossible (configAfter config front).memorySize = true := possible
  obtain ⟨shown, next, bothRan, same, continues⟩ := (continues_start short).run frontRan
  have goesOn := continues_after short frontRan atEnd bothRan continues
  show lines config (front ++ back) none =
    (lines (configAfter config front) back none).map (listed ++ ·)
  rcases lines_sound backPossible back none with ⟨text, backListed⟩ | ⟨error, refused⟩
  · obtain ⟨-, -, laterRun, ended, backRan, backEnd, laterRendered⟩ :=
      (lines_ok_iff backShort).mp backListed
    obtain ⟨laterShown, reached, laterRan, laterSame, ends⟩ := goesOn.run backRan
    rw [backListed]
    refine (lines_ok_iff bothShort).mpr ⟨possible, bothFit, shown ++ laterShown, reached,
      Run.append_iff.mpr ⟨next, bothRan, laterRan⟩, ?_, ?_⟩
    · rw [Stream.atEnd_iff, ends.rest, (Stream.atEnd_iff _).mp backEnd]
      rfl
    · apply render_append
      · rw [render_eq, same, ← render_eq, rendered]
      · rw [render_eq, laterSame, ← render_eq, laterRendered]
  · obtain ⟨laterRun, failing, backRan, more, failed⟩ :=
      (lines_refused_iff backShort backPossible backFits).mp refused
    obtain ⟨laterShown, reached, laterRan, -, ends⟩ := goesOn.run backRan
    rw [refused]
    exact (lines_refused_iff bothShort possible bothFit).mpr ⟨shown ++ laterShown, reached,
      Run.append_iff.mpr ⟨next, bothRan, laterRan⟩, ends.atEnd_eq_false more,
      ends.step_error failed⟩

/-- `imul ax, word ptr [ebx + 4], -2` across the end of the address space, with its transfers, and
after it `inc eax` or an instruction that is cut off. -/
theorem lines_append_traced :
    let config := { Config.default with traceMicroOps := true, loadAddress := 0xFFFFFFFE }
    let front : Array UInt8 := #[0x66, 0x6B, 0x43, 0x04, 0xFE]
    let listed := ["FFFFFFFE  66 6B 43 04 FE           imul ax, word ptr [4h], FFFEh",
      "          lr ebx", "          li 4h", "          lm word [4h]", "          li FFFFFFFEh"]
    front.size + 3 < UInt32.size ∧ front.size + 3 ≤ Memory.roundedSize config.memorySize ∧
      lines config front none = .ok listed ∧
      lines config (front ++ #[0x40]) none =
        .ok (listed ++ ["00000003  40                       inc eax", "          lr eax"]) ∧
      lines config (front ++ #[0x8B, 0x80, 0x01]) none =
        .error (.refused (.decoding 0x0003 (.readOutOfBounds 0x0006))) := by
  intro config front listed
  have short : front.size + 3 < UInt32.size := by decide
  have fits : front.size + 3 ≤ Memory.roundedSize config.memorySize := by decide
  have ran : lines config front none = .ok listed := by decide +kernel
  have increment : lines { config with loadAddress := config.loadAddress + UInt32.ofNat front.size }
      #[0x40] none =
        .ok ["00000003  40                       inc eax", "          lr eax"] := by
    decide +kernel
  have cut : lines { config with loadAddress := config.loadAddress + UInt32.ofNat front.size }
      #[0x8B, 0x80, 0x01] none =
        .error (.refused (.decoding 0x0003 (.readOutOfBounds 0x0006))) := by
    decide +kernel
  refine ⟨short, fits, ran, ?_, ?_⟩
  · rw [lines_append (by decide) (by decide) ran, increment]
    rfl
  · rw [lines_append short fits ran, cut]
    rfl

end Listing

end I386
