import I386.Proofs.Digits
import I386.Proofs.Sweep

/-!
Contract: what the listing of a whole image shows.

Owns:
- the progress of a sweep, step by step;
- entries that stand one after the other and show every byte of an image once;
- the lines of an entry, with the digits of its address and of its bytes.

Main statement: the lines of a listing tile the image, each instruction beginning where the one
before it ends, past the end of the address space too, and a listing that is refused names the
first instruction that cannot be decoded.

Does not own: the texts of instructions and transfers.
-/

namespace I386

/-! ## Lines -/

/-- Where every item has a result, the results stand in the order of the items. -/
theorem forall₂_of_mapM_ok {α β : Type} {action : α → Except Violation β} {items : List α}
    {results : List β} (ran : items.mapM action = .ok results) :
    List.Forall₂ (fun item result => action item = .ok result) items results := by
  induction items generalizing results with
  | nil =>
      cases ran
      exact .nil
  | cons item rest inductionHypothesis =>
      rw [List.mapM_cons] at ran
      cases one : action item with
      | error violation => simp [one, bind, Except.bind] at ran
      | ok result =>
          cases others : rest.mapM action with
          | error violation => simp [one, others, bind, Except.bind] at ran
          | ok found =>
              rw [one, others] at ran
              cases ran
              exact .cons one (inductionHypothesis others)

/-- Where every item has a result, all have them together. -/
theorem mapM_ok_of_forall₂ {α β : Type} {action : α → Except Violation β} {items : List α}
    {results : List β}
    (each : List.Forall₂ (fun item result => action item = .ok result) items results) :
    items.mapM action = .ok results := by
  induction each with
  | nil => rfl
  | cons one _ inductionHypothesis =>
      rw [List.mapM_cons, one, inductionHypothesis]
      rfl

namespace ListingEntry

/-- The digits of bytes, two for each, with spaces between them. -/
def byteColumn (bytes : List UInt8) : String :=
  " ".intercalate (bytes.map fun byte => String.ofList (Text.digitsOf 2 byte.toNat))

/-- Lines that show an entry: the eight digits of its address, its bytes in a column of 24
characters and its text, then the text of every transfer, indented. -/
def Shown (entry : ListingEntry) (block : List String) : Prop :=
  ∃ (text : String) (details : List String), entry.instruction.text = .ok text ∧
    block = (String.ofList (Text.digitsOf 8 entry.address.toNat) ++ "  " ++
      filled 24 (byteColumn entry.bytes) ++ " " ++ text) :: details ∧
    List.Forall₂ (fun op line => ∃ text, op.text = .ok text ∧ line = "          " ++ text)
      entry.microOps details

theorem bytesText_eq (bytes : List UInt8) : bytesText bytes = byteColumn bytes := by
  simp only [bytesText, byteColumn, Text.hexPadded_byte]

theorem shown_of_lines {entry : ListingEntry} {block : List String}
    (ran : entry.lines = .ok block) : entry.Shown block := by
  unfold lines line at ran
  rw [bytesText_eq, Text.hexPadded_word] at ran
  cases written : entry.instruction.text with
  | error violation => simp [written, bind, Except.bind] at ran
  | ok text =>
      cases details : entry.microOps.mapM microOpLine with
      | error violation => simp [written, details, bind, Except.bind, pure, Except.pure] at ran
      | ok found =>
          rw [written, details] at ran
          cases ran
          refine ⟨text, found, written, rfl, (forall₂_of_mapM_ok details).imp ?_⟩
          intro op line shown
          unfold microOpLine at shown
          cases spelled : op.text with
          | error violation => simp [spelled, bind, Except.bind] at shown
          | ok name =>
              rw [spelled] at shown
              cases shown
              exact ⟨name, rfl, rfl⟩

end ListingEntry

theorem ListingError.message_decoding (address : UInt32) (error : DecodeError) :
    (ListingError.decoding address error).message =
      "Decoding instruction at " ++ String.ofList (Text.digitsOf 8 address.toNat) ++ ": " ++
        error.message := by
  rw [← Text.hexPadded_word]
  rfl

namespace Listing

/-- The lines of entries are blocks, one for each entry. -/
theorem blocks_of_render {entries : List ListingEntry} {text : List String}
    (rendered : render entries = .ok text) :
    ∃ blocks, List.Forall₂ (fun entry block => entry.lines = .ok block) entries blocks ∧
      text = blocks.flatten := by
  unfold render at rendered
  cases each : entries.mapM ListingEntry.lines with
  | error violation => simp [each, bind, Except.bind] at rendered
  | ok blocks =>
      rw [each] at rendered
      cases rendered
      exact ⟨blocks, forall₂_of_mapM_ok each, rfl⟩

theorem shown_of_render {entries : List ListingEntry} {text : List String}
    (rendered : render entries = .ok text) :
    ∃ blocks, List.Forall₂ ListingEntry.Shown entries blocks ∧ text = blocks.flatten := by
  obtain ⟨blocks, each, whole⟩ := blocks_of_render rendered
  exact ⟨blocks, each.imp fun _ _ => ListingEntry.shown_of_lines, whole⟩

/-! ## Tiles -/

/-- Entries that show an image mapped at an address: the first begins there, each begins where the
one before it ends, each shows the bytes that its instruction takes up, and together they show
every byte once. -/
structure Tiles (address : UInt32) (image : List UInt8) (entries : List ListingEntry) : Prop where
  first : ∀ entry ∈ entries.head?, entry.address = address
  next : ∀ (earlier later : List ListingEntry) (entry other : ListingEntry),
    entries = earlier ++ entry :: other :: later →
      other.address = entry.address + entry.instruction.size
  own : ∀ entry ∈ entries, entry.instruction.address = entry.address ∧
    entry.bytes =
      (image.drop (entry.address - address).toNat).take entry.instruction.size.toNat ∧
    entry.bytes.length = entry.instruction.size.toNat ∧ 0 < entry.bytes.length
  whole : entries.flatMap ListingEntry.bytes = image

section Run

variable {pass after : Pass} {run : List ListingEntry}
  (bounded : pass.stream.bytes.size < UInt32.size)

include bounded

/-- An entry of a run shows what one of its steps took. -/
theorem Run.exists_step (earlier : List ListingEntry) {later : List ListingEntry}
    {entry : ListingEntry} (ran : Run pass (earlier ++ entry :: later) after) :
    ∃ before next, Run pass earlier before ∧ Takes before entry next ∧
      next.stream.bytes.size < UInt32.size ∧ Run next later after := by
  obtain ⟨before, one, other⟩ := Run.append_iff.mp ran
  have stillBounded := one.bounded bounded
  cases other with
  | @cons _ next _ _ _ more stepped rest =>
      have taken := takes_of_step_ok stillBounded stepped
      refine ⟨before, next, one, taken, ?_, rest⟩
      rw [taken.stream]
      exact stillBounded

theorem Run.tiles (ran : Run pass run after) :
    Tiles pass.stream.cursor (shownBytes run) run where
  first := by
    intro entry isFirst
    obtain ⟨later, rfl⟩ := List.head?_eq_some_iff.mp isFirst
    obtain ⟨before, next, one, taken, -⟩ := Run.exists_step bounded [] ran
    cases one
    exact taken.address
  next := by
    rintro earlier later entry other rfl
    obtain ⟨before, next, -, taken, stillBounded, rest⟩ := Run.exists_step bounded earlier ran
    obtain ⟨same, _, one, following, -⟩ := Run.exists_step stillBounded [] rest
    cases one
    have size : UInt32.ofNat entry.bytes.length = entry.instruction.size := by
      rw [← taken.size, UInt32.ofNat_toNat]
    rw [following.address, taken.stream, taken.address, ← size]
    rfl
  own := by
    intro entry isIn
    obtain ⟨earlier, later, rfl⟩ := List.append_of_mem isIn
    obtain ⟨before, next, one, taken, -⟩ := Run.exists_step bounded earlier ran
    refine ⟨taken.instruction.trans taken.address.symm, ?_, taken.size.symm, taken.positive⟩
    simp [taken.address, one.distance bounded, taken.size]
  whole := rfl

/-- A step moves the cursor on within the mapping. -/
theorem offset_of_step_ok {entry : ListingEntry} (stepped : step pass = .ok (entry, after)) :
    pass.stream.offset pass.stream.cursor < after.stream.offset after.stream.cursor ∧
      after.stream.offset after.stream.cursor ≤ pass.stream.bytes.size := by
  have taken := takes_of_step_ok bounded stepped
  have within := ((Stream.holds_iff_prefix_rest bounded).mp taken.holds).length_le
  have positive := taken.positive
  simp only [Stream.rest, List.length_drop, Array.length_toList] at within
  rw [taken.stream, Stream.offset_skip bounded taken.holds]
  omega

end Run

/-! ## Listings of whole images -/

/-- Listing a whole image that fits into memory ends, since every step moves on within the image
and the number of steps allowed is no limit. A listing shows a run of steps to the end, whose
entries tile the image. If there is none, then since an instruction cannot be decoded: it is the
first one of which that is true, the instructions before it tile the image up to it, and the
refusal names its address. -/
theorem lines_tile (config : Config) (image : Array UInt8) (short : image.size < UInt32.size)
    (fits : image.size ≤ Memory.roundedSize config.memorySize) :
    (∀ (run : List ListingEntry) (entry : ListingEntry) (pass after : Pass),
      Run (start config image) run pass → step pass = .ok (entry, after) →
        pass.stream.offset pass.stream.cursor < after.stream.offset after.stream.cursor ∧
          after.stream.offset after.stream.cursor ≤ image.size) ∧
    (∀ limit, image.size ≤ limit →
      sweep #[] limit (start config image) = sweep #[] image.size (start config image)) ∧
    ((∃ text, lines config image none = .ok text) ∨
      (∃ address error, lines config image none = .error (.refused (.decoding address error))) ∨
      Memory.isPossible config.memorySize = false ∧
        lines config image none = .error (.impossibleMemory config.memorySize)) ∧
    (∀ text, lines config image none = .ok text →
      ∃ (run : List ListingEntry) (blocks : List (List String)) (after : Pass),
        Run (start config image) run after ∧ after.stream.atEnd = true ∧
          Tiles config.loadAddress image.toList run ∧
          List.Forall₂ ListingEntry.Shown run blocks ∧ text = blocks.flatten) ∧
    ∀ (address : UInt32) (error : DecodeError),
      lines config image none = .error (.refused (.decoding address error)) →
        (∃ (run : List ListingEntry) (pass failed : Pass),
          Run (start config image) run pass ∧
            Tiles config.loadAddress (image.toList.take (address - config.loadAddress).toNat) run ∧
            pass.stream.cursor = address ∧ (address - config.loadAddress).toNat < image.size ∧
            Pass.decode pass = .error (.decode error) failed) ∧
          (ListingError.decoding address error).message =
            "Decoding instruction at " ++ String.ofList (Text.digitsOf 8 address.toNat) ++ ": " ++
              error.message := by
  have bounded : (start config image).stream.bytes.size < UInt32.size := short
  have most : (start config image).stream.rest.length ≤ image.size :=
    (start config image).stream.length_rest_le
  refine ⟨?_, ?_, ?_, ?_, ?_⟩
  · intro run entry pass after ran stepped
    obtain ⟨-, stream, -⟩ := ran.takes bounded
    have size : pass.stream.bytes.size = image.size := by rw [stream]; rfl
    have moved := offset_of_step_ok (by omega) stepped
    omega
  · intro limit enough
    exact sweep_eq_of_enough bounded (by omega) most
  · cases possible : Memory.isPossible config.memorySize with
    | false =>
        refine .inr (.inr ⟨rfl, ?_⟩)
        unfold lines entries
        simp [possible]
        rfl
    | true =>
        rcases lines_sound possible image none with listed | ⟨error, refused⟩
        · exact .inl listed
        · obtain ⟨-, pass, -, -, failed⟩ := (lines_refused_iff short possible fits).mp refused
          obtain ⟨cause, -, -, rfl⟩ := step_refused_iff.mp failed
          exact .inr (.inl ⟨pass.stream.cursor, cause, refused⟩)
  · intro text listed
    obtain ⟨-, -, run, after, ran, atEnd, rendered⟩ := (lines_ok_iff short).mp listed
    obtain ⟨blocks, shown, rfl⟩ := shown_of_render rendered
    have whole := ran.rest bounded
    rw [rest_start, (Stream.atEnd_iff _).mp atEnd, List.append_nil] at whole
    exact ⟨run, blocks, after, ran, atEnd, whole ▸ ran.tiles bounded, shown, rfl⟩
  · intro address error refused
    obtain ⟨possible, -⟩ := possible_and_fits config image none (by simp [refused])
      (by simp [refused])
    obtain ⟨run, pass, ran, more, failed⟩ := (lines_refused_iff short possible fits).mp refused
    obtain ⟨cause, stopped, decoded, same⟩ := step_refused_iff.mp failed
    cases same
    have position := ran.distance bounded
    have whole := ran.rest bounded
    rw [rest_start] at whole
    have inside : (shownBytes run).length < image.size := by
      have left : pass.stream.rest.length ≠ 0 := by
        rw [ne_eq, List.length_eq_zero_iff, ← Stream.atEnd_iff, more]
        exact Bool.false_ne_true
      have lengths := congrArg List.length whole
      rw [List.length_append, Array.length_toList] at lengths
      omega
    refine ⟨⟨run, pass, stopped, ran, ?_, rfl, position ▸ inside, decoded⟩,
      ListingError.message_decoding _ _⟩
    rw [show config.loadAddress = (start config image).stream.cursor from rfl, position, whole,
      List.take_left]
    exact ran.tiles bounded

/-- `mov eax, 1` and `nop`, of which the first goes past the end of the address space, and an
undefined opcode after `nop`. -/
theorem lines_tile_wrapped :
    let config := { Config.default with loadAddress := 0xFFFFFFFE }
    let image := #[0xB8, 0x01, 0x00, 0x00, 0x00, 0x90]
    let undefined := #[0x90, 0x0F, 0x0B]
    (image.size < UInt32.size ∧ image.size ≤ Memory.roundedSize config.memorySize) ∧
      (undefined.size < UInt32.size ∧
        undefined.size ≤ Memory.roundedSize Config.default.memorySize) ∧
      lines config image none =
        .ok ["FFFFFFFE  B8 01 00 00 00           mov eax, 1h",
          "00000003  90                       nop"] ∧
      (∃ run, Tiles 0xFFFFFFFE image.toList run) ∧
      lines .default undefined none =
        .error (.refused (.decoding 0x1001 (.unsupportedOpcode 0x0F0B 0x1001))) ∧
      ∃ run, Tiles 0x1000 [0x90] run := by
  intro config image undefined
  have fits : image.size < UInt32.size ∧ image.size ≤ Memory.roundedSize config.memorySize := by
    decide
  have alsoFits : undefined.size < UInt32.size ∧
      undefined.size ≤ Memory.roundedSize Config.default.memorySize := by decide
  have listed : lines config image none =
      .ok ["FFFFFFFE  B8 01 00 00 00           mov eax, 1h",
        "00000003  90                       nop"] := by decide +kernel
  have refused : lines .default undefined none =
      .error (.refused (.decoding 0x1001 (.unsupportedOpcode 0x0F0B 0x1001))) := by
    decide +kernel
  obtain ⟨-, -, -, shown, -⟩ := lines_tile config image fits.1 fits.2
  obtain ⟨-, -, -, -, named⟩ := lines_tile .default undefined alsoFits.1 alsoFits.2
  obtain ⟨run, -, -, -, -, tiles, -⟩ := shown _ listed
  obtain ⟨⟨before, -, -, -, alsoTiles, -⟩, -⟩ := named _ _ refused
  exact ⟨fits, alsoFits, listed, ⟨run, tiles⟩, refused, ⟨before, alsoTiles⟩⟩

end Listing

end I386
