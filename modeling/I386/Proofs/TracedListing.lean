import I386.Proofs.Tiling

/-!
Contract: listings that show transfers.

Owns:
- telling the lines of transfers, which are indented, from the lines of instructions;
- a sweep on a machine that records and the same sweep on one that does not;
- the transfers shown below each instruction.

Main statement: a listing with transfers is the listing without them, and below the line of each
instruction the lines of exactly the transfers that decoding it made.

Does not own: which transfers these are.
-/

namespace I386

/-! ## Lines of transfers -/

/-- A line begins with ten spaces. -/
def isIndented (line : String) : Bool :=
  (List.replicate 10 ' ').isPrefixOf line.toList

theorem isIndented_append (text : String) : isIndented ("          " ++ text) = true := by
  have spaces : "          ".toList = List.replicate 10 ' ' := by decide
  rw [isIndented, String.toList_append, spaces, List.isPrefixOf_iff_prefix]
  exact List.prefix_append _ _

theorem Text.upperCaseDigit_ne_blank (value : Nat) : upperCaseDigit value ≠ ' ' := by
  by_cases small : value < 16
  · have all : ∀ digit : Fin 16, upperCaseDigit digit ≠ ' ' := by decide
    exact all ⟨value, small⟩
  · have outside : upperCaseDigits.length ≤ value := Nat.le_of_not_lt small
    rw [upperCaseDigit, List.getD_eq_getElem?_getD, List.getElem?_eq_none outside]
    decide

theorem Text.ne_blank_of_mem_digitsOf {places n : Nat} {digit : Char}
    (isIn : digit ∈ digitsOf places n) : digit ≠ ' ' := by
  induction places generalizing n with
  | zero => cases isIn
  | succ places inductionHypothesis =>
      rcases List.mem_append.mp isIn with front | last
      · exact inductionHypothesis front
      · obtain rfl := List.mem_singleton.mp last
        exact upperCaseDigit_ne_blank _

/-- A line that begins with digits does not begin with a space. -/
theorem isIndented_digitsOf (places n : Nat) (rest : String) :
    isIndented (String.ofList (Text.digitsOf (places + 1) n) ++ rest) = false := by
  cases digits : Text.digitsOf (places + 1) n with
  | nil =>
      have length := Text.length_digitsOf (places + 1) n
      rw [digits] at length
      cases length
  | cons first others =>
      have notBlank : first ≠ ' ' := Text.ne_blank_of_mem_digitsOf (digits ▸ List.mem_cons_self)
      rw [isIndented, String.toList_append, String.toList_ofList, List.cons_append]
      exact Bool.and_eq_false_imp.mpr fun same => absurd (beq_iff_eq.mp same).symm notBlank

namespace ListingEntry

/-- The entry without its transfers. -/
def bare (entry : ListingEntry) : ListingEntry :=
  { entry with microOps := [] }

/-- Lines that show an entry: the line of the instruction, which is not indented, then the text of
each transfer, indented. -/
def Annotated (entry : ListingEntry) (block : List String) : Prop :=
  ∃ (line : String) (details : List String), block = line :: details ∧
    entry.line = .ok line ∧ isIndented line = false ∧
    (∀ detail ∈ details, isIndented detail = true) ∧
    List.Forall₂ (fun op detail => ∃ text, op.text = .ok text ∧ detail = "          " ++ text)
      entry.microOps details

theorem forall_isIndented {ops : List MicroOp} {details : List String}
    (spelled : List.Forall₂
      (fun op detail => ∃ text, op.text = .ok text ∧ detail = "          " ++ text) ops details) :
    ∀ detail ∈ details, isIndented detail = true := by
  induction spelled with
  | nil => exact nofun
  | cons first _ inductionHypothesis =>
      obtain ⟨text, -, rfl⟩ := first
      exact List.forall_mem_cons.mpr ⟨isIndented_append text, inductionHypothesis⟩

theorem annotated_of_lines {entry : ListingEntry} {block : List String}
    (ran : entry.lines = .ok block) : entry.Annotated block := by
  obtain ⟨text, details, written, rfl, spelled⟩ := shown_of_lines ran
  refine ⟨_, details, rfl, ?_, ?_, forall_isIndented spelled, spelled⟩
  · rw [line, written, bytesText_eq, Text.hexPadded_word]
    rfl
  · rw [String.append_assoc, String.append_assoc, String.append_assoc]
    exact isIndented_digitsOf 7 _ _

/-- Without its indented lines a block is that of the entry without its transfers. -/
theorem Annotated.bare_lines {entry : ListingEntry} {block : List String}
    (annotated : entry.Annotated block) :
    entry.bare.lines = .ok (block.filter (!isIndented ·)) := by
  obtain ⟨line, details, rfl, written, notIndented, indented, -⟩ := annotated
  have none : details.filter (!isIndented ·) = [] := by
    rw [List.filter_eq_nil_iff]
    intro detail isIn
    simp [indented detail isIn]
  have same : entry.bare.line = .ok line := written
  rw [List.filter_cons_of_pos (by simp [notIndented]), none, lines, same]
  rfl

end ListingEntry

namespace Listing

theorem annotated_of_render {entries : List ListingEntry} {text : List String}
    (rendered : render entries = .ok text) :
    ∃ blocks, List.Forall₂ ListingEntry.Annotated entries blocks ∧ text = blocks.flatten := by
  obtain ⟨blocks, each, whole⟩ := blocks_of_render rendered
  exact ⟨blocks, each.imp fun _ _ => ListingEntry.annotated_of_lines, whole⟩

theorem render_bare {entries : List ListingEntry} {text : List String}
    (rendered : render entries = .ok text) :
    render (entries.map ListingEntry.bare) = .ok (text.filter (!isIndented ·)) := by
  obtain ⟨blocks, annotated, rfl⟩ := annotated_of_render rendered
  have each : List.Forall₂ (fun entry block => ListingEntry.lines entry = .ok block)
      (entries.map ListingEntry.bare) (blocks.map (List.filter (!isIndented ·))) := by
    rw [List.forall₂_map_left_iff, List.forall₂_map_right_iff]
    exact annotated.imp fun _ _ => ListingEntry.Annotated.bare_lines
  rw [render, mapM_ok_of_forall₂ each, List.filter_flatten]
  rfl

/-! ## Sweeps with and without a record -/

/-- Without a record a step shows the same but no transfers. -/
theorem step_retraced_none (pass : Pass) :
    step (pass.retraced none) =
      (step (pass.retraced (some #[]))).map fun (entry, after) =>
        (entry.bare, after.retraced none) := by
  have same : Pass.decode (pass.retraced none) =
      Pass.mapPass (·.retraced none) (Pass.decode (pass.retraced (some #[]))) :=
    (pass.retraced none).decode_eq_retraced
  unfold step
  rw [same]
  cases Pass.decode (pass.retraced (some #[])) with
  | ok instruction after => rfl
  | error fault failed => cases fault <;> rfl

/-- After a step from an empty record the record is empty. -/
theorem retraced_of_step_ok {pass after : Pass} {entry : ListingEntry}
    (stepped : step (pass.retraced (some #[])) = .ok (entry, after)) :
    after.retraced (some #[]) = after := by
  obtain ⟨machine, -⟩ := keeps_of_step_ok stepped
  have trace : after.machine.trace = some #[] := congrArg Machine.trace machine
  unfold Pass.retraced
  rw [← trace]

/-- A sweep without a record gives the same entries without transfers, or the same fault. -/
theorem sweep_retraced_none (entries : Array ListingEntry) (limit : Nat) (pass : Pass) :
    sweep (entries.map ListingEntry.bare) limit (pass.retraced none) =
      (sweep entries limit (pass.retraced (some #[]))).map (Array.map ListingEntry.bare) := by
  induction limit generalizing entries pass with
  | zero => rfl
  | succ limit inductionHypothesis =>
      unfold sweep
      by_cases atEnd : pass.stream.atEnd = true
      · rw [if_pos (show (pass.retraced none).stream.atEnd = true from atEnd),
          if_pos (show (pass.retraced (some #[])).stream.atEnd = true from atEnd)]
        rfl
      · rw [if_neg (show ¬(pass.retraced none).stream.atEnd = true from atEnd),
          if_neg (show ¬(pass.retraced (some #[])).stream.atEnd = true from atEnd),
          step_retraced_none]
        cases stepped : step (pass.retraced (some #[])) with
        | error fault => rfl
        | ok result =>
            -- The record is empty again, so that the rest is once more a sweep from there.
            obtain ⟨entry, after⟩ := result
            have onward := inductionHypothesis (entries.push entry) after
            rw [Array.map_push, retraced_of_step_ok stepped] at onward
            exact onward

/-! ## Listings with and without transfers -/

/-- The settings, with transfers shown or not. -/
def traced (config : Config) (on : Bool) : Config :=
  { config with traceMicroOps := on }

theorem sweep_traced (config : Config) (image : Array UInt8) (limit : Nat) :
    sweep #[] limit (start (traced config false) image) =
      (sweep #[] limit (start (traced config true) image)).map (Array.map ListingEntry.bare) := by
  have same := sweep_retraced_none #[] limit (start (traced config true) image)
  rw [Array.map_empty] at same
  exact same

/-- Turning the record on only adds lines. -/
theorem lines_traced_false (config : Config) (image : Array UInt8) (count : Option Nat) :
    lines (traced config false) image count =
      (lines (traced config true) image count).map (List.filter (!isIndented ·)) := by
  by_cases possible : Memory.isPossible config.memorySize = true
  · by_cases fits : image.size ≤ Memory.roundedSize config.memorySize
    · have possibleToo (on : Bool) :
          Memory.isPossible (traced config on).memorySize = true := possible
      have fitsToo (on : Bool) :
          image.size ≤ Memory.roundedSize (traced config on).memorySize := fits
      have listed := lines_sound (possibleToo true) image count
      rw [lines_of_fits (possibleToo true) (fitsToo true)] at listed ⊢
      rw [lines_of_fits (possibleToo false) (fitsToo false), sweep_traced]
      cases swept : sweep #[] (limit image count) (start (traced config true) image) with
      | error fault => rfl
      | ok all =>
          -- Whatever a sweep gives can be shown, so neither listing stops at a text.
          rw [swept] at listed
          rcases listed with ⟨text, listed⟩ | ⟨error, refused⟩
          · have rendered := render_mapError_ok_iff.mp listed
            have shown := render_bare rendered
            simp [Except.map, rendered, shown, Except.mapError]
          · cases rendered : render all.toList <;> simp [rendered, Except.mapError] at refused
    · unfold lines entries
      simp [traced, possible, Nat.lt_of_not_le fits]
      rfl
  · unfold lines entries
    simp [traced, possible]
    rfl

/-- Listing with transfers succeeds exactly if listing without does, and otherwise fails with the
same fault. Without its indented lines it is the listing without transfers. It consists of a block
for each instruction of a run: the line of the instruction, and below it the texts of exactly the
transfers that decoding this instruction recorded on a machine whose record was empty. -/
theorem lines_traced (config : Config) (image : Array UInt8) (count : Option Nat) :
    lines (traced config false) image count =
      (lines (traced config true) image count).map (List.filter (!isIndented ·)) ∧
    ∀ text, lines (traced config true) image count = .ok text →
      ∃ (run : List ListingEntry) (blocks : List (List String)) (after : Pass),
        Run (start (traced config true) image) run after ∧
          List.Forall₂ ListingEntry.Annotated run blocks ∧ text = blocks.flatten ∧
          ∀ (earlier later : List ListingEntry) (entry : ListingEntry),
            run = earlier ++ entry :: later →
              ∃ before decoded : Pass, Run (start (traced config true) image) earlier before ∧
                before.machine.trace = some #[] ∧
                Pass.decode before = .ok entry.instruction decoded ∧
                entry.microOps = decoded.machine.recorded := by
  refine ⟨lines_traced_false config image count, ?_⟩
  intro text listed
  obtain ⟨possible, fits⟩ := possible_and_fits (traced config true) image count (by simp [listed])
    (by simp [listed])
  rw [lines_of_fits possible fits] at listed
  cases swept : sweep #[] (limit image count) (start (traced config true) image) with
  | error fault => simp [swept] at listed
  | ok all =>
      rw [swept] at listed
      obtain ⟨run, after, ran, rfl, -, -⟩ := sweep_ok_iff.mp swept
      have rendered : render run = .ok text := by simpa using render_mapError_ok_iff.mp listed
      obtain ⟨blocks, annotated, rfl⟩ := annotated_of_render rendered
      refine ⟨run, blocks, after, ran, annotated, rfl, ?_⟩
      rintro earlier later entry rfl
      obtain ⟨before, one, other⟩ := Run.append_iff.mp ran
      obtain ⟨machine, -⟩ := one.keeps (takeTrace_start _ image)
      cases other with
      | cons more stepped rest =>
          obtain ⟨instruction, decoded, decodes, rfl, -⟩ := step_ok_iff.mp stepped
          exact ⟨before, decoded, one, congrArg Machine.trace machine, decodes, rfl⟩

/-- `add eax, ebx` and `nop`, of which the second transfers nothing. -/
theorem lines_traced_add :
    let image := #[0x01, 0xD8, 0x90]
    lines (traced .default true) image none =
        .ok ["00001000  01 D8                    add eax, ebx", "          lr ebx",
          "          lr eax", "00001002  90                       nop"] ∧
      lines (traced .default false) image none =
        .ok ["00001000  01 D8                    add eax, ebx",
          "00001002  90                       nop"] ∧
      ∃ (run : List ListingEntry) (blocks : List (List String)),
        List.Forall₂ ListingEntry.Annotated run blocks ∧ blocks.flatten.length = 4 := by
  intro image
  have listed : lines (traced .default true) image none =
      .ok ["00001000  01 D8                    add eax, ebx", "          lr ebx",
        "          lr eax", "00001002  90                       nop"] := by decide +kernel
  obtain ⟨untraced, shown⟩ := lines_traced .default image none
  obtain ⟨run, blocks, -, -, annotated, whole, -⟩ := shown _ listed
  rw [listed] at untraced
  refine ⟨listed, untraced.trans ?_, run, blocks, annotated, ?_⟩
  · decide +kernel
  · rw [← whole]
    rfl

end Listing

end I386
