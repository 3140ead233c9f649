import Mathlib.Data.List.Basic
import I386.Proofs.Contracts
import I386.Proofs.SettingsDocuments

/-!
Contract: how a run of the program ends.

Owns:
- what each stage of a run gives or refuses, in terms of the files and of the options;
- the order of the stages, in which the first refusal decides.

Main statement: a run puts out the whole listing of its image, or nothing and the report of the
first stage that refuses.

Does not own: which arguments are a command line, which documents are settings, and which images
have a listing.
-/

namespace I386.Program

/-! ## Settings -/

/-- What is read from the state of a settings file. -/
inductive ReadsSettings (readers : Readers) (path : String) (state : FileState) :
    Except Failure Config → Prop
  | settings {bytes : ByteArray} {text : String} {config : Config} :
      state.contents = .ok bytes → String.fromUTF8? bytes = some text →
      readers.settings text = .ok config →
        ReadsSettings readers path state (.ok config)
  | missing {error : ReadError} : state.contents = .error error → error.isMissing = true →
      ReadsSettings readers path state (.error (.configMissing error.reason))
  | unreadable {error : ReadError} : state.contents = .error error → error.isMissing = false →
      ReadsSettings readers path state (.error (.configUnreadable error.reason))
  | noText {bytes : ByteArray} : state.contents = .ok bytes → String.fromUTF8? bytes = none →
      ReadsSettings readers path state (.error (.configUnreadable FileState.encodingReason))
  | invalid {bytes : ByteArray} {text reason : String} :
      state.contents = .ok bytes → String.fromUTF8? bytes = some text →
      readers.settings text = .error reason →
        ReadsSettings readers path state (.error (.configInvalid path reason))

variable {readers : Readers} {files : Files} {invocation : Invocation}

/-- The settings file of a run: the one that is named, or else the default file if something is
found there. -/
def SettingsFile (files : Files) (invocation : Invocation) (path : String) : Prop :=
  invocation.configFile = some path ∨
    invocation.configFile = none ∧ path = defaultConfigPath ∧ (files path).isFound = true

/-- The settings before the options: those of the settings file, or the defaults if there is no
such file. -/
inductive FindsSettings (readers : Readers) (files : Files) (invocation : Invocation) :
    Except Failure Config → Prop
  | file {path : String} {result : Except Failure Config} : SettingsFile files invocation path →
      ReadsSettings readers path (files path) result →
        FindsSettings readers files invocation result
  | defaults : invocation.configFile = none → (files defaultConfigPath).isFound = false →
      FindsSettings readers files invocation (.ok .default)

theorem readsSettings_iff {path : String} {state : FileState} {result : Except Failure Config} :
    ReadsSettings readers path state result ↔ readConfig readers path state = result := by
  constructor
  · intro reads
    cases reads with
    | settings isFile isText isRead =>
        simp only [readConfig, isFile, isText, isRead, Except.mapError]
    | missing noFile missing => simp only [readConfig, noFile, missing, if_true]
    | unreadable noFile there => simp only [readConfig, noFile, there, Bool.false_eq_true, if_false]
    | noText isFile noText => simp only [readConfig, isFile, noText]
    | invalid isFile isText refused =>
        simp only [readConfig, isFile, isText, refused, Except.mapError]
  · rintro rfl
    fun_cases readConfig readers path state with
    | case1 error noFile missing => exact .missing noFile missing
    | case2 error noFile there => exact .unreadable noFile (Bool.eq_false_iff.mpr there)
    | case3 bytes isFile noText => exact .noText isFile noText
    | case4 bytes isFile text isText =>
        cases isRead : readers.settings text with
        | ok config => exact .settings isFile isText isRead
        | error reason => exact .invalid isFile isText isRead

theorem findsSettings_iff {result : Except Failure Config} :
    FindsSettings readers files invocation result ↔
      loadConfig readers files invocation = result := by
  unfold loadConfig
  constructor
  · intro finds
    cases finds with
    | file isFile reads =>
        rw [readsSettings_iff] at reads
        obtain named | ⟨unnamed, rfl, found⟩ := isFile
        · simpa only [named] using reads
        · simpa only [unnamed, found, if_true] using reads
    | defaults unnamed lost => simp only [unnamed, lost, Bool.false_eq_true, if_false]
  · rintro rfl
    split
    · next path named => exact .file (.inl named) (readsSettings_iff.mpr rfl)
    · next unnamed =>
        split
        · next found => exact .file (.inr ⟨unnamed, rfl, found⟩) (readsSettings_iff.mpr rfl)
        · next lost => exact .defaults unnamed (Bool.eq_false_iff.mpr lost)

/-! ## Options -/

theorem exists_replaces {α β : Type} {option : Option α} {Reads : α → β → Prop} (old : β)
    (readable : ∀ value, option = some value → ∃ new, Reads value new) :
    ∃ new, Replaces option Reads old new := by
  cases option with
  | none => exact ⟨old, ⟨fun _ => rfl, by simp⟩⟩
  | some value =>
      obtain ⟨new, reads⟩ := readable value rfl
      exact ⟨new, ⟨by simp, by simpa using reads⟩⟩

/-- The settings that the options make of others: an operand size and a load address replace those
of the settings, and transfers are shown if either asks for them. -/
structure Effective (invocation : Invocation) (loaded config : Config) : Prop where
  operandSize : Replaces invocation.operandSize (fun bits size => bits.toNat = size.bits)
    loaded.operandSize config.operandSize
  loadAddress : Replaces invocation.loadAddress
    (fun text address => Text.readNumber text = .ok address) loaded.loadAddress config.loadAddress
  traceMicroOps : config.traceMicroOps = (loaded.traceMicroOps || invocation.trace)
  memorySize : config.memorySize = loaded.memorySize

/-- The number of bits is an operand size, or none is given. -/
def ValidOperandSize (invocation : Invocation) : Prop :=
  ∀ bits, invocation.operandSize = some bits → bits = 16 ∨ bits = 32

/-- What the options make of settings. The operand size is refused before the load address. -/
inductive AppliesOptions (invocation : Invocation) (loaded : Config) :
    Except OverrideError Config → Prop
  | effective {config : Config} : Effective invocation loaded config →
      AppliesOptions invocation loaded (.ok config)
  | badOperandSize {bits : UInt32} : invocation.operandSize = some bits → bits ≠ 16 → bits ≠ 32 →
      AppliesOptions invocation loaded (.error (.badOperandSize bits))
  | badLoadAddress {text : String} {error : Text.NumberError} : ValidOperandSize invocation →
      invocation.loadAddress = some text → Text.readNumber text = .error error →
        AppliesOptions invocation loaded (.error (.badLoadAddress error))

theorem overrideOperandSize_eq {loaded : Config} {size : OperandSize}
    (replaces : Replaces invocation.operandSize (fun bits size => bits.toNat = size.bits)
      loaded.operandSize size) :
    invocation.overrideOperandSize loaded = .ok { loaded with operandSize := size } := by
  unfold Invocation.overrideOperandSize
  cases option : invocation.operandSize with
  | none => simp only [replaces.kept option]
  | some bits => simp only [OperandSize.ofBits?_of_bits (replaces.given bits option)]

theorem overrideLoadAddress_eq (loaded : Config) {address : UInt32}
    (replaces : Replaces invocation.loadAddress
      (fun text address => Text.readNumber text = .ok address) loaded.loadAddress address) :
    invocation.overrideLoadAddress loaded = .ok { loaded with loadAddress := address } := by
  unfold Invocation.overrideLoadAddress
  cases option : invocation.loadAddress with
  | none => simp only [replaces.kept option]
  | some text => simp only [replaces.given text option]

/-- A valid operand size replaces that of the settings. -/
theorem ValidOperandSize.exists_replaces (valid : ValidOperandSize invocation) (loaded : Config) :
    ∃ size, Replaces invocation.operandSize (fun bits size => bits.toNat = size.bits)
      loaded.operandSize size := by
  refine Program.exists_replaces _ fun bits option => ?_
  obtain rfl | rfl := valid bits option
  · exact ⟨.bits16, rfl⟩
  · exact ⟨.bits32, rfl⟩

theorem Effective.override_eq {loaded config : Config}
    (effective : Effective invocation loaded config) :
    invocation.override loaded = .ok config := by
  rw [Invocation.override, overrideOperandSize_eq effective.operandSize]
  show (invocation.overrideLoadAddress _ >>= _) = _
  rw [overrideLoadAddress_eq { loaded with operandSize := config.operandSize }
    effective.loadAddress]
  show Except.ok (Config.mk config.operandSize (loaded.traceMicroOps || invocation.trace)
    loaded.memorySize config.loadAddress) = .ok config
  rw [← effective.traceMicroOps, ← effective.memorySize]

theorem AppliesOptions.override_eq {loaded : Config} {result : Except OverrideError Config}
    (applies : AppliesOptions invocation loaded result) :
    invocation.override loaded = result := by
  cases applies with
  | effective effective => exact effective.override_eq
  | badOperandSize option not16 not32 =>
      rw [Invocation.override, Invocation.overrideOperandSize, option]
      simp only [OperandSize.ofBits?, if_neg not16, if_neg not32]
      rfl
  | badLoadAddress valid option refused =>
      obtain ⟨size, replaces⟩ := valid.exists_replaces loaded
      rw [Invocation.override, overrideOperandSize_eq replaces]
      show (invocation.overrideLoadAddress _ >>= _) = _
      rw [Invocation.overrideLoadAddress, option]
      simp only [refused]
      rfl

/-- The image that the options give: in hexadecimal or in a file, and not both. -/
inductive FindsImage (files : Files) (invocation : Invocation) :
    Except ImageError (Array UInt8) → Prop
  | hex {text : String} {image : Array UInt8} : invocation.hex = some text →
      invocation.bin = none → Text.readHexBytes text = .ok image →
        FindsImage files invocation (.ok image)
  | badHex {text : String} {error : Text.HexError} : invocation.hex = some text →
      invocation.bin = none → Text.readHexBytes text = .error (.refused error) →
        FindsImage files invocation (.error (.hex error))
  | file {path : String} {bytes : ByteArray} : invocation.hex = none →
      invocation.bin = some path → (files path).contents = .ok bytes →
        FindsImage files invocation (.ok bytes.data)
  | unreadable {path : String} {error : ReadError} : invocation.hex = none →
      invocation.bin = some path → (files path).contents = .error error →
        FindsImage files invocation (.error (.unreadable path error.reason))
  | both {text path : String} : invocation.hex = some text → invocation.bin = some path →
      FindsImage files invocation (.error .twoPrograms)
  | neither : invocation.hex = none → invocation.bin = none →
      FindsImage files invocation (.error .noProgram)

theorem FindsImage.loadImage_eq {result : Except ImageError (Array UInt8)}
    (finds : FindsImage files invocation result) :
    loadImage files invocation = result.mapError (.failure ∘ .image) := by
  cases finds with
  | hex given alone read => simp only [loadImage, given, alone, read, Except.mapError]
  | badHex given alone refused =>
      simp only [loadImage, given, alone, refused, Except.mapError, Function.comp]
  | file ungiven given contents => simp only [loadImage, ungiven, given, contents, Except.mapError]
  | unreadable ungiven given unreadable =>
      simp only [loadImage, ungiven, given, unreadable, Except.mapError, Function.comp]
  | both hex bin => simp only [loadImage, hex, bin, Except.mapError, Function.comp]
  | neither noHex noBin => simp only [loadImage, noHex, noBin, Except.mapError, Function.comp]

/-- What a run comes to: the lines of the whole listing, or the failure of the first stage that
refuses. -/
inductive Concludes (readers : Readers) (files : Files) (invocation : Invocation) :
    Except Failure (List String) → Prop
  | noSettings {failure : Failure} : FindsSettings readers files invocation (.error failure) →
      Concludes readers files invocation (.error failure)
  | badOptions {loaded : Config} {error : OverrideError} :
      FindsSettings readers files invocation (.ok loaded) →
      AppliesOptions invocation loaded (.error error) →
        Concludes readers files invocation (.error (.options error))
  | noImage {loaded config : Config} {error : ImageError} :
      FindsSettings readers files invocation (.ok loaded) → Effective invocation loaded config →
      FindsImage files invocation (.error error) →
        Concludes readers files invocation (.error (.image error))
  | noListing {loaded config : Config} {image : Array UInt8} {error : ListingError} :
      FindsSettings readers files invocation (.ok loaded) → Effective invocation loaded config →
      FindsImage files invocation (.ok image) →
      Listing.lines config image (invocation.count.map UInt64.toNat) = .error (.refused error) →
        Concludes readers files invocation (.error (.listing error))
  | listed {loaded config : Config} {image : Array UInt8} {lines : List String} :
      FindsSettings readers files invocation (.ok loaded) → Effective invocation loaded config →
      FindsImage files invocation (.ok image) →
      Listing.lines config image (invocation.count.map UInt64.toNat) = .ok lines →
        Concludes readers files invocation (.ok lines)

/-- The stages behind the settings. -/
theorem stages_of_findsSettings {loaded : Config}
    (finds : FindsSettings readers files invocation (.ok loaded)) :
    stages readers files invocation =
      ((invocation.override loaded).mapError fun error => .failure (.options error)) >>=
        fun config => loadImage files invocation >>=
          fun image => list config image invocation.count := by
  rw [stages, findsSettings_iff.mp finds]
  rfl

/-- The stages behind the options. -/
theorem Effective.stages_eq {loaded config : Config}
    (effective : Effective invocation loaded config)
    (finds : FindsSettings readers files invocation (.ok loaded)) :
    stages readers files invocation =
      loadImage files invocation >>= fun image => list config image invocation.count := by
  rw [stages_of_findsSettings finds, effective.override_eq]
  rfl

theorem Concludes.stages_eq {result : Except Failure (List String)}
    (concludes : Concludes readers files invocation result) :
    stages readers files invocation = result.mapError .failure := by
  cases concludes with
  | noSettings refused =>
      rw [stages, findsSettings_iff.mp refused]
      rfl
  | badOptions finds refused =>
      rw [stages_of_findsSettings finds, refused.override_eq]
      rfl
  | noImage finds effective refused =>
      rw [effective.stages_eq finds, refused.loadImage_eq]
      rfl
  | noListing finds effective image refused =>
      rw [effective.stages_eq finds, image.loadImage_eq]
      show list _ _ _ = _
      simp only [list, refused, Except.mapError]
  | listed finds effective image lists =>
      rw [effective.stages_eq finds, image.loadImage_eq]
      show list _ _ _ = _
      simp only [list, lists, Except.mapError]

/-- What is seen of a run: every line of the listing, each ended by a newline, or nothing but the
report of the failure. -/
def Shows (outcome : Outcome) : Except Failure (List String) → Prop
  | .ok lines => outcome.status = 0 ∧ outcome.text = String.join (lines.map (· ++ "\n")) ∧
      outcome.report? = none
  | .error failure => outcome.status = 1 ∧ outcome.text = "" ∧
      outcome.report? = some failure.message

section Run

variable {arguments : List String}

/-- A run shows what it comes to. -/
theorem Concludes.shows {result : Except Failure (List String)}
    (concludes : Concludes readers files invocation result)
    (accepted : readers.commandLine arguments = .ok invocation) :
    Shows (runWith readers files arguments) result := by
  unfold runWith
  simp only [accepted, concludes.stages_eq]
  cases result with
  | ok lines => exact ⟨rfl, rfl, rfl⟩
  | error failure => exact ⟨rfl, rfl, rfl⟩

/-- A run comes to only one thing. -/
theorem Concludes.unique {first second : Except Failure (List String)}
    (firstConcludes : Concludes readers files invocation first)
    (secondConcludes : Concludes readers files invocation second) : first = second := by
  have same := firstConcludes.stages_eq.symm.trans secondConcludes.stages_eq
  cases first with
  | ok lines =>
      cases second with
      | ok others => exact congrArg _ (Except.ok.inj same)
      | error failure => cases same
  | error failure =>
      cases second with
      | ok lines => cases same
      | error other => exact congrArg _ (Stop.failure.inj (Except.error.inj same))

/-- A settings file that gives no settings is reported. -/
theorem ReadsSettings.report {path : String} {failure : Failure}
    (reads : ReadsSettings readers path (files path) (.error failure))
    (isFile : SettingsFile files invocation path)
    (accepted : readers.commandLine arguments = .ok invocation) :
    (runWith readers files arguments).report? = some failure.message := by
  have concludes : Concludes readers files invocation (.error failure) :=
    .noSettings (.file isFile reads)
  exact (concludes.shows accepted).2.2

end Run

end I386.Program
