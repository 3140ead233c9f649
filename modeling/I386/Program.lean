import I386.CommandLine
import I386.Config.Document
import I386.Files
import I386.Listing
import I386.Text.HexBytes

/-!
Contract: a run of the program as a function of its arguments and files.

Owns:
- the stages of a run: settings, options, image, listing; the first that fails decides the report;
- which files a run looks at;
- exit status, output and report.

Nothing is put out unless the whole listing exists.

A run is the same whatever reads command lines and settings for it, so both readers are given to it.
The program has readers of its own.

Does not own: reading arguments and files from a host, and writing to it.
-/

namespace I386

/-- The settings file that is used if it exists and no other is named. -/
def defaultConfigPath : String := "./rtl86.toml"

/-- What reads for a run. A refusal is in the reader's own words. -/
structure Readers where
  /-- Reads the arguments of a command line. -/
  commandLine : List String → Except String Invocation
  /-- Reads the text of a settings file. -/
  settings : String → Except String Config

/-- Why there is no image. -/
inductive ImageError where
  | hex (error : Text.HexError)
  | unreadable (path reason : String)
  /-- Both ways to give an image were used. -/
  | twoPrograms
  | noProgram
deriving DecidableEq, Repr

/-- The error, as shown to the user. -/
def ImageError.message : ImageError → String
  | .hex error => error.message
  | .unreadable path reason => "Reading program image '" ++ path ++ "': " ++ reason
  | .twoPrograms => "--hex and --bin are mutually exclusive"
  | .noProgram => "No program specified. Use --hex or --bin."

/-- The stage that failed, and why. -/
inductive Failure where
  | configMissing (reason : String)
  | configUnreadable (reason : String)
  | configInvalid (path reason : String)
  | options (error : OverrideError)
  | image (error : ImageError)
  | listing (error : ListingError)
deriving DecidableEq, Repr

/-- The report of a failure. -/
def Failure.message : Failure → String
  | .configMissing reason => "Configuration file not found: " ++ reason
  | .configUnreadable reason => "Unknown IO error reading configuration file:\n" ++ reason
  | .configInvalid path reason =>
      "Failed to parse configuration file. There may be a typo or otherwise invalid toml:\n" ++
        "Parsing configuration file '" ++ path ++ "': " ++ reason
  | .options error => "Invalid command line: " ++ error.message
  | .image error => "Couldn't load program image: " ++ error.message
  | .listing error => "Decoding failed: " ++ error.message

/-- A broken contract, which ends a run on the spot. -/
inductive Crash where
  /-- A pair of hexadecimal digits would split a character. -/
  | splitsCharacter
  /-- No memory can have the size that the settings ask for. -/
  | impossibleMemory (requested : Nat)
  | violation (violation : Violation)
deriving DecidableEq, Repr

/-- The broken contract, as shown to the user. -/
def Crash.message : Crash → String
  | .splitsCharacter => "A pair of hexadecimal digits splits a character"
  | .impossibleMemory requested => "No memory has " ++ toString requested ++ " bytes"
  | .violation broken => broken.message

/-- How a run stops before its listing exists. -/
inductive Stop where
  | failure (failure : Failure)
  | crash (crash : Crash)
deriving DecidableEq, Repr

/-- How a run ends. -/
inductive Outcome where
  | listed (lines : List String)
  /-- The arguments are no command line, with what its reader says about them. -/
  | misused (usage : String)
  | stopped (stop : Stop)
deriving DecidableEq, Repr

namespace Outcome

/-- The exit status. -/
def status : Outcome → UInt32
  | listed _ => 0
  | misused _ => 1
  | stopped (.failure _) => 1
  | stopped (.crash _) => 101

/-- The lines of output. -/
def output : Outcome → List String
  | listed lines => lines
  | misused _ => []
  | stopped _ => []

/-- The output as a text, in which every line is ended by a newline. -/
def text (outcome : Outcome) : String :=
  String.join (outcome.output.map (· ++ "\n"))

/-- The report of the stage that failed. -/
def report? : Outcome → Option String
  | stopped (.failure failure) => some failure.message
  | _ => none

end Outcome

namespace Program

/-- The settings in a file. -/
def readConfig (readers : Readers) (path : String) (state : FileState) : Except Failure Config :=
  match state.contents with
  | .error error =>
      if error.isMissing then .error (.configMissing error.reason)
      else .error (.configUnreadable error.reason)
  | .ok bytes =>
      match String.fromUTF8? bytes with
      | none => .error (.configUnreadable FileState.encodingReason)
      | some text => (readers.settings text).mapError (.configInvalid path)

/-- The settings of a run: from the file that is named, else from the default file if something is
found there, else the defaults. -/
def loadConfig (readers : Readers) (files : Files) (invocation : Invocation) :
    Except Failure Config :=
  match invocation.configFile with
  | some path => readConfig readers path (files path)
  | none =>
      if (files defaultConfigPath).isFound then
        readConfig readers defaultConfigPath (files defaultConfigPath)
      else
        .ok .default

/-- The image of a run, which is given in exactly one way. -/
def loadImage (files : Files) (invocation : Invocation) : Except Stop (Array UInt8) :=
  match invocation.hex, invocation.bin with
  | some text, none =>
      match Text.readHexBytes text with
      | .ok image => .ok image
      | .error (.refused error) => .error (.failure (.image (.hex error)))
      | .error .splitsCharacter => .error (.crash .splitsCharacter)
  | none, some path =>
      match (files path).contents with
      | .ok bytes => .ok bytes.data
      | .error error => .error (.failure (.image (.unreadable path error.reason)))
  | some _, some _ => .error (.failure (.image .twoPrograms))
  | none, none => .error (.failure (.image .noProgram))

/-- The listing of a run. -/
def list (config : Config) (image : Array UInt8) (count : Option UInt64) :
    Except Stop (List String) :=
  match Listing.lines config image (count.map UInt64.toNat) with
  | .ok lines => .ok lines
  | .error (.refused error) => .error (.failure (.listing error))
  | .error (.impossibleMemory requested) => .error (.crash (.impossibleMemory requested))
  | .error (.violation violation) => .error (.crash (.violation violation))

/-- The stages of a run. -/
def stages (readers : Readers) (files : Files) (invocation : Invocation) :
    Except Stop (List String) := do
  let config ← (loadConfig readers files invocation).mapError .failure
  let config ← (invocation.override config).mapError fun error => .failure (.options error)
  let image ← loadImage files invocation
  list config image invocation.count

/-- A run with the given readers. -/
def runWith (readers : Readers) (files : Files) (arguments : List String) : Outcome :=
  match readers.commandLine arguments with
  | .error usage => .misused usage
  | .ok invocation =>
      match stages readers files invocation with
      | .ok lines => .listed lines
      | .error stop => .stopped stop

/-- The readers of the program. -/
def readers : Readers where
  commandLine arguments := (Invocation.ofArguments arguments).mapError UsageError.message
  settings text := (Config.ofDocument text).mapError ConfigError.message

/-- A run of the program. -/
def run (files : Files) (arguments : List String) : Outcome :=
  runWith readers files arguments

/-- The paths that a run of the program can look at. -/
def paths (arguments : List String) : List String :=
  match readers.commandLine arguments with
  | .error _ => []
  | .ok invocation =>
      invocation.configFile.getD defaultConfigPath :: invocation.bin.toList

end Program

end I386
