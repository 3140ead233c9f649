import I386.Program

/-!
Contract: the program on a host.

Owns:
- reading the files that a run can look at, and the reasons a host gives for those that it cannot
  read;
- writing the output and the report, and the exit status.

Does not own: any decision of the run itself.
-/

namespace I386.Host

/-- The number of an error, which some calls report with its sign changed. -/
def errorNumber (code : UInt32) : Nat :=
  if code.toNat < 0x80000000 then code.toNat else 0x100000000 - code.toNat

/-- A reason as a host gives it: its words, with a capital first letter, and its number. -/
def reason (words : String) (code : UInt32) : String :=
  words.capitalize ++ " (os error " ++ toString (errorNumber code) ++ ")"

/-- Why a file cannot be read. -/
def readError : IO.Error → ReadError
  | .noFileOrDirectory _ code words => ⟨true, reason words code⟩
  | .alreadyExists _ code words => ⟨false, reason words code⟩
  | .otherError code words => ⟨false, reason words code⟩
  | .resourceBusy code words => ⟨false, reason words code⟩
  | .resourceVanished code words => ⟨false, reason words code⟩
  | .unsupportedOperation code words => ⟨false, reason words code⟩
  | .hardwareFault code words => ⟨false, reason words code⟩
  | .unsatisfiedConstraints code words => ⟨false, reason words code⟩
  | .illegalOperation code words => ⟨false, reason words code⟩
  | .protocolError code words => ⟨false, reason words code⟩
  | .timeExpired code words => ⟨false, reason words code⟩
  | .interrupted _ code words => ⟨false, reason words code⟩
  | .invalidArgument _ code words => ⟨false, reason words code⟩
  | .permissionDenied _ code words => ⟨false, reason words code⟩
  | .resourceExhausted _ code words => ⟨false, reason words code⟩
  | .inappropriateType _ code words => ⟨false, reason words code⟩
  | .noSuchThing _ code words => ⟨false, reason words code⟩
  | .unexpectedEof => ⟨false, "unexpected end of file"⟩
  | .userError words => ⟨false, words⟩

/-- Whether something is found at a path, and what reading it gives. -/
def readState (path : String) : IO FileState := do
  let isFound ←
    try
      let _ ← IO.FS.realPath path
      pure true
    catch _ => pure false
  let contents ←
    try
      let bytes ← IO.FS.readBinFile path
      pure (.ok bytes)
    catch error => pure (.error (readError error))
  return ⟨isFound, contents⟩

/-- The files at some paths; nothing is at any other. -/
def readFiles (paths : List String) : IO Files := do
  let states ← paths.mapM fun path => do
    let state ← readState path
    return (path, state)
  return fun path =>
    match states.find? (·.1 = path) with
    | some (_, state) => state
    | none => .missing

end I386.Host

open I386 in
/-- Run the program on the command line's arguments. -/
def main (arguments : List String) : IO UInt32 := do
  let files ← Host.readFiles (Program.paths arguments)
  let outcome := Program.run files arguments
  IO.print outcome.text
  match outcome with
  | .misused usage => IO.eprintln usage
  | .stopped (.crash crash) => IO.eprintln crash.message
  | _ =>
      match outcome.report? with
      | some report => IO.eprintln report
      | none => pure ()
  return outcome.status
