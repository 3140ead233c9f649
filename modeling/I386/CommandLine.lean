import I386.Invocation

/-!
Contract: the command line.

Owns:
- the options, each of which can be given once, as `--name value` or `--name=value`;
- what is refused as no command line: unknown or repeated options, missing or superfluous values,
  numbers that are none, and words that belong to no option.

A value that stands apart from its option has to be a word, so in general it cannot begin with a
dash, unless it is a dash alone.

Does not own: what the options do.
-/

namespace I386

/-- An argument by its form. -/
inductive Argument where
  /-- A word that can be a value. -/
  | word (text : String)
  /-- An option, with the value after its equals sign if it has one. -/
  | option (name : String) (value : Option String)
  /-- A word after the end of options. -/
  | positional (text : String)
deriving DecidableEq, Repr

namespace Argument

/-- The name and value of an option from the characters after its dashes. -/
def splitOption (cs : List Char) : Argument :=
  let name := cs.takeWhile (· ≠ '=')
  match cs.dropWhile (· ≠ '=') with
  | [] => .option (String.ofList name) none
  | _ :: value => .option (String.ofList name) (some (String.ofList value))

/-- The form of an argument before the end of options.

With a single dash, the name of an option that has an equals sign is one byte, and the rest is its
value. A character of more bytes has no such name, so the argument is a word. All other options of
a single dash keep it in their name, and so are never known. -/
def ofText (text : String) : Argument :=
  match text.toList with
  | '-' :: '-' :: rest => splitOption rest
  | '-' :: c :: rest =>
      if c.utf8Size > 1 ∧ '=' ∈ rest then .word text
      else .option (String.ofList ('-' :: c :: rest)) none
  | _ => .word text

/-- The forms of all arguments. Two dashes alone end the options. -/
def ofTexts : List String → List Argument
  | [] => []
  | text :: rest =>
      if text = "--" then rest.map .positional else ofText text :: ofTexts rest

end Argument

/-- Why arguments are no command line. -/
inductive UsageError where
  | unknownOption (name : String)
  | repeatedOption (name : String)
  | missingValue (name : String)
  | superfluousValue (name : String)
  | badNumber (name : String) (reason : Text.NumeralError)
  | strayWord (text : String)
deriving DecidableEq, Repr

/-- The refusal, as shown to the user. -/
def UsageError.message : UsageError → String
  | .unknownOption name => "Unknown option: --" ++ name
  | .repeatedOption name => "Option given more than once: --" ++ name
  | .missingValue name => "Option needs a value: --" ++ name
  | .superfluousValue name => "Option takes no value: --" ++ name
  | .badNumber name reason => "Bad number for --" ++ name ++ ": " ++ reason.message
  | .strayWord text => "Unexpected argument: " ++ text

namespace Invocation

/-- Give an option that has not been given before. -/
def once {α : Type} (name : String) (current : Option α) (value : α) :
    Except UsageError (Option α) :=
  match current with
  | .none => .ok (some value)
  | .some _ => .error (.repeatedOption name)

/-- Read a decimal number below a bound. -/
def number (name : String) (bound : Nat) (text : String) : Except UsageError Nat :=
  match Text.readNumeral 10 bound text.toList with
  | .ok value => .ok value
  | .error reason => .error (.badNumber name reason)

/-- An option takes a value. -/
def takesValue (name : String) : Bool :=
  ["config_file", "configfile", "hex", "bin", "load_address", "operand_size", "count"].contains
    name

/-- Give an option with a value. -/
def setValue (invocation : Invocation) (name value : String) : Except UsageError Invocation := do
  if name = "config_file" ∨ name = "configfile" then
    return { invocation with configFile := ← once name invocation.configFile value }
  else if name = "hex" then
    return { invocation with hex := ← once name invocation.hex value }
  else if name = "bin" then
    return { invocation with bin := ← once name invocation.bin value }
  else if name = "load_address" then
    return { invocation with loadAddress := ← once name invocation.loadAddress value }
  else if name = "operand_size" then
    let bits ← number name Text.wordCount value
    return { invocation with
      operandSize := ← once name invocation.operandSize (UInt32.ofNat bits) }
  else if name = "count" then
    let count ← number name 0x10000000000000000 value
    return { invocation with count := ← once name invocation.count (UInt64.ofNat count) }
  else if name = "trace" then
    throw (.superfluousValue name)
  else
    throw (.unknownOption name)

/-- Give an option without a value. -/
def setFlag (invocation : Invocation) (name : String) : Except UsageError Invocation :=
  if name = "trace" then
    if invocation.trace then .error (.repeatedOption name)
    else .ok { invocation with trace := true }
  else if takesValue name then
    .error (.missingValue name)
  else
    .error (.unknownOption name)

/-- Give the options of a command line, from the front. -/
def addAll (invocation : Invocation) : List Argument → Except UsageError Invocation
  | [] => .ok invocation
  | .option name (some value) :: rest => do
      let invocation ← invocation.setValue name value
      invocation.addAll rest
  | .option name .none :: .word value :: rest =>
      if takesValue name then do
        let invocation ← invocation.setValue name value
        invocation.addAll rest
      else do
        let invocation ← invocation.setFlag name
        invocation.addAll (.word value :: rest)
  | .option name .none :: rest => do
      let invocation ← invocation.setFlag name
      invocation.addAll rest
  | .word text :: _ => .error (.strayWord text)
  | .positional text :: _ => .error (.strayWord text)

/-- Read a command line. -/
def ofArguments (arguments : List String) : Except UsageError Invocation :=
  none.addAll (Argument.ofTexts arguments)

end Invocation

end I386
