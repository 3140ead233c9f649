import I386.Config
import I386.Text.Numeral

/-!
Contract: the options of a run.

Owns:
- the options that can be given;
- how options override settings.

Does not own: how options are written on a command line, and which listing they ask for.
-/

namespace I386

/-- The options that were given. -/
structure Invocation where
  configFile : Option String
  hex : Option String
  bin : Option String
  loadAddress : Option String
  operandSize : Option UInt32
  trace : Bool
  /-- The greatest number of instructions in the listing. -/
  count : Option UInt64
deriving DecidableEq, Repr

/-- No options. -/
def Invocation.none : Invocation :=
  ⟨.none, .none, .none, .none, .none, false, .none⟩

/-- Why options cannot override settings. -/
inductive OverrideError where
  | badOperandSize (bits : UInt32)
  | badLoadAddress (error : Text.NumberError)
deriving DecidableEq, Repr

/-- The error, as shown to the user. -/
def OverrideError.message : OverrideError → String
  | .badOperandSize bits => OperandSize.refusal bits
  | .badLoadAddress error => error.message

namespace Invocation

/-- The settings with the operand size replaced, if one is given. -/
def overrideOperandSize (invocation : Invocation) (config : Config) :
    Except OverrideError Config :=
  match invocation.operandSize with
  | .none => .ok config
  | .some bits =>
      match OperandSize.ofBits? bits with
      | some operandSize => .ok { config with operandSize }
      | .none => .error (.badOperandSize bits)

/-- The settings with the load address replaced, if one is given. -/
def overrideLoadAddress (invocation : Invocation) (config : Config) :
    Except OverrideError Config :=
  match invocation.loadAddress with
  | .none => .ok config
  | .some text =>
      match Text.readNumber text with
      | .ok loadAddress => .ok { config with loadAddress }
      | .error error => .error (.badLoadAddress error)

/-- The settings after the options: the operand size is looked at before the load address, and
transfers can be switched on but not off. -/
def override (invocation : Invocation) (config : Config) : Except OverrideError Config := do
  let config ← invocation.overrideOperandSize config
  let config ← invocation.overrideLoadAddress config
  return { config with traceMicroOps := config.traceMicroOps || invocation.trace }

end Invocation

end I386
