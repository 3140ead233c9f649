import I386.Config
import I386.Text.Numeral
import I386.Toml.Document

/-!
Contract: settings in a TOML document.

Owns:
- the tables `decoder` and `machine`, their keys, and the types and ranges of their values;
- what a document is refused for.

Keys and tables that are not known are passed over. An array in the place of a table gives its
keys by position, in the order in which they are declared; a date or time gives none. Keys are read
in the order in which they stand, and the first fault decides.

Does not own: the syntax of documents, and files.
-/

namespace I386

/-- Why a document gives no settings. -/
inductive ConfigError where
  /-- The syntax, or the type or range of a value. -/
  | malformed
  /-- A number of bits that is no operand size. -/
  | badOperandSize (bits : UInt32)
deriving DecidableEq, Repr

/-- The reason in words of its own, if it has any. -/
def ConfigError.detail? : ConfigError → Option String
  | .malformed => none
  | .badOperandSize bits => some (OperandSize.refusal bits)

/-- The error, as shown to the user. It does not say where in the document it is. -/
def ConfigError.message (error : ConfigError) : String :=
  match error.detail? with
  | none => "TOML parse error"
  | some detail => "TOML parse error\n" ++ detail

namespace Config

open Toml

/-- A key of a table: how its value changes the settings. -/
structure Key where
  name : String
  read : Node → Config → Except ConfigError Config

/-- The value of an integer from zero up to a bound. -/
def natural (bound : Nat) : Node → Except ConfigError Nat
  | .scalar (.integer value) =>
      if 0 ≤ value ∧ value < bound then .ok value.toNat else .error .malformed
  | _ => .error .malformed

/-- The value of a truth value. -/
def truth : Node → Except ConfigError Bool
  | .scalar (.boolean value) => .ok value
  | _ => .error .malformed

/-- The operand size, in bits. -/
def operandSizeKey : Key where
  name := "operand_size"
  read node config := do
    let bits := UInt32.ofNat (← natural Text.wordCount node)
    match OperandSize.ofBits? bits with
    | some operandSize => return { config with operandSize }
    | none => throw (.badOperandSize bits)

/-- Whether transfers are shown. -/
def traceMicroOpsKey : Key where
  name := "trace_micro_ops"
  read node config := do
    let traceMicroOps ← truth node
    return { config with traceMicroOps }

/-- The least size of memory, in bytes. -/
def memorySizeKey : Key where
  name := "memory_size"
  read node config := do
    let memorySize ← natural 0x10000000000000000 node
    return { config with memorySize }

/-- The load address. -/
def loadAddressKey : Key where
  name := "load_address"
  read node config := do
    let loadAddress := UInt32.ofNat (← natural Text.wordCount node)
    return { config with loadAddress }

/-- The keys of the table `decoder`, in order. -/
def decoderKeys : List Key :=
  [operandSizeKey, traceMicroOpsKey]

/-- The keys of the table `machine`, in order. -/
def machineKeys : List Key :=
  [memorySizeKey, loadAddressKey]

/-- Read the entries of a table. -/
def readEntries (keys : List Key) (entries : Entries) (config : Config) :
    Except ConfigError Config :=
  entries.foldlM (fun config entry =>
    match keys.find? (·.name = entry.1) with
    | some key => key.read entry.2 config
    | none => .ok config) config

/-- Read the elements of an array as the keys in order; further elements are passed over. -/
def readElements (keys : List Key) (elements : List Node) (config : Config) :
    Except ConfigError Config :=
  (keys.zip elements).foldlM (fun config pair => pair.1.read pair.2 config) config

/-- Read a node in the place of a table. -/
def readTable (keys : List Key) : Node → Config → Except ConfigError Config
  | .inline _ entries, config => readEntries keys entries config
  | .table _ entries, config => readEntries keys entries config
  | .array elements, config => readElements keys elements config
  | .tables elements, config => readElements keys (elements.map (.table .explicit)) config
  | .scalar .dateTime, config => .ok config
  | .scalar _, _ => .error .malformed

/-- The tables of a document. -/
def tables : List Key :=
  [⟨"decoder", readTable decoderKeys⟩, ⟨"machine", readTable machineKeys⟩]

/-- Read settings from a document; those that it does not give have their defaults. -/
def ofDocument (text : String) : Except ConfigError Config :=
  match readDocument text with
  | none => .error .malformed
  | some entries => readEntries tables entries .default

end Config

end I386
