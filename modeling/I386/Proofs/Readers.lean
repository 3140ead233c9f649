import I386.Program

/-!
Contract: what is expected of readers of command lines and of settings files.

Owns:
- words that give options, and documents that assign settings;
- the laws of readers: words and documents are read as what they were written for.

The laws are about one way to write each option and each setting. Which other words and documents
are read, and in what words they are refused, is left to the readers.

Does not own: readers that obey the laws.
-/

namespace I386

/-- A setting is what is given for it, or as it was if nothing is. -/
structure Replaces {α β : Type} (given? : Option α) (Reads : α → β → Prop) (old new : β) :
    Prop where
  kept : given? = none → new = old
  given : ∀ value, given? = some value → Reads value new

/-! ## Options -/

namespace Invocation

/-- The word that gives an option its value. -/
def optionWord (name value : String) : String :=
  "--" ++ name ++ "=" ++ value

/-- The words that give options, numbers in decimal. -/
def words (invocation : Invocation) : List String :=
  List.flatten [
    (invocation.configFile.map (optionWord "config_file")).toList,
    (invocation.hex.map (optionWord "hex")).toList,
    (invocation.bin.map (optionWord "bin")).toList,
    (invocation.loadAddress.map (optionWord "load_address")).toList,
    (invocation.operandSize.map fun bits =>
      optionWord "operand_size" (toString bits.toNat)).toList,
    if invocation.trace then ["--trace"] else [],
    (invocation.count.map fun count => optionWord "count" (toString count.toNat)).toList]

end Invocation

/-! ## Settings -/

/-- Settings that a document assigns, each once at most. -/
structure Assignments where
  operandSize : Option UInt32
  traceMicroOps : Option Bool
  /-- The integers of a document have 64 bits with a sign. -/
  memorySize : Option (Fin 0x8000000000000000)
  loadAddress : Option UInt32

namespace Assignments

/-- The line that assigns a value to a key. -/
def assignmentLine (key value : String) : String :=
  key ++ " = " ++ value ++ "\n"

/-- The lines of a table: its header and its assignments. -/
def tableLines (name : String) (lines : List String) : List String :=
  ("[" ++ name ++ "]\n") :: lines

/-- The document that assigns the settings. -/
def document (assignments : Assignments) : String :=
  let operandSize := assignments.operandSize.map fun bits =>
    assignmentLine "operand_size" (toString bits.toNat)
  let traceMicroOps := assignments.traceMicroOps.map fun shown =>
    assignmentLine "trace_micro_ops" (toString shown)
  let memorySize := assignments.memorySize.map fun size =>
    assignmentLine "memory_size" (toString size.val)
  let loadAddress := assignments.loadAddress.map fun address =>
    assignmentLine "load_address" (toString address.toNat)
  String.join
    (tableLines "decoder" (operandSize.toList ++ traceMicroOps.toList) ++
      tableLines "machine" (memorySize.toList ++ loadAddress.toList))

end Assignments

/-! ## Laws -/

end I386
