import I386.Toml.Value

/-!
Contract: TOML documents.

Owns:
- the lines of a document: headers of tables, headers of arrays of tables, and assignments;
- the tree that they describe, or that they contradict each other.

A table has one header at most. A header can follow the headers of tables below it, but not dotted
keys; a header of an array of tables adds one more each time.

Does not own: what the entries mean.
-/

namespace I386.Toml

/-- A line of a document. -/
inductive Line where
  | header (path : List String)
  | arrayHeader (path : List String)
  | assign (path : List String) (key : String) (node : Node)

/-- Take the header of an array of tables. -/
def arrayHeader : Reader Line := do
  Reader.word ['[', '[']
  let path ← key
  Reader.word [']', ']']
  restOfLine
  return .arrayHeader path

/-- Take the header of a table. -/
def header : Reader Line := do
  Reader.char '['
  let path ← key
  Reader.char ']'
  restOfLine
  return .header path

/-- Take a line that assigns a value. -/
def assignmentLine : Reader Line := do
  let (path, last, node) ← assignment value
  restOfLine
  return .assign path last node

/-- Take a line without contents. It is not empty at the end of the text either. -/
def emptyLine : Reader Unit :=
  newline <|> (do
    comment
    lineEnd)

/-- Take a line, which may have no contents. -/
def line : Reader (Option Line) := do
  spaces
  ((do
    emptyLine
    return none) <|>
    some <$> (arrayHeader <|> header <|> assignmentLine))

/-- Take all lines of a document, which may begin with a byte order mark. -/
def lines : Reader (List Line) := do
  let _ ← Reader.optional (Reader.char (Char.ofNat 0xFEFF))
  let lines ← Reader.many line
  spaces
  Reader.endOfText
  return lines.filterMap id

/-- A document as far as it was read: its entries, and the path of the header that assignments
belong to. -/
structure Draft where
  entries : Entries
  path : List String

namespace Draft

/-- Give a table its header. One that was only mentioned keeps its entries and moves to the end. -/
def openTable (key : String) (entries : Entries) : Option Entries :=
  match entries.find? key with
  | none => some (entries ++ [(key, .table .explicit [])])
  | some (.table .mentioned inner) =>
      some (entries.without key ++ [(key, .table .explicit inner)])
  | some _ => none

/-- Add a table to an array of tables. -/
def addTable (key : String) : Entries → Option Entries :=
  Entries.update key fun
    | none => some (.tables [[]])
    | some (.tables elements) => some (.tables (elements ++ [[]]))
    | some _ => none

/-- Change the table that a path of headers leads to, by its last key. -/
def atHeader (draft : Draft) (path : List String) (change : String → Entries → Option Entries) :
    Option Draft :=
  match path.getLast? with
  | some last =>
      (draft.entries.alongHeaders path.dropLast (change last)).map fun entries =>
        ⟨entries, path⟩
  | none => none

/-- Add a line. -/
def add (draft : Draft) : Line → Option Draft
  | .header path => draft.atHeader path openTable
  | .arrayHeader path => draft.atHeader path addTable
  | .assign path key node =>
      (draft.entries.alongHeaders draft.path (Entries.assign path key node)).map fun entries =>
        { draft with entries }

end Draft

/-- Read a document. -/
def readDocument (text : String) : Option Entries := do
  let (lines, _) ← lines.run text.toList
  let draft ← lines.foldlM Draft.add ⟨[], []⟩
  return draft.entries

end I386.Toml
