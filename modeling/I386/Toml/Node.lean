import I386.Toml.Scalar

/-!
Contract: the tree that a TOML document describes.

Owns:
- values, tables and arrays of tables, entries in the order in which they appeared;
- how a table came about, which decides what may still be added to it;
- putting something at a key, and following a path of keys.

Does not own: the text of documents.
-/

namespace I386.Toml

/-- How a table came about. -/
inductive Origin where
  /-- It has a header of its own, or stands between braces. -/
  | explicit
  /-- A header of a table below it mentioned it. -/
  | mentioned
  /-- A dotted key went through it. -/
  | dotted
deriving DecidableEq, Repr

/-- A part of a document. -/
inductive Node where
  | scalar (value : Scalar)
  | array (elements : List Node)
  /-- A table between braces. -/
  | inline (origin : Origin) (entries : List (String × Node))
  /-- A table with a header, or above one. -/
  | table (origin : Origin) (entries : List (String × Node))
  /-- An array of tables with headers, in order. -/
  | tables (elements : List (List (String × Node)))

/-- The entries of a table, in order. -/
abbrev Entries := List (String × Node)

namespace Entries

/-- Put at a key what `change` makes of what is there. A new key comes last. -/
def update (key : String) (change : Option Node → Option Node) : Entries → Option Entries
  | [] => (change none).map fun node => [(key, node)]
  | (name, node) :: rest =>
      if name = key then (change (some node)).map fun node => (name, node) :: rest
      else (update key change rest).map ((name, node) :: ·)

/-- Put something at a new key. -/
def add (key : String) (node : Node) : Entries → Option Entries :=
  update key fun
    | none => some node
    | some _ => none

/-- What is at a key. -/
def find? (key : String) (entries : Entries) : Option Node :=
  (List.find? (·.1 = key) entries).map (·.2)

/-- The entries without a key. -/
def without (key : String) (entries : Entries) : Entries :=
  List.filter (·.1 ≠ key) entries

/-- Change the last of several tables. -/
def changeLast (change : Entries → Option Entries) : List Entries → Option (List Entries)
  | [] => none
  | [last] => (change last).map fun last => [last]
  | first :: rest => (changeLast change rest).map (first :: ·)

/-- Change the table at the end of a path of headers. Tables on the way that do not exist are made;
of an array of tables the last one is meant. -/
def alongHeaders : List String → (Entries → Option Entries) → Entries → Option Entries
  | [], change, entries => change entries
  | key :: path, change, entries =>
      entries.update key fun
        | none => (alongHeaders path change []).map (.table .mentioned)
        | some (.table origin inner) => (alongHeaders path change inner).map (.table origin)
        | some (.tables elements) =>
            (changeLast (alongHeaders path change) elements).map .tables
        | some _ => none

/-- Put a value at a dotted key of a table. The last table on the way must be one that dotted keys
made; before it there can be tables that were only mentioned, and arrays of tables, of which the
last table is meant. -/
def assign : List String → String → Node → Entries → Option Entries
  | [], key, node, entries => entries.add key node
  | outer :: path, key, node, entries =>
      entries.update outer fun
        | none => (assign path key node []).map (.table .dotted)
        | some (.table .dotted inner) => (assign path key node inner).map (.table .dotted)
        | some (.table .mentioned inner) =>
            if path.isEmpty then none
            else (assign path key node inner).map (.table .mentioned)
        | some (.tables elements) =>
            if path.isEmpty then none
            else (changeLast (assign path key node) elements).map .tables
        | some _ => none

/-- Put a value at a dotted key of a table between braces. -/
def assignInline : List String → String → Node → Entries → Option Entries
  | [], key, node, entries => entries.add key node
  | outer :: path, key, node, entries =>
      entries.update outer fun
        | none => (assignInline path key node []).map (.inline .dotted)
        | some (.inline .dotted inner) =>
            (assignInline path key node inner).map (.inline .dotted)
        | some _ => none

end Entries

end I386.Toml
