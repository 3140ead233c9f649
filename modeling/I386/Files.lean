/-!
Contract: the files that a run of the program can see.

Owns:
- what a host says about a path: whether something is found there, and its contents or why they
  cannot be read;
- the view of all files that a run is given;
- a working directory as a value, with the directories that it is in, and what is said about a path
  as what a walk along its parts finds.

To be found and to be read are two questions, and a host may answer them differently: a directory is
found and cannot be read, and what lies behind a path that cannot be followed is not even found.

A walk visits what it passes: a part that leads back out of a directory needs that directory to be
there.

Does not own: access to the files of a host.
-/

namespace I386

/-- Why a host gives no contents. -/
structure ReadError where
  /-- The host says that nothing is there. -/
  isMissing : Bool
  /-- The reason in its words. -/
  reason : String
deriving DecidableEq, Repr

/-- What a host says about a path. -/
structure FileState where
  /-- Something is found at the path. -/
  isFound : Bool
  /-- What reading it gives. -/
  contents : Except ReadError ByteArray

/-- What is said about every path. -/
abbrev Files := String → FileState

namespace FileState

/-- Why contents are no text. -/
def encodingReason : String := "stream did not contain valid UTF-8"

/-- Nothing is there. -/
def missing : FileState :=
  ⟨false, .error ⟨true, "No such file or directory (os error 2)"⟩⟩

/-- A file with contents. -/
def file (bytes : ByteArray) : FileState :=
  ⟨true, .ok bytes⟩

/-- A directory. -/
def directory : FileState :=
  ⟨true, .error ⟨false, "Is a directory (os error 21)"⟩⟩

/-- A path that leads on from a file. -/
def behindFile : FileState :=
  ⟨false, .error ⟨false, "Not a directory (os error 20)"⟩⟩

/-- A path that is too long, or has a part that is. -/
def tooLong : FileState :=
  ⟨false, .error ⟨false, "File name too long (os error 36)"⟩⟩

end FileState

/-- What a name in a directory stands for. -/
inductive DirectoryEntry where
  | file (bytes : ByteArray)
  | directory (entries : List (String × DirectoryEntry))

/-- A directory: its entries by name, and the entries of the directories that it is in, the
innermost first and the root last. -/
structure Directory where
  entries : List (String × DirectoryEntry)
  around : List (List (String × DirectoryEntry))

namespace Directory

/-- The directory that a directory is in; the root is in itself. -/
def parent (directory : Directory) : Directory :=
  match directory.around with
  | [] => directory
  | entries :: around => ⟨entries, around⟩

/-- The outermost directory. -/
def root (directory : Directory) : Directory :=
  ⟨directory.around.getLastD directory.entries, []⟩

/-- A directory inside of a directory. -/
def enter (directory : Directory) (entries : List (String × DirectoryEntry)) : Directory :=
  ⟨entries, directory.entries :: directory.around⟩

/-- The bytes that the name of an entry can have. -/
def nameLimit : Nat := 255

/-- The bytes that a path can have. -/
def pathLimit : Nat := 4095

/-- What a walk along the parts of a path finds. An empty part and a dot stay where they are, two
dots lead out. Nothing leads on from a file, not even an empty part. -/
def walk (directory : Directory) : List String → FileState
  | [] => .directory
  | part :: rest =>
      if part = "" ∨ part = "." then
        directory.walk rest
      else if part = ".." then
        directory.parent.walk rest
      else if part.utf8ByteSize > nameLimit then
        .tooLong
      else
        match directory.entries.find? (·.1 = part) with
        | none => .missing
        | some (_, .file bytes) =>
            if rest.isEmpty then .file bytes
            else .behindFile
        | some (_, .directory entries) => (directory.enter entries).walk rest

/-- The parts of a path between its slashes. -/
def pathParts (path : String) : List String :=
  (path.toList.splitOn '/').map String.ofList

/-- The files of a working directory. A path that begins with a slash starts at the root; the
empty path leads nowhere. -/
def files (directory : Directory) : Files := fun path =>
  if path = "" then
    .missing
  else if path.utf8ByteSize > pathLimit then
    .tooLong
  else
    match pathParts path with
    | "" :: rest => directory.root.walk rest
    | parts => directory.walk parts

end Directory

end I386
