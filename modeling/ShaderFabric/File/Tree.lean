/-
# Trees of files

Files held in memory under absolute paths.  A directory is there as soon as something is below it,
and directories may be there on their own.

A path is followed part by part: an empty part and a period stay, two periods go up, and a name goes
down; only a directory can be gone on from.
-/
import ShaderFabric.Path

namespace ShaderFabric

/-- Why a file could not be read or written. -/
inductive FileFault
  | missing
  | notDirectory
  | isDirectory
  | nameTooLong
  | nul
  | other (reason : String)
  deriving Repr, DecidableEq

/-- The words of the operating system. -/
def FileFault.message : FileFault → String
  | missing => "No such file or directory (os error 2)"
  | notDirectory => "Not a directory (os error 20)"
  | isDirectory => "Is a directory (os error 21)"
  | nameTooLong => "File name too long (os error 36)"
  | nul => "file name contained an unexpected NUL byte"
  | other reason => reason

/-- Files holding `α`, by the names on their way from the root. -/
structure FileTree (α : Type) where
  files : List (List String × α)
  directories : List (List String)

namespace FileTree

variable {α : Type}

/-- The parts of a path. -/
def parts (path : String) : List String := (path.toList.splitOn '/').map String.ofList

/-- The names of a path that has no parts of other kinds. -/
def names (path : String) : List String := (parts path).filter fun part => part ≠ "" && part ≠ "."

/-- The tree of files under absolute paths, and of directories. -/
def ofFiles (files : List (String × α)) (directories : List String) : FileTree α where
  files := files.map fun file => (names file.1, file.2)
  directories := directories.map names

/-- Whether there is a directory. -/
def isDirectory (tree : FileTree α) (place : List String) : Bool :=
  place.isEmpty || (tree.directories.any fun other => place.isPrefixOf other)
    || tree.files.any fun file => place.isPrefixOf file.1 && place ≠ file.1

/-- What a path leads to: a file or a directory, with its names. -/
inductive Target (α : Type)
  | file (place : List String) (content : α)
  | directory (place : List String)

/-- The most bytes of a name. -/
def nameLimit : Nat := 255

/-- The bytes that a path has at least when it is too long. -/
def pathLimit : Nat := 4096

/-- Follows parts from a directory. -/
def follow (tree : FileTree α) : List String → List String → Except FileFault (Target α)
  | place, [] => .ok (.directory place)
  | place, part :: rest =>
    if part = "" ∨ part = "." then follow tree place rest
    else if part = ".." then follow tree place.dropLast rest
    else if nameLimit < part.utf8ByteSize then .error .nameTooLong
    else
      let next := place ++ [part]
      match tree.files.lookup next with
      | some content => if rest.isEmpty then .ok (.file next content) else .error .notDirectory
      | none => if tree.isDirectory next then follow tree next rest else .error .missing

/-- What a path leads to. -/
def target (tree : FileTree α) (path : String) : Except FileFault (Target α) :=
  if path.toList.contains '\x00' then .error .nul
  else if path = "" then .error .missing
  else if pathLimit ≤ path.utf8ByteSize then .error .nameTooLong
  else tree.follow [] (parts path)

/-- The content of a file. -/
def read (tree : FileTree α) (path : String) : Except FileFault α := do
  match ← tree.target path with
  | .file _ content => return content
  | .directory _ => throw .isDirectory

/-- Whether there is a file or a directory. -/
def exists? (tree : FileTree α) (path : String) : Bool := (tree.target path).toBool

/-- The tree with a file in a directory that is there; a file of that name is replaced. -/
def write (tree : FileTree α) (path : String) (content : α) : Except FileFault (FileTree α) := do
  let add (place : List String) : FileTree α :=
    { tree with files := (place, content) :: tree.files.filter fun file => file.1 ≠ place }
  match tree.target path with
  | .ok (.file place _) => return add place
  | .ok (.directory _) => throw .isDirectory
  | .error fault =>
    let all := parts path
    match all.getLast? with
    | none => throw fault
    | some name =>
      if path = "" ∨ fault ≠ .missing then throw fault
      if name = "" ∨ name = "." ∨ name = ".." then throw .isDirectory
      match ← tree.follow [] all.dropLast with
      | .directory place => return add (place ++ [name])
      | .file .. => throw .notDirectory

end FileTree

end ShaderFabric
