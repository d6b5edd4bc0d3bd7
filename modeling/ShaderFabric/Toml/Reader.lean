/-
# Reading TOML

A text is a sequence of lines: key-value pairs, headers of tables, headers of elements of arrays
of tables.  The pairs after a header belong to the table it opens, and the table is put into the
tree when the next header comes or the text ends.

A header may reopen a table only while it is implicit and not one of dotted keys; the table then
moves behind its siblings.
-/
import ShaderFabric.Toml.Value

namespace ShaderFabric

namespace Toml

/-! ## 1. Tables by path -/

/-- What a path leads to, the last element standing for an array of tables.  The outer `none` is a
path through a value, the inner one a path to nothing. -/
def entryAt : List String → List (String × Entry) → Option (Option Entry)
  | [], _ => none
  | [name], entries => some (lookup name entries)
  | part :: parts, entries =>
    match lookup part entries with
    | none => some none
    | some (.value _) => none
    | some (.table _ _ inner) => entryAt parts inner
    | some (.tables elements) =>
      match elements.getLast? with
      | some (.table _ _ inner) => entryAt parts inner
      | _ => none

/-- Changes the table at a path, making implicit tables on the way. -/
def changeAt (change : List (String × Entry) → List (String × Entry)) :
    List String → List (String × Entry) → Option (List (String × Entry))
  | [], entries => some (change entries)
  | part :: parts, entries =>
    match (lookup part entries).getD (.table true false []) with
    | .value _ => none
    | .table isImplicit isDotted inner => do
      let inner ← changeAt change parts inner
      return store part (.table isImplicit isDotted inner) entries
    | .tables elements =>
      match elements.reverse with
      | .table isImplicit isDotted inner :: earlier => do
        let inner ← changeAt change parts inner
        return store part (.tables (.table isImplicit isDotted inner :: earlier).reverse) entries
      | _ => none

/-! ## 2. The table being read -/

/-- Where the pairs of the current lines go. -/
inductive Place
  | root
  | table (path : List String)
  | element (path : List String)

/-- The finished part of the tree, and the table that is being read. -/
structure Progress where
  root : List (String × Entry)
  place : Place
  current : List (String × Entry)

namespace Progress

def start : Progress := ⟨[], .root, []⟩

/-- Adds an element to the array of tables of a name. -/
def addElement (name : String) (element : Entry) (entries : List (String × Entry)) :
    List (String × Entry) :=
  match lookup name entries with
  | some (.tables elements) => store name (.tables (elements ++ [element])) entries
  | _ => store name (.tables [element]) entries

/-- Puts the table that is being read into the tree. -/
def close (progress : Progress) : Option (List (String × Entry)) :=
  match progress.place with
  | .root => some progress.current
  | .table path =>
    let name := path.getLast?.getD ""
    let finished := Entry.table false false progress.current
    changeAt (fun entries => entries.filter (·.1 ≠ name) ++ [(name, finished)]) path.dropLast
      progress.root
  | .element path =>
    let name := path.getLast?.getD ""
    changeAt (addElement name (.table false false progress.current)) path.dropLast progress.root

/-- The header of a table. -/
def openTable (path : List String) (progress : Progress) : Option Progress := do
  let root ← progress.close
  match ← entryAt path root with
  | none => return ⟨root, .table path, []⟩
  | some (.table true false entries) => return ⟨root, .table path, entries⟩
  | some _ => none

/-- The header of an element of an array of tables. -/
def openElement (path : List String) (progress : Progress) : Option Progress := do
  let root ← progress.close
  match ← entryAt path root with
  | none | some (.tables _) => return ⟨root, .element path, []⟩
  | some _ => none

/-- A key-value pair. -/
def add (key : List String) (value : Document) (progress : Progress) : Option Progress := do
  let current ← addKey false value key true progress.current
  return { progress with current }

end Progress

/-! ## 3. Lines -/

/-- The rest of a line after what it says: blanks, a comment, and its end. -/
def endLine? (cs : List Char) : Option (List Char) :=
  match skipComment (cs.dropWhile isBlank) with
  | [] => some []
  | rest => lineEnd? rest

/-- One line that says something. -/
def line? (cs : List Char) (progress : Progress) : Option (Progress × List Char) :=
  match cs with
  | '[' :: '[' :: rest => do
    let (path, rest) ← key? rest
    let rest ← mark? ']' rest
    let rest ← mark? ']' rest
    return (← progress.openElement path, ← endLine? rest)
  | '[' :: rest => do
    let (path, rest) ← key? rest
    let rest ← mark? ']' rest
    return (← progress.openTable path, ← endLine? rest)
  | _ => do
    let (key, rest) ← key? cs
    let rest ← mark? '=' rest
    let (value, rest) ← value? depthLimit (rest.length + 1) (rest.dropWhile isBlank)
    return (← progress.add key value, ← endLine? rest)

/-- The lines of a text; the allowance is spent one a line. -/
def lines? : Nat → List Char → Progress → Option Progress
  | 0, _, _ => none
  | fuel + 1, cs, progress =>
    match cs.dropWhile isBlank with
    | [] => some progress
    | '#' :: rest => do lines? fuel (← endLine? ('#' :: rest)) progress
    | cs =>
      match lineEnd? cs with
      | some rest => lines? fuel rest progress
      | none => do
        let (progress, rest) ← line? cs progress
        lines? fuel rest progress

/-- Reads a TOML text; a byte order mark may stand first. -/
def read (text : String) : Option Document := do
  let cs := match text.toList with
    | '\uFEFF' :: rest => rest
    | cs => cs
  let progress ← lines? (cs.length + 1) cs .start
  let root ← progress.close
  return .object (Entry.members root)

end Toml

end ShaderFabric
