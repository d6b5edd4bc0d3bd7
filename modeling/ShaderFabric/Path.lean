/-
# Paths

Paths of files as texts.  The parts of a path are separated by slashes; empty parts and parts `.`
after the first place say nothing.  Cutting a path keeps its spelling up to the cut.
-/

namespace ShaderFabric

namespace Path

/-- Whether the path starts at the root. -/
def isAbsolute (path : String) : Bool := path.toList.head? = some '/'

/-- The path `path` seen from `dir`; an absolute path stays as it is. -/
def join (dir path : String) : String :=
  if isAbsolute path then path
  else
    match dir.toList.getLast? with
    | none => path
    | some last => if last = '/' then dir ++ path else dir ++ "/" ++ path

/-! ## Cutting -/

/-- The last part of a body that says something, and the body before it, both in reverse; `part` is
what has been seen of the part so far. -/
def lastPart (part : List Char) : List Char → Option (List Char × List Char)
  | [] => if part = [] ∨ part = ['.'] then none else some (part, [])
  | c :: before =>
    if c ≠ '/' then lastPart (c :: part) before
    else if part = [] ∨ part = ['.'] then lastPart [] before
    else some (part, before)

/-- A body in reverse without the parts at its end that say nothing. -/
def trimEnd : List Char → List Char
  | '/' :: before => trimEnd before
  | ['.'] => []
  | '.' :: '/' :: before => trimEnd before
  | cs => cs

/-- What stands before the body of a path, and the body: the slash of the root, or a leading dot. -/
def split (path : String) : List Char × List Char :=
  match path.toList with
  | '/' :: body => (['/'], body)
  | ['.'] => (['.'], [])
  | '.' :: '/' :: body => (['.'], '/' :: body)
  | body => ([], body)

/-- The path without its last part; nothing is left of the root or of the empty path. -/
def parent? (path : String) : Option String :=
  let (start, body) := split path
  match lastPart [] body.reverse with
  | some (_, before) => some (String.ofList (start ++ (trimEnd before).reverse))
  | none => if start = ['.'] then some "" else none

/-- The name of the file, if the path ends in one. -/
def fileName? (path : String) : Option String :=
  match lastPart [] (split path).2.reverse with
  | some (part, _) => if part = ['.', '.'] then none else some (String.ofList part)
  | none => none

/-- What follows the last period of the file's name, unless the name starts with it. -/
def extension? (path : String) : Option String := do
  let name ← fileName? path
  let reversed := name.toList.reverse
  let after := reversed.takeWhile (· ≠ '.')
  match reversed.drop after.length with
  | _ :: before => if before.isEmpty then none else some (String.ofList after.reverse)
  | [] => none

end Path

end ShaderFabric
