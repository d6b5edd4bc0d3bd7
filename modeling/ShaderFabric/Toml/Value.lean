/-
# Values and keys of TOML

Keys with dots, arrays, and inline tables.  The members of an inline table may have dotted keys,
which build inner tables; such an inner table may be extended by further dotted keys of the same
inline table, and by nothing else.

The readers of nested values carry two counters: how many more containers may be opened, and an
allowance that each step spends and that the length of the text always covers.
-/
import ShaderFabric.Toml.Scalar

namespace ShaderFabric

namespace Toml

/-! ## 1. Keys -/

/-- A dotted key must have fewer parts than this. -/
def keyLimit : Nat := 80

/-- One part of a key. -/
def simpleKey? (cs : List Char) : Option (String × List Char) :=
  match cs with
  | '"' :: rest => basic [] rest
  | '\'' :: rest => literal [] rest
  | _ =>
    let bare := cs.takeWhile isBare
    if bare.isEmpty then none else some (String.ofList bare, cs.drop bare.length)

/-- The parts of a dotted key, with the blanks around them. -/
def keyParts? : Nat → List Char → Option (List String × List Char)
  | 0, _ => none
  | fuel + 1, cs => do
    let (part, rest) ← simpleKey? (cs.dropWhile isBlank)
    match rest.dropWhile isBlank with
    | '.' :: rest =>
      let (parts, rest) ← keyParts? fuel rest
      return (part :: parts, rest)
    | rest => return ([part], rest)

/-- A dotted key. -/
def key? (cs : List Char) : Option (List String × List Char) := keyParts? (keyLimit - 1) cs

/-! ## 2. Entries -/

/-- What a name of a table stands for.  A table is `implicit` while only paths through it have been
seen, and `dotted` when dotted keys have made it. -/
inductive Entry
  | value (document : Document)
  | table (implicit dotted : Bool) (entries : List (String × Entry))
  | tables (elements : List Entry)

namespace Entry

mutual

/-- The data of an entry. -/
def document : Entry → Document
  | value document => document
  | table _ _ entries => .object (members entries)
  | tables elements => .list (items elements)

def members : List (String × Entry) → List (String × Document)
  | [] => []
  | (name, entry) :: rest => (name, document entry) :: members rest

def items : List Entry → List Document
  | [] => []
  | entry :: rest => document entry :: items rest

end

end Entry

/-- The entry of a name. -/
def lookup (name : String) : List (String × Entry) → Option Entry
  | [] => none
  | (key, entry) :: rest => if key = name then some entry else lookup name rest

/-- Replaces the entry of a name in its place, or adds it at the end. -/
def store (name : String) (entry : Entry) : List (String × Entry) → List (String × Entry)
  | [] => [(name, entry)]
  | (key, old) :: rest =>
    if key = name then (key, entry) :: rest else (key, old) :: store name entry rest

/-- Adds a key with its value to a table.  `dotted` says whether dotted keys have made the table.
The parts before the last lead through tables that no header has opened; the table where the last
part is stored must be one of dotted keys exactly when there are such parts. -/
def addKey (dotted : Bool) (value : Document) :
    List String → Bool → List (String × Entry) → Option (List (String × Entry))
  | [], _, _ => none
  | [name], plain, entries =>
    if dotted = plain then none
    else
      match lookup name entries with
      | some _ => none
      | none => some (entries ++ [(name, .value value)])
  | part :: parts, _, entries =>
    match (lookup part entries).getD (.table true true []) with
    | .value _ => none
    | .table isImplicit isDotted inner =>
      if isImplicit then do
        let inner ← addKey isDotted value parts false inner
        return store part (.table isImplicit isDotted inner) entries
      else none
    | .tables elements =>
      match elements.reverse with
      | .table isImplicit isDotted inner :: earlier => do
        let inner ← addKey isDotted value parts false inner
        return store part (.tables (.table isImplicit isDotted inner :: earlier).reverse) entries
      | _ => none

/-- Adds the key-value pairs of an inline table in order. -/
def addKeys (pairs : List (List String × Document)) : Option (List (String × Entry)) :=
  pairs.foldlM (fun entries pair => addKey false pair.2 pair.1 true entries) []

/-! ## 3. Values -/

/-- A container inside this many others is not entered. -/
def depthLimit : Nat := 79

/-- The end of a line, if one is here. -/
def lineEnd? : List Char → Option (List Char)
  | '\n' :: rest => some rest
  | '\r' :: '\n' :: rest => some rest
  | _ => none

/-- A comment, if one is here, up to its last character. -/
def skipComment : List Char → List Char
  | '#' :: rest => rest.dropWhile isPlain
  | cs => cs

/-- Blanks, comments and line ends between the items of an array; a comment must end with its
line. -/
def skipLines : Nat → List Char → Option (List Char)
  | 0, cs => some cs
  | fuel + 1, cs =>
    let cs := cs.dropWhile isBlank
    match lineEnd? (skipComment cs) with
    | some rest => skipLines fuel rest
    | none => if cs.head? = some '#' then none else some cs

mutual

/-- A value; `depth` more containers may be opened. -/
def value? (depth : Nat) : Nat → List Char → Option (Document × List Char)
  | 0, _ => none
  | fuel + 1, cs =>
    match cs with
    | '[' :: rest =>
      if depth = 0 then none
      else (items? (depth - 1) fuel rest).map fun (items, rest) => (.list items, rest)
    | '{' :: rest =>
      if depth = 0 then none
      else
        match rest.dropWhile isBlank with
        | '}' :: rest => some (.object [], rest)
        | rest => do
          let (pairs, rest) ← pairs? (depth - 1) fuel rest
          let entries ← addKeys pairs
          return (.object (Entry.members entries), rest)
    | _ => scalar? cs

/-- The items of an array up to its closing bracket; a comma may follow the last one. -/
def items? (depth : Nat) : Nat → List Char → Option (List Document × List Char)
  | 0, _ => none
  | fuel + 1, cs => do
    match ← skipLines cs.length cs with
    | ']' :: rest => return ([], rest)
    | cs =>
      let (item, rest) ← value? depth fuel cs
      match ← skipLines rest.length rest with
      | ']' :: rest => return ([item], rest)
      | ',' :: rest =>
        let (items, rest) ← items? depth fuel rest
        return (item :: items, rest)
      | _ => none

/-- The pairs of an inline table up to its closing brace, on one line and without a comma after
the last one. -/
def pairs? (depth : Nat) : Nat → List Char → Option (List (List String × Document) × List Char)
  | 0, _ => none
  | fuel + 1, cs => do
    let (key, rest) ← key? cs
    let rest ← mark? '=' rest
    let (value, rest) ← value? depth fuel (rest.dropWhile isBlank)
    match rest.dropWhile isBlank with
    | '}' :: rest => return ([(key, value)], rest)
    | ',' :: rest =>
      let (pairs, rest) ← pairs? depth fuel rest
      return ((key, value) :: pairs, rest)
    | _ => none

end

end Toml

end ShaderFabric
