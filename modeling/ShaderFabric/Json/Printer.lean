/-
# Writing JSON

Two layouts: `Json.compact` on one line, and `Json.pretty` with one item a line and two blanks an
inner level, where empty containers stay on one line.
-/
import ShaderFabric.Document

namespace ShaderFabric

namespace Json

/-- A digit of base sixteen, in lower case. -/
def hexChar (n : Nat) : Char := if n < 10 then Char.ofNat (48 + n) else Char.ofNat (87 + n)

/-- The form of a character inside quotes. -/
def escaped (c : Char) : List Char :=
  match c with
  | '"' => ['\\', '"']
  | '\\' => ['\\', '\\']
  | '\x08' => ['\\', 'b']
  | '\x0c' => ['\\', 'f']
  | '\n' => ['\\', 'n']
  | '\r' => ['\\', 'r']
  | '\t' => ['\\', 't']
  | c =>
    if c.toNat < 0x20 then ['\\', 'u', '0', '0', hexChar (c.toNat / 16), hexChar (c.toNat % 16)]
    else [c]

/-- A string with its quotes. -/
def quote (s : String) : String :=
  String.ofList ('"' :: s.toList.flatMap escaped ++ ['"'])

/-- A float; one that is no finite number is written as null. -/
def floatText (x : Double) : String := if x.isFinite then x.toText else "null"

mutual

/-- A document on one line. -/
def compact : Document → String
  | .null | .unread => "null"
  | .bool value => if value then "true" else "false"
  | .int value => toString value
  | .float value => floatText value
  | .text value => quote value
  | .list items => "[" ++ compactItems items ++ "]"
  | .object members => "\x7b" ++ compactMembers members ++ "\x7d"

def compactItems : List Document → String
  | [] => ""
  | [item] => compact item
  | item :: rest => compact item ++ "," ++ compactItems rest

def compactMembers : List (String × Document) → String
  | [] => ""
  | [(name, value)] => quote name ++ ":" ++ compact value
  | (name, value) :: rest => quote name ++ ":" ++ compact value ++ "," ++ compactMembers rest

end

/-- A new line at a level. -/
def lineAt (level : Nat) : String := String.ofList ('\n' :: List.replicate (2 * level) ' ')

mutual

/-- A document over several lines, starting at a level. -/
def layout (level : Nat) : Document → String
  | .null | .unread => "null"
  | .bool value => if value then "true" else "false"
  | .int value => toString value
  | .float value => floatText value
  | .text value => quote value
  | .list [] => "[]"
  | .list (item :: rest) =>
    "[" ++ lineAt (level + 1) ++ layout (level + 1) item ++ layoutItems (level + 1) rest
      ++ lineAt level ++ "]"
  | .object [] => "\x7b\x7d"
  | .object ((name, value) :: rest) =>
    "\x7b" ++ lineAt (level + 1) ++ quote name ++ ": " ++ layout (level + 1) value
      ++ layoutMembers (level + 1) rest ++ lineAt level ++ "\x7d"

def layoutItems (level : Nat) : List Document → String
  | [] => ""
  | item :: rest => "," ++ lineAt level ++ layout level item ++ layoutItems level rest

def layoutMembers (level : Nat) : List (String × Document) → String
  | [] => ""
  | (name, value) :: rest =>
    "," ++ lineAt level ++ quote name ++ ": " ++ layout level value ++ layoutMembers level rest

end

/-- A document over several lines. -/
def pretty (document : Document) : String := layout 0 document

end Json

end ShaderFabric
