/-
# Looking into documents

Forgiving access for readers that take what they find: a member or an item that is missing is null,
and a document of another form reads as the empty or zero value.
-/
import ShaderFabric.Document

namespace ShaderFabric

namespace Document

/-- The member of a name; the first, if there are several. -/
def get (document : Document) (name : String) : Document :=
  match document with
  | object members => (members.lookup name).getD null
  | _ => null

/-- The items of a list. -/
def items : Document → List Document
  | list values => values
  | _ => []

/-- The members of an object. -/
def members : Document → List (String × Document)
  | object entries => entries
  | _ => []

/-- The item of a list at an index. -/
def nth (document : Document) (index : Nat) : Document := document.items[index]?.getD null

/-- The text, or the empty one. -/
def toText : Document → String
  | text value => value
  | _ => ""

/-- The boolean, or the false one. -/
def toBool : Document → Bool
  | bool value => value
  | _ => false

/-- The natural number, or zero. -/
def toNat : Document → Nat
  | int value => value.toNat
  | _ => 0

/-- The number, or zero. -/
def toDouble : Document → Double
  | int value => Double.ofInt value
  | float value => value
  | _ => .zero

/-- The texts of a list. -/
def toTexts (document : Document) : List String := document.items.map toText

/-- Whether there is nothing. -/
def isNull : Document → Bool
  | null => true
  | _ => false

/-! ## Building -/

def nat (n : Nat) : Document := int n

def nats (values : List Nat) : Document := list (values.map nat)

def texts (values : List String) : Document := list (values.map text)

/-- A value that may be missing. -/
def optional (value : Option Document) : Document := value.getD null

def optionalText (value : Option String) : Document := optional (value.map text)

/-- An object of one member. -/
def single (name : String) (value : Document) : Document := object [(name, value)]

end Document

end ShaderFabric
