/-
# Documents

The data that the two text formats describe: scalars, lists, and objects whose members keep the
order in which they were written, repeated names included.  A document that could be read only up
to some point carries the leaf `unread` there, so that a decoder that walks it in written order
meets the mistakes of meaning and the mistakes of form in the order of the text.
-/
import ShaderFabric.Number.Double
import ShaderFabric.Table

namespace ShaderFabric

/-- A tree of data. -/
inductive Document
  | null
  | bool (value : Bool)
  | int (value : Int)
  | float (value : Double)
  | text (value : String)
  | list (items : List Document)
  | object (members : List (String × Document))
  /-- The text could not be read from here on. -/
  | unread
  deriving Inhabited

/-- What reading a text gives: the tree, and whether the text ended where the tree did. -/
structure Reading where
  document : Document
  complete : Bool

namespace Document

/-! ## 1. Equality of data -/

mutual

/-- Same data: members in the same order, floats as numbers. -/
def same : Document → Document → Bool
  | null, null => true
  | bool a, bool b => a = b
  | int a, int b => a = b
  | float a, float b => a.sameNumber b
  | text a, text b => a = b
  | list a, list b => sameItems a b
  | object a, object b => sameMembers a b
  | _, _ => false

def sameItems : List Document → List Document → Bool
  | [], [] => true
  | a :: as, b :: bs => same a b && sameItems as bs
  | _, _ => false

def sameMembers : List (String × Document) → List (String × Document) → Bool
  | [], [] => true
  | (k, a) :: as, (l, b) :: bs => k = l && same a b && sameMembers as bs
  | _, _ => false

end

/-! ## 2. Data free of order -/

mutual

/-- The same data with members as tables, at every depth: sorted by name, the last of a repeated
name kept.  A float that is no finite number has no place in such data and becomes null. -/
def tidy : Document → Document
  | float x => if x.isFinite then float x else null
  | list items => list (tidyItems items)
  | object members => object (Table.ofList (tidyMembers members))
  | other => other

def tidyItems : List Document → List Document
  | [] => []
  | item :: rest => tidy item :: tidyItems rest

def tidyMembers : List (String × Document) → List (String × Document)
  | [] => []
  | (name, value) :: rest => (name, tidy value) :: tidyMembers rest

end

mutual

/-- Whether the tree has no unread leaf. -/
def readable : Document → Bool
  | unread => false
  | list items => readableItems items
  | object members => readableMembers members
  | _ => true

def readableItems : List Document → Bool
  | [] => true
  | item :: rest => readable item && readableItems rest

def readableMembers : List (String × Document) → Bool
  | [] => true
  | (_, value) :: rest => readable value && readableMembers rest

end

end Document

end ShaderFabric
