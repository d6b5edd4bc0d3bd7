/-
# Uniform literals

A literal is a uniform's value as it is written down, before it is known which type of the shading
language it has: a scalar, a row of numbers, a text, an object with named fields, a location, or
an image.

`Literal.ofDocument` reads a literal from data and `Literal.toDocument?` writes it; an image has no
written form.

Component `fabric`: `UniformValue` and its written form.
-/
import ShaderFabric.Document
import ShaderFabric.Uniform.Image

namespace ShaderFabric

/-! ## 1. What can be wrong with data -/

/-- Why data describes no fabric. -/
inductive Fault
  /-- The text is not well formed, or a value has the wrong shape. -/
  | form
  /-- A uniform is null. -/
  | nullUniform
  /-- The components are no object. -/
  | components
  /-- An image is to be written. -/
  | pixels
  deriving Repr, DecidableEq

/-- The text of a fault that has one of its own. -/
def Fault.message? : Fault → Option String
  | .form => none
  | .nullUniform => some "uniform values must not be null"
  | .components => some "a map of component names to expressions"
  | .pixels => some "in-memory images cannot be serialized"

/-! ## 2. Literals -/

/-- A field of an object. -/
inductive Field
  | number (value : Double)
  | text (value : String)
  deriving Repr, DecidableEq

/-- A uniform's value as written. -/
inductive Literal
  | bool (value : Bool)
  | number (value : Double)
  | sequence (values : List Double)
  | text (value : String)
  | object (fields : Table Field)
  | location (location : Location)
  | image (image : Image)
  deriving DecidableEq

/-- The neutral image every renderer has. -/
def neutralImage : String := "fabric_defaultImage"

/-- The neutral cube map every renderer has. -/
def neutralCube : String := "fabric_defaultCubeMap"

/-- The keys of the six faces of a cube map, in the order of its layers. -/
def faceKeys : List String :=
  ["positiveX", "negativeX", "positiveY", "negativeY", "positiveZ", "negativeZ"]

namespace Literal

/-- The object of some numbers. -/
def numbers (fields : List (String × Double)) : Literal :=
  .object (Table.ofList (fields.map fun field => (field.1, .number field.2)))

/-- The object of some texts. -/
def texts (fields : List (String × String)) : Literal :=
  .object (Table.ofList (fields.map fun field => (field.1, .text field.2)))

/-- A vector of two numbers by name. -/
def xy (x y : Double) : Literal := numbers [("x", x), ("y", y)]

/-- A vector of three numbers by name. -/
def xyz (x y z : Double) : Literal := numbers [("x", x), ("y", y), ("z", z)]

/-- A colour by name. -/
def color (red green blue alpha : Double) : Literal :=
  numbers [("red", red), ("green", green), ("blue", blue), ("alpha", alpha)]

/-- A cube map from the places of its faces, in the order of `faceKeys`. -/
def cube (urls : List String) : Literal := texts (faceKeys.zip urls)

/-! ## 3. Literals and data -/

/-- A number of a sequence. -/
def numberOf : Document → Except Fault Double
  | .int value => .ok (Double.ofInt value)
  | .float value => .ok value
  | _ => .error .form

/-- A field of an object. -/
def fieldOf : Document → Except Fault Field
  | .int value => .ok (.number (Double.ofInt value))
  | .float value => .ok (.number value)
  | .text value => .ok (.text value)
  | _ => .error .form

/-- The fields of an object, in written order. -/
def fieldsOf : List (String × Document) → Except Fault (List (String × Field))
  | [] => .ok []
  | (name, value) :: rest => do
    let field ← fieldOf value
    let fields ← fieldsOf rest
    return (name, field) :: fields

/-- Reads a literal. -/
def ofDocument : Document → Except Fault Literal
  | .null => .error .nullUniform
  | .bool value => .ok (.bool value)
  | .int value => .ok (.number (Double.ofInt value))
  | .float value => .ok (.number value)
  | .text value => .ok (.text value)
  | .list items => do return .sequence (← items.mapM numberOf)
  | .object members => do return .object (Table.ofList (← fieldsOf members))
  | .unread => .error .form

/-- A field as data. -/
def fieldDocument : Field → Document
  | .number value => .float value
  | .text value => .text value

/-- A literal as data; a location is written as its address. -/
def toDocument? : Literal → Option Document
  | .bool value => some (.bool value)
  | .number value => some (.float value)
  | .sequence values => some (.list (values.map .float))
  | .text value => some (.text value)
  | .object fields => some (.object (Table.mapValues fieldDocument fields))
  | .location place => some (.text place.url)
  | .image _ => none

/-! ## 4. Equality as numbers -/

/-- Rows of the same numbers. -/
def sameNumbers : List Double → List Double → Bool
  | [], [] => true
  | x :: xs, y :: ys => x.sameNumber y && sameNumbers xs ys
  | _, _ => false

/-- The same field. -/
def sameField : Field → Field → Bool
  | .number x, .number y => x.sameNumber y
  | .text a, .text b => a = b
  | _, _ => false

/-- The same fields. -/
def sameFields : Table Field → Table Field → Bool
  | [], [] => true
  | (k, a) :: as, (l, b) :: bs => k = l && sameField a b && sameFields as bs
  | _, _ => false

/-- The same literal, numbers compared as numbers. -/
def same : Literal → Literal → Bool
  | .bool a, .bool b => a = b
  | .number x, .number y => x.sameNumber y
  | .sequence xs, .sequence ys => sameNumbers xs ys
  | .text a, .text b => a = b
  | .object as, .object bs => sameFields as bs
  | .location a, .location b => a = b
  | .image a, .image b => a = b
  | _, _ => false

end Literal

end ShaderFabric
