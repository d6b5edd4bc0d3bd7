/-
# The written form of a fabric

`Fabric.ofDocument` reads a fabric from data and `Fabric.toDocument` writes it.  The members are
read in written order, so of several mistakes the first one counts:

* the members `type`, `uniforms`, `materials`, `components` and `source` may appear once each;
* `type` and `source` may be null, which is the same as leaving them out;
* among uniforms, sub-materials and members without a meaning the last of a repeated name stays,
  among components the last expression in the first place.

The text formats only differ in how the data is read: `Fabric.ofJson` and `Fabric.ofToml`.

Component `fabric`: `from_json_str`, `from_toml_str`, `to_json_string`.
-/
import ShaderFabric.Fabric.Basic
import ShaderFabric.Json.Printer
import ShaderFabric.Json.Reader
import ShaderFabric.Toml.Reader

namespace ShaderFabric

namespace Fabric

/-! ## 1. Reading -/

/-- A text that may be null. -/
def optionalText : Document → Except Fault (Option String)
  | .null => .ok none
  | .text value => .ok (some value)
  | _ => .error .form

/-- The uniforms of an object, in written order. -/
def uniformsOf (read : List (String × Literal)) : List (String × Document) →
    Except Fault (List (String × Literal))
  | [] => .ok read
  | (name, value) :: rest => do
    let literal ← Literal.ofDocument value
    uniformsOf (Table.insert read name literal) rest

/-- The components of an object, in written order. -/
def componentsOf (read : List (String × String)) : List (String × Document) →
    Except Fault (List (String × String))
  | [] => .ok read
  | (name, .text expression) :: rest => componentsOf (setComponent name expression read) rest
  | _ => .error .form

/-- The uniforms of a fabric. -/
def uniformTable : Document → Except Fault (List (String × Literal))
  | .object members => uniformsOf [] members
  | _ => .error .form

/-- The components of a fabric. -/
def componentList : Document → Except Fault (Option (List (String × String)))
  | .object members => some <$> componentsOf [] members
  | .unread => .error .form
  | _ => .error .components

/-- The members with a meaning, each allowed once. -/
def knownMembers : List String := ["type", "uniforms", "materials", "components", "source"]

mutual

/-- Reads a fabric. -/
def ofDocument : Document → Except Fault Fabric
  | .object members => ofMembers [] {} members
  | _ => .error .form

/-- Reads the members that follow those already `seen`. -/
def ofMembers (seen : List String) (fabric : Fabric) :
    List (String × Document) → Except Fault Fabric
  | [] => .ok fabric
  | (name, value) :: rest => do
    if name ∈ knownMembers ∧ name ∈ seen then throw .form
    let fabric ←
      if name = "type" then
        (fun typeName => { fabric with typeName }) <$> optionalText value
      else if name = "uniforms" then
        (fun uniforms => { fabric with uniforms }) <$> uniformTable value
      else if name = "materials" then
        (fun materials => { fabric with materials }) <$> materialsOf value
      else if name = "components" then
        (fun components => { fabric with components }) <$> componentList value
      else if name = "source" then
        (fun source => { fabric with source }) <$> optionalText value
      else if value.readable then pure (fabric.withUnknown name value.tidy)
      else throw .form
    ofMembers (name :: seen) fabric rest

/-- Reads the sub-materials. -/
def materialsOf : Document → Except Fault (List (String × Fabric))
  | .object members => childrenOf [] members
  | _ => .error .form

/-- Reads the sub-materials of an object, in written order. -/
def childrenOf (read : List (String × Fabric)) : List (String × Document) →
    Except Fault (List (String × Fabric))
  | [] => .ok read
  | (name, value) :: rest => do
    let child ← ofDocument value
    childrenOf (Table.insert read name child) rest

end

/-- Reads a fabric from a JSON text. -/
def ofJson (text : String) : Except Fault Fabric := do
  let reading := Json.read text
  let fabric ← ofDocument reading.document
  if reading.complete then return fabric else throw .form

/-- Reads a fabric from a TOML text. -/
def ofToml (text : String) : Except Fault Fabric :=
  match Toml.read text with
  | none => .error .form
  | some document => ofDocument document

/-! ## 2. Writing -/

/-- The uniforms as data. -/
def uniformDocuments : List (String × Literal) → Except Fault (List (String × Document))
  | [] => .ok []
  | (name, literal) :: rest =>
    match literal.toDocument? with
    | none => .error .pixels
    | some value => do return (name, value) :: (← uniformDocuments rest)

/-- A member, left out when there is nothing to say. -/
def optionalMember (name : String) (value : Option String) : List (String × Document) :=
  match value with
  | some text => [(name, .text text)]
  | none => []

mutual

/-- Writes a fabric. -/
def toDocument : Fabric → Except Fault Document
  | ⟨typeName, uniforms, materials, components, source, unknown⟩ => do
    let uniforms ← uniformDocuments uniforms
    let materials ← materialDocuments materials
    let components := match components with
      | some entries =>
        [("components", Document.object (entries.map fun entry => (entry.1, .text entry.2)))]
      | none => []
    return .object
      (optionalMember "type" typeName
        ++ (if uniforms.isEmpty then [] else [("uniforms", .object uniforms)])
        ++ (if materials.isEmpty then [] else [("materials", .object materials)])
        ++ components ++ optionalMember "source" source ++ unknown)

def materialDocuments : List (String × Fabric) → Except Fault (List (String × Document))
  | [] => .ok []
  | (name, child) :: rest => do
    let value ← toDocument child
    return (name, value) :: (← materialDocuments rest)

end

/-- Writes a fabric as a JSON text. -/
def toJson (fabric : Fabric) : Except Fault String := do
  return Json.pretty (← toDocument fabric)

end Fabric

end ShaderFabric
