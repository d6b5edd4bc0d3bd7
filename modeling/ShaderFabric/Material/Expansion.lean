/-
# Expanding the template of a fabric

A fabric may start from a template, whose fabric may start from another one.  `Fabric.lineage`
follows the names; it ends in an error when a name comes back or is not known.  `Fabric.expand`
then lays the fabrics of the lineage over each other, the nearer over the farther:

* of a uniform, a sub-material or a source, the nearest one counts;
* components may be defined once in the whole lineage;
* members without a meaning are those of the fabric on top;
* the rule for blending is that of the nearest template which ever blends.

Component `fabric`: `expand_type`, `merge`.
-/
import ShaderFabric.Template.Library

namespace ShaderFabric

/-- Which kind of declaration an error speaks of. -/
inductive Declares
  | uniform
  | material
  deriving Repr, DecidableEq

/-- Why a node does not resolve. -/
inductive Cause
  | bothBodies
  | selfReference (typeName : String)
  | componentsTwice (typeName : String)
  | duplicateName (name : String)
  | unused (kind : Declares) (name : String)
  | unknownType (name : String)
  | invalidComponent (name : String)
  | invalidShape (name : String) (reason : ShapeError)
  | reservedName (kind : Declares) (name : String)
  | unknownField (field : String)
  | unknownReference (name component : String)
  /-- A template has itself among its sub-materials. -/
  | endless
  deriving Repr, DecidableEq

/-- The fabrics a fabric starts from, nearest first, each under the name it was asked for. -/
abbrev Lineage := List (String × Template)

/-- Follows the names of templates from one name on; `visited` are the names already met, and the
allowance is the number of templates there are. -/
def lineageFrom (library : Library) : Nat → List String → Option String → Except Cause Lineage
  | _, _, none => .ok []
  | fuel, visited, some name =>
    if name ∈ visited then .error (.selfReference name)
    else
      match library.get? name with
      | none => .error (.unknownType name)
      | some template =>
        match fuel with
        | 0 => .error (.selfReference name)
        | fuel + 1 => do
          let rest ← lineageFrom library fuel (visited ++ [name]) template.fabric.typeName
          return (name, template) :: rest

/-- The lineage of a fabric. -/
def Fabric.lineage (library : Library) (fabric : Fabric) : Except Cause Lineage :=
  lineageFrom library library.size [] fabric.typeName

/-- A fabric with its templates laid under it. -/
structure Expanded where
  uniforms : List (String × Literal)
  materials : List (String × Fabric)
  components : Option (List (String × String))
  source : Option String
  /-- Members that mean nothing here. -/
  unknown : List (String × Document)
  translucency : Translucency

/-- A fabric on its own. -/
def Expanded.ofFabric (fabric : Fabric) : Expanded :=
  ⟨fabric.uniforms, fabric.materials, fabric.components, fabric.source, fabric.unknown, .never⟩

/-- Lays a fabric over what its template expands to. -/
def Expanded.under (base : Expanded) (fabric : Fabric) (name : String) (rule : Translucency) :
    Except Cause Expanded :=
  if base.components.isSome ∧ fabric.components.isSome then .error (.componentsTwice name)
  else .ok
    { uniforms := Table.override base.uniforms fabric.uniforms
      materials := Table.override base.materials fabric.materials
      components := fabric.components.or base.components
      source := fabric.source.or base.source
      unknown := fabric.unknown
      translucency := rule.orElse base.translucency }

/-- Lays a fabric over its lineage. -/
def Fabric.expandOver (fabric : Fabric) : Lineage → Except Cause Expanded
  | [] => .ok (Expanded.ofFabric fabric)
  | (name, template) :: rest => do
    let base ← expandOver template.fabric rest
    base.under fabric name template.translucency

/-- Expands the template of a fabric. -/
def Fabric.expand (library : Library) (fabric : Fabric) : Except Cause Expanded := do
  fabric.expandOver (← fabric.lineage library)

end ShaderFabric
