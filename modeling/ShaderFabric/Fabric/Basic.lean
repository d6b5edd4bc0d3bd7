/-
# Fabrics

A fabric is one node of a material tree: an optional template to start from, uniform literals,
sub-materials, and either expressions for surface components or a hand-written body.  Members of
the written form that are none of these are kept, so that a strict reader can refuse them.

Component `fabric`: `Fabric` and what builds one.
-/
import ShaderFabric.Uniform.Literal

namespace ShaderFabric

/-- A node of a material tree, as written. -/
structure Fabric where
  /-- The template the node starts from. -/
  typeName : Option String := none
  uniforms : List (String × Literal) := []
  materials : List (String × Fabric) := []
  /-- Names of components with their expressions, in written order. -/
  components : Option (List (String × String)) := none
  source : Option String := none
  /-- Members that mean nothing here. -/
  unknown : List (String × Document) := []

namespace Fabric

/-- The fabric that says nothing. -/
def empty : Fabric := {}

/-- The fabric that is a template and nothing else. -/
def ofType (name : String) : Fabric := { typeName := some name }

/-! ## 1. Building -/

def withType (fabric : Fabric) (name : String) : Fabric := { fabric with typeName := some name }

def withUniform (fabric : Fabric) (name : String) (literal : Literal) : Fabric :=
  { fabric with uniforms := Table.insert fabric.uniforms name literal }

def withMaterial (fabric : Fabric) (name : String) (child : Fabric) : Fabric :=
  { fabric with materials := Table.insert fabric.materials name child }

/-- Replaces the expression of a component in its place, or adds it at the end. -/
def setComponent (name expression : String) : List (String × String) → List (String × String)
  | [] => [(name, expression)]
  | (key, old) :: rest =>
    if key = name then (key, expression) :: rest
    else (key, old) :: setComponent name expression rest

def withComponent (fabric : Fabric) (name expression : String) : Fabric :=
  { fabric with components := some (setComponent name expression (fabric.components.getD [])) }

def withSource (fabric : Fabric) (source : String) : Fabric := { fabric with source := some source }

def withUnknown (fabric : Fabric) (name : String) (value : Document) : Fabric :=
  { fabric with unknown := Table.insert fabric.unknown name value }

/-! ## 2. Equality and size -/

/-- The same uniforms, numbers compared as numbers. -/
def sameUniforms : List (String × Literal) → List (String × Literal) → Bool
  | [], [] => true
  | (k, a) :: as, (l, b) :: bs => k = l && a.same b && sameUniforms as bs
  | _, _ => false

mutual

/-- The same fabric, numbers compared as numbers. -/
def same : Fabric → Fabric → Bool
  | ⟨type₁, uniforms₁, materials₁, components₁, source₁, unknown₁⟩,
    ⟨type₂, uniforms₂, materials₂, components₂, source₂, unknown₂⟩ =>
    type₁ = type₂ && sameUniforms uniforms₁ uniforms₂ && sameMaterials materials₁ materials₂
      && components₁ = components₂ && source₁ = source₂ && Document.sameMembers unknown₁ unknown₂

def sameMaterials : List (String × Fabric) → List (String × Fabric) → Bool
  | [], [] => true
  | (k, a) :: as, (l, b) :: bs => k = l && same a b && sameMaterials as bs
  | _, _ => false

end

mutual

/-- How many nodes the tree has. -/
def size : Fabric → Nat
  | ⟨_, _, materials, _, _, _⟩ => 1 + sizes materials

def sizes : List (String × Fabric) → Nat
  | [] => 0
  | (_, child) :: rest => size child + sizes rest

end

end Fabric

end ShaderFabric
