/-
# Resolved material trees

A node of a resolved tree has every template expanded, every uniform typed, and knows which of its
declarations its body refers to.

Component `fabric`: `ResolvedNode`, `Body`.
-/
import ShaderFabric.Component
import ShaderFabric.Template.Basic

namespace ShaderFabric

/-- The body of a node. -/
inductive Body
  /-- Neither expressions nor text: the default surface. -/
  | plain
  | components (assignments : List (Component × String))
  /-- Hand-written text, without the declarations of the node's own uniforms. -/
  | source (text : String)
  deriving Repr, DecidableEq

/-- The text in which references are looked for; expressions are joined by line ends. -/
def Body.text : Body → String
  | plain => ""
  | components assignments => "\n".intercalate (assignments.map Prod.snd)
  | source text => text

/-- A declared name with what it stands for. -/
structure Declared (α : Type) where
  name : String
  value : α
  /-- Whether the body refers to the name. -/
  used : Bool
  deriving Repr, DecidableEq

/-- The declaration of a name. -/
def Declared.find? {α : Type} (name : String) : List (Declared α) → Option (Declared α)
  | [] => none
  | declared :: rest => if declared.name = name then some declared else find? name rest

/-- A node of a resolved tree. -/
structure Node where
  /-- The names on the way from the root. -/
  path : List String
  typeName : Option String
  uniforms : List (Declared Value)
  materials : List (Declared Node)
  body : Body
  translucency : Translucency

/-- A path as reports show it. -/
def dotted (path : List String) : String := ".".intercalate ("root" :: path)

namespace Node

/-- The declaration of a uniform. -/
def uniform? (node : Node) (name : String) : Option (Declared Value) :=
  Declared.find? name node.uniforms

/-- The declaration of a sub-material. -/
def child? (node : Node) (name : String) : Option (Declared Node) :=
  Declared.find? name node.materials

/-- Whether the node needs blending under its first values. -/
def initiallyTranslucent (node : Node) : Bool :=
  node.translucency.evaluate (node.uniforms.map fun uniform => (uniform.name, uniform.value))

end Node

end ShaderFabric
