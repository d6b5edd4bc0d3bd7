/-
# Surface components

The properties of a surface that an expression may assign.

Component `fabric`: `Component`.
-/

namespace ShaderFabric

/-- A property of a surface. -/
inductive Component
  | diffuse
  | specular
  | shininess
  | normal
  | emission
  | alpha
  | ambient
  | specularColor
  deriving Repr, DecidableEq

namespace Component

def all : List Component :=
  [diffuse, specular, shininess, normal, emission, alpha, ambient, specularColor]

/-- The name of a component in shader text. -/
def name : Component → String
  | diffuse => "diffuse"
  | specular => "specular"
  | shininess => "shininess"
  | normal => "normal"
  | emission => "emission"
  | alpha => "alpha"
  | ambient => "ambient"
  | specularColor => "specularColor"

/-- The component of a name. -/
def ofName? (name : String) : Option Component := all.find? fun component => component.name = name

end Component

end ShaderFabric
