/-
# Templates

A template is a named fabric that other fabrics start from, with a rule that says when a material
made from it needs blending.

Component `fabric`: `Translucency`, `Template`.
-/
import ShaderFabric.Fabric.Basic
import ShaderFabric.Uniform.Value

namespace ShaderFabric

/-- When a material needs blending. -/
inductive Translucency
  | never
  | always
  /-- When one of the named uniforms has an alpha below one: the last number of a vector of four, or
  a lone number itself. -/
  | alphaOf (names : List String)
  deriving Repr, DecidableEq

namespace Translucency

/-- Whether a value has an alpha below one. -/
def seesThrough : Value → Bool
  | .vec4 v => v.w.belowOne
  | .float x => x.belowOne
  | _ => false

/-- Whether the rule asks for blending under some uniforms. -/
def evaluate (rule : Translucency) (uniforms : List (String × Value)) : Bool :=
  match rule with
  | never => false
  | always => true
  | alphaOf names => names.any fun name => ((Table.find? uniforms name).map seesThrough).getD false

/-- The rule itself, unless it never blends; then the other one. -/
def orElse (rule inherited : Translucency) : Translucency :=
  match rule with
  | never => inherited
  | rule => rule

end Translucency

/-- A named fabric to start from. -/
structure Template where
  name : String
  fabric : Fabric
  translucency : Translucency

end ShaderFabric
