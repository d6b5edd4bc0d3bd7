/-
# Composing the program of a resolved tree

Every node that is part of the program becomes one function, named after its path; the text of a
node comes after the texts of its sub-materials.  A uniform's identifier is its name with the path
encoded behind it, so that one name has two identifiers in two sub-materials of a template; two
names may still run into one identifier.  A reference to a sub-material becomes a call of its
function.

The text depends on the structure of the tree only, never on the numbers in it.

Component `fabric`: `compose`, `compose_node`, `node_text`, `mangle_uniform`, `function_name`.
-/
import ShaderFabric.Material.Node
import ShaderFabric.Text.Word

namespace ShaderFabric

/-! ## 1. Names -/

/-- The function of the root. -/
def entryPoint : String := "fabric_getMaterial"

/-- A path with the length of each name, in bytes, before it. -/
def encodePath : List String → String
  | [] => ""
  | segment :: rest => toString segment.utf8ByteSize ++ segment ++ encodePath rest

/-- The function of the node at a path. -/
def functionName (path : List String) : String :=
  if path.isEmpty then entryPoint else entryPoint ++ "_" ++ encodePath path

/-- The identifier of a uniform of the node at a path. -/
def mangle (name : String) (path : List String) : String := name ++ "_r" ++ encodePath path

/-- The structures and the default surface that every program relies on. -/
def surfacePrelude : String :=
  "struct fabric_materialInput\n\x7b\n    float s;\n    vec2 st;\n    vec3 str;\n    vec3 normalEC;\n"
    ++ "    mat3 tangentToEyeMatrix;\n    vec3 positionToEyeEC;\n\x7d;\n\n"
    ++ "struct fabric_material\n\x7b\n    vec3 diffuse;\n    float specular;\n    float shininess;\n"
    ++ "    vec3 normal;\n    vec3 emission;\n    float alpha;\n    vec3 ambient;\n"
    ++ "    vec3 specularColor;\n\x7d;\n\n"
    ++ "fabric_material fabric_getDefaultMaterial(fabric_materialInput materialInput)\n\x7b\n"
    ++ "    fabric_material material;\n    material.diffuse = vec3(0.0);\n"
    ++ "    material.specular = 0.0;\n    material.shininess = 1.0;\n"
    ++ "    material.normal = materialInput.normalEC;\n    material.emission = vec3(0.0);\n"
    ++ "    material.alpha = 1.0;\n    material.ambient = vec3(0.0);\n"
    ++ "    material.specularColor = vec3(1.0);\n    return material;\n\x7d\n"

/-! ## 2. Programs -/

/-- A uniform of a program. -/
structure ProgramUniform where
  name : String
  /-- The identifier in the text; none when the uniform is not part of the program. -/
  mangled : Option String
  value : Value
  deriving DecidableEq

/-- The program of a node, with those of its sub-materials. -/
structure Program where
  path : List String
  typeName : Option String
  function : String
  /-- Whether the node is part of the whole program. -/
  emitted : Bool
  /-- The declarations and the function of this node alone; empty when it is not emitted. -/
  text : String
  uniforms : List ProgramUniform
  materials : List (String × Program)
  /-- Whether the node starts out in need of blending. -/
  translucent : Bool

namespace Program

mutual

/-- The text of a node and of everything below it, sub-materials first. -/
def source : Program → String
  | ⟨_, _, _, _, text, _, materials, _⟩ => sources materials ++ text

def sources : List (String × Program) → String
  | [] => ""
  | (_, child) :: rest => source child ++ sources rest

end

mutual

/-- Whether the node or an emitted node below it starts out in need of blending. -/
def anyTranslucent : Program → Bool
  | ⟨_, _, _, _, _, _, materials, translucent⟩ => translucent || anyTranslucents materials

def anyTranslucents : List (String × Program) → Bool
  | [] => false
  | (_, child) :: rest => (child.emitted && anyTranslucent child) || anyTranslucents rest

end

end Program

/-! ## 3. Texts -/

/-- A uniform of a node in its program. -/
def composeUniform (emitted : Bool) (path : List String) (uniform : Declared Value) :
    ProgramUniform :=
  let bound := emitted && uniform.used && !uniform.value.isSelector
  ⟨uniform.name, if bound then some (mangle uniform.name path) else none, uniform.value⟩

/-- What references to uniforms are replaced by: a channel selector by its letters, also after a
period, any other uniform of the program by its identifier. -/
def uniformReplacements (path : List String) (uniforms : List (Declared Value)) :
    List (String × Replacement) :=
  uniforms.filterMap fun uniform =>
    if uniform.used then
      match uniform.value with
      | .channels selector => some (uniform.name, ⟨selector, true⟩)
      | _ => some (uniform.name, ⟨mangle uniform.name path, false⟩)
    else none

/-- What references to sub-materials are replaced by: calls. -/
def materialReplacements (path : List String) (materials : List (Declared Node)) :
    List (String × Replacement) :=
  materials.filterMap fun child =>
    if child.used then
      some (child.name, ⟨functionName (path ++ [child.name]) ++ "(materialInput)", false⟩)
    else none

/-- Everything that is replaced in the body of the node at a path.  In hand-written text below the
root the entry point is replaced too. -/
def replacements (node : Node) : Table Replacement :=
  let declared :=
    Table.ofList
      (uniformReplacements node.path node.uniforms ++ materialReplacements node.path node.materials)
  match node.body with
  | .source _ =>
    if node.path.isEmpty then declared
    else declared.insert entryPoint ⟨functionName node.path, false⟩
  | _ => declared

/-- The declaration of a uniform of the program. -/
def declarationLine (uniform : ProgramUniform) : String :=
  match uniform.mangled with
  | some mangled => "uniform " ++ uniform.value.kind.glslName ++ " " ++ mangled ++ ";\n"
  | none => ""

/-- The first line of a function. -/
def functionHead (function : String) : String :=
  "fabric_material " ++ function ++ "(fabric_materialInput materialInput)\n\x7b\n"

/-- The statement that assigns a component. -/
def assignmentLine (replaced : Table Replacement) (assignment : Component × String) : String :=
  "    material." ++ assignment.1.name ++ " = " ++ substitute replaced assignment.2 ++ ";\n"

/-- A text that ends in a line end. -/
def endLine (text : String) : String :=
  if text.toList.getLast? = some '\n' then text else text ++ "\n"

/-- The declarations and the function of a node. -/
def nodeText (node : Node) (uniforms : List ProgramUniform) : String :=
  let function := functionName node.path
  let head := String.join (uniforms.map declarationLine)
  let replaced := replacements node
  match node.body with
  | .source text => endLine (head ++ substitute replaced text)
  | .components assignments =>
    head ++ functionHead function
      ++ "    fabric_material material = fabric_getDefaultMaterial(materialInput);\n"
      ++ String.join (assignments.map (assignmentLine replaced)) ++ "    return material;\n\x7d\n"
  | .plain =>
    head ++ functionHead function ++ "    return fabric_getDefaultMaterial(materialInput);\n\x7d\n"

mutual

/-- The program of a node. -/
def composeNode (emitted : Bool) : Node → Program
  | ⟨path, typeName, uniforms, materials, body, translucency⟩ =>
    let node : Node := ⟨path, typeName, uniforms, materials, body, translucency⟩
    let composed := uniforms.map (composeUniform emitted path)
    { path, typeName, emitted
      function := functionName path
      text := if emitted then nodeText node composed else ""
      uniforms := composed
      materials := composeChildren emitted materials
      translucent := node.initiallyTranslucent }

/-- The programs of sub-materials; one that is not referred to is not emitted. -/
def composeChildren (emitted : Bool) : List (Declared Node) → List (String × Program)
  | [] => []
  | ⟨name, node, used⟩ :: rest =>
    (name, composeNode (emitted && used) node) :: composeChildren emitted rest

end

/-- The program of a resolved tree. -/
def compose (root : Node) : Program := composeNode true root

end ShaderFabric
