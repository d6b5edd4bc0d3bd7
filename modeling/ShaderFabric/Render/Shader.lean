/-
# The shader of a material

A composed program declares its uniforms one by one.  The shader that draws it takes these
declarations out, and gives each name again as a macro for a member of the block or for a texture
with its sampler.  Before the program come the frame's values and the surface prelude, and after it
the function that draws a rectangle with the material.

Component `renderer`: `declarations`, `wrap_material_fragment`, `FrameUniforms`.
-/
import ShaderFabric.Render.Layout
import ShaderFabric.Text.Declaration

namespace ShaderFabric

namespace Layout

/-! ## 1. Declarations -/

/-- The type of a field in a block. -/
def fieldType : Kind → String
  | .bool => "int"
  | kind => kind.glslName

def fieldLine (field : BlockField) : String :=
  "    " ++ fieldType field.kind ++ " _" ++ field.name ++ ";\n"

/-- The block. -/
def blockText (layout : Layout) : String :=
  "layout(std140, set = 1, binding = 0) uniform MaterialParams \x7b\n"
    ++ (if layout.fields.isEmpty then "    float _unused;\n" else "")
    ++ String.join (layout.fields.map fieldLine) ++ "\x7d material_params;\n\n"

/-- The macro that gives a field its name. -/
def fieldMacro (field : BlockField) : String :=
  match field.kind with
  | .bool => "#define " ++ field.name ++ " bool(material_params._" ++ field.name ++ ")\n"
  | _ => "#define " ++ field.name ++ " material_params._" ++ field.name ++ "\n"

/-- The types of a texture without a sampler and of one with it. -/
def textureTypes : TextureKind → String × String
  | .flat => ("texture2D", "sampler2D")
  | .cube => ("textureCube", "samplerCube")

/-- A texture and its sampler at their places, and the macro that joins them under the name. -/
def textureText (index : Nat) (field : TextureField) : String :=
  let (bare, sampled) := textureTypes field.kind
  let place := texturePlace index
  "layout(set = 1, binding = " ++ toString place ++ ") uniform " ++ bare ++ " " ++ field.name
    ++ "_texture;\nlayout(set = 1, binding = " ++ toString (place + 1) ++ ") uniform sampler "
    ++ field.name ++ "_sampler;\n#define " ++ field.name ++ " " ++ sampled ++ "(" ++ field.name
    ++ "_texture, " ++ field.name ++ "_sampler)\n"

/-- The textures from an index on. -/
def textureTexts (index : Nat) : List TextureField → String
  | [] => ""
  | field :: rest => textureText index field ++ textureTexts (index + 1) rest

/-- The declarations of a layout. -/
def declarations (layout : Layout) : String :=
  layout.blockText ++ String.join (layout.fields.map fieldMacro) ++ textureTexts 0 layout.textures

/-- The names that a layout declares. -/
def names (layout : Layout) : List String :=
  layout.fields.map BlockField.name ++ layout.textures.map TextureField.name

end Layout

/-! ## 2. The shader -/

/-- What every shader starts with: the values of the frame. -/
def shaderHead : String :=
  "#version 450\nlayout(location = 0) in vec2 v_uv;\nlayout(location = 0) out vec4 outColor;\n\n"
    ++ "layout(std140, set = 0, binding = 0) uniform FrameParams \x7b\n    vec4 _resolution;\n"
    ++ "    float _time;\n    float _frameNumber;\n    vec2 _padding;\n\x7d frame;\n\n"
    ++ "#define fabric_resolution frame._resolution.xy\n#define fabric_time frame._time\n"
    ++ "#define fabric_frameNumber frame._frameNumber\n"

/-- What every shader ends with: the surface at a point of the rectangle, and its colour. -/
def shaderMain : String :=
  "void main() \x7b\n    fabric_materialInput materialInput;\n    materialInput.s = v_uv.x;\n"
    ++ "    materialInput.st = v_uv;\n    materialInput.str = vec3(v_uv, 0.0);\n"
    ++ "    materialInput.normalEC = vec3(0.0, 0.0, 1.0);\n"
    ++ "    materialInput.tangentToEyeMatrix = mat3(1.0);\n"
    ++ "    materialInput.positionToEyeEC = vec3(0.0, 0.0, 1.0);\n\n"
    ++ "    fabric_material material = " ++ entryPoint ++ "(materialInput);\n"
    ++ "    outColor = vec4(material.diffuse + material.emission, material.alpha);\n\x7d\n"

/-- The declarations of a text that a layout takes the place of. -/
def replacedDeclarations (source : String) (layout : Layout) : List Declaration :=
  (declarations source).filter fun declaration => declaration.name ∈ layout.names

/-- A program without the declarations that a layout takes the place of. -/
def shaderBody (source : String) (layout : Layout) : String :=
  removeSpans
    ((replacedDeclarations source layout).map fun declaration => (declaration.start, declaration.stop))
    source

/-- The shader that draws a program. -/
def wrapFragment (source : String) (layout : Layout) : String :=
  shaderHead ++ "\n" ++ layout.declarations ++ "\n" ++ surfacePrelude ++ "\n"
    ++ shaderBody source layout ++ "\n" ++ shaderMain

/-! ## 3. The frame -/

/-- The values of a frame: its size, a time and a number. -/
def frameBytes (width height : Nat) (time : Single) (frame : Nat) : List UInt8 :=
  let number (n : Nat) : Single := Single.ofDecimal false n 0
  Layout.numberBytes
    [number width, number height, Single.zero, Single.zero, time, number frame, Single.zero,
      Single.zero]

end ShaderFabric
