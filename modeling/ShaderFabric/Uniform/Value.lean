/-
# Typed values

A `Value` is a uniform's value once its type in the shading language is settled.  `Literal.infer`
settles it by the shape of the literal alone:

* a boolean, a number, a row of 2, 3, 4, 9 or 16 numbers;
* a text of one to four letters `rgba` is a channel selector, the two neutral names are the neutral
  textures, and any other text is the place of an image;
* an object is a cube map, a compressed set, a vector or a colour, by its exact set of keys.

Component `fabric`: `UniformType`, `TypedValue`, `infer`, `coerce_texture_kind`.
-/
import ShaderFabric.Uniform.Codec
import ShaderFabric.Uniform.Literal

namespace ShaderFabric

/-! ## 1. Types -/

/-- A type of the shading language, or a channel selector, which is never bound. -/
inductive Kind
  | bool
  | float
  | vec2
  | vec3
  | vec4
  | mat3
  | mat4
  | sampler2D
  | samplerCube
  | channels
  deriving Repr, DecidableEq

namespace Kind

/-- The name of a type in shader text. -/
def glslName : Kind → String
  | bool => "bool"
  | float => "float"
  | vec2 => "vec2"
  | vec3 => "vec3"
  | vec4 => "vec4"
  | mat3 => "mat3"
  | mat4 => "mat4"
  | sampler2D => "sampler2D"
  | samplerCube => "samplerCube"
  | channels => "channels"

/-- The types that shader text can name. -/
def declarable : List Kind :=
  [bool, float, vec2, vec3, vec4, mat3, mat4, sampler2D, samplerCube]

/-- The type of a name in shader text. -/
def ofGlslName? (name : String) : Option Kind := declarable.find? fun kind => kind.glslName = name

/-- Whether values of the type are textures. -/
def isTexture : Kind → Bool
  | sampler2D | samplerCube => true
  | _ => false

end Kind

/-! ## 2. Values -/

/-- Three numbers. -/
structure Triple where
  x : Single
  y : Single
  z : Single
  deriving Repr, DecidableEq

/-- Four numbers. -/
structure Quad where
  x : Single
  y : Single
  z : Single
  w : Single
  deriving Repr, DecidableEq

def Triple.toList (v : Triple) : List Single := [v.x, v.y, v.z]

def Quad.toList (v : Quad) : List Single := [v.x, v.y, v.z, v.w]

/-- One thing for each face of a cube. -/
structure Faces (α : Type) where
  positiveX : α
  negativeX : α
  positiveY : α
  negativeY : α
  positiveZ : α
  negativeZ : α
  deriving Repr, DecidableEq

namespace Faces

variable {α β : Type}

/-- The faces in the order of the layers. -/
def toList (faces : Faces α) : List α :=
  [faces.positiveX, faces.negativeX, faces.positiveY, faces.negativeY, faces.positiveZ,
    faces.negativeZ]

/-- The faces from a list in the order of the layers. -/
def ofList? : List α → Option (Faces α)
  | [a, b, c, d, e, f] => some ⟨a, b, c, d, e, f⟩
  | _ => none

def map (g : α → β) (faces : Faces α) : Faces β :=
  ⟨g faces.positiveX, g faces.negativeX, g faces.positiveY, g faces.negativeY, g faces.positiveZ,
    g faces.negativeZ⟩

end Faces

/-- What a flat texture shows. -/
inductive ImageSource
  | neutral
  | location (location : Location)
  | decoded (image : Image)
  | compressed (set : CompressedSet)
  deriving DecidableEq

/-- What a cube map shows. -/
inductive CubeSource
  | neutral
  | faces (locations : Faces Location)
  deriving DecidableEq

/-- A value of a known type; matrices are given by columns. -/
inductive Value
  | bool (value : Bool)
  | float (value : Single)
  | vec2 (x y : Single)
  | vec3 (v : Triple)
  | vec4 (v : Quad)
  | mat3 (a b c : Triple)
  | mat4 (a b c d : Quad)
  | texture (source : ImageSource)
  | cube (source : CubeSource)
  | channels (selector : String)
  deriving DecidableEq

namespace Value

/-- The type of a value. -/
def kind : Value → Kind
  | bool _ => .bool
  | float _ => .float
  | vec2 .. => .vec2
  | vec3 _ => .vec3
  | vec4 _ => .vec4
  | mat3 .. => .mat3
  | mat4 .. => .mat4
  | texture _ => .sampler2D
  | cube _ => .samplerCube
  | channels _ => .channels

/-- The numbers of a value, a boolean being zero or one; textures and selectors have none. -/
def floats? : Value → Option (List Single)
  | bool value => some [if value then Single.one else Single.zero]
  | float value => some [value]
  | vec2 x y => some [x, y]
  | vec3 v => some v.toList
  | vec4 v => some v.toList
  | mat3 a b c => some (a.toList ++ b.toList ++ c.toList)
  | mat4 a b c d => some (a.toList ++ b.toList ++ c.toList ++ d.toList)
  | texture _ | cube _ | channels _ => none

/-- Whether the value is a channel selector. -/
def isSelector : Value → Bool
  | channels _ => true
  | _ => false

/-- The value under another type, when both are textures and the value is the neutral one. -/
def retype? (value : Value) (kind : Kind) : Option Value :=
  match value, kind with
  | texture .neutral, .samplerCube => some (cube .neutral)
  | cube .neutral, .sampler2D => some (texture .neutral)
  | _, _ => none

end Value

/-! ## 3. Inference -/

/-- Why a literal has no type. -/
inductive ShapeError
  | length (count : Nat)
  | face (key : String)
  | entry (key : String)
  | fields (keys : List String)
  deriving Repr, DecidableEq

/-- What a report says of a literal without a type. -/
def ShapeError.message : ShapeError → String
  | length count =>
    "numeric sequences must have 2, 3, 4, 9, or 16 entries, found " ++ toString count
  | face key => "cube-map face '" ++ key ++ "' must be a string"
  | entry key => "compressed entry '" ++ key ++ "' must be a string"
  | fields keys =>
    "object with fields [" ++ ", ".intercalate keys
      ++ "] is not a vector, color, cube map, or compressed set"

/-- Whether a text selects channels: one to four letters, each of them one of `rgba`. -/
def isSelectorText (text : String) : Bool :=
  let cs := text.toList
  1 ≤ cs.length && cs.length ≤ 4 && cs.all fun c => c = 'r' || c = 'g' || c = 'b' || c = 'a'

namespace Literal

/-- The value of a row of numbers. -/
def inferSequence (values : List Double) : Except ShapeError Value :=
  match values.map Single.ofDouble with
  | [x, y] => .ok (.vec2 x y)
  | [x, y, z] => .ok (.vec3 ⟨x, y, z⟩)
  | [x, y, z, w] => .ok (.vec4 ⟨x, y, z, w⟩)
  | [a, b, c, d, e, f, g, h, i] => .ok (.mat3 ⟨a, b, c⟩ ⟨d, e, f⟩ ⟨g, h, i⟩)
  | [a, b, c, d, e, f, g, h, i, j, k, l, m, n, o, p] =>
    .ok (.mat4 ⟨a, b, c, d⟩ ⟨e, f, g, h⟩ ⟨i, j, k, l⟩ ⟨m, n, o, p⟩)
  | other => .error (.length other.length)

/-- The value of a text. -/
def inferText (text : String) : Value :=
  if isSelectorText text then .channels text
  else if text = neutralCube then .cube .neutral
  else if text = neutralImage then .texture .neutral
  else .texture (.location (.plain text))

/-- The location of one face of a cube map. -/
def faceLocation (fields : Table Field) (key : String) : Except ShapeError Location :=
  match fields.find? key with
  | some (.text url) => .ok (.plain url)
  | _ => .error (.face key)

/-- Adds the entries of a compressed set. -/
def compressedSet (set : CompressedSet) : Table Field → Except ShapeError CompressedSet
  | [] => .ok set
  | (key, field) :: rest =>
    match Codec.ofKey? key, field with
    | some codec, .text url => compressedSet (set.put codec (.plain url)) rest
    | _, _ => .error (.entry key)

/-- The value of an object with the fields of a vector or a colour. -/
def inferVector : Table Field → Option Value
  | [("x", .number x), ("y", .number y)] =>
    some (.vec2 (Single.ofDouble x) (Single.ofDouble y))
  | [("x", .number x), ("y", .number y), ("z", .number z)] =>
    some (.vec3 ⟨Single.ofDouble x, Single.ofDouble y, Single.ofDouble z⟩)
  | [("w", .number w), ("x", .number x), ("y", .number y), ("z", .number z)] =>
    some (.vec4 ⟨Single.ofDouble x, Single.ofDouble y, Single.ofDouble z, Single.ofDouble w⟩)
  | [("alpha", .number a), ("blue", .number b), ("green", .number g), ("red", .number r)] =>
    some (.vec4 ⟨Single.ofDouble r, Single.ofDouble g, Single.ofDouble b, Single.ofDouble a⟩)
  | _ => none

/-- Whether the keys are those of the six faces. -/
def isCube (fields : Table Field) : Bool :=
  fields.length = faceKeys.length && faceKeys.all fields.contains

/-- Whether there are entries and all their keys are families of compression. -/
def isCompressed (fields : Table Field) : Bool :=
  !fields.isEmpty && fields.all fun field => (Codec.ofKey? field.1).isSome

/-- The value of an object. -/
def inferObject (fields : Table Field) : Except ShapeError Value :=
  if isCube fields then do
    match Faces.ofList? (← faceKeys.mapM (faceLocation fields)) with
    | some faces => return .cube (.faces faces)
    | none => throw (.fields fields.names)
  else if isCompressed fields then do
    return .texture (.compressed (← compressedSet .empty fields))
  else
    match inferVector fields with
    | some value => .ok value
    | none => .error (.fields fields.names)

/-- The value of a literal. -/
def infer : Literal → Except ShapeError Value
  | .bool value => .ok (.bool value)
  | .number value => .ok (.float (Single.ofDouble value))
  | .sequence values => inferSequence values
  | .text written => .ok (inferText written)
  | .location place => .ok (.texture (.location place))
  | .image pixels => .ok (.texture (.decoded pixels))
  | .object fields => inferObject fields

end Literal

end ShaderFabric
