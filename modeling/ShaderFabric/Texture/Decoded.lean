/-
# Decoded textures

What is fetched for a texture is either the bytes of a file or pixels at hand.  Decoding makes it an
image, the six faces of a cube map, or a compressed texture.

* `decodeImage` takes a container for what it is and any other file as an image;
* `decodeCompressed` takes only a container of the family that was asked for;
* `decodeCube` takes six square images of one size, and looks at them in order.

Component `textures`: `DecodedTexture`, `decode_image`, `decode_compressed`, `decode_cube`.
-/
import ShaderFabric.Texture.Bitmap
import ShaderFabric.Texture.Fault
import ShaderFabric.Texture.Png
import ShaderFabric.Uniform.Value

namespace ShaderFabric

/-- Whether a texture is flat or a cube map. -/
inductive TextureKind
  | flat
  | cube
  deriving Repr, DecidableEq

/-- What was fetched. -/
inductive Resource
  | bytes (bytes : List UInt8)
  | pixels (image : Image)
  deriving DecidableEq

/-- A texture that can be uploaded. -/
inductive Decoded
  | image (image : Image)
  /-- Six faces of `edge * edge` texels, in the order of the layers. -/
  | cube (edge : Nat) (faces : List (List UInt8))
  | compressed (texture : Ktx.Texture)
  deriving DecidableEq

namespace Decoded

def kind : Decoded → TextureKind
  | image _ | compressed _ => .flat
  | cube .. => .cube

def width : Decoded → Nat
  | image pixels => pixels.width
  | cube edge _ => edge
  | compressed texture => texture.width

def height : Decoded → Nat
  | image pixels => pixels.height
  | cube edge _ => edge
  | compressed texture => texture.height

end Decoded

/-- A way to read the image of a file. -/
abbrev ImageReader := List UInt8 → Except ImageFault Image

/-- The image of a file of a known format. -/
def Image.ofFile : ImageReader := fun bytes =>
  if Png.signature.isPrefixOf bytes then Png.read bytes
  else if Bitmap.signature.isPrefixOf bytes then Bitmap.read bytes
  else .error .broken

variable (images : ImageReader)

/-- The texture of a container. -/
def decodeContainer (bytes : List UInt8) : Except DecodeFault Ktx.Texture :=
  match Ktx.read bytes with
  | .ok texture => .ok texture
  | .error fault => .error (.container fault)

/-- The image of a file. -/
def decodePixels (bytes : List UInt8) : Except DecodeFault Image :=
  match images bytes with
  | .ok image => .ok image
  | .error fault => .error (.image fault)

/-- The texture of a file. -/
def decodeImage (bytes : List UInt8) : Except DecodeFault Decoded :=
  if Ktx.isContainer bytes then .compressed <$> decodeContainer bytes
  else .image <$> decodePixels images bytes

/-- The texture of a container that holds a family of compression. -/
def decodeCompressed (expected : Codec) (bytes : List UInt8) : Except DecodeFault Decoded := do
  unless Ktx.isContainer bytes do throw .noContainer
  let texture ← decodeContainer bytes
  if texture.format.codec ≠ expected then throw (.mismatch expected texture.format.codec)
  return .compressed texture

/-- The image of a face. -/
def decodeFace : Resource → Except DecodeFault Image
  | .bytes bytes => decodePixels images bytes
  | .pixels image => .ok image

/-- The images of the faces from `index` on; the edge of the first face is that of all. -/
def decodeFaces (index : Nat) (edge : Option Nat) : List Resource → Except DecodeFault (List Image)
  | [] => .ok []
  | face :: rest => do
    let image ← decodeFace images face
    if image.width ≠ image.height then throw (.oblongFace index image.width image.height)
    let expected := edge.getD image.width
    if image.width ≠ expected then throw (.unequalFace index image.width expected)
    return image :: (← decodeFaces (index + 1) (some expected) rest)

/-- The cube map of six faces. -/
def decodeCube (faces : List Resource) : Except DecodeFault Decoded := do
  if faces.length ≠ 6 then throw (.faceCount faces.length)
  let decoded ← decodeFaces images 0 none faces
  let edge := (decoded.head?.map Image.width).getD 1
  return .cube edge (decoded.map Image.pixels)

end ShaderFabric
