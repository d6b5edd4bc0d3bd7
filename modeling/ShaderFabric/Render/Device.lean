/-
# What a device can hold

A device has features by which it samples compressed textures.  Textures of the `etc1` family are
also of a family that devices with the `etc2` feature sample; of the `pvrtc` family no device here
samples any.

Component `renderer`: `codec_set`, `upload`, `upload_compressed`.
-/
import ShaderFabric.Texture.Slot

namespace ShaderFabric

/-- A feature by which a device samples compressed textures. -/
inductive Feature
  | bc
  | etc2
  deriving Repr, DecidableEq

/-- The name of a feature. -/
def Feature.name : Feature → String
  | bc => "TEXTURE_COMPRESSION_BC"
  | etc2 => "TEXTURE_COMPRESSION_ETC2"

/-- A device. -/
structure Device where
  features : List Feature
  /-- The longest edge of a picture. -/
  edgeLimit : Nat
  deriving Repr, DecidableEq

/-- A format of textures on a device. -/
inductive TexelFormat
  | rgba8Unorm
  | bc1RgbaUnorm
  | bc2RgbaUnorm
  | bc3RgbaUnorm
  | etc2Rgb8Unorm
  deriving Repr, DecidableEq

/-- The name of a format. -/
def TexelFormat.name : TexelFormat → String
  | rgba8Unorm => "Rgba8Unorm"
  | bc1RgbaUnorm => "Bc1RgbaUnorm"
  | bc2RgbaUnorm => "Bc2RgbaUnorm"
  | bc3RgbaUnorm => "Bc3RgbaUnorm"
  | etc2Rgb8Unorm => "Etc2Rgb8Unorm"

/-- The format and the feature that compressed texels need, if any device samples them. -/
def CompressedFormat.onDevice? : CompressedFormat → Option (TexelFormat × Feature)
  | bc1Rgba => some (.bc1RgbaUnorm, .bc)
  | bc2Rgba => some (.bc2RgbaUnorm, .bc)
  | bc3Rgba => some (.bc3RgbaUnorm, .bc)
  | etc1Rgb => some (.etc2Rgb8Unorm, .etc2)
  | _ => none

/-- A texture as a device holds it. -/
structure HeldTexture where
  format : TexelFormat
  levels : Nat
  width : Nat
  height : Nat
  layers : Nat
  deriving Repr, DecidableEq

/-- Why a device refuses a texture. -/
inductive Refusal
  | noFormat (format : CompressedFormat)
  | noFeature (feature : Feature)
  | unaligned (width height : Nat)
  deriving Repr, DecidableEq

/-- What a report says of a refusal. -/
def Refusal.message : Refusal → String
  | noFormat format => format.name ++ " has no GPU format on this renderer"
  | noFeature feature => "device lacks " ++ feature.name
  | unaligned width height =>
    "compressed textures must be a multiple of 4 texels, got " ++ toString width ++ "x"
      ++ toString height

namespace Device

/-- The families of compressed textures that a device samples. -/
def codecs (device : Device) : List Codec :=
  (if device.features.contains .bc then [Codec.s3tc] else [])
    ++ if device.features.contains .etc2 then [Codec.etc1] else []

/-- A compressed texture on a device. -/
def holdCompressed (device : Device) (texture : Ktx.Texture) : Except Refusal HeldTexture := do
  let some (format, feature) := texture.format.onDevice? | throw (.noFormat texture.format)
  unless device.features.contains feature do throw (.noFeature feature)
  if texture.width % 4 ≠ 0 ∨ texture.height % 4 ≠ 0 then
    throw (.unaligned texture.width texture.height)
  return ⟨format, texture.levels.length, texture.width, texture.height, 1⟩

/-- A texture on a device. -/
def hold (device : Device) : Decoded → Except Refusal HeldTexture
  | .image image => .ok ⟨.rgba8Unorm, 1, image.width, image.height, 1⟩
  | .cube edge _ => .ok ⟨.rgba8Unorm, 1, edge, edge, 6⟩
  | .compressed texture => device.holdCompressed texture

/-- Which uploads a device refuses. -/
def uploader (device : Device) : Uploader := fun label texture =>
  match device.hold texture with
  | .ok _ => none
  | .error refusal => some (label ++ ": " ++ refusal.message)

end Device

end ShaderFabric
