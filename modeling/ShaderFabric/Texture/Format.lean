/-
# Formats of compressed textures

A block format stores each square of four by four texels in a fixed number of bytes, so the size of
a level follows from its edges.  The sizes of the other formats are not checked.

Component `textures`: `CompressedFormat`, `block_bytes`, `level_len` without its bound.
-/
import ShaderFabric.Uniform.Codec

namespace ShaderFabric

/-- A format of compressed texels. -/
inductive CompressedFormat
  | bc1Rgba
  | bc2Rgba
  | bc3Rgba
  | etc1Rgb
  | pvrtc4Rgb
  | pvrtc2Rgb
  | pvrtc4Rgba
  | pvrtc2Rgba
  deriving Repr, DecidableEq

namespace CompressedFormat

/-- The formats by the codes under which containers name them. -/
def codes : List (Nat × CompressedFormat) :=
  [(0x83F0, bc1Rgba), (0x83F1, bc1Rgba), (0x83F2, bc2Rgba), (0x83F3, bc3Rgba),
    (0x8D64, etc1Rgb),
    (0x8C00, pvrtc4Rgb), (0x8C01, pvrtc2Rgb), (0x8C02, pvrtc4Rgba), (0x8C03, pvrtc2Rgba)]

/-- The format of a code. -/
def ofCode? (code : Nat) : Option CompressedFormat := codes.lookup code

/-- The family a format belongs to. -/
def codec : CompressedFormat → Codec
  | bc1Rgba | bc2Rgba | bc3Rgba => .s3tc
  | etc1Rgb => .etc1
  | pvrtc4Rgb | pvrtc2Rgb | pvrtc4Rgba | pvrtc2Rgba => .pvrtc

/-- The bytes of a block of four by four texels, if the format has such blocks. -/
def blockBytes? : CompressedFormat → Option Nat
  | bc1Rgba | etc1Rgb => some 8
  | bc2Rgba | bc3Rgba => some 16
  | _ => none

/-- The blocks that cover an edge; the shortest edge has one texel. -/
def blocksAlong (edge : Nat) : Nat := (max edge 1 + 3) / 4

/-- The bytes of a level, if they follow from its edges: those of all blocks that cover it. -/
def levelBytes? (format : CompressedFormat) (width height : Nat) : Option Nat :=
  format.blockBytes?.map fun block => blocksAlong width * blocksAlong height * block

/-- The name of a format in reports. -/
def name : CompressedFormat → String
  | bc1Rgba => "Bc1Rgba"
  | bc2Rgba => "Bc2Rgba"
  | bc3Rgba => "Bc3Rgba"
  | etc1Rgb => "Etc1Rgb"
  | pvrtc4Rgb => "Pvrtc4Rgb"
  | pvrtc2Rgb => "Pvrtc2Rgb"
  | pvrtc4Rgba => "Pvrtc4Rgba"
  | pvrtc2Rgba => "Pvrtc2Rgba"

end CompressedFormat

end ShaderFabric
