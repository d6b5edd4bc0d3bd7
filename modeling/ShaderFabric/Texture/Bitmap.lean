/-
# Bitmap images

A bitmap file is a header of fourteen bytes, a second header that starts with its own size, and
rows of texels.  A row is padded to a multiple of four bytes; rows are stored from bottom to top
unless the height is negative.

Read are bitmaps of three bytes a texel that are not compressed.  The reader breaks down over one
that has no columns; one that has no rows is an empty image.
-/
import ShaderFabric.Number.Word
import ShaderFabric.Texture.Fault
import ShaderFabric.Uniform.Image

namespace ShaderFabric

namespace Bitmap

/-- The first bytes of a file. -/
def signature : List UInt8 := [0x42, 0x4D]

/-! ## 1. Headers -/

/-- The size of a bitmap and the order of its rows. -/
structure Header where
  columns : Nat
  lines : Nat
  /-- Whether the top row is the first. -/
  downward : Bool

/-- The greatest number of columns, and of rows from bottom to top. -/
def edgeLimit : Int := 65535

/-- The size of a second header whose numbers have two bytes. -/
def shortHeader : Nat := 12

/-- The sizes of second headers whose numbers have four bytes. -/
def longHeaders : List Nat := [40, 52, 56, 108, 124]

/-- A word as a number with a sign. -/
def signed (word : Nat) : Int := Int.bmod word 0x100000000

/-- The header of a size in words; the least word is no height. -/
def Header.ofSize? (width height : Int) : Option Header :=
  if width < 0 ∨ edgeLimit < width ∨ edgeLimit < height ∨ height = -0x80000000 then none
  else some ⟨width.toNat, height.natAbs, height < 0⟩

/-- The headers at the start of a file: the size, one plane, the bits of a texel, and, in a long
header, that nothing is compressed.  Of a long header only the first forty bytes are looked at. -/
def Header.ofBytes? (bytes : List UInt8) : Option Header :=
  let word := ByteOrder.leastFirst.word bytes
  let half := ByteOrder.leastFirst.half bytes
  if word 14 = shortHeader then
    if bytes.length < 26 ∨ half 22 ≠ 1 ∨ half 24 ≠ 24 then none
    else some ⟨half 18, half 20, false⟩
  else if word 14 ∈ longHeaders then
    if bytes.length < 54 ∨ half 26 ≠ 1 ∨ half 28 ≠ 24 ∨ word 30 ≠ 0 then none
    else Header.ofSize? (signed (word 18)) (signed (word 22))
  else none

/-! ## 2. Rows -/

/-- The bytes of a row and its padding. -/
def stride (width : Nat) : Nat := (3 * width + 3) / 4 * 4

/-- The texels of a row: blue, green and red. -/
def texels : Nat → List UInt8 → List UInt8
  | 0, _ => []
  | count + 1, b :: g :: r :: rest => r :: g :: b :: 255 :: texels count rest
  | _, _ => []

/-- The rows as they are stored. -/
def rows (width : Nat) : Nat → List UInt8 → List (List UInt8)
  | 0, _ => []
  | count + 1, bytes => texels width bytes :: rows width count (bytes.drop (stride width))

/-! ## 3. Files -/

/-- The image of a file. -/
def read (bytes : List UInt8) : Except ImageFault Image := do
  unless signature.isPrefixOf bytes do throw .broken
  let some header := Header.ofBytes? bytes | throw .broken
  if header.columns = 0 then throw .breakdown
  let body := bytes.drop (ByteOrder.leastFirst.word bytes 10)
  if body.length < stride header.columns * header.lines then throw .broken
  let stored := rows header.columns header.lines body
  let upward := if header.downward then stored.reverse else stored
  let some image := Image.filled? header.columns header.lines upward.flatten | throw .broken
  return image

end Bitmap

end ShaderFabric
