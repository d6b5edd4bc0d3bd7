/-
# The rows of a PNG image

A row is a filter and its bytes; a filter says what is expected of a byte by the bytes to its left
and above it, and only the difference is stored.

An image that is interlaced comes in seven passes, each of which holds the texels of some rows and
columns and has rows of its own.  Any other image comes in one pass.
-/
import ShaderFabric.Texture.Png.Head
import ShaderFabric.Uniform.Image

namespace ShaderFabric

namespace Png

/-! ## 1. Filters -/

/-- The neighbour nearest to `left + above - corner`; the first of those equally near. -/
def nearest (left above corner : UInt8) : UInt8 :=
  let (a, b, c) := ((left.toNat : Int), (above.toNat : Int), (corner.toNat : Int))
  let (toLeft, toAbove, toCorner) := ((b - c).natAbs, (a - c).natAbs, (a + b - 2 * c).natAbs)
  if toLeft ≤ toAbove ∧ toLeft ≤ toCorner then left
  else if toAbove ≤ toCorner then above
  else corner

/-- What a filter expects of a byte by the bytes around it. -/
def predict (filter left above corner : UInt8) : Option UInt8 :=
  match filter.toNat with
  | 0 => some 0
  | 1 => some left
  | 2 => some above
  | 3 => some (UInt8.ofNat ((left.toNat + above.toNat) / 2))
  | 4 => some (nearest left above corner)
  | _ => none

/-- A row with its filter undone; `channels` is how far left the same channel is. -/
def undoFilter (channels : Nat) (filter : UInt8) (above : Array UInt8) (row : List UInt8) :
    Option (Array UInt8) :=
  row.foldlM (fun out byte =>
    let before (bytes : Array UInt8) : UInt8 :=
      if channels ≤ out.size then bytes[out.size - channels]?.getD 0 else 0
    (predict filter (before out) (above[out.size]?.getD 0) (before above)).map fun expected =>
      out.push (byte + expected)) #[]

/-- The rows at the start of bytes, from the top, and the bytes after them. -/
def rows (channels stride : Nat) :
    Nat → Array UInt8 → List UInt8 → Option (List (List UInt8) × List UInt8)
  | 0, _, bytes => some ([], bytes)
  | count + 1, above, bytes =>
    match bytes with
    | [] => none
    | filter :: bytes => do
      let stored := bytes.take stride
      if stored.length < stride then none
      let row ← undoFilter channels filter above stored
      let (below, bytes) ← rows channels stride count row (bytes.drop stride)
      return (row.toList :: below, bytes)

/-! ## 2. Passes -/

/-- The texels whose columns are `stepX` apart from `left` on, and whose rows are `stepY` apart from
`top` on. -/
structure Pass where
  left : Nat
  top : Nat
  stepX : Nat
  stepY : Nat
  deriving Repr, DecidableEq

namespace Pass

/-- How many texels a row of the pass has. -/
def columns (pass : Pass) (width : Nat) : Nat := (width + pass.stepX - 1 - pass.left) / pass.stepX

/-- How many rows the pass has; none without columns. -/
def lines (pass : Pass) (width height : Nat) : Nat :=
  if pass.columns width = 0 then 0
  else (height + pass.stepY - 1 - pass.top) / pass.stepY

/-- The pass that holds all texels. -/
def whole : Pass := ⟨0, 0, 1, 1⟩

/-- The passes of an interlaced image. -/
def woven : List Pass :=
  [⟨0, 0, 8, 8⟩, ⟨4, 0, 8, 8⟩, ⟨0, 4, 4, 8⟩, ⟨2, 0, 4, 4⟩, ⟨0, 2, 2, 4⟩, ⟨1, 0, 2, 2⟩,
    ⟨0, 1, 1, 2⟩]

end Pass

/-- The passes of an image. -/
def Header.passes (header : Header) : List Pass :=
  if header.interlaced then Pass.woven else [Pass.whole]

/-- The rows at the start of bytes, at most `limit` of them, and the bytes after them. -/
def Pass.read (pass : Pass) (header : Header) (limit : Nat) (bytes : List UInt8) :
    Option (List (List UInt8) × List UInt8) :=
  let channels := header.layout.channels
  let lines := min limit (pass.lines header.width header.height)
  rows channels (channels * pass.columns header.width) lines #[] bytes

/-- The rows of passes; bytes past the last row are not looked at. -/
def readPasses (header : Header) : List Pass → List UInt8 → Option (List (Pass × List (List UInt8)))
  | [], _ => some []
  | pass :: others, bytes => do
    let (own, bytes) ← pass.read header header.height bytes
    return (pass, own) :: (← readPasses header others bytes)

/-! ## 3. Texels -/

/-- The colours of palette entries. -/
def paletteColors : List UInt8 → List UInt8 → List Rgba
  | r :: g :: b :: rest, alphas => ⟨r, g, b, alphas.headD 255⟩ :: paletteColors rest alphas.tail
  | _, _ => []

/-- The colours of the palette of a head.  Alphas count only if they are no more than the
entries. -/
def Head.colors (head : Head) : List Rgba :=
  let entries := head.palette.getD []
  let alphas := head.clearness.getD []
  paletteColors entries (if alphas.length ≤ entries.length / 3 then alphas else [])

/-- The colour that stands for nothing at all, one byte a channel; layouts with an alpha have none.
Each channel is given as two bytes, of which the second counts. -/
def clearColor : Layout → List UInt8 → List UInt8
  | .grey, _ :: grey :: _ => [grey]
  | .rgb, _ :: r :: _ :: g :: _ :: b :: _ => [r, g, b]
  | _, _ => []

/-- The alpha of a colour. -/
def alphaOf (clear color : List UInt8) : UInt8 := if color = clear then 0 else 255

/-- The colours of a row.  An index past the palette is black. -/
def texels (layout : Layout) (palette : Array Rgba) (clear : List UInt8) : List UInt8 → List Rgba
  | [] => []
  | first :: rest =>
    match layout, rest with
    | .grey, rest =>
      ⟨first, first, first, alphaOf clear [first]⟩ :: texels layout palette clear rest
    | .palette, rest => palette.getD first.toNat ⟨0, 0, 0, 255⟩ :: texels layout palette clear rest
    | .greyAlpha, a :: rest => ⟨first, first, first, a⟩ :: texels layout palette clear rest
    | .rgb, g :: b :: rest =>
      ⟨first, g, b, alphaOf clear [first, g, b]⟩ :: texels layout palette clear rest
    | .rgba, g :: b :: a :: rest => ⟨first, g, b, a⟩ :: texels layout palette clear rest
    | _, _ => []

/-! ## 4. Images -/

/-- Puts the rows of a pass among the texels of an image, whose rows run from bottom to top. -/
def Pass.put (pass : Pass) (width height : Nat) (image : Array Rgba) (rows : List (List Rgba)) :
    Array Rgba :=
  rows.zipIdx.foldl (fun image (row, j) =>
    let start := (height - 1 - (pass.top + j * pass.stepY)) * width + pass.left
    row.zipIdx.foldl (fun image (color, i) => image.setIfInBounds (start + i * pass.stepX) color)
      image) image

/-- The image that unpacked data holds. -/
def Head.image? (head : Head) (data : List UInt8) : Option Image := do
  let header := head.header
  let (width, height) := (header.width, header.height)
  let passes ← readPasses header header.passes data
  let palette := head.colors.toArray
  let clear := clearColor header.layout (head.clearness.getD [])
  let blank := Array.replicate (width * height) (⟨0, 0, 0, 0⟩ : Rgba)
  let image := passes.foldl (fun image (pass, rows) =>
    pass.put width height image (rows.map (texels header.layout palette clear))) blank
  Image.filled? width height (image.toList.flatMap Rgba.toList)

/-- Whether data holds the first row of an image. -/
def Head.hasFirstRow (head : Head) (data : List UInt8) : Bool :=
  head.header.passes.head?.any fun pass => (pass.read head.header 1 data).isSome

end Png

end ShaderFabric
