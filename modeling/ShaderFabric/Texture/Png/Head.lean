/-
# What a PNG file says before its texels

The header comes first and gives the size of the image and how its texels are stored.  The chunks
after it are looked at in order.

* `PLTE` gives the colours of a palette, and comes once at most.
* `tRNS` says which colours are clear.  One that does not fit is passed over, and of those that fit
  the first counts.
* `fcTL` announces a frame of an animation.  Frames are numbered from zero, and one that is
  announced before the texels must be as large as the image.
* Any other chunk is passed over if it is extra, and spoils the file if it is not.
-/
import ShaderFabric.Texture.Png.Chunk

namespace ShaderFabric

namespace Png

/-! ## 1. Header -/

/-- How a texel is stored, one byte a channel. -/
inductive Layout
  | grey
  | rgb
  | palette
  | greyAlpha
  | rgba
  deriving Repr, DecidableEq

namespace Layout

/-- The layout of a code in a header. -/
def ofCode? : Nat → Option Layout
  | 0 => some grey
  | 2 => some rgb
  | 3 => some palette
  | 4 => some greyAlpha
  | 6 => some rgba
  | _ => none

/-- The bytes of a texel. -/
def channels : Layout → Nat
  | grey | palette => 1
  | greyAlpha => 2
  | rgb => 3
  | rgba => 4

end Layout

/-- The size of an image and how its texels are stored. -/
structure Header where
  width : Nat
  height : Nat
  layout : Layout
  /-- Whether the texels come in seven passes. -/
  interlaced : Bool

/-- The header in the data of its chunk: the size, the depth of a channel, the layout, how the data
is packed and filtered, and whether it is interlaced. -/
def Header.ofData? (data : List UInt8) : Option Header :=
  match data.drop 8 with
  | [8, code, 0, 0, weave] => do
    let layout ← Layout.ofCode? code.toNat
    let width := ByteOrder.mostFirst.word data 0
    let height := ByteOrder.mostFirst.word data 4
    if width = 0 ∨ height = 0 ∨ 1 < weave.toNat then none
    return ⟨width, height, layout, weave.toNat = 1⟩
  | _ => none

/-! ## 2. Chunks after the header -/

/-- What is known before the texels. -/
structure Head where
  header : Header
  palette : Option (List UInt8)
  clearness : Option (List UInt8)
  /-- The number of the last frame that was announced. -/
  frame : Option Nat

namespace Head

/-- The head after a palette. -/
def addPalette (head : Head) (data : List UInt8) : Option Head :=
  if head.palette.isSome ∨ data.length < 3 ∨ 768 < data.length then none
  else some { head with palette := some data }

/-- Whether the data can say which colours of the layout are clear. -/
def fitsLayout (head : Head) (data : List UInt8) : Bool :=
  match head.header.layout with
  | .grey => 2 ≤ data.length
  | .rgb => 6 ≤ data.length
  | .palette => head.palette.isSome
  | .greyAlpha | .rgba => false

/-- The head after data that says which colours are clear. -/
def addClearness (head : Head) (data : List UInt8) : Head :=
  let fits := 0 < data.length && data.length ≤ 256 && head.fitsLayout data
  if head.clearness.isNone && fits then { head with clearness := some data } else head

/-- The number of the next chunk that belongs to a frame. -/
def nextFrame (head : Head) : Nat := head.frame.elim 0 (· + 1)

/-- The head after a frame is announced: by its number, size and place, how long it is shown, and
two codes for what it leaves and how it is drawn.  Data of another length announces nothing. -/
def addFrame (head : Head) (data : List UInt8) : Option Head :=
  let word := ByteOrder.mostFirst.word data
  let size := (word 4, word 8)
  let place := (word 12, word 16)
  match data.drop 24 with
  | [leaves, draws] =>
    if word 0 ≠ head.nextFrame ∨ size ≠ (head.header.width, head.header.height) ∨ place ≠ (0, 0)
        ∨ 2 < leaves.toNat ∨ 1 < draws.toNat then none
    else some { head with frame := some head.nextFrame }
  | _ => some head

/-- The head after a chunk. -/
def add (head : Head) (chunk : Chunk) : Option Head :=
  if chunk.isFatal then none
  else if chunk.isNamed "PLTE" then head.addPalette chunk.data
  else if !chunk.isExtra then none
  else if chunk.condition = .damaged then some head
  else if chunk.isNamed "tRNS" then some (head.addClearness chunk.data)
  else if chunk.isNamed "fcTL" then head.addFrame chunk.data
  else some head

/-- The head in the chunks before the texels. -/
def ofChunks? : List Chunk → Option Head
  | [] => none
  | first :: others => do
    if !first.isNamed "IHDR" ∨ first.isFatal then none
    let header ← Header.ofData? first.data
    let head ← others.foldlM add ⟨header, none, none, none⟩
    if header.layout = .palette ∧ head.palette.isNone then none
    return head

/-- Whether texels are entries of a palette that ends within an entry. -/
def isRagged (head : Head) : Bool :=
  head.header.layout = .palette && head.palette.any fun data => data.length % 3 ≠ 0

end Head

end Png

end ShaderFabric
