/-
# Images and where they are found

A `Location` names a place an image can be fetched from.  An `Image` is pixels already at hand:
four bytes a texel, rows from bottom to top.  Only an image that is read from a file may be empty;
one that is given is not.

Component `fabric`: `ImageLocation`, `InMemoryImage`.
-/
import ShaderFabric.Table

namespace ShaderFabric

/-! ## 1. Locations -/

/-- A path or an address, with the headers to send when it is asked for. -/
structure Location where
  url : String
  headers : Table String
  deriving Repr, DecidableEq

namespace Location

/-- A location without headers. -/
def plain (url : String) : Location := ⟨url, []⟩

/-- Whether the location is an address on the network. -/
def isRemote (location : Location) : Bool :=
  "http://".toList.isPrefixOf location.url.toList
    || "https://".toList.isPrefixOf location.url.toList

end Location

/-! ## 2. Images -/

/-- A colour of four bytes. -/
structure Rgba where
  red : UInt8
  green : UInt8
  blue : UInt8
  alpha : UInt8
  deriving Repr, DecidableEq

namespace Rgba

/-- A colour from numbers below 256. -/
def ofNats (red green blue alpha : Nat) : Rgba :=
  ⟨UInt8.ofNat red, UInt8.ofNat green, UInt8.ofNat blue, UInt8.ofNat alpha⟩

/-- The bytes of a colour. -/
def toList (color : Rgba) : List UInt8 := [color.red, color.green, color.blue, color.alpha]

end Rgba

/-- Pixels in memory. -/
structure Image where
  width : Nat
  height : Nat
  pixels : List UInt8
  size_eq : pixels.length = width * height * 4

instance : DecidableEq Image := fun a b =>
  if h : a.width = b.width ∧ a.height = b.height ∧ a.pixels = b.pixels then
    isTrue (by cases a; cases b; simp_all)
  else isFalse (by rintro rfl; exact h ⟨rfl, rfl, rfl⟩)

namespace Image

/-- The image with these pixels, if they fill exactly `width * height` texels. -/
def filled? (width height : Nat) (pixels : List UInt8) : Option Image :=
  if h : pixels.length = width * height * 4 then some ⟨width, height, pixels, h⟩ else none

/-- The image that is given by these pixels, if it is not empty. -/
def ofPixels? (width height : Nat) (pixels : List UInt8) : Option Image :=
  if 0 < width ∧ 0 < height then filled? width height pixels else none

/-- The image of one colour. -/
def solid? (width height : Nat) (color : Rgba) : Option Image :=
  ofPixels? width height (List.replicate (width * height) color.toList).flatten

/-- What a report says of an image: its size, not its pixels. -/
def summary (image : Image) : String :=
  "InMemoryImage \x7b width: " ++ toString image.width ++ ", height: " ++ toString image.height
    ++ ", bytes: " ++ toString image.pixels.length ++ " \x7d"

end Image

end ShaderFabric
