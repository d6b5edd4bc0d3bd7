/-
# Pictures in files

The format of a picture is told by the extension of its file.  Pictures of one colour can be written
as PNG, as bitmap and as GIF; none of them is compressed.
-/
import ShaderFabric.Json.Printer
import ShaderFabric.Number.Word
import ShaderFabric.Path
import ShaderFabric.Texture.Bitmap
import ShaderFabric.Texture.Png

namespace ShaderFabric

/-- A format of pictures. -/
inductive PictureFormat
  | png
  | bmp
  | gif
  | jpeg
  /-- A format that is known by name only. -/
  | named (name : String)
  deriving Repr, DecidableEq

namespace PictureFormat

/-! ## 1. Names -/

/-- The formats by the extensions of files. -/
def extensions : List (String × PictureFormat) :=
  [("png", png), ("apng", png), ("bmp", bmp), ("gif", gif), ("jpg", jpeg), ("jpeg", jpeg),
    ("jfif", jpeg), ("avif", named "Avif"), ("webp", named "WebP"), ("tif", named "Tiff"),
    ("tiff", named "Tiff"), ("tga", named "Tga"), ("dds", named "Dds"), ("ico", named "Ico"),
    ("hdr", named "Hdr"), ("exr", named "OpenExr"), ("pbm", named "Pnm"), ("pam", named "Pnm"),
    ("ppm", named "Pnm"), ("pgm", named "Pnm"), ("pnm", named "Pnm"), ("ff", named "Farbfeld"),
    ("qoi", named "Qoi")]

/-- The format of a file by its name, or why it has none. -/
def ofPath (path : String) : Except String PictureFormat :=
  match Path.extension? path with
  | none => .error "The image format could not be determined"
  | some written =>
    match extensions.lookup (written.map Char.toLower) with
    | some format => .ok format
    | none =>
      .error ("The file extension `." ++ Json.quote written
        ++ "` was not recognized as an image format")

/-- Why pictures with four channels cannot be written in a format, if they cannot. -/
def refusal? : PictureFormat → Option String
  | jpeg => some "The encoder or decoder for Jpeg does not support the color type `Rgba8`"
  | named name => some ("The image format `" ++ name ++ "` is not supported")
  | _ => none

/-! ## 2. PNG -/

open ByteOrder (wordBytes wordBytesMostFirst digits)

/-- A chunk of a PNG file. -/
def chunk (name : String) (data : List UInt8) : List UInt8 :=
  let named := Png.nameBytes name ++ data
  wordBytesMostFirst data.length ++ named ++ wordBytesMostFirst (Checksum.cyclic named).toNat

/-- The most bytes of a stored block. -/
def storedLimit : Nat := 65535

/-- A stored block. -/
def storedBlock (final : Bool) (data : List UInt8) : List UInt8 :=
  UInt8.ofNat final.toNat :: (digits 2 data.length ++ digits 2 (storedLimit - data.length) ++ data)

/-- Deflated data in stored blocks. -/
def storedBlocks (data : List UInt8) : List UInt8 :=
  if _h : data.length ≤ storedLimit then storedBlock true data
  else storedBlock false (data.take storedLimit) ++ storedBlocks (data.drop storedLimit)
termination_by data.length
decreasing_by
  rw [List.length_drop]
  have : 0 < storedLimit := by decide
  omega

/-- Data as a PNG file packs it. -/
def pack (data : List UInt8) : List UInt8 :=
  [0x78, 0x01] ++ storedBlocks data ++ wordBytesMostFirst (Checksum.summed data)

/-- A PNG picture of one colour. -/
def plainPng (width height : Nat) (color : Rgba) : List UInt8 :=
  let row := 0 :: (List.replicate width color.toList).flatten
  Png.signature
    ++ chunk "IHDR" (wordBytesMostFirst width ++ wordBytesMostFirst height ++ [8, 6, 0, 0, 0])
    ++ chunk "IDAT" (pack (List.replicate height row).flatten)
    ++ chunk "IEND" []

/-! ## 3. Bitmaps -/

/-- A bitmap of one colour. -/
def plainBitmap (width height : Nat) (color : Rgba) : List UInt8 :=
  let stride := Bitmap.stride width
  let texels := (List.replicate width [color.blue, color.green, color.red]).flatten
  let row := texels ++ List.replicate (stride - 3 * width) 0
  let size := stride * height
  Bitmap.signature ++ wordBytes (54 + size) ++ wordBytes 0 ++ wordBytes 54
    ++ wordBytes 40 ++ wordBytes width ++ wordBytes height ++ [1, 0, 24, 0] ++ wordBytes 0
    ++ wordBytes size ++ wordBytes 2835 ++ wordBytes 2835 ++ wordBytes 0 ++ wordBytes 0
    ++ (List.replicate height row).flatten

/-! ## 4. GIF -/

/-- The codes of `count` texels of the first colour.  The table is cleared after every two of them,
so that codes keep three bits. -/
def gifCodes : Nat → List Nat
  | 0 => [4, 5]
  | 1 => [4, 0, 5]
  | count + 2 => 4 :: 0 :: 0 :: gifCodes count

/-- Codes of three bits in bytes; `held` are the `bits` bits that wait for more. -/
def packCodes (held bits : Nat) : List Nat → List UInt8
  | [] => if bits = 0 then [] else [UInt8.ofNat held]
  | code :: rest =>
    let held := held + code * Nat.pow 2 bits
    if 8 ≤ bits + 3 then UInt8.ofNat held :: packCodes (held / 256) (bits + 3 - 8) rest
    else packCodes held (bits + 3) rest

/-- Data in blocks of at most 255 bytes, and the empty block at the end. -/
def gifBlocks (data : List UInt8) : List UInt8 :=
  if _h : data.isEmpty then [0]
  else
    let part := data.take 255
    UInt8.ofNat part.length :: (part ++ gifBlocks (data.drop 255))
termination_by data.length
decreasing_by
  cases data with
  | nil => simp at _h
  | cons _ rest =>
    rw [List.length_drop, List.length_cons]
    omega

/-- A GIF picture of one colour. -/
def plainGif (width height : Nat) (color : Rgba) : List UInt8 :=
  let size := digits 2 width ++ digits 2 height
  "GIF89a".toUTF8.toList ++ size ++ [0x80, 0, 0] ++ [color.red, color.green, color.blue, 0, 0, 0]
    ++ [0x2C] ++ List.replicate 4 0 ++ size ++ [0, 2]
    ++ gifBlocks (packCodes 0 0 (gifCodes (width * height))) ++ [0x3B]

/-- The file of a picture of one colour; empty in formats that cannot be written. -/
def plainFile (format : PictureFormat) (width height : Nat) (color : Rgba) : List UInt8 :=
  match format with
  | png => plainPng width height color
  | bmp => plainBitmap width height color
  | gif => plainGif width height color
  | _ => []

end PictureFormat

end ShaderFabric
