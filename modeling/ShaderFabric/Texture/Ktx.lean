/-
# The container of compressed textures

A KTX 1.1 container: an identifier, a header of thirteen words, bytes of keys and values that are
passed over, and the levels, the largest first.  A level is its size in a word and its data, padded
to a multiple of four bytes.

* `read` takes flat compressed textures in either byte order and refuses all else with the fault it
  meets first, or breaks down over the size of a level that no word counts;
* `write` gives the container without keys, the least significant byte first.

Component `textures`: `is_ktx`, `parse`, `encode`, and `level_len` with its bound.
-/
import ShaderFabric.Number.Word
import ShaderFabric.Texture.Format

namespace ShaderFabric

namespace Ktx

/-! ## 1. Textures and faults -/

/-- A compressed texture with its levels, the largest first. -/
structure Texture where
  format : CompressedFormat
  width : Nat
  height : Nat
  levels : List (List UInt8)
  deriving Repr, DecidableEq

/-- Why bytes are no container of a flat compressed texture. -/
inductive Fault
  | noIdentifier
  | shortHeader (size : Nat)
  | noByteOrder
  | uncompressed
  | notFlat (depth elements faces : Nat)
  | noTexels
  | unknownFormat (code : Nat)
  | tooManyLevels (count limit width height : Nat)
  | noRoomForLevels (count room : Nat)
  | noLevelSize (level : Nat)
  | noLevelData (level : Nat)
  | wrongLevelSize (level size expected : Nat)
  /-- The reader itself breaks down: a word does not hold a product. -/
  | breakdown
  deriving Repr, DecidableEq

namespace Fault

/-- Whether the container may be sound and only of a kind that is not read. -/
def isUnsupported : Fault → Bool
  | uncompressed | notFlat .. | unknownFormat _ => true
  | _ => false

/-- A number in upper-case hexadecimal of at least four digits. -/
def codeText (code : Nat) : String :=
  let digits := (Nat.toDigits 16 code).map Char.toUpper
  String.ofList (List.replicate (4 - digits.length) '0' ++ digits)

/-- What is wrong. -/
def message : Fault → String
  | noIdentifier => "missing KTX 1.1 identifier"
  | shortHeader size => "header truncated (" ++ toString size ++ " bytes)"
  | noByteOrder => "invalid endianness marker"
  | uncompressed => "uncompressed KTX payloads are not supported"
  | notFlat depth elements faces =>
    "only 2D KTX textures are supported (depth " ++ toString depth ++ ", array elements "
      ++ toString elements ++ ", faces " ++ toString faces ++ ")"
  | noTexels => "zero-sized texture"
  | unknownFormat code => "compressed internal format 0x" ++ codeText code
  | tooManyLevels count limit width height =>
    toString count ++ " mip levels exceed the " ++ toString limit ++ " a " ++ toString width ++ "x"
      ++ toString height ++ " texture can have"
  | noRoomForLevels count room =>
    toString count ++ " mip levels do not fit in " ++ toString room ++ " bytes"
  | noLevelSize level => "mip level " ++ toString level ++ " size is truncated"
  | noLevelData level => "mip level " ++ toString level ++ " data is truncated"
  | wrongLevelSize level size expected =>
    "mip level " ++ toString level ++ " holds " ++ toString size ++ " bytes, expected "
      ++ toString expected
  | breakdown => "attempt to multiply with overflow"

end Fault

/-! ## 2. The form of a container -/

/-- The first bytes of a container. -/
def identifier : List UInt8 :=
  [0xAB, 0x4B, 0x54, 0x58, 0x20, 0x31, 0x31, 0xBB, 0x0D, 0x0A, 0x1A, 0x0A]

/-- The bytes of the identifier and the header. -/
def headerSize : Nat := 64

/-- The first word of the header; it shows the byte order. -/
def orderMark : Nat := 0x04030201

/-- Whether bytes start as a container. -/
def isContainer (bytes : List UInt8) : Bool := identifier.isPrefixOf bytes

/-- The byte order in which the mark reads as it should. -/
def byteOrder? (bytes : List UInt8) : Option ByteOrder :=
  if ByteOrder.leastFirst.word bytes 12 = orderMark then some .leastFirst
  else if ByteOrder.mostFirst.word bytes 12 = orderMark then some .mostFirst
  else none

/-- The words of the header that matter. -/
structure Header where
  texelType : Nat
  formatCode : Nat
  width : Nat
  height : Nat
  depth : Nat
  elements : Nat
  faces : Nat
  levelWord : Nat
  keyBytes : Nat

namespace Header

/-- The header in a byte order. -/
def ofBytes (order : ByteOrder) (bytes : List UInt8) : Header where
  texelType := order.word bytes 16
  formatCode := order.word bytes 28
  width := order.word bytes 36
  height := order.word bytes 40
  depth := order.word bytes 44
  elements := order.word bytes 48
  faces := order.word bytes 52
  levelWord := order.word bytes 56
  keyBytes := order.word bytes 60

/-- The number of levels; zero asks for levels to be made and stands for one. -/
def levelCount (header : Header) : Nat := max header.levelWord 1

/-- Where the first level starts. -/
def levelStart (header : Header) : Nat := headerSize + header.keyBytes

/-- The most levels the texture can have: halving ends at one texel. -/
def levelLimit (header : Header) : Nat := (max header.width header.height).log2 + 1

/-- The format of a sound header of a flat compressed texture in a container of `size` bytes. -/
def check (header : Header) (size : Nat) : Except Fault CompressedFormat := do
  if header.texelType ≠ 0 then throw .uncompressed
  if 1 < header.depth ∨ 0 < header.elements ∨ header.faces ≠ 1 then
    throw (.notFlat header.depth header.elements header.faces)
  if header.width = 0 ∨ header.height = 0 then throw .noTexels
  let some format := CompressedFormat.ofCode? header.formatCode
    | throw (.unknownFormat header.formatCode)
  if header.levelLimit < header.levelCount then
    throw (.tooManyLevels header.levelCount header.levelLimit header.width header.height)
  let room := size - header.levelStart
  if room / 4 < header.levelCount then throw (.noRoomForLevels header.levelCount room)
  return format

end Header

/-- The edge of a level. -/
def levelEdge (edge level : Nat) : Nat := max (edge >>> level) 1

/-- The next offset that is a multiple of four. -/
def padded (offset : Nat) : Nat := (offset + 3) / 4 * 4

/-! ## 3. Reading -/

/-- The size of a level, if it follows from its edges.  It is counted in a word of sixty-four bits,
and the count breaks down where the word does not hold it. -/
def levelSize? (format : CompressedFormat) (width height : Nat) : Except Fault (Option Nat) := do
  let some expected := format.levelBytes? width height | return none
  if 0x10000000000000000 ≤ expected then throw .breakdown
  return some expected

/-- The data of one level. -/
def readLevel (order : ByteOrder) (format : CompressedFormat) (width height : Nat)
    (bytes : List UInt8) (level offset : Nat) : Except Fault (List UInt8) := do
  let some size := order.word? bytes offset | throw (.noLevelSize level)
  if bytes.length < offset + 4 + size then throw (.noLevelData level)
  if let some expected ← levelSize? format (levelEdge width level) (levelEdge height level) then
    if expected ≠ size then throw (.wrongLevelSize level size expected)
  return (bytes.drop (offset + 4)).take size

/-- The data of `count` levels from `level` on. -/
def readLevels (order : ByteOrder) (format : CompressedFormat) (width height : Nat)
    (bytes : List UInt8) : Nat → Nat → Nat → Except Fault (List (List UInt8))
  | 0, _, _ => return []
  | count + 1, level, offset => do
    let data ← readLevel order format width height bytes level offset
    let rest ← readLevels order format width height bytes count (level + 1)
      (padded (offset + 4 + data.length))
    return data :: rest

/-- The texture of a container. -/
def read (bytes : List UInt8) : Except Fault Texture := do
  unless isContainer bytes do throw .noIdentifier
  if bytes.length < headerSize then throw (.shortHeader bytes.length)
  let some order := byteOrder? bytes | throw .noByteOrder
  let header := Header.ofBytes order bytes
  let format ← header.check bytes.length
  let levels ← readLevels order format header.width header.height bytes header.levelCount 0
    header.levelStart
  return ⟨format, header.width, header.height, levels⟩

/-! ## 4. Writing -/

/-- Bytes with zeros up to the next multiple of four. -/
def pad (bytes : List UInt8) : List UInt8 :=
  bytes ++ List.replicate (padded bytes.length - bytes.length) 0

/-- A container with one level more. -/
def writeLevel (container data : List UInt8) : List UInt8 :=
  pad (container ++ ByteOrder.wordBytes data.length ++ data)

/-- The identifier and the header of a container without keys. -/
def writeHeader (code width height count : Nat) : List UInt8 :=
  let words := [orderMark, 0, 1, 0, code, 0, width, height, 0, 0, 1, count, 0]
  identifier ++ words.flatMap ByteOrder.wordBytes

/-- The container of levels under a code of a format. -/
def write (code width height : Nat) (levels : List (List UInt8)) : List UInt8 :=
  levels.foldl writeLevel (writeHeader code width height levels.length)

end Ktx

end ShaderFabric
