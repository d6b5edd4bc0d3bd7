/-
# The chunks of a PNG file

After its signature a file is a sequence of chunks: a size, a name of four letters, the data, and a
check value of name and data.  A chunk whose first letter is small is extra: the image can be had
without it.
-/
import ShaderFabric.Number.Word
import ShaderFabric.Texture.Checksum

namespace ShaderFabric

namespace Png

/-- The first bytes of a file. -/
def signature : List UInt8 := [0x89, 0x50, 0x4E, 0x47, 0x0D, 0x0A, 0x1A, 0x0A]

/-- What became of a chunk that was begun. -/
inductive Condition
  | sound
  /-- The check value is another. -/
  | damaged
  /-- The file ends within the chunk. -/
  | cutOff
  deriving Repr, DecidableEq

/-- A chunk, with the data that is there of it. -/
structure Chunk where
  name : List UInt8
  data : List UInt8
  condition : Condition

/-- The name of a chunk as bytes. -/
def nameBytes (name : String) : List UInt8 := name.toUTF8.toList

/-- The chunks of bytes, up to one that is cut off. -/
def chunks (bytes : List UInt8) : List Chunk :=
  if _h : bytes.length < 8 then []
  else
    let size := ByteOrder.mostFirst.word bytes 0
    let name := (bytes.drop 4).take 4
    let data := (bytes.drop 8).take size
    if bytes.length < 12 + size then [⟨name, data, .cutOff⟩]
    else
      let check := ByteOrder.mostFirst.word bytes (8 + size)
      let intact := (Checksum.cyclic (name ++ data)).toNat = check
      ⟨name, data, if intact then .sound else .damaged⟩ :: chunks (bytes.drop (12 + size))
termination_by bytes.length
decreasing_by rw [List.length_drop]; omega

namespace Chunk

/-- Whether the chunk has a name. -/
def isNamed (chunk : Chunk) (name : String) : Bool := chunk.name == nameBytes name

/-- Whether the image can be had without the chunk. -/
def isExtra (chunk : Chunk) : Bool :=
  match chunk.name with
  | first :: _ => first.toNat.testBit 5
  | [] => false

/-- Whether the chunk holds texels: those of the image, or those of a frame. -/
def holdsTexels (chunk : Chunk) : Bool := chunk.isNamed "IDAT" || chunk.isNamed "fdAT"

/-- Whether the file cannot be read past the chunk. -/
def isFatal (chunk : Chunk) : Bool :=
  match chunk.condition with
  | .sound => false
  | .damaged => !chunk.isExtra
  | .cutOff => true

end Chunk

end Png

end ShaderFabric
