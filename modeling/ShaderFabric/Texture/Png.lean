/-
# PNG images

A PNG file is a signature and chunks.  The texels are the packed data of the first chunks that hold
any, which follow one another and are followed by another chunk.

Read are images of eight bits a channel.  The reader breaks down over a palette that ends within an
entry once it has come to the first row, and notices no fault after that.
-/
import ShaderFabric.Texture.Deflate
import ShaderFabric.Texture.Fault
import ShaderFabric.Texture.Png.Row

namespace ShaderFabric

namespace Png

/-! ## 1. Texels as they are stored -/

/-- The packed data of a chunk; that of a frame is numbered and must have the number after
`last`. -/
def Chunk.packed? (chunk : Chunk) (last : Option Nat) : Option (List UInt8) :=
  if chunk.isNamed "IDAT" then some chunk.data
  else
    last.bind fun number =>
      if chunk.data.length < 4 ∨ ByteOrder.mostFirst.word chunk.data 0 ≠ number + 1 then none
      else some (chunk.data.drop 4)

/-- The packed data of chunks up to the first fault, and whether there is none. -/
def gather : Option Nat → List Chunk → List UInt8 × Bool
  | _, [] => ([], true)
  | last, chunk :: others =>
    match chunk.packed? last with
    | none => ([], false)
    | some data =>
      if chunk.isFatal then (data, false)
      else
        let (more, sound) := gather (last.map (· + 1)) others
        (data ++ more, sound)

/-- Data packed behind two bytes that name the method, with a check value of four bytes after it
that is not looked at. -/
def unpack : List UInt8 → Option (List UInt8)
  | method :: flags :: rest => do
    let fits := (256 * method.toNat + flags.toNat) % 31 = 0
    if method.toNat % 16 ≠ 8 ∨ 7 < method.toNat / 16 ∨ !fits ∨ flags.toNat.testBit 5 then none
    let (data, after) ← Deflate.inflate rest
    if after.length < 4 then none
    return data
  | _ => none

/-! ## 2. Files -/

/-- A file as it is found: what it says before the texels, their packed data, and whether the file
is sound from the texels on, as far as it is looked at. -/
structure File where
  head : Head
  packed : List UInt8
  sound : Bool

/-- The file that bytes are.  After the texels another chunk must begin. -/
def File.ofBytes? (bytes : List UInt8) : Option File := do
  unless signature.isPrefixOf bytes do none
  let all := chunks (bytes.drop signature.length)
  let before := all.takeWhile fun chunk => !chunk.holdsTexels
  let others := all.drop before.length
  let first ← others.head?
  let holders := others.takeWhile fun chunk => chunk.name == first.name
  let head ← Head.ofChunks? before
  let (packed, sound) := gather head.frame holders
  return ⟨head, packed, sound && holders.length < others.length⟩

/-- The image of a file. -/
def read (bytes : List UInt8) : Except ImageFault Image := do
  let some file := File.ofBytes? bytes | throw .broken
  let some data := unpack file.packed | throw .broken
  if file.head.isRagged && file.head.hasFirstRow data then throw .breakdown
  if !file.sound then throw .broken
  let some image := file.head.image? data | throw .broken
  return image

end Png

end ShaderFabric
