/-
# Compressed textures by family

A compressed set offers one image in several families of compression.  The family to use is the
first of a preference that the set offers and the device supports.

Component `fabric`: `Codec`, `CompressedSet` and its `select`.
-/
import ShaderFabric.Uniform.Image

namespace ShaderFabric

/-- A family of texture compression. -/
inductive Codec
  | s3tc
  | etc1
  | pvrtc
  deriving Repr, DecidableEq

namespace Codec

/-- Every family, in the default order of preference. -/
def all : List Codec := [s3tc, etc1, pvrtc]

/-- The key of a family in data. -/
def key : Codec → String
  | s3tc => "s3tc"
  | etc1 => "etc1"
  | pvrtc => "pvrtc"

/-- The family of a key. -/
def ofKey? (key : String) : Option Codec := all.find? fun codec => codec.key = key

/-- The families of a list without repeats, in the order in which they first come. -/
def distinct (codecs : List Codec) : List Codec :=
  codecs.foldl (fun kept codec => if codec ∈ kept then kept else kept ++ [codec]) []

/-- The name of a family in reports. -/
def name : Codec → String
  | s3tc => "S3tc"
  | etc1 => "Etc1"
  | pvrtc => "Pvrtc"

end Codec

/-- One image in some families, each at its own location. -/
structure CompressedSet where
  s3tc : Option Location
  etc1 : Option Location
  pvrtc : Option Location
  deriving Repr, DecidableEq

namespace CompressedSet

def empty : CompressedSet := ⟨none, none, none⟩

/-- The location of a family. -/
def get? (set : CompressedSet) : Codec → Option Location
  | .s3tc => set.s3tc
  | .etc1 => set.etc1
  | .pvrtc => set.pvrtc

/-- Sets the location of a family. -/
def put (set : CompressedSet) (codec : Codec) (location : Location) : CompressedSet :=
  match codec with
  | .s3tc => { set with s3tc := some location }
  | .etc1 => { set with etc1 := some location }
  | .pvrtc => { set with pvrtc := some location }

/-- The families offered, with their locations, in the default order. -/
def entries (set : CompressedSet) : List (Codec × Location) :=
  Codec.all.filterMap fun codec => (set.get? codec).map fun location => (codec, location)

/-- The first family of the preference that is supported and offered. -/
def select (set : CompressedSet) (preference : List Codec) (supported : Codec → Bool) :
    Option (Codec × Location) :=
  (preference.filter supported).findSome? fun codec =>
    (set.get? codec).map fun location => (codec, location)

theorem get?_put (set : CompressedSet) (codec other : Codec) (location : Location) :
    (set.put codec location).get? other =
      if codec = other then some location else set.get? other := by
  cases codec <;> cases other <;> rfl

end CompressedSet

end ShaderFabric
