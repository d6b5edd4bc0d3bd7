/-
# Where bindings live on the device

The plain values of a material share one block of bytes; each texture has a place of its own, with a
sampler after it.  In the block, every field starts at the next multiple of its alignment:

* a boolean is a number of four bytes;
* three numbers end after twelve bytes, and the next field may follow at once;
* a matrix is its columns, each of them in sixteen bytes.

The block is a positive multiple of sixteen bytes, and bytes that no value fills are zero.

Component `renderer`: `MaterialLayout` with `from_bindings` and `pack`, `texture_binding`,
`build_material_layout_entries`.
-/
import ShaderFabric.Material.Basic
import ShaderFabric.Number.Word

namespace ShaderFabric

/-! ## 1. Layouts -/

/-- A plain value in the block. -/
structure BlockField where
  name : String
  kind : Kind
  offset : Nat
  deriving Repr, DecidableEq

/-- A texture beside the block. -/
structure TextureField where
  name : String
  kind : TextureKind
  deriving Repr, DecidableEq

/-- Where the bindings of a material live. -/
structure Layout where
  fields : List BlockField
  textures : List TextureField
  /-- The bytes of the block. -/
  size : Nat
  deriving Repr, DecidableEq

/-- The alignment and the size of a type in a block, in bytes; textures and selectors are in
none. -/
def Kind.extent? : Kind → Option (Nat × Nat)
  | bool | float => some (4, 4)
  | vec2 => some (8, 8)
  | vec3 => some (16, 12)
  | vec4 => some (16, 16)
  | mat3 => some (16, 48)
  | mat4 => some (16, 64)
  | sampler2D | samplerCube | channels => none

/-- The kind of the textures of a type. -/
def Kind.textureKind? : Kind → Option TextureKind
  | sampler2D => some .flat
  | samplerCube => some .cube
  | _ => none

namespace Layout

/-- The least multiple of `step` that is not below `n`. -/
def roundUp (n step : Nat) : Nat := (n + step - 1) / step * step

/-- The fields of the block from `start` on. -/
def placeFields (start : Nat) : List (String × Kind) → List BlockField
  | [] => []
  | (name, kind) :: rest =>
    match kind.extent? with
    | none => placeFields start rest
    | some (align, size) =>
      let offset := roundUp start align
      ⟨name, kind, offset⟩ :: placeFields (offset + size) rest

/-- Where the fields of the block end. -/
def endOfFields (start : Nat) : List (String × Kind) → Nat
  | [] => start
  | (_, kind) :: rest =>
    match kind.extent? with
    | none => endOfFields start rest
    | some (align, size) => endOfFields (roundUp start align + size) rest

/-- The textures. -/
def placeTextures (entries : List (String × Kind)) : List TextureField :=
  entries.filterMap fun (name, kind) => kind.textureKind?.map fun textureKind => ⟨name, textureKind⟩

/-- The layout of names and types.  A block without fields still has one number in it. -/
def ofEntries (entries : List (String × Kind)) : Layout where
  fields := placeFields 0 entries
  textures := placeTextures entries
  size := roundUp (max (endOfFields 0 entries) 4) 16

/-- The layout of bindings. -/
def ofBindings (bindings : List Binding) : Layout :=
  ofEntries (bindings.map fun binding => (binding.name, binding.kind))

/-! ## 2. Bytes of the block -/

/-- Some numbers one after the other. -/
def numberBytes (numbers : List Single) : List UInt8 := numbers.flatMap Single.bytes

/-- A column of a matrix of three. -/
def columnBytes (column : Triple) : List UInt8 := numberBytes column.toList ++ List.replicate 4 0

/-- The bytes of a value in a block. -/
def valueBytes? : Value → Option (List UInt8)
  | .bool value => some (ByteOrder.wordBytes value.toNat)
  | .mat3 a b c => some (columnBytes a ++ columnBytes b ++ columnBytes c)
  | value => value.floats?.map numberBytes

/-- Bytes with others in place of those at an offset. -/
def overwrite (bytes : List UInt8) (offset : Nat) (data : List UInt8) : List UInt8 :=
  bytes.take offset ++ data ++ bytes.drop (offset + data.length)

/-- The binding of a name. -/
def binding? (bindings : List Binding) (name : String) : Option Binding :=
  bindings.find? fun binding => binding.name = name

/-- Writes the value of a field; a field whose binding is gone stays as it is. -/
def packField (bindings : List Binding) (bytes : List UInt8) (field : BlockField) : List UInt8 :=
  match (binding? bindings field.name).bind fun binding => valueBytes? binding.value with
  | some data => overwrite bytes field.offset data
  | none => bytes

/-- The block with the values of bindings. -/
def pack (layout : Layout) (bindings : List Binding) : List UInt8 :=
  layout.fields.foldl (packField bindings) (List.replicate layout.size 0)

/-! ## 3. Places beside the block -/

/-- The place of the texture at an index; its sampler comes after it.  Both fit a word of four bytes
below index `2 ^ 31 - 1`. -/
def texturePlace (index : Nat) : Nat := 1 + 2 * index

/-- What a program finds at a place. -/
inductive EntryKind
  | block
  | texture (kind : TextureKind)
  | sampler
  deriving Repr, DecidableEq

/-- The places of textures from an index on, each with what is to be found there. -/
def textureEntries (index : Nat) : List TextureField → List (Nat × EntryKind)
  | [] => []
  | field :: rest =>
    (texturePlace index, .texture field.kind) :: (texturePlace index + 1, .sampler)
      :: textureEntries (index + 1) rest

/-- All places of a layout, the block first. -/
def entries (layout : Layout) : List (Nat × EntryKind) :=
  (0, .block) :: textureEntries 0 layout.textures

/-- What is put at a place to draw. -/
inductive Bound
  | block (bytes : List UInt8)
  | texture (texture : GpuTexture)
  /-- The white texture of a kind. -/
  | placeholder (kind : TextureKind)
  | sampler
  deriving Repr, DecidableEq

/-- What a texture uniform shows: its own texture once it is ready, and white until then. -/
def shownTexture (bindings : List Binding) (field : TextureField) : Bound :=
  match (binding? bindings field.name).bind Binding.texture with
  | some (.ready texture) =>
    if texture.kind = field.kind then .texture texture else .placeholder field.kind
  | _ => .placeholder field.kind

/-- What is put at the places of textures from an index on. -/
def boundTextures (bindings : List Binding) (index : Nat) : List TextureField → List (Nat × Bound)
  | [] => []
  | field :: rest =>
    (texturePlace index, shownTexture bindings field) :: (texturePlace index + 1, .sampler)
      :: boundTextures bindings (index + 1) rest

/-- What is put at all places. -/
def bound (layout : Layout) (bindings : List Binding) : List (Nat × Bound) :=
  (0, .block (layout.pack bindings)) :: boundTextures bindings 0 layout.textures

end Layout

end ShaderFabric
