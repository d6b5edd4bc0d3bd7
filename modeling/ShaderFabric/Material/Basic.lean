/-
# Materials

A material is a composed program with the present values of its uniforms and, for each texture
uniform of the program, a slot.  It owns its sub-materials.  Destroying a material empties its text
and all slots below it, and is final.

* `bindings` lists what a renderer binds, sub-materials first;
* `pendingTextures` counts the slots that wait for a load;
* `isIntact` says that no node of the tree has been destroyed.

Component `material`: `Material`, `Binding`, `bindings`, `pending_textures`.
-/
import ShaderFabric.Material.Program
import ShaderFabric.Material.Resolve
import ShaderFabric.Texture.Slot

namespace ShaderFabric

/-! ## 1. Errors -/

/-- Why a material cannot be built or changed. -/
inductive MaterialError
  | unresolved (error : ResolveError)
  | alreadyDestroyed
  | unknownUniform (name : String)
  | unknownMaterial (name : String)
  | mismatch (name : String) (expected found : Kind)
  | fixedUniform (name : String)
  deriving Repr, DecidableEq

/-- What a report says of an error. -/
def MaterialError.message : MaterialError → String
  | unresolved error => error.message
  | alreadyDestroyed => "material has already been destroyed"
  | unknownUniform name => "material declares no uniform named '" ++ name ++ "'"
  | unknownMaterial name => "material declares no sub-material named '" ++ name ++ "'"
  | mismatch name expected found =>
    "uniform '" ++ name ++ "' is a " ++ expected.glslName ++ ", the new value is a "
      ++ found.glslName
  | fixedUniform name =>
    "uniform '" ++ name ++ "' selects channels and is fixed once the material is built"

/-! ## 2. Materials -/

/-- A uniform of a material. -/
structure MaterialUniform where
  name : String
  /-- The identifier in the program, if the uniform is part of it. -/
  mangled : Option String
  value : Value
  /-- The slot of a texture uniform of the program. -/
  texture : Option Slot
  deriving DecidableEq

/-- A material with its sub-materials. -/
structure Material where
  path : List String
  typeName : Option String
  function : String
  /-- The text of the program from this node down; empty once the material is destroyed. -/
  source : String
  /-- Whether the node is part of the whole program. -/
  emitted : Bool
  uniforms : List MaterialUniform
  materials : List (String × Material)
  translucent : Bool
  destroyed : Bool

namespace Material

/-- The uniform of a name. -/
def uniform? (material : Material) (name : String) : Option MaterialUniform :=
  material.uniforms.find? fun uniform => uniform.name = name

/-- The sub-material of a name. -/
def child? (material : Material) (name : String) : Option Material :=
  (material.materials.find? fun child => child.1 = name).map Prod.snd

/-- The node at the end of a way of names. -/
def node? (material : Material) : List String → Option Material
  | [] => some material
  | name :: rest => (material.child? name).bind fun child => child.node? rest

mutual

/-- Whether no node of the tree has been destroyed. -/
def isIntact : Material → Bool
  | ⟨_, _, _, _, _, _, materials, _, destroyed⟩ => !destroyed && areIntact materials

def areIntact : List (String × Material) → Bool
  | [] => true
  | (_, child) :: rest => isIntact child && areIntact rest

end

/-- The slots of some uniforms. -/
def slotsOf (uniforms : List MaterialUniform) : List Slot :=
  uniforms.filterMap MaterialUniform.texture

mutual

/-- The slots of the tree, sub-materials first. -/
def slots : Material → List Slot
  | ⟨_, _, _, _, _, uniforms, materials, _, _⟩ => allSlots materials ++ slotsOf uniforms

def allSlots : List (String × Material) → List Slot
  | [] => []
  | (_, child) :: rest => slots child ++ allSlots rest

end

mutual

/-- How many slots of the tree wait for a load: those of the node and of the trees below it. -/
def pendingTextures : Material → Nat
  | ⟨_, _, _, _, _, uniforms, materials, _, _⟩ =>
    (slotsOf uniforms).countP Slot.isLoading + allPending materials

def allPending : List (String × Material) → Nat
  | [] => 0
  | (_, child) :: rest => pendingTextures child + allPending rest

end

/-! ## 3. Bindings -/

end Material

/-- A uniform as a renderer binds it. -/
structure Binding where
  /-- The identifier in the program. -/
  name : String
  /-- The name in the fabric. -/
  declared : String
  path : List String
  value : Value
  texture : Option TextureState
  deriving DecidableEq

/-- The type of a binding. -/
def Binding.kind (binding : Binding) : Kind := binding.value.kind

namespace Material

/-- The bindings of the uniforms of one node that are part of the program. -/
def bindingsOf (path : List String) (uniforms : List MaterialUniform) : List Binding :=
  uniforms.filterMap fun uniform =>
    uniform.mangled.map fun name =>
      ⟨name, uniform.name, path, uniform.value, uniform.texture.map Slot.state⟩

mutual

/-- What a renderer binds, in the order of the declarations in the text.  Nothing is bound of nodes
that are destroyed or not part of the program, nor below them. -/
def bindings : Material → List Binding
  | ⟨path, _, _, _, emitted, uniforms, materials, _, destroyed⟩ =>
    if emitted && !destroyed then allBindings materials ++ bindingsOf path uniforms else []

def allBindings : List (String × Material) → List Binding
  | [] => []
  | (_, child) :: rest => bindings child ++ allBindings rest

end

end Material

end ShaderFabric
