/-
# The life of a material

A material is built from a fabric or a type, takes new values, polls its loads, and is destroyed.
Every change first makes sure that the material is alive; a change that is refused changes nothing.

A new value must be of the type the uniform has; of textures, the neutral one also counts as a value
of the other kind.

Component `material`: `with_library`, `from_type`, `set_uniform`, `poll`, `destroy`.
-/
import ShaderFabric.Material.Basic

namespace ShaderFabric

/-- How a material is built. -/
structure MaterialOptions where
  strict : Bool
  /-- Whether the material is blended, whatever its types say. -/
  translucent : Option Bool
  deriving Repr, DecidableEq

namespace Material

/-! ## 1. Building -/

/-- A uniform of a program at work, its texture assigned. -/
def buildUniform (loader : Loader) (path : List String) (uniform : ProgramUniform) :
    StateM Studio MaterialUniform := do
  let texture ←
    match uniform.mangled, TextureRequest.ofValue? uniform.value with
    | some _, some request =>
      let slot := Slot.new (dotted path ++ "." ++ uniform.name) request.kind
      some <$> slot.assign loader request
    | _, _ => pure none
  return ⟨uniform.name, uniform.mangled, uniform.value, texture⟩

/-- The uniforms of a program at work, in order. -/
def buildUniforms (loader : Loader) (path : List String) :
    List ProgramUniform → StateM Studio (List MaterialUniform)
  | [] => return []
  | uniform :: rest => do
    let first ← buildUniform loader path uniform
    return first :: (← buildUniforms loader path rest)

mutual

/-- The material of a program: its own uniforms first, then its sub-materials. -/
def build (loader : Loader) (translucent : Bool) : Program → StateM Studio Material
  | ⟨path, typeName, function, emitted, text, uniforms, materials, _⟩ => do
    let own ← buildUniforms loader path uniforms
    let children ← buildChildren loader materials
    return ⟨path, typeName, function, Program.sources materials ++ text, emitted, own, children,
      translucent, false⟩

def buildChildren (loader : Loader) :
    List (String × Program) → StateM Studio (List (String × Material))
  | [] => return []
  | (name, program) :: rest => do
    let child ← build loader program.anyTranslucent program
    return (name, child) :: (← buildChildren loader rest)

end

/-- The material of a fabric. -/
def ofFabric (library : Library) (options : MaterialOptions) (loader : Loader) (fabric : Fabric) :
    StateM Studio (Except MaterialError Material) := do
  match resolve library options.strict fabric with
  | .error error => return .error (.unresolved error)
  | .ok node =>
    let program := compose node
    return .ok (← build loader (options.translucent.getD program.anyTranslucent) program)

/-- Puts new values into a fabric; each must be that of a uniform of the type. -/
def overrideUniforms (declared : Node) :
    List (String × Literal) → Fabric → Except MaterialError Fabric
  | [], fabric => .ok fabric
  | (name, literal) :: rest, fabric =>
    if (declared.uniform? name).isNone then .error (.unknownUniform name)
    else overrideUniforms declared rest
      (fabric.withUniform name literal)

/-- The material of a type with some values of its own. -/
def ofType (library : Library) (loader : Loader) (typeName : String)
    (overrides : List (String × Literal)) : StateM Studio (Except MaterialError Material) := do
  match resolve library false (Fabric.ofType typeName) with
  | .error error => return .error (.unresolved error)
  | .ok declared =>
    match overrideUniforms declared overrides (Fabric.ofType typeName) with
    | .error error => return .error error
    | .ok fabric => ofFabric library ⟨false, none⟩ loader fabric

/-! ## 2. Changes -/

/-- A change of a material that has a result or is refused. -/
abbrev Change (α : Type) := Material → StateM Studio (Except MaterialError α × Material)

/-- A sub-material of a material that is alive. -/
def livingChild (material : Material) (name : String) : Except MaterialError Material :=
  if material.destroyed then .error .alreadyDestroyed
  else
    match material.child? name with
    | some child => .ok child
    | none => .error (.unknownMaterial name)

/-- Puts a sub-material in the place of the one of that name. -/
def replaceChild (name : String) (child : Material) :
    List (String × Material) → List (String × Material)
  | [] => []
  | (other, material) :: rest =>
    if other = name then (name, child) :: rest
    else (other, material) :: replaceChild name child rest

/-- A change of the node at the end of a way of names. -/
def within {α : Type} : List String → Change α → Change α
  | [], change => change
  | name :: rest, change => fun material =>
    match material.livingChild name with
    | .error error => return (.error error, material)
    | .ok child => do
      let (result, child) ← within rest change child
      return (result, { material with materials := replaceChild name child material.materials })

/-! ## 3. New values -/

/-- A value of a type, if it is one. -/
def fit (name : String) (expected : Kind) (value : Value) : Except MaterialError Value :=
  if value.kind = expected then .ok value
  else
    match value.retype? expected with
    | some value => .ok value
    | none => .error (.mismatch name expected value.kind)

/-- The value that a literal is for a uniform, or the first rule it breaks. -/
def accept (material : Material) (name : String) (literal : Literal) :
    Except MaterialError Value := do
  if material.destroyed then throw .alreadyDestroyed
  let some uniform := material.uniform? name | throw (.unknownUniform name)
  if uniform.value.isSelector then throw (.fixedUniform name)
  match literal.infer with
  | .error reason => throw (.unresolved ⟨material.path, .invalidShape name reason⟩)
  | .ok value => fit name uniform.value.kind value

/-- A uniform under a new value; a texture starts again. -/
def assignUniform (loader : Loader) (value : Value) (uniform : MaterialUniform) :
    StateM Studio MaterialUniform := do
  let texture ←
    match uniform.texture, TextureRequest.ofValue? value with
    | some slot, some request => some <$> slot.assign loader request
    | texture, _ => pure texture
  return { uniform with value, texture }

/-- The uniforms with a new value for one of them. -/
def assignUniforms (loader : Loader) (name : String) (value : Value) :
    List MaterialUniform → StateM Studio (List MaterialUniform)
  | [] => return []
  | uniform :: rest =>
    if uniform.name = name then return (← assignUniform loader value uniform) :: rest
    else return uniform :: (← assignUniforms loader name value rest)

/-- Sets a uniform. -/
def set (loader : Loader) (name : String) (literal : Literal) : Change Unit := fun material =>
  match material.accept name literal with
  | .error error => return (.error error, material)
  | .ok value => do
    let uniforms ← assignUniforms loader name value material.uniforms
    return (.ok (), { material with uniforms })

/-! ## 4. Loads -/

/-- Polls a uniform and says whether its slot changed. -/
def pollUniform (uploader : Uploader) (uniform : MaterialUniform) :
    StateM Studio (MaterialUniform × Bool) := do
  match uniform.texture with
  | none => return (uniform, false)
  | some slot =>
    let (slot, changed) ← slot.poll uploader
    return ({ uniform with texture := some slot }, changed)

/-- Polls uniforms in order and counts the slots that changed. -/
def pollUniforms (uploader : Uploader) :
    List MaterialUniform → StateM Studio (List MaterialUniform × Nat)
  | [] => return ([], 0)
  | uniform :: rest => do
    let (first, changed) ← pollUniform uploader uniform
    let (others, count) ← pollUniforms uploader rest
    return (first :: others, changed.toNat + count)

mutual

/-- Polls the nodes that are alive, sub-materials first, and counts the slots that changed. -/
def pollTree (uploader : Uploader) : Material → StateM Studio (Material × Nat)
  | ⟨path, typeName, function, source, emitted, uniforms, materials, translucent, destroyed⟩ => do
    if destroyed then
      return (⟨path, typeName, function, source, emitted, uniforms, materials, translucent,
        destroyed⟩, 0)
    let (children, below) ← pollTrees uploader materials
    let (own, count) ← pollUniforms uploader uniforms
    return (⟨path, typeName, function, source, emitted, own, children, translucent, destroyed⟩,
      below + count)

def pollTrees (uploader : Uploader) :
    List (String × Material) → StateM Studio (List (String × Material) × Nat)
  | [] => return ([], 0)
  | (name, child) :: rest => do
    let (first, count) ← pollTree uploader child
    let (others, more) ← pollTrees uploader rest
    return ((name, first) :: others, count + more)

end

/-- Applies the loads that are done, and counts the slots that changed. -/
def poll (uploader : Uploader) : Change Nat := fun material =>
  if material.destroyed then return (.error .alreadyDestroyed, material)
  else do
    let (material, count) ← material.pollTree uploader
    return (.ok count, material)

/-! ## 5. The end -/

/-- Releases the slots of uniforms. -/
def releaseUniforms : List MaterialUniform → StateM Studio (List MaterialUniform)
  | [] => return []
  | uniform :: rest => do
    let texture ←
      match uniform.texture with
      | none => pure none
      | some slot => some <$> slot.release
    return { uniform with texture } :: (← releaseUniforms rest)

mutual

/-- Releases every slot of the tree and marks each node. -/
def releaseTree : Material → StateM Studio Material
  | ⟨path, typeName, function, _, emitted, uniforms, materials, translucent, _⟩ => do
    let children ← releaseTrees materials
    let own ← releaseUniforms uniforms
    return ⟨path, typeName, function, "", emitted, own, children, translucent, true⟩

def releaseTrees : List (String × Material) → StateM Studio (List (String × Material))
  | [] => return []
  | (name, child) :: rest => do
    let first ← if child.destroyed then pure child else releaseTree child
    return (name, first) :: (← releaseTrees rest)

end

/-- Destroys a material and everything below it. -/
def destroy : Change Unit := fun material =>
  if material.destroyed then return (.error .alreadyDestroyed, material)
  else return (.ok (), ← material.releaseTree)

/-- No change, whatever the material is; at the end of a way of names it asks only that the
materials below the start can be reached. -/
def reach : Change Unit := fun material => return (.ok (), material)

end Material

end ShaderFabric
