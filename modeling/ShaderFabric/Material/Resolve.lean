/-
# Resolving a fabric

A fabric becomes a tree of nodes from the root down.  Each node expands its template, checks the
rules, types its uniforms and finds out which declarations its body refers to; only then come its
sub-materials, in the order of their names.  The first broken rule is the answer.

Three rules hold in strict mode only: no members without a meaning, no declaration without a
reference, no access `name.component` to something that is not a sub-material.

Component `fabric`: `resolve`, `resolve_node`, `strip_declarations`.
-/
import ShaderFabric.Material.Expansion
import ShaderFabric.Material.Node
import ShaderFabric.Text.Declaration

namespace ShaderFabric

/-! ## 1. Errors -/

/-- Why a fabric does not resolve, and at which node. -/
structure ResolveError where
  path : List String
  cause : Cause
  deriving Repr, DecidableEq

/-- The word for a kind of declaration. -/
def Declares.word : Declares → String
  | uniform => "uniform"
  | material => "material"

/-- What a report says of a cause. -/
def Cause.message : Cause → String
  | bothBodies => "a material may define source or components, not both"
  | selfReference typeName => "type '" ++ typeName ++ "' refers to itself"
  | componentsTwice typeName => "type '" ++ typeName ++ "' already defines components"
  | duplicateName name => "'" ++ name ++ "' is declared both as a uniform and as a material"
  | unused kind name => kind.word ++ " '" ++ name ++ "' is declared but never referenced"
  | unknownType name => "unknown material type '" ++ name ++ "'"
  | invalidComponent name => "'" ++ name ++ "' is not a material component"
  | invalidShape name reason => "uniform '" ++ name ++ "' has an invalid shape: " ++ reason.message
  | reservedName kind name =>
    kind.word ++ " name '" ++ name ++ "' would produce a reserved GLSL identifier"
  | unknownField field => "unknown fabric field '" ++ field ++ "'"
  | unknownReference name component =>
    "'" ++ name ++ "." ++ component ++ "' does not refer to a declared material"
  | endless => "a template has itself among its sub-materials"

/-- What a report says of an error. -/
def ResolveError.message (error : ResolveError) : String :=
  dotted error.path ++ ": " ++ error.cause.message

/-! ## 2. Rules of names -/

/-- Two underscores in a row. -/
def hasDoubleUnderscore : List Char → Bool
  | '_' :: '_' :: _ => true
  | _ :: rest => hasDoubleUnderscore rest
  | [] => false

/-- A shader identifier of a uniform is its name with a suffix that starts with an underscore. -/
def isReservedUniform (name : String) : Bool :=
  name.toList.getLast? = some '_' || hasDoubleUnderscore name.toList

def isReservedMaterial (name : String) : Bool := hasDoubleUnderscore name.toList

/-- The first broken rule of names. -/
def checkNames (uniforms : List (String × Literal)) (materials : List (String × Fabric)) :
    Except Cause Unit :=
  match (uniforms.map Prod.fst).find? fun name => Table.contains materials name with
  | some name => .error (.duplicateName name)
  | none =>
    match (uniforms.map Prod.fst).find? isReservedUniform with
    | some name => .error (.reservedName .uniform name)
    | none =>
      match (materials.map Prod.fst).find? isReservedMaterial with
      | some name => .error (.reservedName .material name)
      | none => .ok ()

/-! ## 3. Types and bodies -/

/-- The components of a fabric's names. -/
def typeComponents : List (String × String) → Except Cause (List (Component × String))
  | [] => .ok []
  | (name, expression) :: rest =>
    match Component.ofName? name with
    | none => .error (.invalidComponent name)
    | some component => do return (component, expression) :: (← typeComponents rest)

/-- The components of a fabric, if it has any. -/
def typeBody : Option (List (String × String)) → Except Cause (Option (List (Component × String)))
  | none => .ok none
  | some entries => some <$> typeComponents entries

/-- The types of a fabric's uniforms. -/
def typeUniforms : List (String × Literal) → Except Cause (List (String × Value))
  | [] => .ok []
  | (name, literal) :: rest =>
    match literal.infer with
    | .error reason => .error (.invalidShape name reason)
    | .ok value => do return (name, value) :: (← typeUniforms rest)

/-- A value as the declarations of its name in hand-written text have it: a neutral texture takes
the kind they state. -/
def settle (declared : List Declaration) (name : String) (value : Value) : Value :=
  declared.foldl
    (fun value declaration =>
      if declaration.name = name then
        ((Kind.ofGlslName? declaration.typeName).bind value.retype?).getD value
      else value)
    value

/-- Hand-written text without the declarations of some names. -/
def stripDeclarations (source : String) (names : List String) : String :=
  removeSpans
    (((declarations source).filter fun declaration => declaration.name ∈ names).map
      fun declaration => (declaration.start, declaration.stop))
    source

/-- The body of a node, and its uniforms as that body declares them. -/
def bodyOf (source : Option String) (components : Option (List (Component × String)))
    (uniforms : List (String × Value)) : Body × List (String × Value) :=
  match source, components with
  | some source, _ =>
    let declared := declarations source
    (.source (stripDeclarations source (uniforms.map Prod.fst)),
      uniforms.map fun uniform => (uniform.1, settle declared uniform.1 uniform.2))
  | none, some assignments => (.components assignments, uniforms)
  | none, none => (.plain, uniforms)

/-! ## 4. References -/

/-- Marks each entry with whether the text refers to it; in strict mode the first that it does not
refer to is an error. -/
def markUsed {α : Type} (strict : Bool) (kind : Declares) (refers : String → α → Bool) :
    List (String × α) → Except Cause (List (Declared α))
  | [] => .ok []
  | (name, value) :: rest =>
    let used := refers name value
    if strict ∧ !used then .error (.unused kind name)
    else do return ⟨name, value, used⟩ :: (← markUsed strict kind refers rest)

/-- The names that accesses in expressions may always have before the period. -/
def surfaceNames : List String := ["material", "materialInput"]

/-- The first access to a component of something that is not a sub-material. -/
def danglingAccess (materials : List String) (accesses : List (String × String)) :
    Option (String × String) :=
  accesses.find? fun access =>
    (Component.ofName? access.2).isSome && !(access.1 ∈ surfaceNames) && !(access.1 ∈ materials)

/-- In strict mode, every access in an expression names a sub-material. -/
def checkAccesses (strict : Bool) (body : Body) (materials : List String) : Except Cause Unit :=
  match strict, body with
  | true, .components assignments =>
    let accesses := assignments.flatMap fun assignment => memberAccesses assignment.2
    match danglingAccess materials accesses with
    | some (name, component) => .error (.unknownReference name component)
    | none => .ok ()
  | _, _ => .ok ()

/-! ## 5. Nodes -/

/-- In strict mode a fabric has no members without a meaning. -/
def checkMembers (strict : Bool) (fabric : Fabric) : Except Cause Unit :=
  match strict, fabric.unknown with
  | true, (field, _) :: _ => .error (.unknownField field)
  | _, _ => .ok ()

/-- A node before its references are looked for. -/
structure Draft where
  uniforms : List (String × Value)
  materials : List (String × Fabric)
  body : Body
  translucency : Translucency

/-- An expanded fabric under the rules of both modes. -/
def Expanded.draft (expanded : Expanded) : Except Cause Draft := do
  if expanded.source.isSome ∧ expanded.components.isSome then throw .bothBodies
  let components ← typeBody expanded.components
  checkNames expanded.uniforms expanded.materials
  let typed ← typeUniforms expanded.uniforms
  let (body, uniforms) := bodyOf expanded.source components typed
  return ⟨uniforms, expanded.materials, body, expanded.translucency⟩

/-- A node whose sub-materials are still fabrics. -/
structure Outline where
  uniforms : List (Declared Value)
  materials : List (Declared Fabric)
  body : Body
  translucency : Translucency

/-- A draft with its references. -/
def Draft.outline (strict : Bool) (draft : Draft) : Except Cause Outline := do
  let text := draft.body.text
  let uniforms ←
    markUsed strict .uniform (fun name value => mentions text name value.isSelector) draft.uniforms
  let materials ←
    markUsed strict .material (fun name _ => mentions text name false) draft.materials
  checkAccesses strict draft.body (draft.materials.map Prod.fst)
  return ⟨uniforms, materials, draft.body, draft.translucency⟩

/-- All of a node but its sub-materials. -/
def outline (library : Library) (strict : Bool) (fabric : Fabric) : Except Cause Outline := do
  checkMembers strict fabric
  let expanded ← fabric.expand library
  let draft ← expanded.draft
  draft.outline strict

/-- The sub-materials of the node at a path, in order, each as `resolveAt` has it at its path. -/
def resolveChildren (resolveAt : List String → Fabric → Except ResolveError Node)
    (path : List String) : List (Declared Fabric) → Except ResolveError (List (Declared Node))
  | [] => .ok []
  | child :: rest => do
    let node ← resolveAt (path ++ [child.name]) child.value
    return ⟨child.name, node, child.used⟩ :: (← resolveChildren resolveAt path rest)

/-- The node at a path; the allowance bounds the depth of the tree. -/
def resolveNode (library : Library) (strict : Bool) :
    Nat → List String → Fabric → Except ResolveError Node
  | 0, _, _ => .error ⟨[], .endless⟩
  | fuel + 1, path, fabric =>
    match outline library strict fabric with
    | .error cause => .error ⟨path, cause⟩
    | .ok outline => do
      let materials ← resolveChildren (resolveNode library strict fuel) path outline.materials
      return ⟨path, fabric.typeName, outline.uniforms, materials, outline.body,
        outline.translucency⟩

/-- The tree of a fabric.  A branch deeper than all fabrics together have nodes would pass through
one of them twice, that is, through a template inside itself. -/
def resolve (library : Library) (strict : Bool) (fabric : Fabric) : Except ResolveError Node :=
  resolveNode library strict (fabric.size + library.nodeCount + 1) [] fabric

end ShaderFabric
