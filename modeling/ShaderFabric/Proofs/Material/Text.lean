/-
# What the text of a node is made of

The text of a node starts with one line for each uniform that it declares.  Then comes its function:
the body with its references replaced, and at most a line end after it.

* `text_composeNode` -- these parts, in their order;
* `of_find?_replacements` -- whatever is replaced is declared, or is the entry point;
* `replacements_find?_uniform` -- what a reference to a uniform is replaced by, where no two
  declarations of the node have one name.
-/
import ShaderFabric.Proofs.Material.Tree

namespace ShaderFabric

/-! ## 1. Lines of declarations -/

/-- The line that declares an identifier. -/
def canonicalLine (entry : String × Kind) : String :=
  "uniform " ++ entry.2.glslName ++ " " ++ entry.1 ++ ";\n"

/-- The identifiers of some uniforms with their types. -/
def declaredOf (uniforms : List ProgramUniform) : List (String × Kind) :=
  uniforms.filterMap fun uniform => uniform.mangled.map fun name => (name, uniform.value.kind)

/-- The identifiers that the text of a node declares, with their types. -/
def Program.declared (program : Program) : List (String × Kind) := declaredOf program.uniforms

theorem join_declarationLine (uniforms : List ProgramUniform) :
    String.join (uniforms.map declarationLine) =
      String.join ((declaredOf uniforms).map canonicalLine) := by
  induction uniforms with
  | nil => rfl
  | cons uniform rest ih =>
    obtain ⟨name, mangled, value⟩ := uniform
    rw [List.map_cons, String.join_cons, ih]
    cases mangled with
    | none => exact String.empty_append
    | some identifier =>
      show _ = String.join (canonicalLine (identifier, value.kind) :: _)
      rw [String.join_cons]
      rfl

/-! ## 2. Functions -/

/-- The body of a node with its references replaced, as the function of the node. -/
def Node.bodyText (node : Node) : String :=
  match node.body with
  | .source text => substitute (replacements node) text
  | .components assignments =>
    functionHead (functionName node.path)
      ++ "    fabric_material material = fabric_getDefaultMaterial(materialInput);\n"
      ++ String.join (assignments.map (assignmentLine (replacements node)))
      ++ "    return material;\n\x7d\n"
  | .plain =>
    functionHead (functionName node.path)
      ++ "    return fabric_getDefaultMaterial(materialInput);\n\x7d\n"

theorem endLine_eq (text : String) :
    ∃ ending, (ending = "" ∨ ending = "\n") ∧ endLine text = text ++ ending := by
  unfold endLine
  split
  · exact ⟨"", .inl rfl, String.append_empty.symm⟩
  · exact ⟨"\n", .inr rfl, rfl⟩

/-- **The text of a node**: its declarations, its function, and at most a line end. -/
theorem text_composeNode (node : Node) :
    ∃ ending, (ending = "" ∨ ending = "\n") ∧ (composeNode true node).text =
      String.join ((composeNode true node).declared.map canonicalLine) ++ node.bodyText
        ++ ending := by
  have htext : (composeNode true node).text =
      nodeText node (node.uniforms.map (composeUniform true node.path)) := by
    cases node
    rfl
  rw [htext, Program.declared, uniforms_composeNode]
  unfold nodeText Node.bodyText
  rw [join_declarationLine]
  cases node.body with
  | source text => exact endLine_eq _
  | components assignments =>
    refine ⟨"", .inl rfl, ?_⟩
    simp only [String.append_assoc, String.append_empty]
  | plain =>
    refine ⟨"", .inl rfl, ?_⟩
    simp only [String.append_assoc, String.append_empty]

/-! ## 3. What references are replaced by -/

/-- The letters of a channel selector. -/
def Value.selector? : Value → Option String
  | channels selector => some selector
  | _ => none

namespace Declared

/-- What references to a uniform of the node at a path are replaced by. -/
def replacement (path : List String) (uniform : Declared Value) : Replacement :=
  match uniform.value.selector? with
  | some selector => ⟨selector, true⟩
  | none => ⟨mangle uniform.name path, false⟩

/-- What references to a sub-material of the node at a path are replaced by. -/
def call (path : List String) (child : Declared Node) : Replacement :=
  ⟨functionName (path ++ [child.name]) ++ "(materialInput)", false⟩

end Declared

theorem uniformReplacements_eq (path : List String) (uniforms : List (Declared Value)) :
    uniformReplacements path uniforms =
      (uniforms.filter Declared.used).map fun uniform =>
        (uniform.name, uniform.replacement path) := by
  induction uniforms with
  | nil => rfl
  | cons uniform rest ih =>
    obtain ⟨name, value, used⟩ := uniform
    unfold uniformReplacements at ih ⊢
    rw [List.filterMap_cons, ih]
    cases used with
    | false => rfl
    | true => cases value <;> rfl

theorem materialReplacements_eq (path : List String) (materials : List (Declared Node)) :
    materialReplacements path materials =
      (materials.filter Declared.used).map fun child => (child.name, child.call path) := by
  induction materials with
  | nil => rfl
  | cons child rest ih =>
    obtain ⟨name, node, used⟩ := child
    unfold materialReplacements at ih ⊢
    rw [List.filterMap_cons, ih]
    cases used <;> rfl

namespace Node

/-- Everything that a node declares and its body refers to, with what stands in its place. -/
def calls (node : Node) : List (String × Replacement) :=
  ((node.uniforms.filter Declared.used).map fun uniform =>
      (uniform.name, uniform.replacement node.path))
    ++ (node.materials.filter Declared.used).map fun child => (child.name, child.call node.path)

/-- Hand-written text below the root, in which the entry point is replaced too. -/
def renames (node : Node) : Bool :=
  match node.body with
  | .source _ => !node.path.isEmpty
  | _ => false

end Node

theorem find?_replacements (node : Node) (name : String) :
    (replacements node).find? name =
      if node.renames = true ∧ entryPoint = name then some ⟨functionName node.path, false⟩
      else (Table.ofList node.calls).find? name := by
  unfold replacements Node.renames Node.calls
  rw [uniformReplacements_eq, materialReplacements_eq]
  cases node.body with
  | plain => rfl
  | components assignments => rfl
  | source text =>
    dsimp only
    cases node.path.isEmpty with
    | true => rfl
    | false =>
      rw [if_neg Bool.false_ne_true, Table.find?_insert]
      simp only [Bool.not_false, true_and]

/-- **Where a replacement comes from**: a uniform, a sub-material, or the entry point. -/
theorem of_find?_replacements {node : Node} {name : String} {put : Replacement}
    (h : (replacements node).find? name = some put) :
    (∃ uniform ∈ node.uniforms, uniform.used = true ∧ uniform.name = name ∧
      put = uniform.replacement node.path) ∨
    (∃ child ∈ node.materials, child.used = true ∧ child.name = name ∧
      put = child.call node.path) ∨
    (node.renames = true ∧ name = entryPoint ∧ put = ⟨functionName node.path, false⟩) := by
  rw [find?_replacements] at h
  split at h
  · rename_i hentry
    cases h
    exact .inr (.inr ⟨hentry.1, hentry.2.symm, rfl⟩)
  · rcases List.mem_append.mp (Table.mem_of_find?_ofList h) with h | h
    · obtain ⟨uniform, hmem, heq⟩ := List.mem_map.mp h
      obtain ⟨hmem, hused⟩ := List.mem_filter.mp hmem
      cases heq
      exact .inl ⟨uniform, hmem, hused, rfl, rfl⟩
    · obtain ⟨child, hmem, heq⟩ := List.mem_map.mp h
      obtain ⟨hmem, hused⟩ := List.mem_filter.mp hmem
      cases heq
      exact .inr (.inl ⟨child, hmem, hused, rfl, rfl⟩)

/-- The names that a node declares, of uniforms and of sub-materials. -/
def Node.names (node : Node) : List String :=
  node.uniforms.map Declared.name ++ node.materials.map Declared.name

/-- The names that are replaced are declared, in their order. -/
theorem Node.names_calls_sublist (node : Node) :
    (node.calls.map Prod.fst).Sublist node.names := by
  unfold Node.calls Node.names
  rw [List.map_append, List.map_map, List.map_map]
  exact (List.filter_sublist.map _).append (List.filter_sublist.map _)

section Distinct

variable {node : Node} (distinct : node.names.Nodup)

include distinct

theorem find?_replacements_of_mem (entry : String × Replacement) (h : entry ∈ node.calls)
    (hfree : node.renames = true → entry.1 ≠ entryPoint) :
    (replacements node).find? entry.1 = some entry.2 := by
  rw [find?_replacements, if_neg fun hentry => hfree hentry.1 hentry.2.symm]
  exact Table.find?_ofList_of_mem (distinct.sublist node.names_calls_sublist) h

/-- **A uniform that the body refers to is replaced**, where names are declared once. -/
theorem replacements_find?_uniform {uniform : Declared Value} (h : uniform ∈ node.uniforms)
    (hused : uniform.used = true) (hfree : node.renames = true → uniform.name ≠ entryPoint) :
    (replacements node).find? uniform.name = some (uniform.replacement node.path) :=
  find?_replacements_of_mem distinct (uniform.name, uniform.replacement node.path)
    (List.mem_append_left _ (List.mem_map_of_mem (List.mem_filter.mpr ⟨h, hused⟩))) hfree

end Distinct

end ShaderFabric
