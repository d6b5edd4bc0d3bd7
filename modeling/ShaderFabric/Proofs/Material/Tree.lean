/-
# Resolved trees are well formed

`resolve` and `compose` go down a tree through lists of named children.  This module gives both
kinds of tree an induction over "every sub-material", and says what `resolve` makes sure of at every
node (`Node.WellFormed`): the names keep the rules, the marks are exactly the references of the
body, and the paths grow by the names.

* `wellFormed_resolve`: whatever resolves is well formed;
* `mem_nodes_composeNode`: every program in the composed tree is that of a well-formed node, and if
  it is emitted, its path consists of identifiers.
-/
import ShaderFabric.Material.Program
import ShaderFabric.Proofs.Material.Outline
import ShaderFabric.Proofs.Text.Identifier

namespace ShaderFabric

/-! ## 1. Induction over sub-materials -/

namespace Node

mutual

theorem induct_aux {P : Node → Prop}
    (step : ∀ node : Node, (∀ child ∈ node.materials, P child.value) → P node) :
    ∀ node : Node, P node
  | ⟨path, typeName, uniforms, materials, body, translucency⟩ =>
    step ⟨path, typeName, uniforms, materials, body, translucency⟩ (induct_children step materials)

theorem induct_children {P : Node → Prop}
    (step : ∀ node : Node, (∀ child ∈ node.materials, P child.value) → P node) :
    ∀ materials : List (Declared Node), ∀ child ∈ materials, P child.value
  | [], child, h => absurd h List.not_mem_nil
  | ⟨name, node, used⟩ :: rest, child, h => by
    rcases List.mem_cons.mp h with rfl | h
    · exact induct_aux step node
    · exact induct_children step rest child h

end

/-- What holds of a node as soon as it holds of its sub-materials holds of every node. -/
@[elab_as_elim]
theorem induct {P : Node → Prop}
    (step : ∀ node : Node, (∀ child ∈ node.materials, P child.value) → P node) (node : Node) :
    P node := induct_aux step node

end Node

/-! ## 2. Programs, node by node -/

theorem composeChildren_eq_map (emitted : Bool) : ∀ materials : List (Declared Node),
    composeChildren emitted materials =
      materials.map fun child => (child.name, composeNode (emitted && child.used) child.value)
  | [] => rfl
  | ⟨name, node, used⟩ :: rest => by
    simp only [composeChildren, List.map_cons, composeChildren_eq_map emitted rest]

section Fields

variable (emitted : Bool) (node : Node)

@[simp] theorem path_composeNode : (composeNode emitted node).path = node.path := by
  cases node; rfl

@[simp] theorem emitted_composeNode : (composeNode emitted node).emitted = emitted := by
  cases node; rfl

@[simp] theorem function_composeNode :
    (composeNode emitted node).function = functionName node.path := by
  cases node; rfl

@[simp] theorem uniforms_composeNode :
    (composeNode emitted node).uniforms = node.uniforms.map (composeUniform emitted node.path) := by
  cases node; rfl

theorem materials_composeNode :
    (composeNode emitted node).materials = node.materials.map fun child =>
      (child.name, composeNode (emitted && child.used) child.value) := by
  cases node
  simp only [composeNode, composeChildren_eq_map]

end Fields

/-- A uniform has an identifier where the body of an emitted node refers to it, unless it is a
selector. -/
theorem mangled_composeUniform_eq_some {emitted : Bool} {path : List String}
    {uniform : Declared Value} {name : String} :
    (composeUniform emitted path uniform).mangled = some name ↔
      emitted = true ∧ uniform.used = true ∧ uniform.value.isSelector = false ∧
        name = mangle uniform.name path := by
  unfold composeUniform
  cases emitted <;> cases uniform.used <;> cases uniform.value.isSelector <;> simp [eq_comm]

/-! ## 3. Children of a resolved node -/

/-- Every sub-material of a resolved node stems from one of its outline. -/
theorem mem_of_resolveChildren {resolveAt : List String → Fabric → Except ResolveError Node}
    {path : List String} : ∀ {children : List (Declared Fabric)} {materials : List (Declared Node)},
      resolveChildren resolveAt path children = .ok materials →
        ∀ material ∈ materials, ∃ child ∈ children, material.name = child.name ∧
          material.used = child.used ∧
            resolveAt (path ++ [child.name]) child.value = .ok material.value
  | [], materials, h, material, hmem => by
    simp only [resolveChildren, Except.ok.injEq] at h
    subst h
    exact absurd hmem List.not_mem_nil
  | child :: rest, materials, h, material, hmem => by
    simp only [resolveChildren] at h
    obtain ⟨node, hnode, h⟩ := bind_eq_ok.mp h
    obtain ⟨others, hothers, h⟩ := bind_eq_ok.mp h
    rw [pure_eq_ok] at h
    subst h
    rcases List.mem_cons.mp hmem with rfl | hmem
    · exact ⟨child, List.mem_cons_self, rfl, rfl, hnode⟩
    · obtain ⟨origin, horigin, hrest⟩ := mem_of_resolveChildren hothers material hmem
      exact ⟨origin, List.mem_cons_of_mem _ horigin, hrest⟩

theorem resolveNode_eq_ok {library : Library} {strict : Bool} {fuel : Nat} {path : List String}
    {fabric : Fabric} {node : Node} (h : resolveNode library strict fuel path fabric = .ok node) :
    ∃ rest outline materials, fuel = rest + 1 ∧
      ShaderFabric.outline library strict fabric = .ok outline ∧
      resolveChildren (resolveNode library strict rest) path outline.materials = .ok materials ∧
      node = ⟨path, fabric.typeName, outline.uniforms, materials, outline.body,
        outline.translucency⟩ := by
  cases fuel with
  | zero => simp [resolveNode] at h
  | succ rest =>
    simp only [resolveNode] at h
    split at h
    · cases h
    · rename_i outline houtline
      obtain ⟨materials, hmaterials, h⟩ := bind_eq_ok.mp h
      rw [pure_eq_ok] at h
      exact ⟨rest, outline, materials, rfl, houtline, hmaterials, h.symm⟩

/-! ## 4. Well-formed trees -/

/-- What the rules say of the declarations of one node. -/
structure Node.Declares (node : Node) : Prop where
  uniform_unreserved : ∀ uniform ∈ node.uniforms, isReservedUniform uniform.name = false
  material_unreserved : ∀ child ∈ node.materials, isReservedMaterial child.name = false
  names_disjoint : ∀ uniform ∈ node.uniforms, ∀ child ∈ node.materials, uniform.name ≠ child.name
  uniform_used : ∀ uniform ∈ node.uniforms,
    uniform.used = node.body.refersToUniform uniform.name uniform.value
  material_used : ∀ child ∈ node.materials, child.used = node.body.refersToMaterial child.name
  child_path : ∀ child ∈ node.materials, child.value.path = node.path ++ [child.name]

/-- A tree whose nodes all keep the rules. -/
inductive Node.WellFormed : Node → Prop
  | intro {node : Node} (own : node.Declares)
      (below : ∀ child ∈ node.materials, child.value.WellFormed) : node.WellFormed

namespace Node.WellFormed

variable {node : Node}

theorem own (h : node.WellFormed) : node.Declares := by
  cases h; assumption

theorem child (h : node.WellFormed) {child : Declared Node} (hc : child ∈ node.materials) :
    child.value.WellFormed := by
  cases h with
  | intro _ below => exact below child hc

end Node.WellFormed

/-- The names of an outline keep the rules, and its marks are the references of its body. -/
theorem declares_of_outline {library : Library} {strict : Bool} {fabric : Fabric}
    {outline : Outline} {path : List String} {materials : List (Declared Node)}
    (h : ShaderFabric.outline library strict fabric = .ok outline)
    (hchildren : ∀ material ∈ materials, ∃ child ∈ outline.materials, material.name = child.name ∧
      material.used = child.used ∧ material.value.path = path ++ [child.name]) :
    Node.Declares ⟨path, fabric.typeName, outline.uniforms, materials, outline.body,
      outline.translucency⟩ := by
  obtain ⟨expanded, draft, -, -, hdraft, hout⟩ := outline_eq_ok h
  obtain ⟨hnames, huniforms, hmaterials, -⟩ := Expanded.draft_eq_ok hdraft
  obtain ⟨hdisjoint, hu, hm⟩ := checkNames_eq_ok_iff.mp hnames
  obtain ⟨hmarkedU, hmarkedM, hbody, -⟩ := Draft.outline_eq_ok hout
  have uniform_mem : ∀ uniform ∈ outline.uniforms,
      uniform.name ∈ expanded.uniforms.map Prod.fst ∧
        uniform.used = outline.body.refersToUniform uniform.name uniform.value := by
    intro uniform hmem
    rw [hmarkedU] at hmem
    obtain ⟨entry, hentry, rfl⟩ := List.mem_map.mp hmem
    rw [← huniforms, hbody]
    exact ⟨List.mem_map.mpr ⟨entry, hentry, rfl⟩, rfl⟩
  have child_mem : ∀ child ∈ materials, child.name ∈ expanded.materials.map Prod.fst ∧
      child.used = outline.body.refersToMaterial child.name ∧
        child.value.path = path ++ [child.name] := by
    intro child hmem
    obtain ⟨origin, horigin, hname, hused, hpath⟩ := hchildren child hmem
    rw [hmarkedM] at horigin
    obtain ⟨entry, hentry, rfl⟩ := List.mem_map.mp horigin
    rw [← hmaterials, hbody, hname, hused]
    exact ⟨List.mem_map.mpr ⟨entry, hentry, rfl⟩, rfl, hpath⟩
  exact
    { uniform_unreserved := fun uniform hmem => hu _ (uniform_mem uniform hmem).1
      material_unreserved := fun child hmem => hm _ (child_mem child hmem).1
      names_disjoint := fun uniform hmem child hchild heq => by
        have hcontains := Table.contains_of_mem (child_mem child hchild).1
        rw [← heq, hdisjoint _ (uniform_mem uniform hmem).1] at hcontains
        exact Bool.false_ne_true hcontains
      uniform_used := fun uniform hmem => (uniform_mem uniform hmem).2
      material_used := fun child hmem => (child_mem child hmem).2.1
      child_path := fun child hmem => (child_mem child hmem).2.2 }

theorem wellFormed_resolveNode {library : Library} {strict : Bool} :
    ∀ {fuel : Nat} {path : List String} {fabric : Fabric} {node : Node},
      resolveNode library strict fuel path fabric = .ok node → node.path = path ∧ node.WellFormed
  | 0, _, _, _, h => by simp [resolveNode] at h
  | fuel + 1, path, fabric, node, h => by
    obtain ⟨rest, outline, materials, hfuel, hout, hchildren, rfl⟩ := resolveNode_eq_ok h
    obtain rfl : fuel = rest := Nat.succ.inj hfuel
    have hmem := mem_of_resolveChildren hchildren
    refine ⟨rfl, .intro (declares_of_outline hout fun material hm => ?_) fun material hm => ?_⟩
    · obtain ⟨child, hchild, hname, hused, hnode⟩ := hmem material hm
      exact ⟨child, hchild, hname, hused, (wellFormed_resolveNode hnode).1⟩
    · obtain ⟨child, hchild, -, -, hnode⟩ := hmem material hm
      exact (wellFormed_resolveNode hnode).2

/-- **Whatever resolves is well formed**, and its root has the empty path. -/
theorem wellFormed_resolve {library : Library} {strict : Bool} {fabric : Fabric} {node : Node}
    (h : resolve library strict fabric = .ok node) : node.path = [] ∧ node.WellFormed :=
  wellFormed_resolveNode h

/-! ## 5. The nodes of a program -/

namespace Program

mutual

/-- The programs of a tree, sub-materials first. -/
def nodes : Program → List Program
  | ⟨path, typeName, function, emitted, text, uniforms, materials, translucent⟩ =>
    nodesBelow materials ++
      [⟨path, typeName, function, emitted, text, uniforms, materials, translucent⟩]

def nodesBelow : List (String × Program) → List Program
  | [] => []
  | (_, child) :: rest => nodes child ++ nodesBelow rest

end

theorem nodesBelow_eq_flatMap : ∀ materials : List (String × Program),
    nodesBelow materials = materials.flatMap fun child => child.2.nodes
  | [] => rfl
  | (name, child) :: rest => by
    rw [nodesBelow, nodesBelow_eq_flatMap rest, List.flatMap_cons]

theorem nodes_eq (program : Program) :
    program.nodes = (program.materials.flatMap fun child => child.2.nodes) ++ [program] := by
  cases program
  rw [nodes, nodesBelow_eq_flatMap]

end Program

/-- The names of an emitted child are in the text of its parent, hence identifiers. -/
theorem Node.Declares.isIdentifier_of_used {node : Node} (h : node.Declares)
    {child : Declared Node} (hc : child ∈ node.materials) (hused : child.used = true) :
    IsIdentifier child.name := by
  rw [h.material_used child hc] at hused
  exact isIdentifier_of_mentions hused

/-- **The programs of a composed tree are those of well-formed nodes**, and the path of an emitted
one consists of identifiers. -/
theorem mem_nodes_composeNode (node : Node) : ∀ emitted : Bool, node.WellFormed →
    (emitted = true → ∀ segment ∈ node.path, IsIdentifier segment) →
    ∀ program ∈ (composeNode emitted node).nodes, ∃ origin : Node, origin.WellFormed ∧
      program = composeNode program.emitted origin ∧
        (program.emitted = true → ∀ segment ∈ origin.path, IsIdentifier segment) := by
  induction node using Node.induct with
  | step node ih =>
    intro emitted hwf hpath program hmem
    rw [Program.nodes_eq, materials_composeNode, List.flatMap_map] at hmem
    rcases List.mem_append.mp hmem with hmem | hmem
    · obtain ⟨child, hchild, hmem⟩ := List.mem_flatMap.mp hmem
      refine ih child hchild (emitted && child.used) (hwf.child hchild) ?_ program hmem
      intro hemitted segment hsegment
      rw [Bool.and_eq_true] at hemitted
      rw [hwf.own.child_path child hchild] at hsegment
      rcases List.mem_append.mp hsegment with hsegment | hsegment
      · exact hpath hemitted.1 segment hsegment
      · rw [List.mem_singleton.mp hsegment]
        exact hwf.own.isIdentifier_of_used hchild hemitted.2
    · obtain rfl := List.mem_singleton.mp hmem
      rw [emitted_composeNode]
      exact ⟨node, hwf, rfl, hpath⟩

end ShaderFabric
