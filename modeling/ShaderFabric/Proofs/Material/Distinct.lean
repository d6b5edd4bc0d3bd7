/-
# Names are declared once

A resolved node takes its names from tables, which have each name once, and the rules keep uniforms
and sub-materials apart.  So a reference in its body is a reference to one declaration.  The values
of its uniforms come from literals, so a channel selector is one to four of the letters `rgba`.

* `Node.Tidy` -- both at one node;
* `tidy_resolve` -- at every node of what a fabric in order resolves to.
-/
import ShaderFabric.Proofs.Fabric.Ordered
import ShaderFabric.Proofs.Material.Text

namespace ShaderFabric

/-! ## 1. Selectors -/

/-- A value that, if it is a channel selector, is one to four of the letters `rgba`. -/
def Value.Legible (value : Value) : Prop :=
  ∀ selector, value.selector? = some selector → isSelectorText selector = true

theorem legible_of_kind {value : Value} (h : value.selector? = none) : value.Legible :=
  fun _ hs => by
    rw [h] at hs
    cases hs

theorem legible_inferSequence {values : List Double} {value : Value}
    (h : Literal.inferSequence values = .ok value) : value.Legible := by
  unfold Literal.inferSequence at h
  split at h <;> cases h <;> exact legible_of_kind rfl

theorem legible_inferText (text : String) : (Literal.inferText text).Legible := by
  unfold Literal.inferText
  split
  · rename_i hselector
    intro selector hs
    cases hs
    exact hselector
  · split
    · exact legible_of_kind rfl
    · split
      · exact legible_of_kind rfl
      · exact legible_of_kind rfl

theorem legible_inferObject {fields : Table Field} {value : Value}
    (h : Literal.inferObject fields = .ok value) : value.Legible := by
  unfold Literal.inferObject at h
  split at h
  · obtain ⟨faces, -, h⟩ := bind_eq_ok.mp h
    split at h
    · cases h
      exact legible_of_kind rfl
    · cases h
  · split at h
    · obtain ⟨set, -, h⟩ := bind_eq_ok.mp h
      cases h
      exact legible_of_kind rfl
    · split at h
      · rename_i vector hvector
        cases h
        unfold Literal.inferVector at hvector
        split at hvector <;> cases hvector <;> exact legible_of_kind rfl
      · cases h

/-- **A literal that selects channels is made of their letters.** -/
theorem legible_infer {literal : Literal} {value : Value} (h : literal.infer = .ok value) :
    value.Legible := by
  cases literal with
  | sequence values => exact legible_inferSequence h
  | text written =>
    cases h
    exact legible_inferText written
  | object fields => exact legible_inferObject h
  | _ =>
    cases h
    exact legible_of_kind rfl

theorem legible_typeUniforms : ∀ {uniforms : List (String × Literal)}
    {typed : List (String × Value)}, typeUniforms uniforms = .ok typed →
      ∀ entry ∈ typed, entry.2.Legible
  | [], typed, h, entry, hmem => by
    cases h
    exact absurd hmem List.not_mem_nil
  | (name, literal) :: rest, typed, h, entry, hmem => by
    simp only [typeUniforms] at h
    split at h
    · cases h
    · rename_i value hvalue
      obtain ⟨others, hothers, h⟩ := bind_eq_ok.mp h
      cases h
      rcases List.mem_cons.mp hmem with rfl | hmem
      · exact legible_infer hvalue
      · exact legible_typeUniforms hothers entry hmem

/-- What a texture is taken for is a texture. -/
theorem selector?_retype? {value other : Value} {kind : Kind}
    (h : value.retype? kind = some other) : other.selector? = none := by
  unfold Value.retype? at h
  split at h <;> cases h <;> rfl

theorem legible_settle (declared : List Declaration) (name : String) {value : Value}
    (h : value.Legible) : (settle declared name value).Legible := by
  induction declared generalizing value with
  | nil => exact h
  | cons declaration rest ih =>
    refine ih ?_
    dsimp only
    split
    · cases hkind : (Kind.ofGlslName? declaration.typeName).bind value.retype? with
      | none => exact h
      | some other =>
        obtain ⟨kind, -, hother⟩ := Option.bind_eq_some_iff.mp hkind
        exact legible_of_kind (selector?_retype? hother)
    · exact h

theorem legible_bodyOf (source : Option String)
    (components : Option (List (Component × String))) {typed : List (String × Value)}
    (h : ∀ entry ∈ typed, entry.2.Legible) :
    ∀ entry ∈ (bodyOf source components typed).2, entry.2.Legible := by
  cases source with
  | none => cases components <;> exact h
  | some source =>
    intro entry hmem
    obtain ⟨origin, horigin, rfl⟩ := List.mem_map.mp hmem
    exact legible_settle _ _ (h origin horigin)

theorem Expanded.legible_draft {expanded : Expanded} {draft : Draft}
    (h : expanded.draft = .ok draft) : ∀ entry ∈ draft.uniforms, entry.2.Legible := by
  unfold Expanded.draft at h
  split at h
  · obtain ⟨_, hthrow, _⟩ := bind_eq_ok.mp h
    cases hthrow
  · obtain ⟨components, -, h⟩ := bind_eq_ok.mp h
    obtain ⟨_, -, h⟩ := bind_eq_ok.mp h
    obtain ⟨typed, htyped, h⟩ := bind_eq_ok.mp h
    cases h
    exact legible_bodyOf _ _ (legible_typeUniforms htyped)

/-! ## 2. Tidy nodes -/

/-- **A node whose names are declared once**, and whose selectors are made of letters. -/
structure Node.Tidy (node : Node) : Prop where
  distinct : node.names.Nodup
  legible : ∀ uniform ∈ node.uniforms, uniform.value.Legible

/-- A tree all of whose nodes have a property. -/
inductive Node.All (P : Node → Prop) : Node → Prop
  | intro {node : Node} (own : P node) (below : ∀ child ∈ node.materials, child.value.All P) :
    node.All P

namespace Node.All

variable {P : Node → Prop} {node : Node}

theorem own (h : node.All P) : P node := by
  cases h; assumption

theorem child (h : node.All P) {child : Declared Node} (hc : child ∈ node.materials) :
    child.value.All P := by
  cases h with
  | intro _ below => exact below child hc

end Node.All

/-- Sub-materials keep their names and their order. -/
theorem map_name_resolveChildren
    {resolveAt : List String → Fabric → Except ResolveError Node} {path : List String} :
    ∀ {children : List (Declared Fabric)} {materials : List (Declared Node)},
      resolveChildren resolveAt path children = .ok materials →
        materials.map Declared.name = children.map Declared.name
  | [], materials, h => by
    cases h
    rfl
  | child :: rest, materials, h => by
    simp only [resolveChildren] at h
    obtain ⟨node, -, h⟩ := bind_eq_ok.mp h
    obtain ⟨others, hothers, h⟩ := bind_eq_ok.mp h
    cases h
    rw [List.map_cons, List.map_cons, map_name_resolveChildren hothers]

/-- An outline of tables declares each name once, and keeps its selectors. -/
theorem tidy_of_outline {expanded : Expanded} (ordered : expanded.Ordered) {draft : Draft}
    (hdraft : expanded.draft = .ok draft) {strict : Bool} {outline : Outline}
    (hout : draft.outline strict = .ok outline) :
    (outline.uniforms.map Declared.name).Nodup ∧ (outline.materials.map Declared.name).Nodup ∧
      (∀ uniform ∈ outline.uniforms, uniform.value.Legible) ∧
      ∀ child ∈ outline.materials, child.value.Ordered := by
  obtain ⟨-, huniforms, hmaterials, -⟩ := Expanded.draft_eq_ok hdraft
  obtain ⟨hmarkedU, hmarkedM, -, -⟩ := Draft.outline_eq_ok hout
  have names : ∀ {α : Type} (refers : String → α → Bool) (entries : List (String × α)),
      (entries.map (mark refers)).map Declared.name = entries.map Prod.fst := by
    intro α refers entries
    rw [List.map_map]
    rfl
  refine ⟨?_, ?_, fun uniform hmem => ?_, fun child hmem => ?_⟩
  · rw [hmarkedU, names, huniforms]
    exact Table.Sorted.nodup ordered.uniforms
  · rw [hmarkedM, names, hmaterials]
    exact Table.Sorted.nodup ordered.materials
  · rw [hmarkedU] at hmem
    obtain ⟨entry, hentry, rfl⟩ := List.mem_map.mp hmem
    exact Expanded.legible_draft hdraft entry hentry
  · rw [hmarkedM, hmaterials] at hmem
    obtain ⟨entry, hentry, rfl⟩ := List.mem_map.mp hmem
    exact ordered.below _ _ hentry

theorem tidy_resolveNode {library : Library} (hlibrary : library.Ordered) {strict : Bool} :
    ∀ {fuel : Nat} {path : List String} {fabric : Fabric} {node : Node}, fabric.Ordered →
      resolveNode library strict fuel path fabric = .ok node → node.All Node.Tidy
  | 0, _, _, _, _, h => by cases h
  | fuel + 1, path, fabric, node, hfabric, h => by
    have hwf := (wellFormed_resolveNode h).2
    obtain ⟨rest, outline, materials, hfuel, hout, hchildren, rfl⟩ := resolveNode_eq_ok h
    obtain rfl : fuel = rest := Nat.succ.inj hfuel
    obtain ⟨expanded, draft, -, hexpand, hdraft, hdone⟩ := outline_eq_ok hout
    obtain ⟨huniforms, hmaterials, hlegible, hbelow⟩ :=
      tidy_of_outline (ordered_expand hlibrary hfabric hexpand) hdraft hdone
    refine .intro ⟨?_, hlegible⟩ fun child hchild => ?_
    · rw [← map_name_resolveChildren hchildren] at hmaterials
      refine List.nodup_append.mpr ⟨huniforms, hmaterials, fun name hname other hother => ?_⟩
      obtain ⟨uniform, huniform, rfl⟩ := List.mem_map.mp hname
      obtain ⟨child, hchild, rfl⟩ := List.mem_map.mp hother
      exact hwf.own.names_disjoint uniform huniform child hchild
    · obtain ⟨origin, horigin, -, -, hnode⟩ := mem_of_resolveChildren hchildren child hchild
      exact tidy_resolveNode hlibrary (hbelow origin horigin) hnode

/-- **Whatever a fabric in order resolves to** declares each name once, at every node. -/
theorem tidy_resolve {library : Library} (hlibrary : library.Ordered) {strict : Bool}
    {fabric : Fabric} (hfabric : fabric.Ordered) {root : Node}
    (h : resolve library strict fabric = .ok root) : root.All Node.Tidy :=
  tidy_resolveNode hlibrary hfabric h

end ShaderFabric
