/-
# Fabrics in order

The uniforms and the sub-materials of a fabric are tables, that is, lists in increasing order of
their names.  `Fabric.Ordered` says so of every node of a fabric.  Every way to make a fabric keeps
the order, so it may be relied on wherever a fabric comes from:

* `Ordered.withUniform`, `Ordered.withMaterial` -- fabrics that are built;
* `ordered_ofDocument`, `ordered_ofJson`, `ordered_ofToml` -- fabrics that are read;
* `Library.ordered_empty`, `Library.ordered_register` -- the fabrics of templates;
* `ordered_expand` -- a fabric laid over its templates.
-/
import ShaderFabric.Proofs.Fabric.Reading
import ShaderFabric.Proofs.Material.Depth

namespace ShaderFabric

/-- **A fabric whose tables are in order**, as are those of every node below it. -/
inductive Fabric.Ordered : Fabric → Prop
  | intro {fabric : Fabric} (uniforms : Table.Sorted fabric.uniforms)
    (materials : Table.Sorted fabric.materials)
    (below : ∀ name child, (name, child) ∈ fabric.materials → child.Ordered) : fabric.Ordered

/-- A library whose templates are in order. -/
def Library.Ordered (library : Library) : Prop :=
  ∀ name template, library.get? name = some template → template.fabric.Ordered

/-! ## 1. Fabrics that are built -/

namespace Fabric

namespace Ordered

variable {fabric : Fabric}

theorem uniforms (h : fabric.Ordered) : Table.Sorted fabric.uniforms := by
  cases h; assumption

theorem materials (h : fabric.Ordered) : Table.Sorted fabric.materials := by
  cases h; assumption

theorem child (h : fabric.Ordered) {name : String} {child : Fabric}
    (hc : (name, child) ∈ fabric.materials) : child.Ordered := by
  cases h with
  | intro _ _ below => exact below name child hc

theorem empty : Fabric.empty.Ordered :=
  .intro .nil .nil fun _ _ h => absurd h List.not_mem_nil

theorem ofType (name : String) : (Fabric.ofType name).Ordered :=
  .intro .nil .nil fun _ _ h => absurd h List.not_mem_nil

theorem withUniform (h : fabric.Ordered) (name : String) (literal : Literal) :
    (fabric.withUniform name literal).Ordered :=
  .intro (Table.sorted_insert h.uniforms name literal) h.materials fun _ _ hc => h.child hc

theorem withMaterial (h : fabric.Ordered) (name : String) {child : Fabric} (hc : child.Ordered) :
    (fabric.withMaterial name child).Ordered := by
  refine .intro h.uniforms (Table.sorted_insert h.materials name child) fun key other hmem => ?_
  rcases Table.mem_insert hmem with heq | hmem
  · cases heq
    exact hc
  · exact h.child hmem

/-- What is no table may be anything. -/
theorem congr {other : Fabric} (h : fabric.Ordered) (huniforms : other.uniforms = fabric.uniforms)
    (hmaterials : other.materials = fabric.materials) : other.Ordered :=
  .intro (huniforms ▸ h.uniforms) (hmaterials ▸ h.materials) fun _ _ hc => h.child (hmaterials ▸ hc)

theorem withType (h : fabric.Ordered) (name : String) : (fabric.withType name).Ordered :=
  h.congr rfl rfl

theorem withComponent (h : fabric.Ordered) (name expression : String) :
    (fabric.withComponent name expression).Ordered :=
  h.congr rfl rfl

theorem withSource (h : fabric.Ordered) (source : String) : (fabric.withSource source).Ordered :=
  h.congr rfl rfl

theorem withUnknown (h : fabric.Ordered) (name : String) (value : Document) :
    (fabric.withUnknown name value).Ordered :=
  h.congr rfl rfl

end Ordered

/-! ## 2. Fabrics that are read -/

/-- **What is read is in order.** -/
theorem ordered_ofDocument {fabric : Fabric} : ∀ {document : Document},
    ofDocument document = .ok fabric → fabric.Ordered := by
  induction fabric using Fabric.induct with
  | step fabric ih =>
    intro document h
    obtain ⟨members, -, made⟩ := made_ofDocument h
    obtain ⟨hmaterials, hbelow⟩ := made.material
    refine .intro made.uniform.1 hmaterials fun name child hmem => ?_
    obtain ⟨_, _, -, -, hchild⟩ := hbelow name child hmem
    exact ih (name, child) hmem hchild

theorem ordered_ofJson {text : String} {fabric : Fabric} (h : ofJson text = .ok fabric) :
    fabric.Ordered :=
  ordered_ofDocument (ofJson_eq_ok.mp h).1

theorem ordered_ofToml {text : String} {fabric : Fabric} (h : ofToml text = .ok fabric) :
    fabric.Ordered := by
  unfold ofToml at h
  split at h
  · cases h
  · exact ordered_ofDocument h

end Fabric

/-! ## 3. The fabrics of templates -/

namespace Library

/-- The built-in templates have uniforms and no sub-materials. -/
theorem ordered_builtins : ∀ entry ∈ Template.builtins, entry.2.fabric.Ordered := by
  have hall : ∀ entry ∈ Template.builtins,
      (entry.2.fabric.uniforms.map Prod.fst).Pairwise (· < ·) ∧
        entry.2.fabric.materials.isEmpty = true := by
    decide +kernel
  intro entry hmem
  obtain ⟨hsorted, hempty⟩ := hall entry hmem
  have hnone : entry.2.fabric.materials = [] := List.isEmpty_iff.mp hempty
  refine .intro hsorted ?_ fun _ _ hc => ?_
  · rw [hnone]
    exact .nil
  · rw [hnone] at hc
    exact absurd hc List.not_mem_nil

theorem ordered_of_custom {library : Library}
    (h : ∀ entry ∈ library.custom, entry.2.fabric.Ordered) : library.Ordered := by
  intro name template hget
  rw [get?_eq_find?] at hget
  rcases List.mem_append.mp (Table.mem_of_find?_eq_some hget) with hmem | hmem
  · exact h _ hmem
  · exact ordered_builtins _ hmem

theorem ordered_empty : Library.empty.Ordered :=
  ordered_of_custom fun _ h => absurd h List.not_mem_nil

/-- **A template in order** keeps the library in order. -/
theorem ordered_register {library next : Library} {template : Template}
    (h : library.register template = (.ok (), next)) (hlibrary : library.Ordered)
    (htemplate : template.fabric.Ordered) : next.Ordered := by
  unfold register at h
  dsimp only at h
  split at h
  · cases h
  · split at h
    · cases h
    · cases h
      intro name found hget
      unfold get? at hget
      rw [Table.find?_insert] at hget
      split at hget
      · cases hget
        exact htemplate
      · exact hlibrary name found hget

end Library

/-! ## 4. Fabrics laid over their templates -/

/-- An expanded fabric whose tables are in order, over sub-materials that are. -/
structure Expanded.Ordered (expanded : Expanded) : Prop where
  uniforms : Table.Sorted expanded.uniforms
  materials : Table.Sorted expanded.materials
  below : ∀ name child, (name, child) ∈ expanded.materials → child.Ordered

theorem ordered_expandOver : ∀ {lineage : Lineage} {fabric : Fabric} {expanded : Expanded},
    fabric.expandOver lineage = .ok expanded → fabric.Ordered →
      (∀ entry ∈ lineage, entry.2.fabric.Ordered) → expanded.Ordered
  | [], fabric, expanded, h, hfabric, _ => by
    cases h
    exact ⟨hfabric.uniforms, hfabric.materials, fun _ _ hc => hfabric.child hc⟩
  | (key, template) :: rest, fabric, expanded, h, hfabric, hlineage => by
    obtain ⟨base, hbase, h⟩ := bind_eq_ok.mp h
    have ordered := ordered_expandOver hbase (hlineage _ List.mem_cons_self)
      fun entry hentry => hlineage entry (List.mem_cons_of_mem _ hentry)
    unfold Expanded.under at h
    split at h
    · cases h
    · cases h
      refine ⟨Table.sorted_override ordered.uniforms, Table.sorted_override ordered.materials, ?_⟩
      intro name child hmem
      rcases Table.mem_override hmem with hmem | hmem
      · exact ordered.below name child hmem
      · exact hfabric.child hmem

/-- **A fabric over its templates is in order** if they all are. -/
theorem ordered_expand {library : Library} (hlibrary : library.Ordered) {fabric : Fabric}
    (hfabric : fabric.Ordered) {expanded : Expanded} (h : fabric.expand library = .ok expanded) :
    expanded.Ordered := by
  obtain ⟨lineage, hlineage, h⟩ := bind_eq_ok.mp h
  refine ordered_expandOver h hfabric fun entry hentry => ?_
  exact hlibrary entry.1 entry.2 (mem_lineageFrom hlineage hentry).1

end ShaderFabric
