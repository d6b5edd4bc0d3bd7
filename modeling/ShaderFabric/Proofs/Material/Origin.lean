/-
# Where bound names come from

A material binds identifiers of uniforms that the bodies of its program refer to.  So whatever was
allowed as a name in a fabric, a bound name is made of a declared name and a path that are words of
shader text, and the rules of names hold of them.

* `Binding.Entry.Ruled` -- a binding whose name is made of names that keep the rules;
* `ruled_of_run` -- every binding of a material is one, at the end of every run;
* `program_of_intact` -- as long as no node is destroyed, text and bindings are those of the
  resolved fabric.
-/
import ShaderFabric.Proofs.Material.Bindings
import ShaderFabric.Proofs.Material.Declaration

namespace ShaderFabric

/-! ## 1. Names that keep the rules -/

/-- **A binding whose name keeps the rules**: it is the identifier of a declared name on a path of
sub-materials.  The declared name and those on the path are identifiers, and none of them would make
a reserved one. -/
structure Binding.Entry.Ruled (entry : Binding.Entry) : Prop where
  name_eq : entry.name = mangle entry.declared entry.path
  declared : IsIdentifier entry.declared
  unreserved : isReservedUniform entry.declared = false
  path : ∀ segment ∈ entry.path, IsIdentifier segment
  path_unreserved : ∀ segment ∈ entry.path, isReservedMaterial segment = false
  kind_ne : entry.kind ≠ .channels

theorem Binding.Entry.Ruled.isIdentifier {entry : Binding.Entry} (h : entry.Ruled) :
    IsIdentifier entry.name := by
  rw [h.name_eq]
  exact isIdentifier_mangle h.path h.declared

namespace Material

/-! ## 2. The nodes of a program -/

/-- The names on the path of an emitted node keep the rule of sub-materials. -/
theorem unreserved_of_mem_emitted {root : Node} (hroot : root.path = []) (hwf : root.WellFormed)
    {node : Node} (h : node ∈ root.emitted) :
    ∀ segment ∈ node.path, isReservedMaterial segment = false := by
  have hself : root.WellFormed ∧ ∀ segment ∈ root.path, isReservedMaterial segment = false := by
    refine ⟨hwf, ?_⟩
    rw [hroot]
    exact fun segment hsegment => absurd hsegment List.not_mem_nil
  refine (Node.emitted_induct (P := fun node => node.WellFormed ∧
    ∀ segment ∈ node.path, isReservedMaterial segment = false) ?_ root hself node h).2
  rintro node ⟨hnode, hpath⟩ child hchild -
  refine ⟨hnode.child hchild, ?_⟩
  intro segment hsegment
  rw [hnode.own.child_path child hchild] at hsegment
  rcases List.mem_append.mp hsegment with hsegment | hsegment
  · exact hpath segment hsegment
  · rw [List.mem_singleton.mp hsegment]
    exact hnode.own.material_unreserved child hchild

/-- What a node binds is of its uniforms that are used and are no selectors. -/
theorem mem_entriesOfNode {node : Node} {entry : Binding.Entry} :
    entry ∈ entriesOfNode node ↔
      ∃ uniform ∈ node.uniforms, uniform.used = true ∧ uniform.value.isSelector = false ∧
        entry = ⟨mangle uniform.name node.path, uniform.name, node.path, uniform.value.kind⟩ := by
  unfold entriesOfNode entriesOf
  rw [List.map_map, List.filterMap_map, List.mem_filterMap]
  refine exists_congr fun uniform => and_congr_right fun _ => ?_
  simp only [Function.comp_apply, composeUniform, Bool.true_and]
  cases uniform.used <;> cases uniform.value.isSelector <;> simp [eq_comm]

/-- **What an emitted node binds keeps the rules.** -/
theorem ruled_of_mem_entriesOfNode {root : Node} (hroot : root.path = []) (hwf : root.WellFormed)
    {node : Node} (h : node ∈ root.emitted) {entry : Binding.Entry}
    (hentry : entry ∈ entriesOfNode node) : entry.Ruled := by
  obtain ⟨hnode, rest, hpath, hrest⟩ := path_of_mem_emitted hwf h
  rw [hroot, List.nil_append] at hpath
  obtain ⟨uniform, huniform, hused, hselector, rfl⟩ := mem_entriesOfNode.mp hentry
  have hmentions := hnode.own.uniform_used uniform huniform
  rw [hused] at hmentions
  exact {
    name_eq := rfl
    declared := isIdentifier_of_mentions hmentions.symm
    unreserved := hnode.own.uniform_unreserved uniform huniform
    path := hpath ▸ hrest
    path_unreserved := unreserved_of_mem_emitted hroot hwf h
    kind_ne := fun hkind => by
      cases hvalue : uniform.value with
      | channels selector =>
        rw [hvalue] at hselector
        cases hselector
      | _ =>
        rw [hvalue] at hkind
        cases hkind }

/-! ## 3. Every run -/

variable {library : Library} {loader : Loader} {workers : Nat} {m last : Material}
  {studio final : Studio} {events : List Event}

/-- A material that has been built: what its text is, and what it binds. -/
theorem program_of_built (built : Built library loader workers m studio) :
    ∃ strict fabric root, resolve library strict fabric = .ok root ∧
      m.source = String.join (root.emitted.map fun node => (composeNode true node).text) ∧
      m.bindings.map Binding.entry = root.emitted.flatMap entriesOfNode := by
  obtain ⟨strict, fabric, root, translucent, start, hroot, hm⟩ := built_eq built
  refine ⟨strict, fabric, root, hroot, ?_, ?_⟩
  · rw [hm, run_build, ← source_composeNode root, source_composeNode_eq]
    rfl
  · rw [hm]
    exact entries_build loader root translucent start

/-- The nodes of a material that has been built: each is alive, and below one that is not part of
the program nothing is bound. -/
theorem fresh_of_built (built : Built library loader workers m studio) :
    (∀ node ∈ m.parts, node.destroyed = false) ∧ m.Quiet := by
  obtain ⟨-, -, root, translucent, start, -, hm⟩ := built_eq built
  constructor
  · intro node hnode
    have hfresh := destroyed_of_build loader translucent (compose root) start node
    rw [← hm] at hfresh
    exact hfresh ((mem_parts_iff m).mp hnode)
  · rw [hm]
    exact quiet_build loader root true translucent start

/-- **What is bound at the end of a run** was bound at the start. -/
theorem mem_bindings_of_run (built : Built library loader workers m studio)
    (h : run loader events m studio = some (last, final)) :
    ∀ binding ∈ last.bindings, binding.entry ∈ m.bindings.map Binding.entry := by
  have lives := lives_of_built built
  have keeps := keeps_run h
  obtain ⟨halive, quiet⟩ := fresh_of_built built
  intro binding hbinding
  have hentry : binding.entry ∈ last.bindings.map Binding.entry := List.mem_map_of_mem hbinding
  rw [bindings_eq last (lives_run h lives).sound (quiet.keeps keeps),
    flatMap_liveEntries keeps.parts] at hentry
  rw [bindings_eq m lives.sound quiet, flatMap_liveEntries_of_intact halive]
  obtain ⟨⟨before, after⟩, hpair, hentry⟩ := List.mem_flatMap.mp hentry
  split at hentry
  · exact absurd hentry List.not_mem_nil
  · exact List.mem_flatMap.mpr ⟨before, (List.of_mem_zip hpair).1, hentry⟩

/-- **Every binding keeps the rules**, at the end of every run. -/
theorem ruled_of_run (built : Built library loader workers m studio)
    (h : run loader events m studio = some (last, final)) :
    ∀ binding ∈ last.bindings, binding.entry.Ruled := by
  obtain ⟨strict, fabric, root, hresolve, -, hentries⟩ := program_of_built built
  obtain ⟨hroot, hwf⟩ := wellFormed_resolve hresolve
  intro binding hbinding
  have hentry := mem_bindings_of_run built h binding hbinding
  rw [hentries] at hentry
  obtain ⟨node, hnode, hentry⟩ := List.mem_flatMap.mp hentry
  exact ruled_of_mem_entriesOfNode hroot hwf hnode hentry

/-- **A material without destroyed nodes** has the text of its fabric and binds what that text
declares. -/
theorem program_of_intact (built : Built library loader workers m studio)
    (h : run loader events m studio = some (last, final)) (hintact : last.isIntact = true) :
    ∃ strict fabric root, resolve library strict fabric = .ok root ∧
      last.source = String.join (root.emitted.map fun node => (composeNode true node).text) ∧
      last.bindings.map Binding.entry = root.emitted.flatMap entriesOfNode := by
  obtain ⟨strict, fabric, root, hresolve, hsource, hentries⟩ := program_of_built built
  have lives := lives_of_built built
  have keeps := keeps_run h
  obtain ⟨halive, quiet⟩ := fresh_of_built built
  have hnodes := (isIntact_iff last).mp hintact
  refine ⟨strict, fabric, root, hresolve, ?_, ?_⟩
  · rw [← hsource]
    obtain ⟨-, -, -, -, hkept, -⟩ := keeps
    exact (hkept (hnodes last (self_mem_nodes last))).2
  · rw [← hentries, bindings_eq last (lives_run h lives).sound (quiet.keeps keeps),
      bindings_eq m lives.sound quiet, flatMap_liveEntries_of_intact halive,
      flatMap_liveEntries_of_intact fun node hnode => hnodes node ((mem_parts_iff last).mp hnode),
      flatMap_entries_of_keeps keeps.parts]

end Material

end ShaderFabric
