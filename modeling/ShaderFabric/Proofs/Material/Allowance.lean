/-
# The allowance is never too small

`resolve` bounds the depth of a tree by the number of nodes that the fabric and all templates have.
A template may well have itself among its sub-materials; then no bound is large enough for some
fabrics, and for these the answer is `endless`.  This module shows that the answer of `resolve` is
not an accident of its bound: a larger allowance never changes it.

* `resolveNode_follows_more`: a run that ends within an allowance ends alike within the next one;
* `exists_settled`: how the nodes of some fabrics end stays the same from some allowance on, which
  is at most their number, since in each stage before it one more of them has come to an end;
* `resolve_eq_of_le`: every allowance from that of `resolve` on gives the answer of `resolve`.
-/
import ShaderFabric.Proofs.Material.Modes

namespace ShaderFabric

/-! ## 1. The nodes of fabrics -/

namespace Fabric

mutual

/-- The nodes of a fabric, itself first. -/
def nodes : Fabric → List Fabric
  | ⟨typeName, uniforms, materials, components, source, unknown⟩ =>
    ⟨typeName, uniforms, materials, components, source, unknown⟩ :: nodesBelow materials

def nodesBelow : List (String × Fabric) → List Fabric
  | [] => []
  | (_, child) :: rest => nodes child ++ nodesBelow rest

end

mutual

theorem length_nodes : ∀ fabric : Fabric, fabric.nodes.length = fabric.size
  | ⟨_, _, materials, _, _, _⟩ => by
    rw [nodes, size, List.length_cons, length_nodesBelow materials, Nat.add_comm]

theorem length_nodesBelow : ∀ materials : List (String × Fabric),
    (nodesBelow materials).length = sizes materials
  | [] => rfl
  | (_, child) :: rest => by
    rw [nodesBelow, sizes, List.length_append, length_nodes child, length_nodesBelow rest]

end

theorem self_mem_nodes (fabric : Fabric) : fabric ∈ fabric.nodes := by
  cases fabric
  rw [nodes]
  exact List.mem_cons_self

theorem mem_nodesBelow {name : String} {child lower : Fabric} (hlower : lower ∈ child.nodes) :
    ∀ {materials : List (String × Fabric)}, (name, child) ∈ materials →
      lower ∈ nodesBelow materials
  | [], h => absurd h List.not_mem_nil
  | (_, first) :: rest, h => by
    rw [nodesBelow, List.mem_append]
    rcases List.mem_cons.mp h with heq | h
    · cases heq
      exact .inl hlower
    · exact .inr (mem_nodesBelow hlower h)

/-- The nodes of a sub-material are nodes of the fabric. -/
theorem mem_nodes_of_child {fabric child lower : Fabric} {name : String}
    (hc : (name, child) ∈ fabric.materials) (hlower : lower ∈ child.nodes) :
    lower ∈ fabric.nodes := by
  cases fabric
  rw [nodes]
  exact List.mem_cons_of_mem _ (mem_nodesBelow hlower hc)

mutual

/-- The sub-materials of a node are nodes too. -/
theorem child_mem_nodes {name : String} {node child : Fabric}
    (hc : (name, child) ∈ node.materials) : ∀ {fabric : Fabric}, node ∈ fabric.nodes →
      child ∈ fabric.nodes
  | ⟨typeName, uniforms, materials, components, source, unknown⟩, h => by
    rw [nodes] at h ⊢
    rcases List.mem_cons.mp h with rfl | h
    · exact List.mem_cons_of_mem _ (mem_nodesBelow child.self_mem_nodes hc)
    · exact List.mem_cons_of_mem _ (child_mem_nodesBelow hc h)

theorem child_mem_nodesBelow {name : String} {node child : Fabric}
    (hc : (name, child) ∈ node.materials) : ∀ {materials : List (String × Fabric)},
      node ∈ nodesBelow materials → child ∈ nodesBelow materials
  | [], h => absurd h List.not_mem_nil
  | (_, first) :: rest, h => by
    rw [nodesBelow, List.mem_append] at h ⊢
    exact h.imp (child_mem_nodes hc) (child_mem_nodesBelow hc)

end

end Fabric

/-- The nodes of a fabric and of all templates. -/
def Library.nodesWith (library : Library) (fabric : Fabric) : List Fabric :=
  fabric.nodes ++
    (library.custom ++ Template.builtins).flatMap fun entry => entry.2.fabric.nodes

theorem Library.length_nodesWith (library : Library) (fabric : Fabric) :
    (library.nodesWith fabric).length = fabric.size + library.nodeCount := by
  have hall : ∀ table : Table Template,
      (table.flatMap fun entry => entry.2.fabric.nodes).length =
        table.foldr (fun entry count => entry.2.fabric.size + count) 0 := by
    intro table
    induction table with
    | nil => rfl
    | cons entry rest ih =>
      rw [List.flatMap_cons, List.length_append, ih, Fabric.length_nodes, List.foldr_cons]
  rw [nodesWith, List.length_append, Fabric.length_nodes, hall]
  rfl

/-! ## 2. One more step is no harm -/

/-- Sub-materials follow each other if the runs at every place do. -/
theorem resolveChildren_follows_of {tolerated : ResolveError → Prop}
    {first second : List String → Fabric → Except ResolveError Node}
    (h : ∀ path fabric, Follows tolerated (fun _ => True) (first path fabric) (second path fabric))
    (path : List String) : ∀ children : List (Declared Fabric),
      Follows tolerated (fun _ => True) (resolveChildren first path children)
        (resolveChildren second path children)
  | [] => .pure trivial
  | child :: rest => by
    unfold resolveChildren
    refine (h (path ++ [child.name]) child.value).bind fun node _ => ?_
    exact (resolveChildren_follows_of h path rest).bind fun others _ => .pure trivial

/-- **A run that ends within an allowance ends alike within the next one.** -/
theorem resolveNode_follows_more (library : Library) (strict : Bool) : ∀ (fuel : Nat)
    (path : List String) (fabric : Fabric),
      Follows (fun error => error.cause = .endless) (fun _ => True)
        (resolveNode library strict fuel path fabric)
        (resolveNode library strict (fuel + 1) path fabric)
  | 0, _, _ => .inl rfl
  | fuel + 1, path, fabric => by
    rw [resolveNode, resolveNode]
    cases outline library strict fabric with
    | error cause => exact .inr rfl
    | ok outline =>
      exact (resolveChildren_follows_of (resolveNode_follows_more library strict fuel) path
        outline.materials).bind fun materials _ => .pure trivial

/-! ## 3. How a fabric ends, wherever it stands -/

/-- How sub-materials end one after the other. -/
def verdicts (ofChild : Fabric → Except Cause Unit) : List (Declared Fabric) → Except Cause Unit
  | [] => .ok ()
  | child :: rest =>
    match ofChild child.value with
    | .error cause => .error cause
    | .ok () => verdicts ofChild rest

/-- How the resolution of a fabric ends within an allowance. -/
def verdict (library : Library) (strict : Bool) : Nat → Fabric → Except Cause Unit
  | 0, _ => .error .endless
  | fuel + 1, fabric =>
    match outline library strict fabric with
    | .error cause => .error cause
    | .ok outline => verdicts (verdict library strict fuel) outline.materials

/-- What is left of an answer without the tree and the place of an error. -/
def ending {α : Type} : Except ResolveError α → Except Cause Unit
  | .ok _ => .ok ()
  | .error error => .error error.cause

theorem ending_resolveChildren {resolveAt : List String → Fabric → Except ResolveError Node}
    {ofChild : Fabric → Except Cause Unit}
    (h : ∀ path fabric, ending (resolveAt path fabric) = ofChild fabric) (path : List String) :
    ∀ children : List (Declared Fabric),
      ending (resolveChildren resolveAt path children) = verdicts ofChild children
  | [] => rfl
  | child :: rest => by
    rw [resolveChildren, verdicts, ← h (path ++ [child.name]), ← ending_resolveChildren h path rest]
    cases resolveAt (path ++ [child.name]) child.value with
    | error error => rfl
    | ok node => cases resolveChildren resolveAt path rest <;> rfl

/-- **The place of a fabric does not matter for how it ends.** -/
theorem ending_resolveNode (library : Library) (strict : Bool) : ∀ (fuel : Nat)
    (path : List String) (fabric : Fabric),
      ending (resolveNode library strict fuel path fabric) = verdict library strict fuel fabric
  | 0, _, _ => rfl
  | fuel + 1, path, fabric => by
    rw [resolveNode, verdict]
    cases outline library strict fabric with
    | error cause => rfl
    | ok outline =>
      dsimp only
      rw [← ending_resolveChildren (ending_resolveNode library strict fuel) path outline.materials]
      cases resolveChildren (resolveNode library strict fuel) path outline.materials <;> rfl

theorem verdict_follows_more (library : Library) (strict : Bool) (fuel : Nat) (fabric : Fabric) :
    verdict library strict fuel fabric = .error .endless ∨
      verdict library strict (fuel + 1) fabric = verdict library strict fuel fabric := by
  have hmore := resolveNode_follows_more library strict fuel [] fabric
  rw [← ending_resolveNode library strict fuel [],
    ← ending_resolveNode library strict (fuel + 1) []]
  cases hfirst : resolveNode library strict fuel [] fabric with
  | ok node =>
    rw [hfirst] at hmore
    rw [hmore.1]
    exact .inr rfl
  | error error =>
    rw [hfirst] at hmore
    rcases hmore with hendless | hmore
    · exact .inl (congrArg Except.error hendless)
    · rw [hmore]
      exact .inr rfl

theorem verdicts_congr {first second : Fabric → Except Cause Unit} :
    ∀ {children : List (Declared Fabric)},
      (∀ child ∈ children, first child.value = second child.value) →
        verdicts first children = verdicts second children
  | [], _ => rfl
  | child :: rest, h => by
    obtain ⟨hfirst, hrest⟩ := List.forall_mem_cons.mp h
    rw [verdicts, verdicts, hfirst, verdicts_congr hrest]

/-! ## 4. Stages -/

section Stages

variable {library : Library} {strict : Bool}

/-- The sub-materials of some fabrics are among them. -/
def Library.Closed (library : Library) (strict : Bool) (fabrics : List Fabric) : Prop :=
  ∀ fabric ∈ fabrics, ∀ outline, ShaderFabric.outline library strict fabric = .ok outline →
    ∀ child ∈ outline.materials, child.value ∈ fabrics

/-- Sub-materials stem from the fabric or from templates, hence from their nodes. -/
theorem Library.closed_nodesWith (fabric : Fabric) :
    library.Closed strict (library.nodesWith fabric) := by
  intro node hnode outline hout child hchild
  obtain ⟨expanded, draft, -, hexpand, hdraft, hdone⟩ := outline_eq_ok hout
  have hmem : (child.name, child.value) ∈ expanded.materials := by
    rw [← (Expanded.draft_eq_ok hdraft).2.2.1]
    rw [(Draft.outline_eq_ok hdone).2.1] at hchild
    obtain ⟨entry, hentry, rfl⟩ := List.mem_map.mp hchild
    exact hentry
  unfold nodesWith at hnode ⊢
  rw [List.mem_append, List.mem_flatMap] at hnode ⊢
  rcases mem_expand hexpand hmem with hown | ⟨key, template, -, hget, htemplate⟩
  · refine hnode.imp (Fabric.child_mem_nodes hown) ?_
    rintro ⟨entry, hentry, hin⟩
    exact ⟨entry, hentry, Fabric.child_mem_nodes hown hin⟩
  · rw [Library.get?_eq_find?] at hget
    exact .inr ⟨(key, template), Table.mem_of_find?_eq_some hget,
      Fabric.mem_nodes_of_child htemplate child.value.self_mem_nodes⟩

variable {fabrics : List Fabric} (hclosed : library.Closed strict fabrics)

include hclosed

/-- Verdicts that do not change in one stage never change again. -/
theorem verdict_eq_of_settled {settled : Nat}
    (h : ∀ fabric ∈ fabrics, verdict library strict (settled + 1) fabric =
      verdict library strict settled fabric) : ∀ more, ∀ fabric ∈ fabrics,
        verdict library strict (settled + more) fabric = verdict library strict settled fabric
  | 0, _, _ => rfl
  | more + 1, fabric, hmem => by
    have ih := verdict_eq_of_settled h more
    rw [← h fabric hmem, ← Nat.add_assoc, verdict, verdict]
    cases hout : outline library strict fabric with
    | error cause => rfl
    | ok outline =>
      exact verdicts_congr fun child hchild => ih _ (hclosed fabric hmem outline hout child hchild)

omit hclosed in
open Classical in
/-- **Some stage changes no verdict**: each stage before it brings one more fabric to an end, and
there are only so many. -/
theorem exists_settled (library : Library) (strict : Bool) (fabrics : List Fabric) :
    ∃ settled ≤ fabrics.length, ∀ fabric ∈ fabrics,
      verdict library strict (settled + 1) fabric = verdict library strict settled fabric := by
  by_contra hnone
  simp only [not_exists, not_and, not_forall] at hnone
  -- the fabrics without an end are fewer in each stage
  have hcount : ∀ stage ≤ fabrics.length + 1,
      (fabrics.toFinset.filter fun fabric =>
        verdict library strict stage fabric = .error .endless).card + stage ≤ fabrics.length := by
    intro stage
    induction stage with
    | zero =>
      intro _
      exact (Finset.card_filter_le _ _).trans (List.toFinset_card_le _)
    | succ stage ih =>
      intro hstage
      obtain ⟨fabric, hmem, hchanged⟩ := hnone stage (Nat.le_of_succ_le_succ hstage)
      have hendless := (verdict_follows_more library strict stage fabric).resolve_right hchanged
      have hfewer : (fabrics.toFinset.filter fun fabric =>
          verdict library strict (stage + 1) fabric = .error .endless) ⊂
          fabrics.toFinset.filter fun fabric => verdict library strict stage fabric =
            .error .endless := by
        refine Finset.ssubset_iff_subset_ne.mpr ⟨fun other hother => ?_, fun heq => ?_⟩
        · rw [Finset.mem_filter] at hother ⊢
          refine ⟨hother.1,
            (verdict_follows_more library strict stage other).elim id fun hsame => ?_⟩
          exact hsame ▸ hother.2
        · have hin : fabric ∈ fabrics.toFinset.filter fun fabric =>
              verdict library strict stage fabric = .error .endless :=
            Finset.mem_filter.mpr ⟨List.mem_toFinset.mpr hmem, hendless⟩
          rw [← heq, Finset.mem_filter] at hin
          exact hchanged (hin.2.trans hendless.symm)
      have hlt := Finset.card_lt_card hfewer
      have := ih (by omega)
      omega
  have := hcount (fabrics.length + 1) le_rfl
  omega

end Stages

/-! ## 5. Larger allowances -/

section Larger

variable {library : Library} {strict : Bool}

/-- The allowance has no place: where it ends is lost. -/
theorem path_of_endless : ∀ (fuel : Nat) (path : List String) (fabric : Fabric),
    Fails (fun error => error.cause = .endless → error = ⟨[], .endless⟩)
      (resolveNode library strict fuel path fabric)
  | 0, _, _ => .error fun _ => rfl
  | fuel + 1, path, fabric => by
    unfold resolveNode
    cases hout : outline library strict fabric with
    | error cause =>
      exact .error fun h => absurd h (bounded_outline library strict fabric cause hout)
    | ok outline =>
      refine Fails.bind ?_ fun materials _ => .ok _
      exact fails_resolveChildren _ fun child _ => path_of_endless fuel _ child.value

theorem resolveNode_eq_endless {fuel : Nat} {path : List String} {fabric : Fabric}
    (h : verdict library strict fuel fabric = .error .endless) :
    resolveNode library strict fuel path fabric = .error ⟨[], .endless⟩ := by
  rw [← ending_resolveNode library strict fuel path] at h
  cases hnode : resolveNode library strict fuel path fabric with
  | ok node =>
    rw [hnode] at h
    cases h
  | error error =>
    rw [hnode] at h
    exact congrArg Except.error (path_of_endless fuel path fabric error hnode (Except.error.inj h))

/-- An answer is not changed by any number of further steps. -/
theorem resolveNode_add {fuel : Nat} {fabric : Fabric} (path : List String)
    (h : verdict library strict fuel fabric ≠ .error .endless) :
    ∀ more, resolveNode library strict (fuel + more) path fabric =
      resolveNode library strict fuel path fabric
  | 0 => rfl
  | more + 1 => by
    have ih := resolveNode_add path h more
    have hmore := resolveNode_follows_more library strict (fuel + more) path fabric
    rw [ih] at hmore
    rw [← ending_resolveNode library strict fuel path] at h
    rw [← Nat.add_assoc]
    cases hnode : resolveNode library strict fuel path fabric with
    | ok node =>
      rw [hnode] at hmore
      exact hmore.1
    | error error =>
      rw [hnode] at hmore h
      exact hmore.resolve_left fun hendless => h (congrArg Except.error hendless)

/-- **The answer of `resolve` is that of every larger allowance**, `endless` included. -/
theorem resolve_eq_of_le (fabric : Fabric) {fuel : Nat}
    (h : fabric.size + library.nodeCount + 1 ≤ fuel) :
    resolveNode library strict fuel [] fabric = resolve library strict fabric := by
  obtain ⟨more, rfl⟩ := Nat.exists_eq_add_of_le h
  unfold resolve
  by_cases hendless : verdict library strict (fabric.size + library.nodeCount + 1) fabric =
      .error .endless
  · have hmem : fabric ∈ library.nodesWith fabric :=
      List.mem_append_left _ fabric.self_mem_nodes
    obtain ⟨settled, hle, hsettled⟩ := exists_settled library strict (library.nodesWith fabric)
    have hsame : ∀ larger, settled ≤ larger →
        verdict library strict larger fabric = verdict library strict settled fabric := by
      intro larger hlarger
      obtain ⟨rest, rfl⟩ := Nat.exists_eq_add_of_le hlarger
      exact verdict_eq_of_settled (Library.closed_nodesWith fabric) hsettled rest fabric hmem
    rw [Library.length_nodesWith] at hle
    have hlater := hsame (fabric.size + library.nodeCount + 1 + more) (by omega)
    rw [← hsame _ (Nat.le_succ_of_le hle), hendless] at hlater
    rw [resolveNode_eq_endless hlater, resolveNode_eq_endless hendless]
  · exact resolveNode_add [] hendless more

end Larger

end ShaderFabric
