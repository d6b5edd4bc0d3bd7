/-
# What is not referred to

In lenient mode a tree keeps declarations that no body refers to.  They take no part in anything:
the tree without some of them has the same program text, and a material built from it binds the same
uniforms and starts the same loads.  Of a sub-material that is not referred to this holds for
everything in it, also for what its own bodies refer to.

Whether a node is part of the program is inherited on the way from the root, whether a declaration
is used is a matter of one node; text, replacements, bindings, slots and translucency each combine
the two by themselves.  So each has its own lemma here, by recursion over what has been left out.

* `Node.Thinned` -- a tree without some declarations that are not used, at any of its nodes;
* `source_thinned`, `build_thinned`, `anyTranslucent_thinned` -- what such a tree has in common with
  the whole one;
* `Node.marked` -- the nodes of a tree, each with whether it is part of the program;
* `unused_inert` -- what this comes to.
-/
import ShaderFabric.Proofs.Material.Bindings

namespace ShaderFabric

/-! ## 1. Leaving out -/

/-- **Declarations without some that are not used**, if there `may` be any such; what is kept stays
in its order, its values related by `R`. -/
inductive Declared.Without {α : Type} (may : Bool) (R : α → α → Prop) :
    List (Declared α) → List (Declared α) → Prop
  | nil : Without may R [] []
  | keep {name : String} {value value' : α} {used : Bool} {all kept : List (Declared α)}
    (h : R value value') (rest : Without may R all kept) :
    Without may R (⟨name, value, used⟩ :: all) (⟨name, value', used⟩ :: kept)
  | drop {name : String} {value : α} {all kept : List (Declared α)} (allowed : may = true)
    (rest : Without may R all kept) : Without may R (⟨name, value, false⟩ :: all) kept

/-- **A tree without some declarations that are not used**: sub-materials with everything in them at
any node, and uniforms as well unless these are all to stay. -/
inductive Node.Thinned (uniforms : Bool) : Node → Node → Prop
  | intro {path : List String} {typeName : Option String} {own own' : List (Declared Value)}
    {materials materials' : List (Declared Node)} {body : Body} {translucency : Translucency}
    (values : Declared.Without uniforms Eq own own')
    (below : Declared.Without true (Thinned uniforms) materials materials') :
    Thinned uniforms ⟨path, typeName, own, materials, body, translucency⟩
      ⟨path, typeName, own', materials', body, translucency⟩

namespace Declared.Without

variable {α : Type} {R : α → α → Prop} {all kept : List (Declared α)}

/-- Where nothing may be left out, nothing is. -/
theorem eq_of_full (h : Without false Eq all kept) : kept = all := by
  induction h with
  | nil => rfl
  | keep h _ ih => rw [h, ih]
  | drop allowed => cases allowed

/-- **What is used is kept.** -/
theorem filter_used {may : Bool} (h : Without may Eq all kept) :
    kept.filter Declared.used = all.filter Declared.used := by
  induction h with
  | nil => rfl
  | @keep name _ _ used _ _ h _ ih =>
    rw [h]
    cases used with
    | true => exact congrArg (_ :: ·) ih
    | false => exact ih
  | drop _ _ ih => exact ih

/-- The names of what is used are kept. -/
theorem names_used {may : Bool} (h : Without may R all kept) :
    (kept.filter Declared.used).map Declared.name =
      (all.filter Declared.used).map Declared.name := by
  induction h with
  | nil => rfl
  | @keep name _ _ used _ _ _ _ ih =>
    cases used with
    | true => exact congrArg (name :: ·) ih
    | false => exact ih
  | drop _ _ ih => exact ih

end Declared.Without

/-! ## 2. The text -/

/-- A uniform that is not used is not part of the program. -/
theorem mangled_of_unused (emitted : Bool) (path : List String) (name : String) (value : Value) :
    (composeUniform emitted path ⟨name, value, false⟩).mangled = none := by
  unfold composeUniform
  rw [Bool.and_false, Bool.false_and]
  rfl

/-- A uniform that is not used has no declaration. -/
theorem declaredOf_composeUniform (emitted : Bool) (path : List String)
    (uniforms : List (Declared Value)) :
    declaredOf (uniforms.map (composeUniform emitted path)) =
      declaredOf ((uniforms.filter Declared.used).map (composeUniform emitted path)) := by
  induction uniforms with
  | nil => rfl
  | cons uniform rest ih =>
    obtain ⟨name, value, used⟩ := uniform
    cases used with
    | true =>
      unfold declaredOf at ih ⊢
      rw [List.filter_cons_of_pos rfl, List.map_cons, List.map_cons, List.filterMap_cons, ih,
        List.filterMap_cons]
    | false =>
      unfold declaredOf at ih ⊢
      rw [List.filter_cons_of_neg Bool.false_ne_true, List.map_cons, List.filterMap_cons,
        mangled_of_unused, ih]
      rfl

/-- **The text of a node depends on what is used only.** -/
theorem text_eq_of_used {node node' : Node} (hpath : node'.path = node.path)
    (hbody : node'.body = node.body)
    (huniforms : node'.uniforms.filter Declared.used = node.uniforms.filter Declared.used)
    (hnames : (node'.materials.filter Declared.used).map Declared.name =
      (node.materials.filter Declared.used).map Declared.name) (emitted : Bool) :
    (composeNode emitted node').text = (composeNode emitted node).text := by
  have hmaterials : materialReplacements node'.path node'.materials =
      materialReplacements node.path node.materials := by
    have hcalls := congrArg (List.map fun name =>
      (name, (⟨functionName (node.path ++ [name]) ++ "(materialInput)", false⟩ : Replacement)))
      hnames
    rw [List.map_map, List.map_map] at hcalls
    rw [materialReplacements_eq, materialReplacements_eq, hpath]
    exact hcalls
  have hreplacements : replacements node' = replacements node := by
    unfold replacements
    rw [hmaterials, uniformReplacements_eq, uniformReplacements_eq, huniforms, hpath, hbody]
  have hdeclared : declaredOf (node'.uniforms.map (composeUniform emitted node'.path)) =
      declaredOf (node.uniforms.map (composeUniform emitted node.path)) := by
    rw [declaredOf_composeUniform, huniforms, hpath, ← declaredOf_composeUniform]
  have htext : ∀ n : Node, (composeNode emitted n).text =
      if emitted then nodeText n (n.uniforms.map (composeUniform emitted n.path)) else "" := by
    intro n
    cases n
    rfl
  rw [htext, htext]
  unfold nodeText
  rw [join_declarationLine, join_declarationLine, hdeclared, hreplacements, hpath, hbody]

theorem Node.Thinned.text_eq {uniforms : Bool} {root thin : Node} (h : root.Thinned uniforms thin)
    (emitted : Bool) : (composeNode emitted thin).text = (composeNode emitted root).text := by
  cases h with
  | intro values below =>
    refine text_eq_of_used ?_ ?_ values.filter_used below.names_used emitted
    · rfl
    · rfl

mutual

/-- **The source of a thinned tree is that of the whole tree.** -/
theorem source_thinned {uniforms : Bool} : ∀ {root thin : Node}, root.Thinned uniforms thin →
    ∀ emitted, (composeNode emitted thin).source = (composeNode emitted root).source
  | _, _, .intro values below, emitted => by
    rw [source_composeNode_eq, source_composeNode_eq, (Node.Thinned.intro values below).text_eq]
    exact congrArg (· ++ _) (sources_thinned below emitted)

theorem sources_thinned {uniforms : Bool} : ∀ {all kept : List (Declared Node)},
    Declared.Without true (Node.Thinned uniforms) all kept →
    ∀ emitted, Program.sources (composeChildren emitted kept) =
      Program.sources (composeChildren emitted all)
  | _, _, .nil, _ => rfl
  | _, _, .keep h rest, emitted => by
    rw [composeChildren, composeChildren, Program.sources, Program.sources, source_thinned h,
      sources_thinned rest]
  | _, _, .drop _ rest, emitted => by
    rw [composeChildren, Program.sources, Bool.and_false, source_composeNode_false,
      sources_thinned rest, String.empty_append]

end

/-! ## 3. Translucency -/

mutual

/-- **Sub-materials that are left out do not make a tree translucent**, if all uniforms stay. -/
theorem anyTranslucent_thinned : ∀ {root thin : Node}, root.Thinned false thin →
    ∀ emitted, (composeNode emitted thin).anyTranslucent =
      (composeNode emitted root).anyTranslucent
  | _, _, .intro values below, emitted => by
    obtain rfl := values.eq_of_full
    rw [composeNode, composeNode, Program.anyTranslucent, Program.anyTranslucent,
      anyTranslucents_thinned below emitted]
    rfl

theorem anyTranslucents_thinned : ∀ {all kept : List (Declared Node)},
    Declared.Without true (Node.Thinned false) all kept →
    ∀ emitted, Program.anyTranslucents (composeChildren emitted kept) =
      Program.anyTranslucents (composeChildren emitted all)
  | _, _, .nil, _ => rfl
  | _, _, .keep h rest, emitted => by
    rw [composeChildren, composeChildren, Program.anyTranslucents, Program.anyTranslucents,
      anyTranslucent_thinned h, anyTranslucents_thinned rest, emitted_composeNode,
      emitted_composeNode]
  | _, _, .drop _ rest, emitted => by
    rw [composeChildren, Program.anyTranslucents, emitted_composeNode, Bool.and_false,
      Bool.false_and, Bool.false_or, anyTranslucents_thinned rest]

end

/-! ## 4. Materials -/

namespace Material

section Build

variable (loader : Loader)

/-- A uniform that is not part of the program has no slot and starts no load. -/
theorem run_buildUniform_of_unbound {path : List String} {uniform : ProgramUniform}
    (h : uniform.mangled = none) (studio : Studio) :
    (buildUniform loader path uniform).run studio =
      (⟨uniform.name, none, uniform.value, none⟩, studio) := by
  unfold buildUniform
  rw [h]
  rfl

theorem run_buildUniforms_of_unbound {path : List String} :
    ∀ {uniforms : List ProgramUniform}, (∀ uniform ∈ uniforms, uniform.mangled = none) →
      ∀ studio : Studio, (buildUniforms loader path uniforms).run studio =
        (uniforms.map fun uniform => ⟨uniform.name, none, uniform.value, none⟩, studio)
  | [], _, _ => rfl
  | uniform :: rest, h, studio => by
    obtain ⟨hfirst, hrest⟩ := List.forall_mem_cons.mp h
    rw [run_buildUniforms_cons, run_buildUniform_of_unbound loader hfirst]
    dsimp only
    rw [run_buildUniforms_of_unbound hrest]
    rfl

/-- The uniforms of a node that is not part of the program, at work. -/
theorem run_buildUniforms_false (path : List String) (uniforms : List (Declared Value))
    (studio : Studio) :
    (buildUniforms loader path (uniforms.map (composeUniform false path))).run studio =
      (uniforms.map fun uniform => ⟨uniform.name, none, uniform.value, none⟩, studio) := by
  rw [run_buildUniforms_of_unbound loader (List.forall_mem_map.mpr fun _ _ => rfl), List.map_map]
  rfl

mutual

/-- **What is not part of the program starts no load and has no slot**, whatever its bodies refer
to. -/
theorem idle_build_false : ∀ (node : Node) (translucent : Bool) (studio : Studio),
    ((build loader translucent (composeNode false node)).run studio).2 = studio ∧
      ((build loader translucent (composeNode false node)).run studio).1.slots = []
  | ⟨path, _, uniforms, materials, _, _⟩, translucent, studio => by
    obtain ⟨hstudio, hslots⟩ := idle_buildChildren_false materials studio
    rw [run_build, uniforms_composeNode, path_composeNode, run_buildUniforms_false]
    refine ⟨hstudio, ?_⟩
    have hown : slotsOf (uniforms.map fun uniform =>
        (⟨uniform.name, none, uniform.value, none⟩ : MaterialUniform)) = [] := by
      rw [slotsOf, List.filterMap_map]
      exact List.filterMap_eq_nil_iff.mpr fun _ _ => rfl
    rw [slots_eq]
    dsimp only
    rw [hown, List.append_nil]
    exact hslots

theorem idle_buildChildren_false : ∀ (materials : List (Declared Node)) (studio : Studio),
    ((buildChildren loader (composeChildren false materials)).run studio).2 = studio ∧
      allSlots ((buildChildren loader (composeChildren false materials)).run studio).1 = []
  | [], _ => ⟨rfl, rfl⟩
  | ⟨name, node, used⟩ :: rest, studio => by
    rw [composeChildren, Bool.false_and, run_buildChildren_cons]
    obtain ⟨hstudio, hslots⟩ := idle_build_false node _ studio
    obtain ⟨hstudio', hslots'⟩ := idle_buildChildren_false rest studio
    dsimp only
    rw [hstudio, allSlots, hslots, hslots']
    exact ⟨hstudio', rfl⟩

end

/-- A material is part of the program exactly when its node is. -/
theorem emitted_build (emitted : Bool) (node : Node) (translucent : Bool) (studio : Studio) :
    ((build loader translucent (composeNode emitted node)).run studio).1.emitted = emitted := by
  rw [run_build]
  exact emitted_composeNode emitted node

/-- **Uniforms that are left out are neither bound nor loaded.** -/
theorem buildUniforms_thinned {may : Bool} {all kept : List (Declared Value)}
    (h : Declared.Without may Eq all kept) (emitted : Bool) (path : List String) :
    ∀ studio : Studio,
      bindingsOf path ((buildUniforms loader path
          (kept.map (composeUniform emitted path))).run studio).1 =
        bindingsOf path ((buildUniforms loader path
          (all.map (composeUniform emitted path))).run studio).1 ∧
      ((buildUniforms loader path (kept.map (composeUniform emitted path))).run studio).2 =
        ((buildUniforms loader path (all.map (composeUniform emitted path))).run studio).2 := by
  induction h with
  | nil => exact fun _ => ⟨rfl, rfl⟩
  | keep h _ ih =>
    intro studio
    subst h
    rw [List.map_cons, List.map_cons, run_buildUniforms_cons, run_buildUniforms_cons]
    obtain ⟨hbindings, hstudio⟩ := ih ((buildUniform loader path _).run studio).2
    refine ⟨?_, hstudio⟩
    dsimp only
    rw [bindingsOf, List.filterMap_cons, bindingsOf, List.filterMap_cons]
    unfold bindingsOf at hbindings
    rw [hbindings]
  | @drop name value _ _ _ _ ih =>
    intro studio
    obtain ⟨hbindings, hstudio⟩ := ih studio
    rw [List.map_cons, run_buildUniforms_cons,
      run_buildUniform_of_unbound loader (mangled_of_unused ..)]
    exact ⟨hbindings, hstudio⟩

mutual

/-- **A thinned tree is built as the whole one is**: the same uniforms are bound, to the same values
and textures, and the studio comes out the same. -/
theorem build_thinned {uniforms : Bool} : ∀ {root thin : Node}, root.Thinned uniforms thin →
    ∀ (emitted translucent translucent' : Bool) (studio : Studio),
      ((build loader translucent' (composeNode emitted thin)).run studio).1.bindings =
        ((build loader translucent (composeNode emitted root)).run studio).1.bindings ∧
      ((build loader translucent' (composeNode emitted thin)).run studio).2 =
        ((build loader translucent (composeNode emitted root)).run studio).2
  | ⟨path, _, own, materials, _, _⟩, ⟨_, _, own', materials', _, _⟩, .intro values below, emitted,
      translucent, translucent', studio => by
    obtain ⟨hbindings, hstudio⟩ := buildUniforms_thinned loader values emitted path studio
    obtain ⟨hbelow, hlast⟩ := buildChildren_thinned below emitted
      ((buildUniforms loader path (own.map (composeUniform emitted path))).run studio).2
    rw [run_build, run_build, uniforms_composeNode, uniforms_composeNode, path_composeNode,
      path_composeNode]
    dsimp only
    rw [hstudio]
    refine ⟨?_, hlast⟩
    rw [bindings, bindings, emitted_composeNode, emitted_composeNode, hbindings]
    exact congrArg (fun children => if emitted && !false then children ++ _ else []) hbelow

theorem buildChildren_thinned {uniforms : Bool} : ∀ {all kept : List (Declared Node)},
    Declared.Without true (Node.Thinned uniforms) all kept → ∀ (emitted : Bool) (studio : Studio),
      allBindings ((buildChildren loader (composeChildren emitted kept)).run studio).1 =
        allBindings ((buildChildren loader (composeChildren emitted all)).run studio).1 ∧
      ((buildChildren loader (composeChildren emitted kept)).run studio).2 =
        ((buildChildren loader (composeChildren emitted all)).run studio).2
  | _, _, .nil, _, _ => ⟨rfl, rfl⟩
  | _, _, .keep h rest, emitted, studio => by
    obtain ⟨hfirst, hstudio⟩ := build_thinned h (emitted && _) _ _ studio
    rw [composeChildren, composeChildren, run_buildChildren_cons, run_buildChildren_cons]
    dsimp only
    rw [hstudio, allBindings, allBindings, hfirst]
    obtain ⟨hbindings, hlast⟩ := buildChildren_thinned rest emitted _
    exact ⟨congrArg (_ ++ ·) hbindings, hlast⟩
  | _, _, .drop _ rest, emitted, studio => by
    rw [composeChildren, Bool.and_false, run_buildChildren_cons]
    dsimp only
    rw [(idle_build_false loader _ _ studio).1, allBindings,
      bindings_of_not_emitted (emitted_build loader false _ _ studio), List.nil_append]
    exact buildChildren_thinned rest emitted studio

end

end Build

/-- **A material that takes no part in anything**: it has no text, binds nothing and loads nothing,
and neither does anything below it. -/
structure Idle (m : Material) : Prop where
  source : m.source = ""
  bindings : m.bindings = []
  slots : m.slots = []
  unbound : ∀ uniform ∈ m.uniforms, uniform.mangled = none

/-- What is not part of the program is built idle. -/
theorem idle_build (loader : Loader) (node : Node) (translucent : Bool) (studio : Studio) :
    ((build loader translucent (composeNode false node)).run studio).1.Idle where
  source := by
    rw [run_build, ← source_composeNode_false node, source_composeNode_eq]
  bindings := bindings_of_not_emitted (emitted_build loader false node translucent studio)
  slots := (idle_build_false loader node translucent studio).2
  unbound := by
    rw [run_build, uniforms_composeNode, path_composeNode, run_buildUniforms_false]
    exact List.forall_mem_map.mpr fun _ _ => rfl

end Material

/-! ## 5. The nodes of a tree -/

namespace Node

mutual

/-- The nodes of a tree, each before those below it and with whether it is part of the program: on
its way from a node that is, every sub-material has to be referred to. -/
def marked (emitted : Bool) : Node → List (Node × Bool)
  | ⟨path, typeName, uniforms, materials, body, translucency⟩ =>
    (⟨path, typeName, uniforms, materials, body, translucency⟩, emitted) ::
      markedBelow emitted materials

def markedBelow (emitted : Bool) : List (Declared Node) → List (Node × Bool)
  | [] => []
  | ⟨_, node, used⟩ :: rest => marked (emitted && used) node ++ markedBelow emitted rest

end

mutual

/-- A tree without anything that is not used; without its unused sub-materials only, if the uniforms
are to stay. -/
def bare (uniforms : Bool) : Node → Node
  | ⟨path, typeName, own, materials, body, translucency⟩ =>
    ⟨path, typeName, own.filter fun uniform => uniform.used || !uniforms,
      bareBelow uniforms materials, body, translucency⟩

def bareBelow (uniforms : Bool) : List (Declared Node) → List (Declared Node)
  | [] => []
  | ⟨name, node, used⟩ :: rest =>
    if used then ⟨name, bare uniforms node, used⟩ :: bareBelow uniforms rest
    else bareBelow uniforms rest

end

theorem without_filter (uniforms : Bool) : ∀ own : List (Declared Value),
    Declared.Without uniforms Eq own (own.filter fun uniform => uniform.used || !uniforms)
  | [] => .nil
  | ⟨name, value, true⟩ :: rest => by
    rw [List.filter_cons_of_pos rfl]
    exact .keep rfl (without_filter uniforms rest)
  | ⟨name, value, false⟩ :: rest => by
    cases uniforms with
    | true =>
      rw [List.filter_cons_of_neg Bool.false_ne_true]
      exact .drop rfl (without_filter true rest)
    | false =>
      rw [List.filter_cons_of_pos rfl]
      exact .keep rfl (without_filter false rest)

mutual

/-- **As much as can be left out is left out.** -/
theorem thinned_bare (uniforms : Bool) : ∀ node : Node, node.Thinned uniforms (node.bare uniforms)
  | ⟨_, _, own, materials, _, _⟩ =>
    .intro (without_filter uniforms own) (without_bareBelow uniforms materials)

theorem without_bareBelow (uniforms : Bool) : ∀ materials : List (Declared Node),
    Declared.Without true (Thinned uniforms) materials (bareBelow uniforms materials)
  | [] => .nil
  | ⟨_, node, true⟩ :: rest => .keep (thinned_bare uniforms node) (without_bareBelow uniforms rest)
  | ⟨_, _, false⟩ :: rest => .drop rfl (without_bareBelow uniforms rest)

end

end Node

namespace Material

/-- A node of a tree at work: where it is, whether it is part of the program, and that it takes no
part in anything otherwise. -/
def Stands (entry : Node × Bool) (part : Material) : Prop :=
  part.path = entry.1.path ∧ part.emitted = entry.2 ∧ (entry.2 = false → part.Idle)

section Build

variable (loader : Loader)

mutual

/-- **Every node of a tree stands as it is marked.** -/
theorem stands_build : ∀ (node : Node) (emitted translucent : Bool) (studio : Studio),
    List.Forall₂ Stands (node.marked emitted)
      ((build loader translucent (composeNode emitted node)).run studio).1.nodes
  | ⟨path, typeName, uniforms, materials, body, translucency⟩, emitted, translucent, studio => by
    rw [Node.marked, nodes_eq]
    refine .cons ⟨?_, emitted_build loader emitted _ translucent studio, ?_⟩ ?_
    · rw [run_build]
      exact path_composeNode emitted _
    · rintro rfl
      exact idle_build loader _ translucent studio
    · rw [run_build]
      exact stands_buildChildren materials emitted _

theorem stands_buildChildren : ∀ (materials : List (Declared Node)) (emitted : Bool)
    (studio : Studio), List.Forall₂ Stands (Node.markedBelow emitted materials)
      (allNodes ((buildChildren loader (composeChildren emitted materials)).run studio).1)
  | [], _, _ => .nil
  | ⟨_, node, used⟩ :: rest, emitted, studio => by
    rw [Node.markedBelow, composeChildren, run_buildChildren_cons]
    exact List.rel_append (stands_build node (emitted && used) _ studio)
      (stands_buildChildren rest emitted _)

end

end Build

/-- **What is not referred to is inert.**  Of a tree without some declarations that are not used

* the program has the same text, byte for byte;
* if all uniforms have stayed, the program is translucent exactly when that of the whole tree is;
* a material, under any loader and whatever it is built as, binds the same uniforms in the same
  order, with the same values and textures, and leaves the studio as one of the whole tree does: it
  has started the same loads.

Of a material of the whole tree, every node on whose way some sub-material is not referred to has no
text, binds nothing and has no slots, whatever it says of its own declarations. -/
theorem unused_inert {uniforms : Bool} {root thin : Node} (h : root.Thinned uniforms thin) :
    (compose thin).source = (compose root).source ∧
    (uniforms = false → (compose thin).anyTranslucent = (compose root).anyTranslucent) ∧
    ∀ (loader : Loader) (translucent translucent' : Bool) (studio : Studio),
      ((build loader translucent' (compose thin)).run studio).1.bindings =
        ((build loader translucent (compose root)).run studio).1.bindings ∧
      ((build loader translucent' (compose thin)).run studio).2 =
        ((build loader translucent (compose root)).run studio).2 ∧
      List.Forall₂ Stands (root.marked true)
        ((build loader translucent (compose root)).run studio).1.nodes := by
  refine ⟨source_thinned h true, ?_, fun loader translucent translucent' studio => ?_⟩
  · rintro rfl
    exact anyTranslucent_thinned h true
  · obtain ⟨hbindings, hstudio⟩ := build_thinned loader h true translucent translucent' studio
    exact ⟨hbindings, hstudio, stands_build loader root true translucent studio⟩

namespace Example

/-- An image that nothing refers to, and a sub-material that nothing refers to and that refers to an
image of its own. -/
def spare : Fabric :=
  { uniforms := [("shade", .number (Double.ofInt 1)), ("unseen", .text "unseen.png")]
    materials := [("part",
      { uniforms := [("map", .text "part.png")]
        components := some [("diffuse", "texture(map, materialInput.st).rgb")] })]
    components := some [("diffuse", "vec3(shade)")] }

/-- The nodes of its tree, each with whether its own body refers to all its uniforms and with its
mark, and how many uniforms and sub-materials the root has left in the end. -/
def seen (root : Node) : List (List String × Bool × Bool) × List Nat :=
  ((root.marked true).map fun entry => (entry.1.path, entry.1.uniforms.all Declared.used, entry.2),
    [(root.bare true).uniforms.length, (root.bare true).materials.length])

/-- **A sub-material that nothing refers to is idle**, though its own body refers to its image. -/
theorem spare_inert : ∃ root, resolve ⟨[]⟩ false spare = .ok root ∧
    seen root = ([([], false, true), (["part"], true, false)], [1, 0]) ∧
    root.Thinned true (root.bare true) ∧
    (compose (root.bare true)).source = (compose root).source ∧
    root.Thinned false (root.bare false) ∧
    (compose (root.bare false)).anyTranslucent = (compose root).anyTranslucent ∧
    ∀ loader studio, ∃ whole part,
      ((build loader false (compose root)).run studio).1.nodes = [whole, part] ∧
      part.path = ["part"] ∧ part.Idle := by
  have hresolve : (resolve ⟨[]⟩ false spare).toOption.map seen =
      some ([([], false, true), (["part"], true, false)], [1, 0]) := by
    decide +kernel
  cases hroot : resolve ⟨[]⟩ false spare with
  | error error =>
    rw [hroot] at hresolve
    cases hresolve
  | ok root =>
    rw [hroot] at hresolve
    have hseen := Option.some.inj hresolve
    obtain ⟨hmarked, -⟩ := Prod.mk.inj hseen
    have all := unused_inert (root.thinned_bare true)
    have materials := unused_inert (root.thinned_bare false)
    refine ⟨root, rfl, hseen, root.thinned_bare true, all.1, root.thinned_bare false,
      materials.2.1 rfl, fun loader studio => ?_⟩
    obtain ⟨first, _, heq, -, hrest⟩ := List.map_eq_cons_iff.mp hmarked
    obtain ⟨second, _, rfl, hsecond, hnil⟩ := List.map_eq_cons_iff.mp hrest
    obtain rfl := List.map_eq_nil_iff.mp hnil
    have stands := (all.2.2 loader false false studio).2.2
    rw [heq] at stands
    obtain ⟨whole, _, -, hparts, hnodes⟩ := List.forall₂_cons_left_iff.mp stands
    obtain ⟨part, _, hpart, hnone, rfl⟩ := List.forall₂_cons_left_iff.mp hparts
    obtain rfl := List.forall₂_nil_left_iff.mp hnone
    simp only [Prod.mk.injEq] at hsecond
    exact ⟨whole, part, hnodes, hpart.1.trans hsecond.1, hpart.2.2 hsecond.2.2⟩

end Example

end Material

end ShaderFabric
