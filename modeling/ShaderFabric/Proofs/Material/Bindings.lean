/-
# What a renderer binds

The text of a program is fixed when a material is built, but its bindings are read off the tree each
time.  They still agree: a fresh material binds what its text declares, in the same order, and from
then on a binding changes its value and its texture only, or goes when its node is destroyed.

* `Material.entries` -- what a node binds, whatever the values are;
* `Material.Keeps` -- what every change keeps of a tree, node by node (`keeps_step`, `keeps_run`);
* `entries_build`, `bindings_build` -- a fresh material binds what its text declares;
* `bindings_eq` -- the bindings of a tree, read off its nodes;
* `bindings_stay` -- what this comes to at the end of every run.
-/
import ShaderFabric.Proofs.Material.Emission
import ShaderFabric.Proofs.Material.Lifetime
import ShaderFabric.Render.Renderer

namespace ShaderFabric

/-! ## 1. Entries -/

/-- A binding, whatever its value. -/
structure Binding.Entry where
  /-- The identifier in the program. -/
  name : String
  /-- The name in the fabric. -/
  declared : String
  path : List String
  kind : Kind
  deriving DecidableEq

def Binding.entry (binding : Binding) : Binding.Entry :=
  ⟨binding.name, binding.declared, binding.path, binding.kind⟩

/-- A uniform, whatever its value. -/
def MaterialUniform.face (uniform : MaterialUniform) : String × Option String × Kind :=
  (uniform.name, uniform.mangled, uniform.value.kind)

/-- What uniforms of these faces are bound as. -/
def entriesOf (path : List String) (faces : List (String × Option String × Kind)) :
    List Binding.Entry :=
  faces.filterMap fun face => face.2.1.map fun name => ⟨name, face.1, path, face.2.2⟩

namespace Material

/-- **What a node binds** while it is part of the program and alive. -/
def entries (m : Material) : List Binding.Entry :=
  entriesOf m.path (m.uniforms.map MaterialUniform.face)

theorem map_entry_bindingsOf (path : List String) (uniforms : List MaterialUniform) :
    (bindingsOf path uniforms).map Binding.entry =
      entriesOf path (uniforms.map MaterialUniform.face) := by
  unfold bindingsOf entriesOf
  rw [List.map_filterMap, List.filterMap_map]
  refine List.filterMap_congr fun uniform _ => ?_
  simp only [Function.comp_apply, MaterialUniform.face, Option.map_map]
  rfl

mutual

/-- The nodes of a tree in the order of their bindings, sub-materials first. -/
def parts : Material → List Material
  | ⟨path, typeName, function, source, emitted, uniforms, materials, translucent, destroyed⟩ =>
    allParts materials ++
      [⟨path, typeName, function, source, emitted, uniforms, materials, translucent, destroyed⟩]

def allParts : List (String × Material) → List Material
  | [] => []
  | (_, child) :: rest => parts child ++ allParts rest

end

theorem parts_eq (m : Material) : m.parts = allParts m.materials ++ [m] := by
  cases m
  rfl

mutual

theorem mem_parts_iff {node : Material} : ∀ m : Material, node ∈ m.parts ↔ node ∈ m.nodes
  | ⟨_, _, _, _, _, _, materials, _, _⟩ => by
    rw [parts, nodes, List.mem_append, mem_allParts_iff materials, List.mem_singleton,
      List.mem_cons, or_comm]

theorem mem_allParts_iff {node : Material} : ∀ children : List (String × Material),
    node ∈ allParts children ↔ node ∈ allNodes children
  | [] => Iff.rfl
  | (_, child) :: rest => by
    rw [allParts, allNodes, List.mem_append, List.mem_append, mem_parts_iff child,
      mem_allParts_iff rest]

end

/-! ## 2. What every change keeps -/

/-- **What a change keeps of a tree**: its nodes in their places, with what they bind and whether
they are part of the program, and their texts as long as they are alive. -/
inductive Keeps : Material → Material → Prop
  | intro {m m' : Material} (path : m'.path = m.path) (emitted : m'.emitted = m.emitted)
    (translucent : m'.translucent = m.translucent)
    (faces : m'.uniforms.map MaterialUniform.face = m.uniforms.map MaterialUniform.face)
    (alive : m'.destroyed = false → m.destroyed = false ∧ m'.source = m.source)
    (materials : Table.Rel Keeps m.materials m'.materials) : Keeps m m'

mutual

theorem Keeps.refl : ∀ m : Material, m.Keeps m
  | ⟨_, _, _, _, _, _, materials, _, _⟩ =>
    .intro rfl rfl rfl rfl (fun h => ⟨h, rfl⟩) (keeps_refl_materials materials)

theorem keeps_refl_materials : ∀ children : List (String × Material),
    Table.Rel Keeps children children
  | [] => .nil
  | (_, child) :: rest => .cons (Keeps.refl child) (keeps_refl_materials rest)

end

mutual

theorem Keeps.trans : ∀ {m m' m'' : Material}, m.Keeps m' → m'.Keeps m'' → m.Keeps m''
  | ⟨_, _, _, _, _, _, _, _, _⟩, ⟨_, _, _, _, _, _, _, _, _⟩, ⟨_, _, _, _, _, _, _, _, _⟩,
    .intro path emitted translucent faces alive materials,
    .intro path' emitted' translucent' faces' alive' materials' =>
    .intro (path'.trans path) (emitted'.trans emitted) (translucent'.trans translucent)
      (faces'.trans faces)
      (fun h =>
        have h' := alive' h
        have h'' := alive h'.1
        ⟨h''.1, h'.2.trans h''.2⟩)
      (keeps_trans_materials materials materials')

theorem keeps_trans_materials : ∀ {s t u : List (String × Material)},
    Table.Rel Keeps s t → Table.Rel Keeps t u → Table.Rel Keeps s u
  | _, _, _, .nil, .nil => .nil
  | _, _, _, .cons h rest, .cons h' rest' => .cons (h.trans h') (keeps_trans_materials rest rest')

end

mutual

/-- **The nodes keep their places.** -/
theorem Keeps.parts : ∀ {m m' : Material}, m.Keeps m' →
    List.Forall₂ Keeps m.parts m'.parts
  | ⟨_, _, _, _, _, _, _, _, _⟩, ⟨_, _, _, _, _, _, _, _, _⟩,
    .intro path emitted translucent faces alive materials =>
    List.rel_append (keeps_allParts materials)
      (.cons (.intro path emitted translucent faces alive materials) .nil)

theorem keeps_allParts : ∀ {s t : List (String × Material)}, Table.Rel Keeps s t →
    List.Forall₂ Keeps (allParts s) (allParts t)
  | _, _, .nil => .nil
  | _, _, .cons h rest => List.rel_append h.parts (keeps_allParts rest)

end

theorem Keeps.path_eq {m m' : Material} (h : m.Keeps m') : m'.path = m.path := by
  obtain ⟨path, -, -, -, -, -⟩ := h
  exact path

theorem Keeps.entries_eq {m m' : Material} (h : m.Keeps m') : m'.entries = m.entries := by
  obtain ⟨path, -, -, faces, -, -⟩ := h
  unfold entries
  rw [path, faces]

/-! ## 3. What each change makes of the tree -/

theorem face_pollUniforms (uploader : Uploader) :
    ∀ (uniforms : List MaterialUniform) (studio : Studio),
      ((pollUniforms uploader uniforms).run studio).1.1.map MaterialUniform.face =
        uniforms.map MaterialUniform.face
  | [], _ => rfl
  | uniform :: rest, studio => by
    have hfirst : ((pollUniform uploader uniform).run studio).1.1.face = uniform.face := by
      unfold pollUniform
      cases uniform.texture <;> rfl
    rw [run_pollUniforms_cons, List.map_cons, List.map_cons, hfirst,
      face_pollUniforms uploader rest]

mutual

theorem keeps_pollTree (uploader : Uploader) : ∀ (m : Material) (studio : Studio),
    m.Keeps ((pollTree uploader m).run studio).1.1
  | ⟨_, _, _, _, _, _, _, _, true⟩, studio => by
    rw [run_pollTree_of_destroyed uploader rfl]
    exact .refl _
  | ⟨_, _, _, _, _, uniforms, materials, _, false⟩, studio => by
    rw [run_pollTree uploader rfl]
    exact .intro rfl rfl rfl (face_pollUniforms uploader uniforms _) (fun h => ⟨h, rfl⟩)
      (keeps_pollTrees uploader materials studio)

theorem keeps_pollTrees (uploader : Uploader) :
    ∀ (children : List (String × Material)) (studio : Studio),
      Table.Rel Keeps children ((pollTrees uploader children).run studio).1.1
  | [], _ => .nil
  | (name, child) :: rest, studio => by
    rw [run_pollTrees_cons]
    exact .cons (keeps_pollTree uploader child studio) (keeps_pollTrees uploader rest _)

end

theorem face_releaseUniforms : ∀ (uniforms : List MaterialUniform) (studio : Studio),
    ((releaseUniforms uniforms).run studio).1.map MaterialUniform.face =
      uniforms.map MaterialUniform.face
  | [], _ => rfl
  | uniform :: rest, studio => by
    rw [run_releaseUniforms_cons, List.map_cons, List.map_cons, face_releaseUniforms rest]
    rfl

mutual

theorem keeps_releaseTree : ∀ (m : Material) (studio : Studio),
    m.Keeps (m.releaseTree.run studio).1
  | ⟨_, _, _, _, _, uniforms, materials, _, _⟩, studio => by
    rw [run_releaseTree]
    exact .intro rfl rfl rfl (face_releaseUniforms uniforms _) nofun
      (keeps_releaseTrees materials studio)

theorem keeps_releaseTrees : ∀ (children : List (String × Material)) (studio : Studio),
    Table.Rel Keeps children ((releaseTrees children).run studio).1
  | [], _ => .nil
  | (name, child) :: rest, studio => by
    rw [run_releaseTrees_cons]
    cases child.destroyed with
    | true => exact .cons (.refl child) (keeps_releaseTrees rest _)
    | false => exact .cons (keeps_releaseTree child studio) (keeps_releaseTrees rest _)

end

/-- **A value that fits is of the type.** -/
theorem kind_of_fit {name : String} {expected : Kind} {value fitted : Value}
    (h : fit name expected value = .ok fitted) : fitted.kind = expected := by
  unfold fit at h
  split at h
  · rename_i hkind
    cases h
    exact hkind
  · split at h
    · rename_i other hother
      cases h
      unfold Value.retype? at hother
      split at hother <;> cases hother <;> rfl
    · cases h

/-- **A value that is accepted is of the type of its uniform.** -/
theorem kind_of_accept {m : Material} {name : String} {literal : Literal} {value : Value}
    (h : m.accept name literal = .ok value) :
    ∃ uniform, m.uniform? name = some uniform ∧ value.kind = uniform.value.kind := by
  unfold accept at h
  cases hd : m.destroyed with
  | true =>
    rw [if_pos hd] at h
    cases h
  | false =>
    rw [if_neg (by rw [hd]; exact Bool.false_ne_true)] at h
    cases huniform : m.uniform? name with
    | none =>
      rw [huniform] at h
      cases h
    | some uniform =>
      rw [huniform] at h
      dsimp only [pure_bind] at h
      split at h
      · cases h
      · split at h
        · cases h
        · exact ⟨uniform, rfl, kind_of_fit h⟩

theorem face_assignUniforms (loader : Loader) {name : String} {value : Value} :
    ∀ (uniforms : List MaterialUniform) {uniform : MaterialUniform} (studio : Studio),
      (uniforms.find? fun uniform => uniform.name = name) = some uniform →
      value.kind = uniform.value.kind →
      ((assignUniforms loader name value uniforms).run studio).1.map MaterialUniform.face =
        uniforms.map MaterialUniform.face
  | [], _, _, h, _ => by cases h
  | first :: rest, uniform, studio, h, hkind => by
    rw [run_assignUniforms_cons]
    split
    · rename_i hname
      rw [List.find?_cons_of_pos (by simpa using hname)] at h
      cases h
      have hfirst : ((assignUniform loader value first).run studio).1.face = first.face := by
        have hface : (first.name, first.mangled, value.kind) = first.face := by
          rw [hkind]
          rfl
        unfold assignUniform
        cases first.texture <;> cases TextureRequest.ofValue? value <;> exact hface
      rw [List.map_cons, List.map_cons, hfirst]
    · rename_i hname
      rw [List.find?_cons_of_neg (by simpa using hname)] at h
      rw [List.map_cons, List.map_cons, face_assignUniforms loader rest studio h hkind]

theorem keeps_set (loader : Loader) (name : String) (literal : Literal) (m : Material)
    (studio : Studio) : m.Keeps ((set loader name literal m).run studio).1.2 := by
  unfold set
  cases haccept : m.accept name literal with
  | error error => exact .refl m
  | ok value =>
    obtain ⟨uniform, hfind, hkind⟩ := kind_of_accept haccept
    exact .intro rfl rfl rfl (face_assignUniforms loader m.uniforms studio hfind hkind)
      (fun h => ⟨h, rfl⟩) (keeps_refl_materials m.materials)

theorem keeps_poll (uploader : Uploader) (m : Material) (studio : Studio) :
    m.Keeps ((poll uploader m).run studio).1.2 := by
  unfold poll
  split
  · exact .refl m
  · exact keeps_pollTree uploader m studio

theorem keeps_destroy (m : Material) (studio : Studio) :
    m.Keeps ((destroy m).run studio).1.2 := by
  unfold destroy
  split
  · exact .refl m
  · exact keeps_releaseTree m studio

/-- **What a change keeps of a node it keeps of the tree.** -/
theorem keeps_within {α : Type} {change : Change α}
    (h : ∀ m studio, Keeps m ((change m).run studio).1.2) (way : List String) (m : Material)
    (studio : Studio) : m.Keeps ((within way change m).run studio).1.2 := by
  refine within_induct (P := fun m _ _ m' _ => m.Keeps m') h (fun m _ _ => .refl m) ?_ way m studio
  intro m _ before name child after _ child' _ _ hsplit hchild
  refine .intro rfl rfl rfl rfl (fun h => ⟨h, rfl⟩) ?_
  rw [hsplit]
  exact (keeps_refl_materials before).append (.cons hchild (keeps_refl_materials after))

variable {loader : Loader}

/-- **What every step keeps.** -/
theorem keeps_step {m m' : Material} {studio later : Studio} {event : Event}
    (h : step loader m studio event = some (m', later)) : m.Keeps m' := by
  cases event with
  | set way name literal =>
    cases h
    exact keeps_within (keeps_set loader name literal) way m studio
  | poll way uploader =>
    cases h
    exact keeps_within (keeps_poll uploader) way m studio
  | destroy way =>
    cases h
    exact keeps_within keeps_destroy way m studio
  | act done =>
    obtain ⟨pool, -, heq⟩ := Option.map_eq_some_iff.mp h
    cases heq
    exact .refl m

/-- **What every run keeps.** -/
theorem keeps_run {last : Material} {final : Studio} : ∀ {events : List Event} {m : Material}
    {studio : Studio}, run loader events m studio = some (last, final) → m.Keeps last
  | [], _, _, h => by
    cases h
    exact .refl _
  | event :: rest, m, studio, h => by
    obtain ⟨m', later, hstep, hrest⟩ := run_cons_eq_some h
    exact (keeps_step hstep).trans (keeps_run hrest)

/-! ## 4. Fresh materials -/

section Build

variable (loader : Loader)

theorem face_buildUniforms (path : List String) :
    ∀ (uniforms : List ProgramUniform) (studio : Studio),
      ((buildUniforms loader path uniforms).run studio).1.map MaterialUniform.face =
        uniforms.map fun uniform => (uniform.name, uniform.mangled, uniform.value.kind)
  | [], _ => rfl
  | uniform :: rest, studio => by
    have hfirst : ((buildUniform loader path uniform).run studio).1.face =
        (uniform.name, uniform.mangled, uniform.value.kind) := by
      unfold buildUniform
      cases uniform.mangled <;> cases TextureRequest.ofValue? uniform.value <;> rfl
    rw [run_buildUniforms_cons, List.map_cons, List.map_cons, hfirst, face_buildUniforms path rest]

/-- **What a node of a program binds** as soon as it is built. -/
def entriesOfNode (node : Node) : List Binding.Entry :=
  entriesOf node.path ((node.uniforms.map (composeUniform true node.path)).map fun uniform =>
    (uniform.name, uniform.mangled, uniform.value.kind))

/-- What a node binds that has just been built is what its program declares. -/
theorem map_entriesOfNode (node : Node) :
    (entriesOfNode node).map (fun entry => (entry.name, entry.kind)) =
      (composeNode true node).declared := by
  unfold entriesOfNode entriesOf Program.declared declaredOf
  rw [uniforms_composeNode, List.map_filterMap, List.filterMap_map]
  refine List.filterMap_congr fun uniform _ => ?_
  simp only [Function.comp_apply, Option.map_map]
  rfl

/-- A node that is not part of the program binds nothing. -/
theorem bindings_of_not_emitted {m : Material} (h : m.emitted = false) : m.bindings = [] := by
  cases m
  cases h
  rfl

theorem bindings_of_emitted {m : Material} (h : m.emitted = true) (halive : m.destroyed = false) :
    m.bindings = allBindings m.materials ++ bindingsOf m.path m.uniforms := by
  cases m
  cases h
  cases halive
  rfl

mutual

/-- **What a fresh material binds**, node by node. -/
theorem entries_build : ∀ (node : Node) (translucent : Bool) (studio : Studio),
    ((build loader translucent (composeNode true node)).run studio).1.bindings.map Binding.entry =
      node.emitted.flatMap entriesOfNode
  | ⟨path, typeName, uniforms, materials, body, translucency⟩, translucent, studio => by
    rw [run_build, bindings_of_emitted (emitted_composeNode true _) rfl, List.map_append,
      map_entry_bindingsOf, face_buildUniforms, Node.emitted, List.flatMap_append,
      List.flatMap_singleton]
    exact congrArg (· ++ _) (allEntries_buildChildren materials _)

theorem allEntries_buildChildren : ∀ (materials : List (Declared Node)) (studio : Studio),
    (allBindings ((buildChildren loader (composeChildren true materials)).run studio).1).map
        Binding.entry =
      (Node.emittedBelow materials).flatMap entriesOfNode
  | [], _ => rfl
  | ⟨_, node, used⟩ :: rest, studio => by
    rw [composeChildren, run_buildChildren_cons, allBindings, List.map_append,
      allEntries_buildChildren rest, Node.emittedBelow, List.flatMap_append]
    cases used with
    | true => exact congrArg (· ++ _) (entries_build node _ studio)
    | false =>
      have hnone : ((build loader (composeNode false node).anyTranslucent
          (composeNode false node)).run studio).1.bindings = [] := by
        rw [run_build]
        exact bindings_of_not_emitted (emitted_composeNode false node)
      exact congrArg (fun bindings => bindings.map Binding.entry ++ _) hnone

end

/-- The identifier and the type of a binding. -/
def declaration (binding : Binding) : String × Kind := (binding.name, binding.kind)

/-- **A fresh material binds what its text declares**, in the order of the declarations. -/
theorem bindings_build (node : Node) (translucent : Bool) (studio : Studio) :
    ((build loader translucent (composeNode true node)).run studio).1.bindings.map declaration =
      node.emitted.flatMap fun n => (composeNode true n).declared := by
  have hentries := congrArg (List.map fun entry : Binding.Entry => (entry.name, entry.kind))
    (entries_build loader node translucent studio)
  rw [List.map_map, List.map_flatMap] at hentries
  simp only [map_entriesOfNode] at hentries
  exact hentries

/-- Below a node that is not part of the program nothing is bound. -/
def Quiet (m : Material) : Prop :=
  ∀ node ∈ m.parts, node.emitted = false → ∀ below ∈ node.parts, below.entries = []

/-- Where a sub-material comes from that has just been built. -/
theorem mem_buildChildren {entry : String × Material} :
    ∀ {programs : List (String × Program)} {studio : Studio},
      entry ∈ ((buildChildren loader programs).run studio).1 →
        ∃ program studio', (entry.1, program) ∈ programs ∧
          entry.2 = ((build loader program.anyTranslucent program).run studio').1
  | [], _, h => absurd h List.not_mem_nil
  | (name, program) :: rest, studio, h => by
    rw [run_buildChildren_cons] at h
    rcases List.mem_cons.mp h with rfl | h
    · exact ⟨program, studio, List.mem_cons_self, rfl⟩
    · obtain ⟨program, studio', hmem, heq⟩ := mem_buildChildren h
      exact ⟨program, studio', List.mem_cons_of_mem _ hmem, heq⟩

theorem mem_allParts {node : Material} : ∀ {children : List (String × Material)},
    node ∈ allParts children → ∃ entry ∈ children, node ∈ entry.2.parts
  | [], h => absurd h List.not_mem_nil
  | (name, child) :: rest, h => by
    rcases List.mem_append.mp h with h | h
    · exact ⟨(name, child), List.mem_cons_self, h⟩
    · obtain ⟨entry, hmem, hnode⟩ := mem_allParts h
      exact ⟨entry, List.mem_cons_of_mem _ hmem, hnode⟩

/-- The nodes of a tree that has just been built: the root, and those of its sub-materials. -/
theorem mem_parts_build {emitted : Bool} {node : Node} {translucent : Bool} {studio : Studio}
    {part : Material}
    (h : part ∈ ((build loader translucent (composeNode emitted node)).run studio).1.parts) :
    part = ((build loader translucent (composeNode emitted node)).run studio).1 ∨
      ∃ child ∈ node.materials, ∃ translucent' studio', part ∈ ((build loader translucent'
        (composeNode (emitted && child.used) child.value)).run studio').1.parts := by
  rw [parts_eq] at h
  rcases List.mem_append.mp h with h | h
  · obtain ⟨entry, hmem, hpart⟩ := mem_allParts h
    rw [run_build] at hmem
    obtain ⟨program, studio', hprogram, heq⟩ := mem_buildChildren loader hmem
    rw [materials_composeNode] at hprogram
    obtain ⟨child, hchild, hsame⟩ := List.mem_map.mp hprogram
    rw [heq, ← (Prod.mk.inj hsame).2] at hpart
    exact .inr ⟨child, hchild, _, studio', hpart⟩
  · exact .inl (List.mem_singleton.mp h)

theorem entries_build_false (node : Node) : ∀ (translucent : Bool) (studio : Studio),
    ∀ part ∈ ((build loader translucent (composeNode false node)).run studio).1.parts,
      part.entries = [] := by
  induction node using Node.induct with
  | step node ih =>
    intro translucent studio part hpart
    rcases mem_parts_build loader hpart with rfl | ⟨child, hchild, translucent', studio', hpart⟩
    · rw [entries, run_build, face_buildUniforms, uniforms_composeNode]
      unfold entriesOf
      rw [List.map_map, List.filterMap_map]
      exact List.filterMap_eq_nil_iff.mpr fun _ _ => rfl
    · exact ih child hchild translucent' studio' part hpart

/-- **A material that has just been built is quiet.** -/
theorem quiet_build (node : Node) : ∀ (emitted translucent : Bool) (studio : Studio),
    Quiet ((build loader translucent (composeNode emitted node)).run studio).1 := by
  induction node using Node.induct with
  | step node ih =>
    intro emitted translucent studio part hpart hnot below hbelow
    rcases mem_parts_build loader hpart with rfl | ⟨child, hchild, translucent', studio', hpart⟩
    · have hfalse : emitted = false := by
        rw [run_build] at hnot
        exact (emitted_composeNode emitted node).symm.trans hnot
      subst hfalse
      exact entries_build_false loader node translucent studio below hbelow
    · exact ih child hchild _ translucent' studio' part hpart hnot below hbelow

end Build

/-- Quiet trees stay quiet. -/
theorem Quiet.keeps {m m' : Material} (quiet : m.Quiet) (h : m.Keeps m') : m'.Quiet := by
  intro node' hnode' hnot below' hbelow'
  obtain ⟨node, hnode, hkeeps⟩ := exists_of_forall₂ h.parts hnode'
  obtain ⟨below, hbelow, hkept⟩ := exists_of_forall₂ hkeeps.parts hbelow'
  obtain ⟨-, hemitted, -, -, -, -⟩ := hkeeps
  rw [hkept.entries_eq]
  exact quiet node hnode (hemitted ▸ hnot) below hbelow

/-! ## 5. Bindings, node by node -/

mutual

/-- **A binding is of a uniform** of a node of the tree. -/
theorem uniform_of_binding {binding : Binding} : ∀ {m : Material}, binding ∈ m.bindings →
    ∃ node ∈ m.nodes, ∃ uniform ∈ node.uniforms, uniform.mangled = some binding.name ∧
      binding.value = uniform.value ∧ binding.texture = uniform.texture.map Slot.state
  | ⟨path, typeName, function, source, emitted, uniforms, materials, translucent, destroyed⟩,
    h => by
    rw [bindings] at h
    split at h
    · rcases List.mem_append.mp h with h | h
      · obtain ⟨node, hnode, huniform⟩ := uniform_of_allBindings h
        exact ⟨node, .tail _ hnode, huniform⟩
      · obtain ⟨uniform, huniform, hbinding⟩ := List.mem_filterMap.mp h
        obtain ⟨name, hname, rfl⟩ := Option.map_eq_some_iff.mp hbinding
        exact ⟨_, .head _, uniform, huniform, hname, rfl, rfl⟩
    · exact absurd h List.not_mem_nil

theorem uniform_of_allBindings {binding : Binding} : ∀ {children : List (String × Material)},
    binding ∈ allBindings children →
    ∃ node ∈ allNodes children, ∃ uniform ∈ node.uniforms, uniform.mangled = some binding.name ∧
      binding.value = uniform.value ∧ binding.texture = uniform.texture.map Slot.state
  | [], h => absurd h List.not_mem_nil
  | (name, child) :: rest, h => by
    rcases List.mem_append.mp h with h | h
    · obtain ⟨node, hnode, huniform⟩ := uniform_of_binding h
      exact ⟨node, List.mem_append_left _ hnode, huniform⟩
    · obtain ⟨node, hnode, huniform⟩ := uniform_of_allBindings h
      exact ⟨node, List.mem_append_right _ hnode, huniform⟩

end

/-- What a node binds, unless it is destroyed. -/
def liveEntries (node : Material) : List Binding.Entry :=
  if node.destroyed then [] else node.entries

mutual

/-- **The bindings of a tree**, read off its nodes. -/
theorem bindings_eq : ∀ m : Material, m.Sound → m.Quiet →
    m.bindings.map Binding.entry = m.parts.flatMap liveEntries
  | ⟨path, typeName, function, source, emitted, uniforms, materials, translucent, destroyed⟩,
    sound, quiet => by
    have below := allBindings_eq materials
      (fun node hnode => sound node (by rw [nodes]; exact List.mem_cons_of_mem _ hnode))
      fun node hnode => quiet node (by rw [parts]; exact List.mem_append_left _ hnode)
    cases destroyed with
    | true =>
      have hnone : ∀ node ∈ (⟨path, typeName, function, source, emitted, uniforms, materials,
          translucent, true⟩ : Material).parts, node.liveEntries = [] := by
        intro node hnode
        have gone := sound _ (self_mem_nodes _) rfl node ((mem_parts_iff _).mp hnode)
        rw [liveEntries, if_pos gone.destroyed]
      rw [List.flatMap_eq_nil_iff.mpr hnone, bindings, Bool.not_true, Bool.and_false]
      rfl
    | false =>
      cases emitted with
      | false =>
        have hnone : ∀ node ∈ (⟨path, typeName, function, source, false, uniforms, materials,
            translucent, false⟩ : Material).parts, node.liveEntries = [] := by
          intro node hnode
          have hquiet := quiet _ ((mem_parts_iff _).mpr (self_mem_nodes _)) rfl node hnode
          rw [liveEntries, hquiet, ite_self]
        rw [List.flatMap_eq_nil_iff.mpr hnone]
        rfl
      | true =>
        rw [bindings_of_emitted rfl rfl, List.map_append, map_entry_bindingsOf, parts,
          List.flatMap_append, List.flatMap_singleton, ← below]
        rfl

theorem allBindings_eq : ∀ children : List (String × Material),
    (∀ node ∈ allNodes children, node.destroyed = true → node.Dead) →
    (∀ node ∈ allParts children, node.emitted = false → ∀ below ∈ node.parts,
      below.entries = []) →
    (allBindings children).map Binding.entry = (allParts children).flatMap liveEntries
  | [], _, _ => rfl
  | (name, child) :: rest, sound, quiet => by
    obtain ⟨hsound, hrest⟩ := List.forall_mem_append.mp sound
    obtain ⟨hquiet, hrest'⟩ := List.forall_mem_append.mp quiet
    rw [allBindings, allParts, List.map_append, List.flatMap_append,
      bindings_eq child hsound hquiet, allBindings_eq rest hrest hrest']

end

/-- What a node binds at the end of a run is what it did at the start, unless it is destroyed. -/
theorem flatMap_liveEntries {s t : List Material} (h : List.Forall₂ Keeps s t) :
    t.flatMap liveEntries =
      (s.zip t).flatMap fun pair => if pair.2.destroyed then [] else pair.1.entries := by
  induction h with
  | nil => rfl
  | cons hfirst _ ih =>
    rw [List.flatMap_cons, List.zip_cons_cons, List.flatMap_cons, ih, liveEntries,
      hfirst.entries_eq]

/-- Of a tree without destroyed nodes every entry is bound. -/
theorem flatMap_liveEntries_of_intact {s : List Material}
    (h : ∀ node ∈ s, node.destroyed = false) : s.flatMap liveEntries = s.flatMap entries :=
  List.flatMap_congr fun node hnode => by
    rw [liveEntries, h node hnode]
    rfl

theorem flatMap_entries_of_keeps {s t : List Material} (h : List.Forall₂ Keeps s t) :
    t.flatMap entries = s.flatMap entries := by
  rw [List.flatMap_def, List.flatMap_def,
    map_eq_of_forall₂ (fun _ _ hkeeps => hkeeps.entries_eq.symm) h]

/-! ## 6. What holds at the end of every run -/

/-- A material that has been built, as it is before the first event. -/
theorem built_eq {library : Library} {loader : Loader} {workers : Nat} {m : Material}
    {studio : Studio} (built : Built library loader workers m studio) :
    ∃ strict fabric root translucent start, resolve library strict fabric = .ok root ∧
      m = ((build loader translucent (compose root)).run start).1 := by
  obtain ⟨strict, fabric, root, translucent, hroot, hbuild⟩ := build_of_built built
  exact ⟨strict, fabric, root, translucent, _, hroot, (congrArg Prod.fst hbuild).symm⟩

/-- **What a material binds as long as it lives.**  A material that has been built binds what its
text declares, in the same order.  At the end of every run

* it binds these entries still, without those of the nodes that are destroyed, below which
  everything is;
* if no node is destroyed, its layout, its shader and the key of its program are what they were. -/
theorem bindings_stay {library : Library} {loader : Loader} {workers : Nat} {m last : Material}
    {studio final : Studio} {events : List Event} (built : Built library loader workers m studio)
    (h : run loader events m studio = some (last, final)) :
    (∃ strict fabric root, resolve library strict fabric = .ok root ∧
      m.source = String.join (root.emitted.map fun node => (composeNode true node).text) ∧
      (∀ node ∈ root.emitted, ∃ function, (composeNode true node).text =
        String.join ((composeNode true node).declared.map canonicalLine) ++ function) ∧
      m.bindings.map declaration =
        root.emitted.flatMap fun node => (composeNode true node).declared) ∧
    m.bindings.map Binding.entry = m.parts.flatMap entries ∧
    last.parts.map path = m.parts.map path ∧
    last.bindings.map Binding.entry = ((m.parts.zip last.parts).flatMap fun pair =>
      if pair.2.destroyed then [] else pair.1.entries) ∧
    (∀ node ∈ last.parts, node.destroyed = true → ∀ below ∈ node.parts,
      below.destroyed = true) ∧
    (last.isIntact = true →
      last.bindings.map Binding.entry = m.bindings.map Binding.entry ∧
      Layout.ofBindings last.bindings = Layout.ofBindings m.bindings ∧
      wrapFragment last.source (Layout.ofBindings last.bindings) =
        wrapFragment m.source (Layout.ofBindings m.bindings) ∧
      last.programKey = m.programKey) := by
  obtain ⟨strict, fabric, root, translucent, start, hroot, hm⟩ := built_eq built
  have lives := lives_of_built built
  have keeps := keeps_run h
  have quiet : m.Quiet := by
    rw [hm]
    exact quiet_build loader root true translucent start
  have hintact : ∀ node ∈ m.parts, node.destroyed = false := by
    intro node hnode
    have hfresh := destroyed_of_build loader translucent (compose root) start node
    rw [← hm] at hfresh
    exact hfresh ((mem_parts_iff m).mp hnode)
  have hfirst : m.bindings.map Binding.entry = m.parts.flatMap entries := by
    rw [bindings_eq m lives.sound quiet, flatMap_liveEntries_of_intact hintact]
  have hsound := (lives_run h lives).sound
  have hlast := bindings_eq last hsound (quiet.keeps keeps)
  have hpaths : last.parts.map path = m.parts.map path :=
    (map_eq_of_forall₂ (fun _ _ hkeeps => hkeeps.path_eq.symm) keeps.parts).symm
  refine ⟨⟨strict, fabric, root, hroot, ?_, fun node _ => ?_, ?_⟩, hfirst, hpaths, ?_,
    fun node hnode hd below hbelow => ?_, fun halive => ?_⟩
  · rw [hm, run_build, ← source_composeNode root, source_composeNode_eq]
    rfl
  · obtain ⟨ending, -, htext⟩ := text_composeNode node
    exact ⟨node.bodyText ++ ending, by rw [htext, String.append_assoc]⟩
  · rw [hm]
    exact bindings_build loader root translucent start
  · rw [hlast, flatMap_liveEntries keeps.parts]
  · have dead := hsound node ((mem_parts_iff last).mp hnode) hd
    exact (dead below ((mem_parts_iff node).mp hbelow)).destroyed
  · have hnodes := (isIntact_iff last).mp halive
    have hsame : last.bindings.map Binding.entry = m.bindings.map Binding.entry := by
      rw [hlast, hfirst, flatMap_liveEntries_of_intact fun node hnode =>
        hnodes node ((mem_parts_iff last).mp hnode), flatMap_entries_of_keeps keeps.parts]
    have hlayout : Layout.ofBindings last.bindings = Layout.ofBindings m.bindings := by
      have hpairs := congrArg (List.map fun entry : Binding.Entry => (entry.name, entry.kind)) hsame
      rw [List.map_map, List.map_map] at hpairs
      exact congrArg Layout.ofEntries hpairs
    obtain ⟨-, -, htranslucent, -, hkept, -⟩ := keeps
    have hsource := (hkept (hnodes last (self_mem_nodes last))).2
    refine ⟨hsame, hlayout, by rw [hsource, hlayout], ?_⟩
    unfold programKey
    rw [hsource, hlayout, htranslucent]

namespace Example

/-- A new image for the sub-material, and then its end. -/
def replaced : List Event :=
  [.set ["part"] "map" (.text "new.png"), .poll [] fun _ _ => none, .destroy ["part"]]

/-- What the nodes of the material bind at first, and which of them are destroyed in the end. -/
def bound : Option (List (List Binding.Entry) × List Bool) :=
  match (ofFabric ⟨[]⟩ ⟨true, none⟩ ⟨true, [], []⟩ textured).run ⟨.start 1, .empty⟩ with
  | (.ok m, studio) =>
    (run ⟨true, [], []⟩ replaced m studio).map fun (last, _) =>
      (m.parts.map entries, last.parts.map destroyed)
  | (.error _, _) => none

/-- **The bindings of a sub-material go with it**, and those of the root stay. -/
theorem part_unbound :
    ∃ m studio last final, Built ⟨[]⟩ ⟨true, [], []⟩ 1 m studio ∧
      run ⟨true, [], []⟩ replaced m studio = some (last, final) ∧
      m.bindings.map Binding.entry = [⟨"map_r4part", "map", ["part"], .sampler2D⟩,
        ⟨"map_r", "map", [], .sampler2D⟩] ∧
      last.parts.map destroyed = [true, false] ∧
      last.bindings.map Binding.entry = [⟨"map_r", "map", [], .sampler2D⟩] := by
  have hbound : bound = some ([[⟨"map_r4part", "map", ["part"], .sampler2D⟩],
      [⟨"map_r", "map", [], .sampler2D⟩]], [true, false]) := by
    decide +kernel
  unfold bound at hbound
  cases hbuild : (ofFabric ⟨[]⟩ ⟨true, none⟩ ⟨true, [], []⟩ textured).run ⟨.start 1, .empty⟩ with
  | mk result studio =>
    rw [hbuild] at hbound
    cases result with
    | error error => cases hbound
    | ok m =>
      obtain ⟨⟨last, final⟩, hrun, heq⟩ := Option.map_eq_some_iff.mp hbound
      obtain ⟨hentries, hdestroyed⟩ := Prod.mk.inj heq
      have built : Built ⟨[]⟩ ⟨true, [], []⟩ 1 m studio := .ofFabric hbuild
      obtain ⟨-, hfirst, -, hlast, -, -⟩ := bindings_stay built hrun
      refine ⟨m, studio, last, final, built, hrun, ?_, hdestroyed, ?_⟩
      · rw [hfirst, List.flatMap_def, hentries]
        rfl
      · obtain ⟨part, _, hm, hpart, hrest⟩ := List.map_eq_cons_iff.mp hentries
        obtain ⟨root, _, rfl, hroot, hnil⟩ := List.map_eq_cons_iff.mp hrest
        obtain rfl := List.map_eq_nil_iff.mp hnil
        obtain ⟨part', _, hm', hpart', hrest'⟩ := List.map_eq_cons_iff.mp hdestroyed
        obtain ⟨root', _, rfl, hroot', hnil'⟩ := List.map_eq_cons_iff.mp hrest'
        obtain rfl := List.map_eq_nil_iff.mp hnil'
        rw [hlast, hm, hm']
        simp only [List.zip_cons_cons, List.zip_nil_left, List.flatMap_cons, List.flatMap_nil,
          hpart', hroot', hroot, if_true, Bool.false_eq_true, if_false, List.append_nil,
          List.nil_append]

end Example

end Material

end ShaderFabric
