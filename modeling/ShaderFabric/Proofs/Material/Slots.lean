/-
# The slots of a material

The slots of a tree share the studio with whatever other slots there are.  Building a tree adds
slots; every other change walks over some of them, each in its turn.

* `Material.nodes` -- the nodes of a tree, each before those below it;
* `slots_perm`, `pendingTextures_eq`, `isIntact_iff` -- what the recursive walks over a tree
  say, in terms of its nodes and slots;
* `Walk` -- slots changed in order, some of them skipped, with a count; `Walk.carries` carries an
  invariant of a studio over a walk;
* `carries_build`, `walk_pollTree`, `walk_releaseTree`, `walk_assignUniforms`.
-/
import ShaderFabric.Material.Lifecycle
import ShaderFabric.Proofs.Texture.Slot

namespace ShaderFabric

namespace Material

/-! ## 1. Nodes and slots -/

mutual

/-- The nodes of a tree. -/
def nodes : Material → List Material
  | ⟨path, typeName, function, source, emitted, uniforms, materials, translucent, destroyed⟩ =>
    ⟨path, typeName, function, source, emitted, uniforms, materials, translucent, destroyed⟩ ::
      allNodes materials

def allNodes : List (String × Material) → List Material
  | [] => []
  | (_, child) :: rest => nodes child ++ allNodes rest

end

theorem nodes_eq (m : Material) : m.nodes = m :: allNodes m.materials := by
  cases m
  rfl

theorem slots_eq (m : Material) : m.slots = allSlots m.materials ++ slotsOf m.uniforms := by
  cases m
  rfl

@[simp] theorem slotsOf_cons (uniform : MaterialUniform) (rest : List MaterialUniform) :
    slotsOf (uniform :: rest) = uniform.texture.toList ++ slotsOf rest := by
  cases h : uniform.texture <;> simp [slotsOf, h]

theorem allNodes_append : ∀ before after : List (String × Material),
    allNodes (before ++ after) = allNodes before ++ allNodes after
  | [], _ => rfl
  | (_, child) :: before, after => by
    simp only [List.cons_append, allNodes, allNodes_append before after, List.append_assoc]

theorem allSlots_append : ∀ before after : List (String × Material),
    allSlots (before ++ after) = allSlots before ++ allSlots after
  | [], _ => rfl
  | (_, child) :: before, after => by
    simp only [List.cons_append, allSlots, allSlots_append before after, List.append_assoc]

theorem self_mem_nodes (m : Material) : m ∈ m.nodes := by
  rw [nodes_eq]
  exact List.mem_cons_self

mutual

/-- **The nodes below a node of a tree are nodes of the tree.** -/
theorem nodes_subset {node : Material} : ∀ {m : Material}, node ∈ m.nodes → node.nodes ⊆ m.nodes
  | ⟨_, _, _, _, _, _, materials, _, _⟩, h => by
    rcases List.mem_cons.mp h with rfl | h
    · exact fun _ h => h
    · exact fun _ hbelow => List.mem_cons_of_mem _ (nodes_subset_allNodes h hbelow)

theorem nodes_subset_allNodes {node : Material} : ∀ {children : List (String × Material)},
    node ∈ allNodes children → node.nodes ⊆ allNodes children
  | [], h => by cases h
  | (_, child) :: rest, h => by
    rw [allNodes] at h ⊢
    rcases List.mem_append.mp h with h | h
    · exact fun _ hbelow => List.mem_append_left _ (nodes_subset h hbelow)
    · exact fun _ hbelow => List.mem_append_right _ (nodes_subset_allNodes h hbelow)

end

mutual

/-- **The slots of a tree are those of its nodes.** -/
theorem slots_perm : ∀ m : Material,
    m.slots.Perm (m.nodes.flatMap fun node => slotsOf node.uniforms)
  | ⟨_, _, _, _, _, uniforms, materials, _, _⟩ => by
    rw [slots, nodes, List.flatMap_cons]
    exact List.perm_append_comm.trans ((allSlots_perm materials).append_left _)

theorem allSlots_perm : ∀ children : List (String × Material),
    (allSlots children).Perm ((allNodes children).flatMap fun node => slotsOf node.uniforms)
  | [] => .refl _
  | (_, child) :: rest => by
    rw [allSlots, allNodes, List.flatMap_append]
    exact (slots_perm child).append (allSlots_perm rest)

end

theorem mem_slots_iff {slot : Slot} {m : Material} :
    slot ∈ m.slots ↔ ∃ node ∈ m.nodes, slot ∈ slotsOf node.uniforms :=
  (slots_perm m).mem_iff.trans List.mem_flatMap

mutual

/-- **The textures pending are the slots of the tree that load.** -/
theorem pendingTextures_eq : ∀ m : Material, m.pendingTextures = m.slots.countP Slot.isLoading
  | ⟨_, _, _, _, _, uniforms, materials, _, _⟩ => by
    rw [pendingTextures, slots, List.countP_append, allPending_eq materials, Nat.add_comm]

theorem allPending_eq : ∀ children : List (String × Material),
    allPending children = (allSlots children).countP Slot.isLoading
  | [] => rfl
  | (_, child) :: rest => by
    rw [allPending, allSlots, List.countP_append, pendingTextures_eq child, allPending_eq rest]

end

mutual

/-- **A material is intact exactly when none of its nodes is destroyed.** -/
theorem isIntact_iff : ∀ m : Material,
    m.isIntact = true ↔ ∀ node ∈ m.nodes, node.destroyed = false
  | ⟨_, _, _, _, _, _, materials, _, destroyed⟩ => by
    simp only [isIntact, nodes, List.forall_mem_cons, Bool.and_eq_true, Bool.not_eq_true',
      areIntact_iff materials]

theorem areIntact_iff : ∀ children : List (String × Material),
    areIntact children = true ↔ ∀ node ∈ allNodes children, node.destroyed = false
  | [] => by simp [areIntact, allNodes]
  | (_, child) :: rest => by
    simp only [areIntact, allNodes, List.forall_mem_append, Bool.and_eq_true,
      isIntact_iff child, areIntact_iff rest]

end

/-! ## 2. Building -/

section Build

variable (loader : Loader)

theorem run_buildUniforms_cons (path : List String) (uniform : ProgramUniform)
    (rest : List ProgramUniform) (studio : Studio) :
    (buildUniforms loader path (uniform :: rest)).run studio =
      let first := (buildUniform loader path uniform).run studio
      let later := (buildUniforms loader path rest).run first.2
      (first.1 :: later.1, later.2) := rfl

theorem run_build (translucent : Bool) (program : Program) (studio : Studio) :
    (build loader translucent program).run studio =
      let own := (buildUniforms loader program.path program.uniforms).run studio
      let children := (buildChildren loader program.materials).run own.2
      (⟨program.path, program.typeName, program.function,
        Program.sources program.materials ++ program.text, program.emitted, own.1, children.1,
        translucent, false⟩, children.2) := by
  cases program
  rfl

theorem run_buildChildren_cons (name : String) (program : Program)
    (rest : List (String × Program)) (studio : Studio) :
    (buildChildren loader ((name, program) :: rest)).run studio =
      let first := (build loader program.anyTranslucent program).run studio
      let later := (buildChildren loader rest).run first.2
      ((name, first.1) :: later.1, later.2) := rfl

section Invariant

variable {fair : Pool.Act → Prop} {P : Studio → List Slot → Prop}
  (invariant : Studio.Invariant fair P)

include invariant

theorem carries_buildUniform {studio : Studio} {others : List Slot} (h : P studio others)
    (path : List String) (uniform : ProgramUniform) :
    P ((buildUniform loader path uniform).run studio).2
      (((buildUniform loader path uniform).run studio).1.texture.toList ++ others) := by
  unfold buildUniform
  cases uniform.mangled with
  | none => exact h
  | some name =>
    cases TextureRequest.ofValue? uniform.value with
    | none => exact h
    | some request =>
      have joined := invariant.new h (dotted path ++ "." ++ uniform.name) request.kind
      exact invariant.assign joined loader request

theorem carries_buildUniforms (path : List String) :
    ∀ (uniforms : List ProgramUniform) {studio : Studio} {others : List Slot}, P studio others →
      P ((buildUniforms loader path uniforms).run studio).2
        (slotsOf ((buildUniforms loader path uniforms).run studio).1 ++ others)
  | [], _, _, h => h
  | uniform :: rest, studio, others, h => by
    have first := carries_buildUniform loader invariant h path uniform
    have all := carries_buildUniforms path rest first
    rw [run_buildUniforms_cons, slotsOf_cons, List.append_assoc]
    exact invariant.perm all (List.perm_append_comm_assoc ..)

mutual

/-- **Building a tree adds its slots.** -/
theorem carries_build (translucent : Bool) :
    ∀ (program : Program) {studio : Studio} {others : List Slot}, P studio others →
      P ((build loader translucent program).run studio).2
        (((build loader translucent program).run studio).1.slots ++ others)
  | ⟨path, _, _, _, _, uniforms, materials, _⟩, _, _, h => by
    have own := carries_buildUniforms loader invariant path uniforms h
    have children := carries_buildChildren materials own
    rw [run_build, slots, List.append_assoc]
    exact children

theorem carries_buildChildren :
    ∀ (programs : List (String × Program)) {studio : Studio} {others : List Slot},
      P studio others →
      P ((buildChildren loader programs).run studio).2
        (allSlots ((buildChildren loader programs).run studio).1 ++ others)
  | [], _, _, h => h
  | (name, program) :: rest, _, _, h => by
    have first := carries_build program.anyTranslucent program h
    have all := carries_buildChildren rest first
    rw [run_buildChildren_cons, allSlots, List.append_assoc]
    exact invariant.perm all (List.perm_append_comm_assoc ..)

end

end Invariant

mutual

/-- **No node of a tree that has just been built is destroyed.** -/
theorem destroyed_of_build (translucent : Bool) :
    ∀ (program : Program) (studio : Studio),
      ∀ node ∈ ((build loader translucent program).run studio).1.nodes, node.destroyed = false
  | ⟨path, _, _, _, _, uniforms, materials, _⟩, studio => by
    rw [run_build, nodes]
    exact List.forall_mem_cons.mpr ⟨rfl, destroyed_of_buildChildren materials _⟩

theorem destroyed_of_buildChildren :
    ∀ (programs : List (String × Program)) (studio : Studio),
      ∀ node ∈ allNodes ((buildChildren loader programs).run studio).1, node.destroyed = false
  | [], _ => nofun
  | (name, program) :: rest, studio => by
    rw [run_buildChildren_cons, allNodes]
    exact List.forall_mem_append.mpr ⟨destroyed_of_build program.anyTranslucent program studio,
      destroyed_of_buildChildren rest _⟩

end

end Build

/-! ## 3. Walks -/

/-- **Slots changed one after another**, some of them skipped, with the number of changes that say
they changed something. -/
inductive Walk (change : Slot → StateM Studio (Slot × Bool)) :
    Studio → List Slot → Studio → List Slot → Nat → Prop
  | nil (studio : Studio) : Walk change studio [] studio [] 0
  | skip {studio later : Studio} {slots slots' : List Slot} {count : Nat} (slot : Slot)
      (h : Walk change studio slots later slots' count) :
    Walk change studio (slot :: slots) later (slot :: slots') count
  | step {studio later : Studio} {slots slots' : List Slot} {count : Nat} (slot : Slot)
      (h : Walk change ((change slot).run studio).2 slots later slots' count) :
    Walk change studio (slot :: slots) later (((change slot).run studio).1.1 :: slots')
      (((change slot).run studio).1.2.toNat + count)

namespace Walk

variable {change : Slot → StateM Studio (Slot × Bool)} {studio middle later : Studio}
  {slots slots' after after' : List Slot} {count more : Nat}

/-- Slots may all be skipped. -/
theorem refl (studio : Studio) : ∀ slots : List Slot, Walk change studio slots studio slots 0
  | [] => .nil studio
  | slot :: rest => .skip slot (refl studio rest)

theorem append (first : Walk change studio slots middle slots' count)
    (second : Walk change middle after later after' more) :
    Walk change studio (slots ++ after) later (slots' ++ after') (count + more) := by
  induction first with
  | nil => rwa [Nat.zero_add]
  | skip slot _ ih => exact .skip slot (ih second)
  | step slot _ ih =>
    rw [Nat.add_assoc]
    exact .step slot (ih second)

/-- **A walk of changes that keep an invariant carries it**, whatever other slots there are. -/
theorem carries {fair : Pool.Act → Prop} {P : Studio → List Slot → Prop}
    (walk : Walk change studio slots later slots' count) (invariant : Studio.Invariant fair P)
    (kept : ∀ {studio : Studio} {slot : Slot} {others : List Slot}, P studio (slot :: others) →
      P ((change slot).run studio).2 (((change slot).run studio).1.1 :: others)) :
    ∀ others, P studio (slots ++ others) → P later (slots' ++ others) := by
  induction walk with
  | nil => exact fun _ h => h
  | skip slot _ ih =>
    intro others h
    have hrest := ih (slot :: others) (invariant.perm h List.perm_middle.symm)
    exact invariant.perm hrest List.perm_middle
  | step slot _ ih =>
    intro others h
    have hrest := ih (_ :: others) (invariant.perm (kept h) List.perm_middle.symm)
    exact invariant.perm hrest List.perm_middle

theorem length_eq (walk : Walk change studio slots later slots' count) :
    slots'.length = slots.length := by
  induction walk with
  | nil => rfl
  | skip _ _ ih => exact congrArg Nat.succ ih
  | step _ _ ih => exact congrArg Nat.succ ih

end Walk

/-- How many of some slots have another state later. -/
def changes (before after : List Slot) : Nat :=
  (before.zip after).countP fun pair => decide (pair.1.state ≠ pair.2.state)

@[simp] theorem changes_cons (slot slot' : Slot) (before after : List Slot) :
    changes (slot :: before) (slot' :: after) =
      (decide (slot.state ≠ slot'.state)).toNat + changes before after := by
  by_cases h : slot.state = slot'.state <;> simp [changes, h, Nat.add_comm]

theorem changes_self : ∀ slots : List Slot, changes slots slots = 0
  | [] => rfl
  | slot :: rest => by simp [changes_self rest]

theorem changes_append {before before' : List Slot} (h : before'.length = before.length)
    (after after' : List Slot) :
    changes (before ++ after) (before' ++ after') =
      changes before before' + changes after after' := by
  rw [changes, List.zip_append h.symm, List.countP_append]
  rfl

/-- **A walk of polls counts the slots whose state it changes.** -/
theorem Walk.changes_eq {uploader : Uploader} {studio later : Studio} {slots slots' : List Slot}
    {count : Nat} (walk : Walk (Slot.poll uploader) studio slots later slots' count) :
    ∀ others, studio.Holds (slots ++ others) → count = changes slots slots' := by
  induction walk with
  | nil => exact fun _ _ => rfl
  | skip slot _ ih =>
    intro others h
    have hrest := ih (slot :: others) (h.perm List.perm_middle.symm)
    simpa using hrest
  | step slot _ ih =>
    intro others h
    have hslot := h.poll_changed List.mem_cons_self uploader
    have hrest := ih (_ :: others) ((h.poll uploader).perm List.perm_middle.symm)
    rw [changes_cons, ← hslot, ← hrest]

/-! ## 4. Polling -/

section Poll

variable (uploader : Uploader)

theorem run_pollUniforms_cons (uniform : MaterialUniform) (rest : List MaterialUniform)
    (studio : Studio) :
    (pollUniforms uploader (uniform :: rest)).run studio =
      let first := (pollUniform uploader uniform).run studio
      let later := (pollUniforms uploader rest).run first.2
      ((first.1.1 :: later.1.1, first.1.2.toNat + later.1.2), later.2) := rfl

theorem run_pollTree_of_destroyed {m : Material} (h : m.destroyed = true) (studio : Studio) :
    (pollTree uploader m).run studio = ((m, 0), studio) := by
  cases m
  cases h
  rfl

theorem run_pollTree {m : Material} (h : m.destroyed = false) (studio : Studio) :
    (pollTree uploader m).run studio =
      let children := (pollTrees uploader m.materials).run studio
      let own := (pollUniforms uploader m.uniforms).run children.2
      (({ m with uniforms := own.1.1, materials := children.1.1 }, children.1.2 + own.1.2),
        own.2) := by
  cases m
  cases h
  rfl

theorem run_pollTrees_cons (name : String) (child : Material) (rest : List (String × Material))
    (studio : Studio) :
    (pollTrees uploader ((name, child) :: rest)).run studio =
      let first := (pollTree uploader child).run studio
      let later := (pollTrees uploader rest).run first.2
      (((name, first.1.1) :: later.1.1, first.1.2 + later.1.2), later.2) := rfl

theorem walk_pollUniform (uniform : MaterialUniform) (studio : Studio) :
    Walk (Slot.poll uploader) studio uniform.texture.toList
      ((pollUniform uploader uniform).run studio).2
      ((pollUniform uploader uniform).run studio).1.1.texture.toList
      ((pollUniform uploader uniform).run studio).1.2.toNat := by
  unfold pollUniform
  cases h : uniform.texture with
  | none =>
    simp only [StateT.run_pure]
    show Walk _ studio [] studio uniform.texture.toList 0
    rw [h]
    exact .nil studio
  | some slot => exact .step slot (.nil _)

theorem walk_pollUniforms : ∀ (uniforms : List MaterialUniform) (studio : Studio),
    Walk (Slot.poll uploader) studio (slotsOf uniforms)
      ((pollUniforms uploader uniforms).run studio).2
      (slotsOf ((pollUniforms uploader uniforms).run studio).1.1)
      ((pollUniforms uploader uniforms).run studio).1.2
  | [], studio => .nil studio
  | uniform :: rest, studio => by
    rw [run_pollUniforms_cons, slotsOf_cons, slotsOf_cons]
    exact (walk_pollUniform uploader uniform studio).append (walk_pollUniforms rest _)

mutual

/-- **Polling a tree walks over its slots.** -/
theorem walk_pollTree : ∀ (m : Material) (studio : Studio),
    Walk (Slot.poll uploader) studio m.slots ((pollTree uploader m).run studio).2
      ((pollTree uploader m).run studio).1.1.slots ((pollTree uploader m).run studio).1.2
  | ⟨_, _, _, _, _, uniforms, materials, _, true⟩, studio => by
    rw [run_pollTree_of_destroyed uploader rfl]
    exact .refl studio _
  | ⟨_, _, _, _, _, uniforms, materials, _, false⟩, studio => by
    rw [run_pollTree uploader rfl]
    exact (walk_pollTrees materials studio).append (walk_pollUniforms uploader uniforms _)

theorem walk_pollTrees : ∀ (children : List (String × Material)) (studio : Studio),
    Walk (Slot.poll uploader) studio (allSlots children)
      ((pollTrees uploader children).run studio).2
      (allSlots ((pollTrees uploader children).run studio).1.1)
      ((pollTrees uploader children).run studio).1.2
  | [], studio => .nil studio
  | (name, child) :: rest, studio => by
    rw [run_pollTrees_cons]
    exact (walk_pollTree child studio).append (walk_pollTrees rest _)

end

end Poll

/-! ## 5. Releasing and assigning -/

/-- A change that always says it changed something. -/
def always (change : Slot → StateM Studio Slot) (slot : Slot) : StateM Studio (Slot × Bool) :=
  (·, true) <$> change slot

/-- The textures of a uniform that is released. -/
def releaseTexture (texture : Option Slot) : StateM Studio (Option Slot) :=
  match texture with
  | none => pure none
  | some slot => some <$> slot.release

theorem run_releaseUniforms_cons (uniform : MaterialUniform) (rest : List MaterialUniform)
    (studio : Studio) :
    (releaseUniforms (uniform :: rest)).run studio =
      let first := (releaseTexture uniform.texture).run studio
      let later := (releaseUniforms rest).run first.2
      ({ uniform with texture := first.1 } :: later.1, later.2) := by
  rw [releaseUniforms]
  cases uniform.texture <;> rfl

theorem run_releaseTree (m : Material) (studio : Studio) :
    m.releaseTree.run studio =
      let children := (releaseTrees m.materials).run studio
      let own := (releaseUniforms m.uniforms).run children.2
      ({ m with source := "", uniforms := own.1, materials := children.1, destroyed := true },
        own.2) := by
  cases m
  rfl

theorem run_releaseTrees_cons (name : String) (child : Material) (rest : List (String × Material))
    (studio : Studio) :
    (releaseTrees ((name, child) :: rest)).run studio =
      let first := if child.destroyed then (child, studio) else child.releaseTree.run studio
      let later := (releaseTrees rest).run first.2
      ((name, first.1) :: later.1, later.2) := by
  rw [releaseTrees]
  cases child.destroyed <;> rfl

theorem walk_releaseTexture (texture : Option Slot) (studio : Studio) :
    ∃ count, Walk (always Slot.release) studio texture.toList
      ((releaseTexture texture).run studio).2
      ((releaseTexture texture).run studio).1.toList count := by
  cases texture with
  | none => exact ⟨0, .nil studio⟩
  | some slot => exact ⟨_, .step slot (.nil _)⟩

theorem walk_releaseUniforms : ∀ (uniforms : List MaterialUniform) (studio : Studio),
    ∃ count, Walk (always Slot.release) studio (slotsOf uniforms)
      ((releaseUniforms uniforms).run studio).2
      (slotsOf ((releaseUniforms uniforms).run studio).1) count
  | [], studio => ⟨0, .nil studio⟩
  | uniform :: rest, studio => by
    obtain ⟨_, first⟩ := walk_releaseTexture uniform.texture studio
    obtain ⟨_, later⟩ := walk_releaseUniforms rest ((releaseTexture uniform.texture).run studio).2
    rw [run_releaseUniforms_cons, slotsOf_cons, slotsOf_cons]
    exact ⟨_, first.append later⟩

mutual

/-- **Releasing a tree walks over its slots.** -/
theorem walk_releaseTree : ∀ (m : Material) (studio : Studio),
    ∃ count, Walk (always Slot.release) studio m.slots (m.releaseTree.run studio).2
      (m.releaseTree.run studio).1.slots count
  | ⟨_, _, _, _, _, uniforms, materials, _, _⟩, studio => by
    obtain ⟨_, children⟩ := walk_releaseTrees materials studio
    obtain ⟨_, own⟩ := walk_releaseUniforms uniforms ((releaseTrees materials).run studio).2
    rw [run_releaseTree]
    exact ⟨_, children.append own⟩

theorem walk_releaseTrees : ∀ (children : List (String × Material)) (studio : Studio),
    ∃ count, Walk (always Slot.release) studio (allSlots children)
      ((releaseTrees children).run studio).2
      (allSlots ((releaseTrees children).run studio).1) count
  | [], studio => ⟨0, .nil studio⟩
  | (name, child) :: rest, studio => by
    rw [run_releaseTrees_cons]
    cases child.destroyed with
    | true =>
      obtain ⟨_, later⟩ := walk_releaseTrees rest studio
      exact ⟨_, (Walk.refl studio child.slots).append later⟩
    | false =>
      obtain ⟨_, first⟩ := walk_releaseTree child studio
      obtain ⟨_, later⟩ := walk_releaseTrees rest (child.releaseTree.run studio).2
      exact ⟨_, first.append later⟩

end

theorem run_assignUniforms_cons (loader : Loader) (name : String) (value : Value)
    (uniform : MaterialUniform) (rest : List MaterialUniform) (studio : Studio) :
    (assignUniforms loader name value (uniform :: rest)).run studio =
      if uniform.name = name then
        let first := (assignUniform loader value uniform).run studio
        (first.1 :: rest, first.2)
      else
        let later := (assignUniforms loader name value rest).run studio
        (uniform :: later.1, later.2) := by
  rw [assignUniforms]
  split <;> rfl

theorem walk_assignUniform (loader : Loader) (value : Value) (uniform : MaterialUniform)
    (studio : Studio) :
    ∃ request count, Walk (always (Slot.assign loader request)) studio uniform.texture.toList
      ((assignUniform loader value uniform).run studio).2
      ((assignUniform loader value uniform).run studio).1.texture.toList count := by
  unfold assignUniform
  cases TextureRequest.ofValue? value with
  | none => cases uniform.texture <;> exact ⟨.image .neutral, 0, .refl studio _⟩
  | some request =>
    cases uniform.texture with
    | none => exact ⟨request, 0, .nil studio⟩
    | some slot => exact ⟨request, _, .step slot (.nil _)⟩

/-- **Setting a uniform walks over its slot**, if it has one. -/
theorem walk_assignUniforms (loader : Loader) (name : String) (value : Value) :
    ∀ (uniforms : List MaterialUniform) (studio : Studio),
      ∃ request count, Walk (always (Slot.assign loader request)) studio (slotsOf uniforms)
        ((assignUniforms loader name value uniforms).run studio).2
        (slotsOf ((assignUniforms loader name value uniforms).run studio).1) count
  | [], studio => ⟨.image .neutral, 0, .nil studio⟩
  | uniform :: rest, studio => by
    rw [run_assignUniforms_cons, slotsOf_cons]
    split
    · obtain ⟨request, _, first⟩ := walk_assignUniform loader value uniform studio
      rw [slotsOf_cons]
      exact ⟨request, _, first.append (.refl _ (slotsOf rest))⟩
    · obtain ⟨request, _, later⟩ := walk_assignUniforms loader name value rest studio
      rw [slotsOf_cons]
      exact ⟨request, _, (Walk.refl studio uniform.texture.toList).append later⟩

end Material

end ShaderFabric
