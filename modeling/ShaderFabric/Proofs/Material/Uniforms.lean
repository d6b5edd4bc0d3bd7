/-
# What holds of every uniform

A uniform is built once, and from then on only four things happen to it: it takes a value of its
type, its slot is polled, its slot is released, or nothing.  What holds after each of them holds of
every uniform of a material at the end of every run; the recursions over the tree are here, and only
here.

* `Material.Every` -- something holds of every uniform of a tree;
* `Material.Preserved` -- it holds of what is built, and every change of a uniform keeps it;
* `Preserved.run` -- then it holds at the end of every run;
* `preserved_agrees`, `preserved_slotted` -- a uniform with a slot is a texture of the kind of the
  slot, and every texture of the program has one.
-/
import ShaderFabric.Proofs.Material.Bindings

namespace ShaderFabric

/-! ## 1. Textures and their kinds -/

/-- A uniform with a slot is a texture of the kind of the slot. -/
def MaterialUniform.Agrees (uniform : MaterialUniform) : Prop :=
  ∀ slot, uniform.texture = some slot → uniform.value.kind.textureKind? = some slot.kind

/-- A value of a type of textures asks for one. -/
theorem TextureRequest.exists_of_kind {value : Value} {kind : TextureKind}
    (h : value.kind.textureKind? = some kind) :
    ∃ request, ofValue? value = some request ∧ request.kind = kind := by
  cases value <;> cases h <;> exact ⟨_, rfl, rfl⟩

/-- What a value asks for is of the kind of its type. -/
theorem TextureRequest.kind_of_value {value : Value} {request : TextureRequest}
    (h : ofValue? value = some request) : value.kind.textureKind? = some request.kind := by
  cases value <;> cases h <;> rfl

theorem Slot.kind_assign (loader : Loader) (request : TextureRequest) (slot : Slot)
    (studio : Studio) : ((slot.assign loader request).run studio).1.kind = request.kind := by
  obtain ⟨-, heq⟩ | ⟨-, later, -, heq⟩ := slot.assign_cases loader request studio <;> rw [heq]
  rfl

theorem Slot.kind_poll (uploader : Uploader) (slot : Slot) (studio : Studio) :
    ((slot.poll uploader).run studio).1.1.kind = slot.kind := by
  unfold Slot.poll
  cases slot.pending with
  | none => rfl
  | some ticket =>
    simp only [StateT.run_bind, StateT.run_get, pure_bind]
    cases studio.pool.place ticket with
    | awaited => rfl
    | abandoned => rfl
    | holding outcome =>
      simp only [StateT.run_bind, StateT.run_modify, pure_bind]
      split
      · rfl
      · simp only [StateT.run_bind, Slot.run_apply]
        rfl

namespace Material

/-! ## 2. Every uniform of a tree -/

/-- Something holds of each of some uniforms. -/
def Each (P : MaterialUniform → Prop) (uniforms : List MaterialUniform) : Prop :=
  ∀ uniform ∈ uniforms, P uniform

/-- Something holds of every uniform of some nodes. -/
def EveryOf (P : MaterialUniform → Prop) (nodes : List Material) : Prop :=
  ∀ node ∈ nodes, Each P node.uniforms

/-- **Something holds of every uniform** of a tree. -/
def Every (P : MaterialUniform → Prop) (m : Material) : Prop := EveryOf P m.nodes

/-- **A condition on uniforms that materials keep**: it holds of each that is built, and each change
of a uniform keeps it. -/
structure Preserved (loader : Loader) (P : MaterialUniform → Prop) : Prop where
  build : ∀ path uniform studio, P ((buildUniform loader path uniform).run studio).1
  assign : ∀ value uniform studio, value.kind = uniform.value.kind → P uniform →
    P ((assignUniform loader value uniform).run studio).1
  poll : ∀ uploader uniform studio, P uniform →
    P ((pollUniform uploader uniform).run studio).1.1
  release : ∀ uniform studio, P uniform →
    P { uniform with texture := ((releaseTexture uniform.texture).run studio).1 }

variable {P : MaterialUniform → Prop}

theorem each_nil : Each P [] := fun _ h => absurd h List.not_mem_nil

theorem each_cons {uniform : MaterialUniform} {rest : List MaterialUniform} :
    Each P (uniform :: rest) ↔ P uniform ∧ Each P rest := List.forall_mem_cons

theorem everyOf_nil : EveryOf P [] := fun _ h => absurd h List.not_mem_nil

theorem everyOf_append {nodes others : List Material} :
    EveryOf P (nodes ++ others) ↔ EveryOf P nodes ∧ EveryOf P others := List.forall_mem_append

theorem every_iff {m : Material} :
    m.Every P ↔ Each P m.uniforms ∧ EveryOf P (allNodes m.materials) := by
  rw [Every, EveryOf, nodes_eq, List.forall_mem_cons]
  rfl

/-- **What a change keeps at a node it keeps at the end of every way.** -/
theorem every_within {α : Type} {change : Change α}
    (h : ∀ m studio, m.Every P → Every P ((change m).run studio).1.2) (way : List String)
    (m : Material) (studio : Studio) :
    m.Every P → Every P ((within way change m).run studio).1.2 := by
  refine within_induct (P := fun m _ _ m' _ => m.Every P → m'.Every P) h (fun _ _ _ h => h) ?_
    way m studio
  intro m _ before name child after _ child' _ _ hsplit hchild hevery
  rw [every_iff, hsplit, allNodes_append, everyOf_append] at hevery
  obtain ⟨hown, hbefore, hafter⟩ := hevery
  rw [allNodes, everyOf_append] at hafter
  refine every_iff.mpr ⟨hown, ?_⟩
  rw [allNodes_append, allNodes]
  exact everyOf_append.mpr ⟨hbefore, everyOf_append.mpr ⟨hchild hafter.1, hafter.2⟩⟩

namespace Preserved

variable {loader : Loader}

/-! ## 3. What is built -/

theorem buildUniforms (preserved : Preserved loader P) (path : List String) :
    ∀ (uniforms : List ProgramUniform) (studio : Studio),
      Each P ((Material.buildUniforms loader path uniforms).run studio).1
  | [], _ => each_nil
  | uniform :: rest, studio => by
    rw [run_buildUniforms_cons]
    exact each_cons.mpr ⟨preserved.build path uniform studio, buildUniforms preserved path rest _⟩

mutual

theorem buildTree (preserved : Preserved loader P) (translucent : Bool) :
    ∀ (program : Program) (studio : Studio),
      Every P ((Material.build loader translucent program).run studio).1
  | ⟨path, _, _, _, _, uniforms, materials, _⟩, studio => by
    rw [run_build]
    exact every_iff.mpr ⟨preserved.buildUniforms path uniforms studio,
      buildTrees preserved materials _⟩

theorem buildTrees (preserved : Preserved loader P) :
    ∀ (programs : List (String × Program)) (studio : Studio),
      EveryOf P (allNodes ((Material.buildChildren loader programs).run studio).1)
  | [], _ => everyOf_nil
  | (name, program) :: rest, studio => by
    rw [run_buildChildren_cons]
    exact everyOf_append.mpr ⟨buildTree preserved program.anyTranslucent program studio,
      buildTrees preserved rest _⟩

end

theorem built (preserved : Preserved loader P) {library : Library} {workers : Nat} {m : Material}
    {studio : Studio} (h : Built library loader workers m studio) : m.Every P := by
  obtain ⟨_, _, root, translucent, start, -, rfl⟩ := built_eq h
  exact preserved.buildTree translucent (compose root) start

/-! ## 4. What changes -/

theorem pollUniforms (preserved : Preserved loader P) (uploader : Uploader) :
    ∀ (uniforms : List MaterialUniform) (studio : Studio), Each P uniforms →
      Each P ((Material.pollUniforms uploader uniforms).run studio).1.1
  | [], _, _ => each_nil
  | uniform :: rest, studio, h => by
    obtain ⟨hfirst, hrest⟩ := each_cons.mp h
    rw [run_pollUniforms_cons]
    exact each_cons.mpr
      ⟨preserved.poll uploader uniform studio hfirst, pollUniforms preserved uploader rest _ hrest⟩

mutual

theorem pollTree (preserved : Preserved loader P) (uploader : Uploader) :
    ∀ (m : Material) (studio : Studio), m.Every P →
      Every P ((Material.pollTree uploader m).run studio).1.1
  | ⟨_, _, _, _, _, _, _, _, true⟩, studio, h => by
    rwa [run_pollTree_of_destroyed uploader rfl]
  | ⟨_, _, _, _, _, uniforms, materials, _, false⟩, studio, h => by
    obtain ⟨hown, hbelow⟩ := every_iff.mp h
    rw [run_pollTree uploader rfl]
    exact every_iff.mpr ⟨preserved.pollUniforms uploader uniforms _ hown,
      pollTrees preserved uploader materials studio hbelow⟩

theorem pollTrees (preserved : Preserved loader P) (uploader : Uploader) :
    ∀ (children : List (String × Material)) (studio : Studio), EveryOf P (allNodes children) →
      EveryOf P (allNodes ((Material.pollTrees uploader children).run studio).1.1)
  | [], _, _ => everyOf_nil
  | (name, child) :: rest, studio, h => by
    obtain ⟨hchild, hrest⟩ := everyOf_append.mp h
    rw [run_pollTrees_cons]
    exact everyOf_append.mpr ⟨pollTree preserved uploader child studio hchild,
      pollTrees preserved uploader rest _ hrest⟩

end

theorem releaseUniforms (preserved : Preserved loader P) :
    ∀ (uniforms : List MaterialUniform) (studio : Studio), Each P uniforms →
      Each P ((Material.releaseUniforms uniforms).run studio).1
  | [], _, _ => each_nil
  | uniform :: rest, studio, h => by
    obtain ⟨hfirst, hrest⟩ := each_cons.mp h
    rw [run_releaseUniforms_cons]
    exact each_cons.mpr
      ⟨preserved.release uniform studio hfirst, releaseUniforms preserved rest _ hrest⟩

mutual

theorem releaseTree (preserved : Preserved loader P) :
    ∀ (m : Material) (studio : Studio), m.Every P →
      Every P (m.releaseTree.run studio).1
  | ⟨_, _, _, _, _, uniforms, materials, _, _⟩, studio, h => by
    obtain ⟨hown, hbelow⟩ := every_iff.mp h
    rw [run_releaseTree]
    exact every_iff.mpr ⟨preserved.releaseUniforms uniforms _ hown,
      releaseTrees preserved materials studio hbelow⟩

theorem releaseTrees (preserved : Preserved loader P) :
    ∀ (children : List (String × Material)) (studio : Studio), EveryOf P (allNodes children) →
      EveryOf P (allNodes ((Material.releaseTrees children).run studio).1)
  | [], _, _ => everyOf_nil
  | (name, child) :: rest, studio, h => by
    obtain ⟨hchild, hrest⟩ := everyOf_append.mp h
    rw [run_releaseTrees_cons]
    cases child.destroyed with
    | true => exact everyOf_append.mpr ⟨hchild, releaseTrees preserved rest _ hrest⟩
    | false =>
      exact everyOf_append.mpr ⟨releaseTree preserved child studio hchild,
        releaseTrees preserved rest _ hrest⟩

end

theorem assignUniforms (preserved : Preserved loader P) {name : String} {value : Value} :
    ∀ (uniforms : List MaterialUniform) (studio : Studio),
      (∀ uniform, (uniforms.find? fun uniform => uniform.name = name) = some uniform →
        value.kind = uniform.value.kind) →
      Each P uniforms →
      Each P ((Material.assignUniforms loader name value uniforms).run studio).1
  | [], _, _, _ => each_nil
  | uniform :: rest, studio, hkind, h => by
    obtain ⟨hfirst, hrest⟩ := each_cons.mp h
    rw [run_assignUniforms_cons]
    split
    · rename_i hname
      have hfound := hkind uniform (List.find?_cons_of_pos (by simpa using hname))
      exact each_cons.mpr ⟨preserved.assign value uniform studio hfound hfirst, hrest⟩
    · rename_i hname
      rw [List.find?_cons_of_neg (by simpa using hname)] at hkind
      exact each_cons.mpr ⟨hfirst, assignUniforms preserved rest studio hkind hrest⟩

theorem set (preserved : Preserved loader P) (name : String) (literal : Literal) (m : Material)
    (studio : Studio) (h : m.Every P) :
    Every P ((Material.set loader name literal m).run studio).1.2 := by
  unfold Material.set
  cases haccept : m.accept name literal with
  | error error => exact h
  | ok value =>
    obtain ⟨uniform, hfind, hkind⟩ := kind_of_accept haccept
    obtain ⟨hown, hbelow⟩ := every_iff.mp h
    refine every_iff.mpr
      ⟨preserved.assignUniforms m.uniforms studio (fun other hother => ?_) hown, hbelow⟩
    rw [hkind, Option.some.inj (hfind.symm.trans hother)]

/-! ## 5. Runs -/

/-- **What one step keeps.** -/
theorem step (preserved : Preserved loader P) {m m' : Material} {studio later : Studio}
    {event : Event} (h : Material.step loader m studio event = some (m', later)) (hm : m.Every P) :
    m'.Every P := by
  cases event with
  | set way name literal =>
    cases h
    exact every_within (preserved.set name literal) way m studio hm
  | poll way uploader =>
    cases h
    refine every_within (fun m studio hm => ?_) way m studio hm
    unfold Material.poll
    split
    · exact hm
    · exact preserved.pollTree uploader m studio hm
  | destroy way =>
    cases h
    refine every_within (fun m studio hm => ?_) way m studio hm
    unfold Material.destroy
    split
    · exact hm
    · exact preserved.releaseTree m studio hm
  | act done =>
    obtain ⟨pool, -, heq⟩ := Option.map_eq_some_iff.mp h
    cases heq
    exact hm

/-- **What every run keeps.** -/
theorem run (preserved : Preserved loader P) {last : Material} {final : Studio} :
    ∀ {events : List Event} {m : Material} {studio : Studio},
      Material.run loader events m studio = some (last, final) → m.Every P → last.Every P
  | [], _, _, h, hm => by
    cases h
    exact hm
  | event :: rest, m, studio, h, hm => by
    obtain ⟨m', later, hstep, hrest⟩ := run_cons_eq_some h
    exact run preserved hrest (preserved.step hstep hm)

end Preserved

/-! ## 6. Slots of the right kind -/

/-- What becomes of a uniform and its slot under a new value of its type. -/
theorem run_assignUniform (loader : Loader) {value : Value} {uniform : MaterialUniform}
    (hkind : value.kind = uniform.value.kind) (agrees : uniform.Agrees) (studio : Studio) :
    (uniform.texture = none ∧ (assignUniform loader value uniform).run studio =
      ({ uniform with value }, studio)) ∨
    ∃ slot request, uniform.texture = some slot ∧ TextureRequest.ofValue? value = some request ∧
      request.kind = slot.kind ∧ (assignUniform loader value uniform).run studio =
        ({ uniform with value, texture := some ((slot.assign loader request).run studio).1 },
          ((slot.assign loader request).run studio).2) := by
  unfold assignUniform
  cases htexture : uniform.texture with
  | none =>
    left
    refine ⟨rfl, ?_⟩
    cases TextureRequest.ofValue? value <;> rfl
  | some slot =>
    obtain ⟨request, hrequest, hsame⟩ :=
      TextureRequest.exists_of_kind (hkind.symm ▸ agrees slot htexture)
    rw [hrequest]
    exact .inr ⟨slot, request, rfl, rfl, hsame, rfl⟩

/-- **A uniform with a slot is a texture of the kind of the slot**, as long as its material
lives. -/
theorem preserved_agrees (loader : Loader) : Preserved loader MaterialUniform.Agrees where
  build := by
    intro path uniform studio slot hslot
    unfold buildUniform at hslot ⊢
    cases hmangled : uniform.mangled with
    | none =>
      rw [hmangled] at hslot
      cases hslot
    | some identifier =>
      cases hrequest : TextureRequest.ofValue? uniform.value with
      | none =>
        rw [hmangled, hrequest] at hslot
        cases hslot
      | some request =>
        rw [hmangled, hrequest] at hslot
        obtain rfl := Option.some.inj hslot
        exact (TextureRequest.kind_of_value hrequest).trans
          (congrArg some (Slot.kind_assign loader request _ studio).symm)
  assign := by
    intro value uniform studio hkind agrees
    obtain ⟨hnone, heq⟩ | ⟨slot, request, -, hrequest, -, heq⟩ :=
      run_assignUniform loader hkind agrees studio
    · rw [heq]
      intro slot hslot
      rw [hnone] at hslot
      cases hslot
    · rw [heq]
      intro later hlater
      obtain rfl := Option.some.inj hlater
      rw [Slot.kind_assign]
      exact TextureRequest.kind_of_value hrequest
  poll := by
    intro uploader uniform studio agrees
    unfold pollUniform
    cases htexture : uniform.texture with
    | none =>
      intro slot hslot
      cases htexture.symm.trans hslot
    | some slot =>
      intro later hlater
      obtain rfl := Option.some.inj hlater
      exact (agrees slot htexture).trans
        (congrArg some (Slot.kind_poll uploader slot studio).symm)
  release := by
    intro uniform studio agrees later hlater
    cases htexture : uniform.texture with
    | none =>
      rw [htexture] at hlater
      cases hlater
    | some slot =>
      rw [htexture] at hlater
      obtain rfl := Option.some.inj hlater
      exact agrees slot htexture

end Material

end ShaderFabric
