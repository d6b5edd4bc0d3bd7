/-
# What holds of a material as long as it lives

A material is built with a pool and a device of its own.  From then on it takes values, is polled
and is destroyed, at any node that names lead to, while the workers do what they do.  Whatever the
order, a node that has been destroyed is empty, stays as it is, and refuses every change, and the
textures alive are those that the slots of the tree show.

* `Material.Gone`, `Material.Dead` -- a node that has been destroyed, and a tree of such nodes;
* `within_induct` -- what holds of a change at a node holds of the change at the end of every way;
* `Material.Evolves` -- what one change may make of a tree and its studio;
* `evolves_step`, `lives_run`, `invariant_run` -- what each step, and every run, preserves;
* `Material.lifetime` -- what this comes to at the end of every run.
-/
import Mathlib.Data.List.Forall2
import ShaderFabric.Proofs.Material.Slots

namespace ShaderFabric

namespace Material

/-! ## 1. Destroyed nodes -/

/-- A node that has been destroyed: no text, and slots that hold nothing and wait for nothing. -/
structure Gone (node : Material) : Prop where
  destroyed : node.destroyed = true
  source : node.source = ""
  slots : ∀ slot ∈ slotsOf node.uniforms, slot.state = .unset ∧ slot.pending = none

/-- **Every node of the tree is gone.** -/
def Dead (m : Material) : Prop := ∀ node ∈ m.nodes, node.Gone

/-- **The invariant of a tree**: below a node that is destroyed every node is gone. -/
def Sound (m : Material) : Prop := ∀ node ∈ m.nodes, node.destroyed = true → node.Dead

theorem Dead.sound {m : Material} (dead : m.Dead) : m.Sound :=
  fun _ hnode _ below hbelow => dead below (nodes_subset hnode hbelow)

/-- A tree none of whose nodes is destroyed. -/
theorem sound_of_intact {m : Material} (h : ∀ node ∈ m.nodes, node.destroyed = false) :
    m.Sound := fun node hnode hd => by rw [h node hnode] at hd; cases hd

theorem Dead.slot {m : Material} (dead : m.Dead) {slot : Slot} (h : slot ∈ m.slots) :
    slot.state = .unset ∧ slot.pending = none := by
  obtain ⟨node, hnode, hslot⟩ := mem_slots_iff.mp h
  exact (dead node hnode).slots slot hslot

/-- What a change may make of a node: nothing, once it is destroyed. -/
def Later (node later : Material) : Prop := node.destroyed = true → later = node

/-- What polling and setting make of a node: they also destroy none. -/
def Spared (node later : Material) : Prop := later.destroyed = node.destroyed ∧ Later node later

theorem later_refl (nodes : List Material) : List.Forall₂ Later nodes nodes :=
  List.forall₂_same.mpr fun _ _ _ => rfl

theorem spared_refl (nodes : List Material) : List.Forall₂ Spared nodes nodes :=
  List.forall₂_same.mpr fun _ _ => ⟨rfl, fun _ => rfl⟩

/-- **A change that spares every node keeps the invariant of the tree.** -/
theorem Sound.spared {m later : Material} (sound : m.Sound)
    (h : List.Forall₂ Spared m.nodes later.nodes) : later.Sound := by
  rintro node hnode hd
  obtain ⟨k, hk, rfl⟩ := List.getElem_of_mem hnode
  have hk' : k < m.nodes.length := h.length_eq ▸ hk
  obtain ⟨hsame, hlater⟩ := (List.forall₂_iff_get.mp h).2 k hk' hk
  simp only [List.get_eq_getElem] at hsame hlater
  rw [hsame] at hd
  rw [hlater hd]
  exact sound _ (List.getElem_mem hk') hd

/-! ## 2. What each change makes of the nodes -/

mutual

theorem spared_pollTree (uploader : Uploader) : ∀ (m : Material) (studio : Studio),
    List.Forall₂ Spared m.nodes ((pollTree uploader m).run studio).1.1.nodes
  | ⟨_, _, _, _, _, _, materials, _, true⟩, studio => by
    rw [run_pollTree_of_destroyed uploader rfl]
    exact spared_refl _
  | ⟨_, _, _, _, _, _, materials, _, false⟩, studio => by
    rw [run_pollTree uploader rfl]
    exact .cons ⟨rfl, nofun⟩ (spared_pollTrees uploader materials studio)

theorem spared_pollTrees (uploader : Uploader) :
    ∀ (children : List (String × Material)) (studio : Studio),
      List.Forall₂ Spared (allNodes children)
        (allNodes ((pollTrees uploader children).run studio).1.1)
  | [], _ => .nil
  | (name, child) :: rest, studio => by
    rw [run_pollTrees_cons]
    exact List.rel_append (spared_pollTree uploader child studio) (spared_pollTrees uploader rest _)

end

mutual

/-- Releasing changes no node that is destroyed already. -/
theorem later_releaseTree : ∀ (m : Material) (studio : Studio), m.destroyed = false →
    List.Forall₂ Later m.nodes (m.releaseTree.run studio).1.nodes
  | ⟨_, _, _, _, _, _, materials, _, _⟩, studio, rfl => by
    rw [run_releaseTree]
    exact .cons nofun (later_releaseTrees materials studio)

theorem later_releaseTrees : ∀ (children : List (String × Material)) (studio : Studio),
    List.Forall₂ Later (allNodes children) (allNodes ((releaseTrees children).run studio).1)
  | [], _ => .nil
  | (name, child) :: rest, studio => by
    rw [run_releaseTrees_cons]
    cases hd : child.destroyed with
    | true => exact List.rel_append (later_refl _) (later_releaseTrees rest _)
    | false =>
      exact List.rel_append (later_releaseTree child studio hd) (later_releaseTrees rest _)

end

theorem released_of_releaseUniforms : ∀ (uniforms : List MaterialUniform) (studio : Studio),
    ∀ slot ∈ slotsOf ((releaseUniforms uniforms).run studio).1,
      slot.state = .unset ∧ slot.pending = none
  | [], _ => nofun
  | uniform :: rest, studio => by
    rw [run_releaseUniforms_cons, slotsOf_cons]
    refine List.forall_mem_append.mpr ⟨?_, released_of_releaseUniforms rest _⟩
    cases uniform.texture with
    | none => exact nofun
    | some slot => exact List.forall_mem_singleton.mpr ⟨rfl, rfl⟩

mutual

/-- **Releasing a tree leaves a dead one**, though it skips what is destroyed already. -/
theorem dead_releaseTree : ∀ (m : Material) (studio : Studio),
    (∀ node ∈ allNodes m.materials, node.destroyed = true → node.Dead) →
      (m.releaseTree.run studio).1.Dead
  | ⟨_, _, _, _, _, uniforms, materials, _, _⟩, studio, sound => by
    rw [run_releaseTree]
    refine List.forall_mem_cons.mpr ⟨⟨rfl, rfl, ?_⟩, dead_releaseTrees materials studio sound⟩
    exact released_of_releaseUniforms uniforms _

theorem dead_releaseTrees : ∀ (children : List (String × Material)) (studio : Studio),
    (∀ node ∈ allNodes children, node.destroyed = true → node.Dead) →
      ∀ node ∈ allNodes ((releaseTrees children).run studio).1, node.Gone
  | [], _, _ => nofun
  | (name, child) :: rest, studio, sound => by
    obtain ⟨hchild, hrest⟩ := List.forall_mem_append.mp sound
    rw [run_releaseTrees_cons]
    refine List.forall_mem_append.mpr ⟨?_, dead_releaseTrees rest _ hrest⟩
    cases hd : child.destroyed with
    | true => exact hchild child (self_mem_nodes child) hd
    | false =>
      refine dead_releaseTree child studio fun node hnode => hchild node ?_
      rw [nodes_eq]
      exact List.mem_cons_of_mem _ hnode

end

/-! ## 3. Ways -/

theorem livingChild_eq_ok {m child : Material} {name : String}
    (h : m.livingChild name = .ok child) : m.destroyed = false ∧ m.child? name = some child := by
  unfold livingChild at h
  split at h
  · cases h
  · rename_i hd
    split at h
    · cases h
      exact ⟨eq_false_of_ne_true hd, ‹_›⟩
    · cases h

theorem livingChild_of_destroyed {m : Material} (h : m.destroyed = true) (name : String) :
    m.livingChild name = .error .alreadyDestroyed := if_pos h

/-- **Where the sub-material of a name is**, and what takes its place. -/
theorem child?_eq_some {name : String} {child : Material} :
    ∀ {children : List (String × Material)},
      (children.find? fun child => child.1 = name).map Prod.snd = some child →
      ∃ before after, children = before ++ (name, child) :: after ∧
        ∀ other, replaceChild name other children = before ++ (name, other) :: after
  | [], h => by cases h
  | (key, m) :: rest, h => by
    by_cases hkey : key = name
    · subst hkey
      rw [List.find?_cons_of_pos (by simp)] at h
      cases h
      exact ⟨[], rest, rfl, fun other => if_pos rfl⟩
    · rw [List.find?_cons_of_neg (by simpa using hkey)] at h
      obtain ⟨before, after, rfl, hreplace⟩ := child?_eq_some h
      refine ⟨(key, m) :: before, after, rfl, fun other => ?_⟩
      rw [replaceChild, if_neg hkey, hreplace other]
      rfl

/-- What takes the place of a sub-material is found under its name. -/
theorem child?_replaceChild {name : String} {child other : Material} :
    ∀ {children : List (String × Material)},
      (children.find? fun child => child.1 = name).map Prod.snd = some child →
      ((replaceChild name other children).find? fun child => child.1 = name).map Prod.snd =
        some other
  | [], h => by cases h
  | (key, m) :: rest, h => by
    rw [replaceChild]
    split
    · rw [List.find?_cons_of_pos (by simp)]
      rfl
    · rename_i hkey
      rw [List.find?_cons_of_neg (by simpa using hkey)] at h ⊢
      exact child?_replaceChild h

theorem run_within_of_error {α : Type} {m : Material} {name : String} {error : MaterialError}
    (h : m.livingChild name = .error error) (rest : List String) (change : Change α)
    (studio : Studio) :
    (within (name :: rest) change m).run studio = ((.error error, m), studio) := by
  simp only [within, h]
  rfl

theorem run_within_of_ok {α : Type} {m child : Material} {name : String}
    (h : m.livingChild name = .ok child) (rest : List String) (change : Change α)
    (studio : Studio) :
    (within (name :: rest) change m).run studio =
      let changed := (within rest change child).run studio
      ((changed.1.1, { m with materials := replaceChild name changed.1.2 m.materials }),
        changed.2) := by
  simp only [within, h]
  rfl

/-- **What holds of a change at a node holds at the end of every way**, if it holds of changes that
are refused, and passes from a sub-material to a material that is alive. -/
theorem within_induct {α : Type} {change : Change α}
    {P : Material → Studio → Except MaterialError α → Material → Studio → Prop}
    (base : ∀ m studio, P m studio ((change m).run studio).1.1 ((change m).run studio).1.2
      ((change m).run studio).2)
    (refused : ∀ m studio error, P m studio (.error error) m studio)
    (lift : ∀ m studio before name child after result child' later, m.destroyed = false →
      m.materials = before ++ (name, child) :: after → P child studio result child' later →
        P m studio result { m with materials := before ++ (name, child') :: after } later) :
    ∀ (way : List String) (m : Material) (studio : Studio),
      P m studio ((within way change m).run studio).1.1 ((within way change m).run studio).1.2
        ((within way change m).run studio).2
  | [], m, studio => base m studio
  | name :: rest, m, studio => by
    cases hchild : m.livingChild name with
    | error error =>
      rw [run_within_of_error hchild]
      exact refused m studio error
    | ok child =>
      obtain ⟨halive, hfind⟩ := livingChild_eq_ok hchild
      obtain ⟨before, after, hsplit, hreplace⟩ := child?_eq_some hfind
      rw [run_within_of_ok hchild]
      dsimp only
      rw [hreplace]
      exact lift m studio before name child after _ _ _ halive hsplit
        (within_induct base refused lift rest child studio)

theorem nodes_of_split {m child : Material} {before after : List (String × Material)}
    {name : String} (h : m.materials = before ++ (name, child) :: after) :
    m.nodes = m :: (allNodes before ++ (child.nodes ++ allNodes after)) := by
  rw [nodes_eq, h, allNodes_append, allNodes]

theorem slots_of_split {m child : Material} {before after : List (String × Material)}
    {name : String} (h : m.materials = before ++ (name, child) :: after) :
    m.slots = allSlots before ++ (child.slots ++ (allSlots after ++ slotsOf m.uniforms)) := by
  rw [slots_eq, h, allSlots_append, allSlots, List.append_assoc, List.append_assoc]

/-! ## 4. What one change preserves -/

/-- A change of a tree and its studio carries what holds of the studio and the slots of the tree,
whatever other slots there are. -/
def Carries (P : Studio → List Slot → Prop) (m : Material) (studio : Studio) (m' : Material)
    (later : Studio) : Prop :=
  ∀ others, P studio (m.slots ++ others) → P later (m'.slots ++ others)

section Invariant

variable {fair : Pool.Act → Prop} {P : Studio → List Slot → Prop}
  (invariant : Studio.Invariant fair P)

include invariant

theorem Carries.lift {m child child' : Material} {studio later : Studio}
    {before after : List (String × Material)} {name : String}
    (carries : child.Carries P studio child' later)
    (h : m.materials = before ++ (name, child) :: after) :
    m.Carries P studio { m with materials := before ++ (name, child') :: after } later := by
  intro others holds
  have hlater :
      ({ m with materials := before ++ (name, child') :: after } : Material).slots = _ :=
    slots_of_split rfl
  rw [slots_of_split h, List.append_assoc, List.append_assoc] at holds
  rw [hlater, List.append_assoc, List.append_assoc]
  have first := carries _ (invariant.perm holds (List.perm_append_comm_assoc ..))
  exact invariant.perm first (List.perm_append_comm_assoc ..)

theorem carries_set (loader : Loader) (name : String) (literal : Literal) (m : Material)
    (studio : Studio) :
    m.Carries P studio ((set loader name literal m).run studio).1.2
      ((set loader name literal m).run studio).2 := by
  unfold set
  cases m.accept name literal with
  | error error => exact fun _ => id
  | ok value =>
    intro others holds
    obtain ⟨request, _, own⟩ := walk_assignUniforms loader name value m.uniforms studio
    have walk := (Walk.refl studio (allSlots m.materials)).append own
    rw [slots_eq] at holds
    exact walk.carries invariant (fun holds => invariant.assign holds loader request) others holds

theorem carries_poll (uploader : Uploader) (m : Material) (studio : Studio) :
    m.Carries P studio ((poll uploader m).run studio).1.2 ((poll uploader m).run studio).2 := by
  unfold poll
  split
  · exact fun _ => id
  · exact (walk_pollTree uploader m studio).carries invariant fun holds =>
      invariant.poll holds uploader

theorem carries_destroy (m : Material) (studio : Studio) :
    m.Carries P studio ((destroy m).run studio).1.2 ((destroy m).run studio).2 := by
  unfold destroy
  split
  · exact fun _ => id
  · obtain ⟨_, walk⟩ := walk_releaseTree m studio
    exact walk.carries invariant invariant.release

end Invariant

/-- **What one change may make of a tree and its studio**: it leaves alone what is destroyed, and
keeps the invariants of the tree and of the studio. -/
structure Evolves (m : Material) (studio : Studio) (m' : Material) (later : Studio) : Prop where
  nodes : List.Forall₂ Later m.nodes m'.nodes
  sound : m.Sound → m'.Sound
  holds : ∀ others, studio.Holds (m.slots ++ others) → later.Holds (m'.slots ++ others)

theorem Evolves.refl (m : Material) (studio : Studio) : m.Evolves studio m studio :=
  ⟨later_refl m.nodes, id, fun _ => id⟩

theorem sound_of_split {m child : Material} {before after : List (String × Material)}
    {name : String} (h : m.materials = before ++ (name, child) :: after)
    (halive : m.destroyed = false) :
    m.Sound ↔ (∀ node ∈ allNodes before, node.destroyed = true → node.Dead) ∧ child.Sound ∧
      ∀ node ∈ allNodes after, node.destroyed = true → node.Dead := by
  rw [Sound, nodes_of_split h, List.forall_mem_cons, List.forall_mem_append,
    List.forall_mem_append]
  exact and_iff_right fun hd => by rw [halive] at hd; cases hd

/-- **What a change may make of a sub-material it may make of the material.** -/
theorem Evolves.lift {m child child' : Material} {studio later : Studio}
    {before after : List (String × Material)} {name : String}
    (evolves : child.Evolves studio child' later) (halive : m.destroyed = false)
    (h : m.materials = before ++ (name, child) :: after) :
    m.Evolves studio { m with materials := before ++ (name, child') :: after } later where
  nodes := by
    have hlater :
        ({ m with materials := before ++ (name, child') :: after } : Material).nodes = _ :=
      nodes_of_split rfl
    rw [nodes_of_split h, hlater]
    refine .cons (fun hd => by rw [halive] at hd; cases hd) ?_
    exact List.rel_append (later_refl _) (List.rel_append evolves.nodes (later_refl _))
  sound := fun sound => by
    have hlater :
        ({ m with materials := before ++ (name, child') :: after } : Material).Sound ↔ _ :=
      sound_of_split rfl halive
    obtain ⟨hbefore, hchild, hafter⟩ := (sound_of_split h halive).mp sound
    exact hlater.mpr ⟨hbefore, evolves.sound hchild, hafter⟩
  holds := Carries.lift Studio.invariant_holds evolves.holds h

theorem spared_set (loader : Loader) (name : String) (literal : Literal) (m : Material)
    (studio : Studio) :
    List.Forall₂ Spared m.nodes ((set loader name literal m).run studio).1.2.nodes := by
  unfold set
  cases haccept : m.accept name literal with
  | error error => exact spared_refl _
  | ok value =>
    have halive : m.destroyed = false := by
      cases hd : m.destroyed with
      | false => rfl
      | true => rw [accept, if_pos hd] at haccept; cases haccept
    let uniforms := (assignUniforms loader name value m.uniforms).run studio
    have hnodes :
        List.Forall₂ Spared m.nodes ({ m with uniforms := uniforms.1 } : Material).nodes := by
      rw [nodes_eq, nodes_eq]
      refine .cons ⟨rfl, fun hd => ?_⟩ (spared_refl _)
      rw [halive] at hd
      cases hd
    exact hnodes

theorem spared_poll (uploader : Uploader) (m : Material) (studio : Studio) :
    List.Forall₂ Spared m.nodes ((poll uploader m).run studio).1.2.nodes := by
  unfold poll
  split
  · exact spared_refl _
  · exact spared_pollTree uploader m studio

theorem evolves_set (loader : Loader) (name : String) (literal : Literal) (m : Material)
    (studio : Studio) :
    m.Evolves studio ((set loader name literal m).run studio).1.2
      ((set loader name literal m).run studio).2 := by
  have hnodes := spared_set loader name literal m studio
  exact ⟨hnodes.imp fun _ _ h => h.2, fun sound => sound.spared hnodes,
    carries_set Studio.invariant_holds loader name literal m studio⟩

theorem evolves_poll (uploader : Uploader) (m : Material) (studio : Studio) :
    m.Evolves studio ((poll uploader m).run studio).1.2 ((poll uploader m).run studio).2 := by
  have hnodes := spared_poll uploader m studio
  exact ⟨hnodes.imp fun _ _ h => h.2, fun sound => sound.spared hnodes,
    carries_poll Studio.invariant_holds uploader m studio⟩

theorem evolves_destroy (m : Material) (studio : Studio) :
    m.Evolves studio ((destroy m).run studio).1.2 ((destroy m).run studio).2 := by
  have hcarries := carries_destroy Studio.invariant_holds m studio
  unfold destroy at hcarries ⊢
  cases hd : m.destroyed with
  | true => exact .refl m studio
  | false =>
    rw [hd] at hcarries
    refine ⟨later_releaseTree m studio hd, fun sound => ?_, hcarries⟩
    refine (dead_releaseTree m studio fun node hnode => sound node ?_).sound
    rw [nodes_eq]
    exact List.mem_cons_of_mem _ hnode

theorem evolves_within {α : Type} {change : Change α}
    (h : ∀ m studio, Evolves m studio ((change m).run studio).1.2 ((change m).run studio).2)
    (way : List String) (m : Material) (studio : Studio) :
    m.Evolves studio ((within way change m).run studio).1.2
      ((within way change m).run studio).2 :=
  within_induct (P := fun m studio _ m' later => m.Evolves studio m' later) h
    (fun m studio _ => .refl m studio)
    (fun _ _ _ _ _ _ _ _ _ halive hsplit evolves => evolves.lift halive hsplit) way m studio

/-! ## 5. What polls count -/

/-- **A poll counts the slots of the tree whose state it changes.** -/
theorem changes_of_poll {uploader : Uploader} {way : List String} {m : Material} {studio : Studio}
    (holds : studio.Holds m.slots) {count : Nat}
    (hcount : ((within way (poll uploader) m).run studio).1.1 = .ok count) :
    ((within way (poll uploader) m).run studio).1.2.slots.length = m.slots.length ∧
      count = changes m.slots ((within way (poll uploader) m).run studio).1.2.slots := by
  refine within_induct (P := fun m studio result m' _ => ∀ others count,
    studio.Holds (m.slots ++ others) → result = .ok count →
      m'.slots.length = m.slots.length ∧ count = changes m.slots m'.slots)
    ?_ ?_ ?_ way m studio [] count (by rwa [List.append_nil]) hcount
  · intro m studio others count holds h
    unfold poll at h ⊢
    split at h
    · cases h
    · rename_i halive
      rw [if_neg halive]
      cases h
      have walk := walk_pollTree uploader m studio
      exact ⟨walk.length_eq, walk.changes_eq others holds⟩
  · exact fun _ _ _ _ _ _ h => by cases h
  · intro m studio before name child after result child' later _ hsplit ih others count holds h
    rw [slots_of_split hsplit, List.append_assoc, List.append_assoc] at holds
    obtain ⟨hlength, hchanges⟩ := ih _ count (holds.perm (List.perm_append_comm_assoc ..)) h
    have hlater :
        ({ m with materials := before ++ (name, child') :: after } : Material).slots = _ :=
      slots_of_split rfl
    rw [slots_of_split hsplit, hlater, changes_append rfl, changes_append hlength,
      changes_self, changes_self]
    exact ⟨by simp [hlength], by omega⟩

/-! ## 6. Destroyed materials refuse -/

/-- **A change that a node refuses is refused at the end of every way to it**, and changes
nothing. -/
theorem within_of_refused {α : Type} {change : Change α} {node : Material} {studio : Studio}
    (h : (change node).run studio = ((.error .alreadyDestroyed, node), studio)) :
    ∀ {way : List String} {m : Material}, m.node? way = some node →
      (within way change m).run studio = ((.error .alreadyDestroyed, m), studio)
  | [], m, hnode => by
    cases hnode
    exact h
  | name :: rest, m, hnode => by
    obtain ⟨child, hchild, hrest⟩ := Option.bind_eq_some_iff.mp hnode
    cases hd : m.destroyed with
    | true => exact run_within_of_error (livingChild_of_destroyed hd name) rest change studio
    | false =>
      have hliving : m.livingChild name = .ok child := by
        rw [livingChild, if_neg (by simp [hd]), hchild]
      obtain ⟨before, after, hsplit, hreplace⟩ := child?_eq_some hchild
      rw [run_within_of_ok hliving, within_of_refused h hrest]
      dsimp only
      rw [hreplace, ← hsplit]
      cases m
      rfl

theorem within_append {α : Type} (change : Change α) : ∀ way after : List String,
    within (way ++ after) change = within way (within after change)
  | [], _ => rfl
  | name :: rest, after => by
    rw [List.cons_append, within, within, within_append change rest after]

/-- **A destroyed node refuses every change**, and refuses to be passed. -/
theorem refused_of_destroyed {node : Material} (hd : node.destroyed = true) (studio : Studio) :
    (destroy node).run studio = ((.error .alreadyDestroyed, node), studio) ∧
    (∀ loader name literal,
      (set loader name literal node).run studio = ((.error .alreadyDestroyed, node), studio)) ∧
    (∀ uploader, (poll uploader node).run studio = ((.error .alreadyDestroyed, node), studio)) ∧
    ∀ name rest {α : Type} (change : Change α),
      (within (name :: rest) change node).run studio =
        ((.error .alreadyDestroyed, node), studio) := by
  refine ⟨?_, fun loader name literal => ?_, fun uploader => ?_, fun name rest _ change => ?_⟩
  · rw [destroy, if_pos hd]
    rfl
  · have haccept : node.accept name literal = .error .alreadyDestroyed := by
      rw [accept, if_pos hd]
      rfl
    simp only [set, haccept]
    rfl
  · rw [poll, if_pos hd]
    rfl
  · exact run_within_of_error (livingChild_of_destroyed hd name) rest change studio

theorem destroy_eq_ok {m m' : Material} {studio later : Studio}
    (h : (destroy m).run studio = ((.ok (), m'), later)) :
    m.destroyed = false ∧ m.releaseTree.run studio = (m', later) := by
  unfold destroy at h
  split at h
  · cases h
  · rename_i hd
    injection h with h hlater
    injection h with _ hm'
    exact ⟨eq_false_of_ne_true hd, Prod.ext hm' hlater⟩

/-- **What has been destroyed is destroyed**, and so refuses to be destroyed again. -/
theorem destroyed_of_destroy {studio later : Studio} : ∀ {way : List String} {m m' : Material},
    (within way destroy m).run studio = ((.ok (), m'), later) →
      ∃ node, m'.node? way = some node ∧ node.destroyed = true
  | [], m, m', h => by
    refine ⟨m', rfl, ?_⟩
    obtain ⟨-, hrelease⟩ := destroy_eq_ok h
    rw [run_releaseTree] at hrelease
    injection hrelease with hm' _
    rw [← hm']
  | name :: rest, m, m', h => by
    cases hchild : m.livingChild name with
    | error error =>
      rw [run_within_of_error hchild] at h
      cases h
    | ok child =>
      rw [run_within_of_ok hchild] at h
      injection h with h hlater
      injection h with hresult hm'
      obtain ⟨node, hnode, hd⟩ := destroyed_of_destroy (Prod.ext (Prod.ext hresult rfl) rfl)
      refine ⟨node, ?_, hd⟩
      rw [← hm', node?, child?, child?_replaceChild (livingChild_eq_ok hchild).2]
      exact hnode

/-! ## 7. Runs -/

/-- What can happen next: a node that a way leads to is set, polled or destroyed, or a worker
acts. -/
inductive Event
  | set (way : List String) (name : String) (literal : Literal)
  | poll (way : List String) (uploader : Uploader)
  | destroy (way : List String)
  | act (done : Pool.Act)

variable {loader : Loader}

/-- The material and the studio after an event; only an act of a worker can be impossible. -/
def step (loader : Loader) (m : Material) (studio : Studio) : Event → Option (Material × Studio)
  | .set way name literal =>
    let changed := (within way (set loader name literal) m).run studio
    some (changed.1.2, changed.2)
  | .poll way uploader =>
    let changed := (within way (poll uploader) m).run studio
    some (changed.1.2, changed.2)
  | .destroy way =>
    let changed := (within way destroy m).run studio
    some (changed.1.2, changed.2)
  | .act done => (studio.pool.act done).map fun pool => (m, { studio with pool })

/-- The material and the studio after events in order. -/
def run (loader : Loader) : List Event → Material → Studio → Option (Material × Studio)
  | [], m, studio => some (m, studio)
  | event :: rest, m, studio =>
    (step loader m studio event).bind fun (m, studio) => run loader rest m studio

/-- **A material that has been built**, with a pool and a device of its own. -/
inductive Built (library : Library) (loader : Loader) (workers : Nat) : Material → Studio → Prop
  | ofFabric {options : MaterialOptions} {fabric : Fabric} {m : Material} {studio : Studio}
      (h : (Material.ofFabric library options loader fabric).run ⟨.start workers, .empty⟩ =
        (.ok m, studio)) : Built library loader workers m studio
  | ofType {typeName : String} {overrides : List (String × Literal)} {m : Material}
      {studio : Studio}
      (h : (Material.ofType library loader typeName overrides).run ⟨.start workers, .empty⟩ =
        (.ok m, studio)) : Built library loader workers m studio

/-- **The invariant of a material and its studio.** -/
structure Lives (m : Material) (studio : Studio) : Prop where
  sound : m.Sound
  holds : studio.Holds m.slots

/-- **A material that has been built** is what is built of a fabric that resolves. -/
theorem build_of_built {library : Library} {workers : Nat} {m : Material} {studio : Studio}
    (built : Built library loader workers m studio) :
    ∃ strict fabric root translucent, resolve library strict fabric = .ok root ∧
      (build loader translucent (compose root)).run ⟨.start workers, .empty⟩ = (m, studio) := by
  have ofFabric : ∀ {options : MaterialOptions} {fabric : Fabric},
      (Material.ofFabric library options loader fabric).run ⟨.start workers, .empty⟩ =
        (.ok m, studio) → ∃ strict fabric root translucent,
          resolve library strict fabric = .ok root ∧
            (build loader translucent (compose root)).run ⟨.start workers, .empty⟩ =
              (m, studio) := by
    intro options fabric h
    unfold Material.ofFabric at h
    split at h
    · cases h
    · rename_i root hroot
      injection h with hm hstudio
      injection hm with hm
      exact ⟨_, fabric, root, _, hroot, Prod.ext hm hstudio⟩
  cases built with
  | ofFabric h => exact ofFabric h
  | ofType h =>
    unfold ofType at h
    split at h
    · cases h
    · split at h
      · cases h
      · exact ofFabric h

/-- **What holds of a studio and the slots of a material** that has just been built. -/
theorem invariant_of_built {fair : Pool.Act → Prop} {P : Studio → List Slot → Prop}
    (invariant : Studio.Invariant fair P) {library : Library} {workers : Nat} {m : Material}
    {studio : Studio} (built : Built library loader workers m studio) : P studio m.slots := by
  obtain ⟨_, _, root, translucent, -, hbuild⟩ := build_of_built built
  have h := carries_build loader invariant translucent (compose root) (invariant.start workers)
  rw [hbuild, List.append_nil] at h
  exact h

theorem lives_of_built {library : Library} {workers : Nat} {m : Material} {studio : Studio}
    (built : Built library loader workers m studio) : m.Lives studio := by
  obtain ⟨_, _, root, translucent, -, hbuild⟩ := build_of_built built
  have hintact := destroyed_of_build loader translucent (compose root) ⟨.start workers, .empty⟩
  rw [hbuild] at hintact
  exact ⟨sound_of_intact hintact, invariant_of_built Studio.invariant_holds built⟩

/-- **What one step preserves.** -/
theorem evolves_step {m m' : Material} {studio later : Studio} {event : Event}
    (h : step loader m studio event = some (m', later)) : m.Evolves studio m' later := by
  cases event with
  | set way name literal =>
    cases h
    exact evolves_within (evolves_set loader name literal) way m studio
  | poll way uploader =>
    cases h
    exact evolves_within (evolves_poll uploader) way m studio
  | destroy way =>
    cases h
    exact evolves_within evolves_destroy way m studio
  | act done =>
    obtain ⟨pool, hact, heq⟩ := Option.map_eq_some_iff.mp h
    cases heq
    exact ⟨later_refl m.nodes, id, fun _ holds => holds.act hact⟩

theorem Lives.evolves {m m' : Material} {studio later : Studio} (lives : m.Lives studio)
    (h : m.Evolves studio m' later) : m'.Lives later := by
  refine ⟨h.sound lives.sound, ?_⟩
  have holds := h.holds [] (by rw [List.append_nil]; exact lives.holds)
  rwa [List.append_nil] at holds

theorem run_cons_eq_some {m : Material} {studio : Studio} {event : Event} {rest : List Event}
    {last : Material × Studio} (h : run loader (event :: rest) m studio = some last) :
    ∃ m' later, step loader m studio event = some (m', later) ∧
      run loader rest m' later = some last := by
  obtain ⟨⟨m', later⟩, hstep, hrest⟩ := Option.bind_eq_some_iff.mp h
  exact ⟨m', later, hstep, hrest⟩

/-- **The invariant holds at the end of every run.** -/
theorem lives_run {last : Material} {final : Studio} : ∀ {events : List Event} {m : Material}
    {studio : Studio}, run loader events m studio = some (last, final) → m.Lives studio →
      last.Lives final
  | [], _, _, h, lives => by
    cases h
    exact lives
  | event :: rest, m, studio, h, lives => by
    obtain ⟨m', later, hstep, hrest⟩ := run_cons_eq_some h
    exact lives_run hrest (lives.evolves (evolves_step hstep))

/-- **A node that is destroyed is the same at the end of every run.** -/
theorem destroyed_run {last : Material} {final : Studio} {k : Nat} {node : Material}
    (hd : node.destroyed = true) : ∀ {events : List Event} {m : Material} {studio : Studio},
      run loader events m studio = some (last, final) → m.nodes[k]? = some node →
        last.nodes[k]? = some node
  | [], _, _, h, hnode => by
    cases h
    exact hnode
  | event :: rest, m, studio, h, hnode => by
    obtain ⟨m', later, hstep, hrest⟩ := run_cons_eq_some h
    refine destroyed_run hd hrest ?_
    have hnodes := (evolves_step hstep).nodes
    obtain ⟨hk, rfl⟩ := List.getElem?_eq_some_iff.mp hnode
    have hk' : k < m'.nodes.length := hnodes.length_eq ▸ hk
    rw [List.getElem?_eq_getElem hk']
    exact congrArg some ((List.forall₂_iff_get.mp hnodes).2 k hk hk' hd)

/-! ## 8. What holds at the end of every run -/

/-- **A destroyed root leaves no texture alive.** -/
theorem live_of_dead {m : Material} {studio : Studio} (holds : studio.Holds m.slots)
    (dead : m.Dead) : studio.gpu.live = [] := by
  rw [← List.length_eq_zero_iff, holds.length_live, List.countP_eq_zero]
  intro slot hslot
  rw [Slot.isReady, Slot.shown, (dead.slot hslot).1]
  exact Bool.false_ne_true

/-- **A material as long as it lives.**  At the end of every run of a material that has been built:

* below a node that is destroyed every node is destroyed, without a text, and with slots that are
  unset and wait for nothing; and the node is the very same at the end of every further run;
* the material is intact exactly when no node of it is destroyed;
* the textures pending are the slots of the tree that load, a poll returns how many slots of the
  tree have another state after it, and as many textures are alive as slots of the tree are ready,
  so that none is once the root has been destroyed;
* what has been destroyed is, and a destroyed node refuses to be destroyed, set, polled or passed,
  and nothing changes. -/
theorem lifetime {library : Library} {workers : Nat} {m last : Material} {studio final : Studio}
    {events : List Event} (built : Built library loader workers m studio)
    (h : run loader events m studio = some (last, final)) :
    (∀ node ∈ last.nodes, node.destroyed = true → node.Dead) ∧
    (∀ (k : Nat) (node : Material), last.nodes[k]? = some node → node.destroyed = true →
      ∀ more last' final', run loader more last final = some (last', final') →
        last'.nodes[k]? = some node) ∧
    (last.isIntact = true ↔ ∀ node ∈ last.nodes, node.destroyed = false) ∧
    last.pendingTextures = last.slots.countP Slot.isLoading ∧
    (∀ way uploader count polled later,
      (within way (poll uploader) last).run final = ((.ok count, polled), later) →
        polled.slots.length = last.slots.length ∧ count = changes last.slots polled.slots) ∧
    final.gpu.live.length = last.slots.countP Slot.isReady ∧
    (∀ gone later, (destroy last).run final = ((.ok (), gone), later) →
      gone.Dead ∧ later.gpu.live = []) ∧
    (∀ way gone later, (within way destroy last).run final = ((.ok (), gone), later) →
      ∃ node, gone.node? way = some node ∧ node.destroyed = true) ∧
    (∀ way node, last.node? way = some node → node.destroyed = true →
      (within way destroy last).run final = ((.error .alreadyDestroyed, last), final) ∧
      (∀ name literal, (within way (set loader name literal) last).run final =
        ((.error .alreadyDestroyed, last), final)) ∧
      (∀ uploader, (within way (poll uploader) last).run final =
        ((.error .alreadyDestroyed, last), final)) ∧
      ∀ name rest {α : Type} (change : Change α),
        (within (way ++ name :: rest) change last).run final =
          ((.error .alreadyDestroyed, last), final)) := by
  have lives := lives_run h (lives_of_built built)
  refine ⟨lives.sound, ?_, isIntact_iff last, pendingTextures_eq last, ?_, lives.holds.length_live,
    ?_, ?_, ?_⟩
  · intro k node hnode hd more last' final' hmore
    exact destroyed_run hd hmore hnode
  · intro way uploader count polled later hpoll
    have hcount : ((within way (poll uploader) last).run final).1.1 = .ok count := by rw [hpoll]
    have hchanges := changes_of_poll lives.holds hcount
    rwa [hpoll] at hchanges
  · intro gone later hdestroy
    have evolved := lives.evolves (evolves_destroy last final)
    rw [hdestroy] at evolved
    obtain ⟨-, hrelease⟩ := destroy_eq_ok hdestroy
    have dead : (last.releaseTree.run final).1.Dead := by
      refine dead_releaseTree last final fun node hnode => lives.sound node ?_
      rw [nodes_eq]
      exact List.mem_cons_of_mem _ hnode
    rw [hrelease] at dead
    exact ⟨dead, live_of_dead evolved.holds dead⟩
  · intro way gone later hdestroy
    exact destroyed_of_destroy hdestroy
  · intro way node hnode hd
    obtain ⟨hdestroy, hset, hpoll, hpass⟩ := refused_of_destroyed hd final
    refine ⟨within_of_refused hdestroy hnode,
      fun name literal => within_of_refused (hset loader name literal) hnode,
      fun uploader => within_of_refused (hpoll uploader) hnode, fun name rest _ change => ?_⟩
    rw [within_append]
    exact within_of_refused (hpass name rest change) hnode

namespace Example

/-- A material with a texture, and a sub-material with another. -/
def textured : Fabric :=
  { uniforms := [("map", .text "root.png")]
    materials := [("part",
      { uniforms := [("map", .text "part.png")]
        components := some [("diffuse", "texture(map, materialInput.st).rgb")] })]
    components := some [("diffuse", "texture(map, materialInput.st).rgb + part.diffuse")] }

/-- The work that building has queued for an image. -/
def work (ticket : Nat) (url : String) : Work := ⟨ticket, 1, .image (.plain url)⟩

def image : LoadResult := .ok (.image ⟨1, 1, [0, 0, 0, 255], rfl⟩)

/-- The sub-material is destroyed while its load is under way, and the reply comes later. -/
def late : List Event :=
  [.act .begin, .destroy ["part"], .act (.reply (work 0 "root.png") image), .act .begin,
    .poll [] fun _ _ => none, .act (.reply (work 1 "part.png") image), .poll [] fun _ _ => none]

/-- What is left at the end of the run. -/
def left : Option (List Bool × List String × Nat) :=
  match (ofFabric ⟨[]⟩ ⟨true, none⟩ ⟨true, [], []⟩ textured).run ⟨.start 1, .empty⟩ with
  | (.ok m, studio) =>
    (run ⟨true, [], []⟩ late m studio).map fun (last, final) =>
      (last.nodes.map destroyed, last.slots.map fun slot => slot.state.name, final.gpu.live.length)
  | (.error _, _) => none

/-- **A reply that comes after its node has been destroyed revives nothing**: the texture of the
root is the only one alive, as its slot is the only one that is ready. -/
theorem late_reply :
    ∃ m studio last final, Built ⟨[]⟩ ⟨true, [], []⟩ 1 m studio ∧
      run ⟨true, [], []⟩ late m studio = some (last, final) ∧
      last.nodes.map destroyed = [false, true] ∧
      (last.slots.map fun slot => slot.state.name) = ["unset", "ready"] ∧
      final.gpu.live.length = 1 ∧ last.slots.countP Slot.isReady = 1 ∧ last.isIntact = false := by
  have hleft : left = some ([false, true], ["unset", "ready"], 1) := by decide +kernel
  unfold left at hleft
  cases hbuild : (ofFabric ⟨[]⟩ ⟨true, none⟩ ⟨true, [], []⟩ textured).run ⟨.start 1, .empty⟩ with
  | mk result studio =>
    rw [hbuild] at hleft
    cases result with
    | error error => cases hleft
    | ok m =>
      obtain ⟨⟨last, final⟩, hrun, heq⟩ := Option.map_eq_some_iff.mp hleft
      simp only [Prod.mk.injEq] at heq
      obtain ⟨hdestroyed, hstates, hlive⟩ := heq
      have built : Built ⟨[]⟩ ⟨true, [], []⟩ 1 m studio := .ofFabric hbuild
      obtain ⟨-, -, hintact, -, -, hready, -⟩ := lifetime built hrun
      refine ⟨m, studio, last, final, built, hrun, hdestroyed, hstates, hlive, hready ▸ hlive, ?_⟩
      refine eq_false_of_ne_true fun h => ?_
      have hnone : ∀ d ∈ last.nodes.map destroyed, d = false :=
        List.forall_mem_map.mpr (hintact.mp h)
      rw [hdestroyed] at hnone
      exact absurd (hnone true (by simp)) (by simp)

end Example

end Material

end ShaderFabric
