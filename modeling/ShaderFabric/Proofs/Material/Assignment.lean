/-
# What setting a uniform does

Setting a uniform checks the node, the name, the uniform and the value, in this order, before it
changes anything.  So it has one of two outcomes: the first check that fails decides the error and
nothing is changed, or all of them hold and one uniform takes the value, with its slot if it has
one.  A way of names leads to a node that is alive only through nodes that are alive, so that the
node alone decides between the two.

* `Fitting` -- what a uniform of a type takes a value as;
* `Accepts`, `Refuses` -- when a node takes a value, and the error of the first check that fails;
* `Restarts`, `TakesOn` -- what becomes of a slot and of a uniform;
* `SameBut` -- two trees that are the same but for the node at the end of a way;
* `set_outcome` -- what this comes to at the end of every run.
-/
import ShaderFabric.Proofs.Material.Uniforms

namespace ShaderFabric

namespace Material

/-! ## 1. Values that fit a type -/

/-- **What a uniform of a type takes a value as**: a value of the type as it is, and the neutral
texture of the other kind as the neutral texture of its own. -/
inductive Fitting : Kind → Value → Value → Prop
  | same (value : Value) : Fitting value.kind value value
  | flat : Fitting .sampler2D (.cube .neutral) (.texture .neutral)
  | cube : Fitting .samplerCube (.texture .neutral) (.cube .neutral)

theorem Fitting.kind_eq {kind : Kind} {value fitted : Value} (h : Fitting kind value fitted) :
    fitted.kind = kind := by
  cases h <;> rfl

theorem fit_of_fitting {kind : Kind} {value fitted : Value} (h : Fitting kind value fitted)
    (name : String) : fit name kind value = .ok fitted := by
  cases h with
  | same => exact if_pos rfl
  | flat => rfl
  | cube => rfl

theorem fitting_of_fit {kind : Kind} {value fitted : Value} {name : String}
    (h : fit name kind value = .ok fitted) : Fitting kind value fitted := by
  unfold fit at h
  split at h
  · rename_i hkind
    cases h
    subst hkind
    exact .same value
  · split at h
    · rename_i other hother
      cases h
      unfold Value.retype? at hother
      split at hother
      · cases hother
        exact .cube
      · cases hother
        exact .flat
      · cases hother
    · cases h

theorem fit_of_unfit {kind : Kind} {value : Value} {name : String}
    (h : ∀ fitted, ¬ Fitting kind value fitted) :
    fit name kind value = .error (.mismatch name kind value.kind) := by
  cases hfit : fit name kind value with
  | ok fitted => exact absurd (fitting_of_fit hfit) (h fitted)
  | error error =>
    unfold fit at hfit
    split at hfit
    · cases hfit
    · split at hfit <;> cases hfit
      rfl

/-! ## 2. What a node takes -/

/-- **A node takes a literal as the value of one of its uniforms.** -/
structure Accepts (node : Material) (name : String) (literal : Literal)
    (uniform : MaterialUniform) (value : Value) : Prop where
  alive : node.destroyed = false
  declared : node.uniform? name = some uniform
  free : uniform.value.isSelector = false
  fitting : ∃ inferred, literal.infer = .ok inferred ∧ Fitting uniform.value.kind inferred value

/-- **Why a node does not take a literal**: the first check that fails, all before it holding. -/
inductive Refuses (node : Material) (name : String) (literal : Literal) : MaterialError → Prop
  | destroyed (h : node.destroyed = true) : Refuses node name literal .alreadyDestroyed
  | unknown (alive : node.destroyed = false) (h : node.uniform? name = none) :
    Refuses node name literal (.unknownUniform name)
  | fixed {uniform : MaterialUniform} (alive : node.destroyed = false)
      (declared : node.uniform? name = some uniform) (h : uniform.value.isSelector = true) :
    Refuses node name literal (.fixedUniform name)
  | shape {uniform : MaterialUniform} {reason : ShapeError} (alive : node.destroyed = false)
      (declared : node.uniform? name = some uniform) (free : uniform.value.isSelector = false)
      (h : literal.infer = .error reason) :
    Refuses node name literal (.unresolved ⟨node.path, .invalidShape name reason⟩)
  | mismatch {uniform : MaterialUniform} {inferred : Value} (alive : node.destroyed = false)
      (declared : node.uniform? name = some uniform) (free : uniform.value.isSelector = false)
      (h : literal.infer = .ok inferred)
      (unfit : ∀ value, ¬ Fitting uniform.value.kind inferred value) :
    Refuses node name literal (.mismatch name uniform.value.kind inferred.kind)

section Checks

variable {node : Material} {name : String} {literal : Literal}

/-- The checks after the first three, where these hold. -/
theorem accept_eq {uniform : MaterialUniform} (alive : node.destroyed = false)
    (declared : node.uniform? name = some uniform) (free : uniform.value.isSelector = false) :
    node.accept name literal =
      match literal.infer with
      | .error reason => .error (.unresolved ⟨node.path, .invalidShape name reason⟩)
      | .ok value => fit name uniform.value.kind value := by
  unfold accept
  rw [alive, if_neg Bool.false_ne_true, declared]
  dsimp only
  rw [free, if_neg Bool.false_ne_true]
  rfl

theorem accept_of_accepts {uniform : MaterialUniform} {value : Value}
    (h : node.Accepts name literal uniform value) : node.accept name literal = .ok value := by
  obtain ⟨alive, declared, free, inferred, hinfer, hfitting⟩ := h
  rw [accept_eq alive declared free, hinfer]
  exact fit_of_fitting hfitting name

theorem accept_of_refuses {error : MaterialError} (h : node.Refuses name literal error) :
    node.accept name literal = .error error := by
  cases h with
  | destroyed h =>
    rw [accept, if_pos h]
    rfl
  | unknown alive h =>
    rw [accept, alive, if_neg Bool.false_ne_true, h]
    rfl
  | fixed alive declared h =>
    unfold accept
    rw [alive, if_neg Bool.false_ne_true, declared]
    dsimp only
    rw [h, if_pos rfl]
    rfl
  | shape alive declared free h => rw [accept_eq alive declared free, h]
  | mismatch alive declared free h unfit =>
    rw [accept_eq alive declared free, h]
    exact fit_of_unfit unfit

/-- **Every literal is taken or refused.** -/
theorem accepts_or_refuses (node : Material) (name : String) (literal : Literal) :
    (∃ uniform value, node.Accepts name literal uniform value) ∨
      ∃ error, node.Refuses name literal error := by
  cases hd : node.destroyed with
  | true => exact .inr ⟨_, .destroyed hd⟩
  | false =>
    cases hdeclared : node.uniform? name with
    | none => exact .inr ⟨_, .unknown hd hdeclared⟩
    | some uniform =>
      cases hfree : uniform.value.isSelector with
      | true => exact .inr ⟨_, .fixed hd hdeclared hfree⟩
      | false =>
        cases hinfer : literal.infer with
        | error reason => exact .inr ⟨_, .shape hd hdeclared hfree hinfer⟩
        | ok inferred =>
          by_cases hfit : ∃ value, Fitting uniform.value.kind inferred value
          · obtain ⟨value, hfit⟩ := hfit
            exact .inl ⟨uniform, value, hd, hdeclared, hfree, inferred, hinfer, hfit⟩
          · exact .inr ⟨_, .mismatch hd hdeclared hfree hinfer fun value h => hfit ⟨value, h⟩⟩

end Checks

/-! ## 3. What becomes of a uniform -/

/-- **A slot starts again with a request**: it gives up its texture and its load, and waits for the
next ticket of the pool unless the request leads to nothing. -/
structure Restarts (loader : Loader) (request : TextureRequest) (slot : Slot) (studio : Studio)
    (slot' : Slot) (later : Studio) : Prop where
  label : slot'.label = slot.label
  kind : slot'.kind = request.kind
  generation : slot'.generation = slot.generation + 1
  gpu : later.gpu = slot.freed studio.gpu
  waits : (loader.plan request = .nothing ∧ slot'.state = .unset ∧ slot'.pending = none ∧
      later.pool = studio.pool) ∨
    loader.plan request ≠ .nothing ∧ slot'.state = .loading ∧
      slot'.pending = some studio.pool.places.length ∧
      Pool.OpenedFor (loader.plan request) slot'.generation studio.pool later.pool

theorem restarts_assign (loader : Loader) (request : TextureRequest) (slot : Slot)
    (studio : Studio) :
    Restarts loader request slot studio ((slot.assign loader request).run studio).1
      ((slot.assign loader request).run studio).2 := by
  obtain ⟨hplan, heq⟩ | ⟨hplan, later, opened, heq⟩ := slot.assign_cases loader request studio
  · rw [heq]
    exact ⟨rfl, rfl, rfl, rfl, .inl ⟨hplan, rfl, rfl, rfl⟩⟩
  · rw [heq]
    exact ⟨rfl, rfl, rfl, rfl, .inr ⟨hplan, rfl, rfl, opened⟩⟩

/-- **A uniform takes on a value** of its type.  Its slot, if it has one, starts again with what the
value asks for, and is of the kind of the type before and after; otherwise the studio stays as it
is. -/
structure TakesOn (loader : Loader) (value : Value) (uniform : MaterialUniform) (studio : Studio)
    (uniform' : MaterialUniform) (later : Studio) : Prop where
  name : uniform'.name = uniform.name
  mangled : uniform'.mangled = uniform.mangled
  taken : uniform'.value = value
  kind : uniform'.value.kind = uniform.value.kind
  bare : uniform.texture = none → uniform'.texture = none ∧ later = studio
  restarts : ∀ slot, uniform.texture = some slot → ∃ request slot',
    TextureRequest.ofValue? value = some request ∧ uniform'.texture = some slot' ∧
      Restarts loader request slot studio slot' later ∧
      uniform.value.kind.textureKind? = some slot.kind ∧
      uniform'.value.kind.textureKind? = some slot'.kind

theorem takesOn_assignUniform (loader : Loader) {value : Value} {uniform : MaterialUniform}
    (hkind : value.kind = uniform.value.kind) (agrees : uniform.Agrees) (studio : Studio) :
    TakesOn loader value uniform studio ((assignUniform loader value uniform).run studio).1
      ((assignUniform loader value uniform).run studio).2 := by
  obtain ⟨hnone, heq⟩ | ⟨slot, request, hslot, hrequest, -, heq⟩ :=
    run_assignUniform loader hkind agrees studio
  · rw [heq]
    refine ⟨rfl, rfl, rfl, hkind, fun _ => ⟨hnone, rfl⟩, fun slot hslot => ?_⟩
    cases hnone.symm.trans hslot
  · rw [heq]
    refine ⟨rfl, rfl, rfl, hkind, fun hnone => ?_, fun other hother => ?_⟩
    · cases hslot.symm.trans hnone
    · obtain rfl := Option.some.inj (hslot.symm.trans hother)
      refine ⟨request, _, hrequest, rfl, restarts_assign loader request slot studio,
        agrees slot hslot, ?_⟩
      rw [Slot.kind_assign]
      exact TextureRequest.kind_of_value hrequest

/-- Only the first uniform of a name takes a value on. -/
theorem run_assignUniforms_append (loader : Loader) (value : Value) {uniform : MaterialUniform}
    (rest : List MaterialUniform) (studio : Studio) : ∀ {before : List MaterialUniform},
      (∀ other ∈ before, other.name ≠ uniform.name) →
      (assignUniforms loader uniform.name value (before ++ uniform :: rest)).run studio =
        (before ++ ((assignUniform loader value uniform).run studio).1 :: rest,
          ((assignUniform loader value uniform).run studio).2)
  | [], _ => by
    rw [List.nil_append, run_assignUniforms_cons, if_pos rfl]
    rfl
  | other :: before, hbefore => by
    obtain ⟨hother, hlater⟩ := List.forall_mem_cons.mp hbefore
    rw [List.cons_append, run_assignUniforms_cons, if_neg hother,
      run_assignUniforms_append loader value rest studio hlater]
    rfl

/-! ## 4. What setting does at a node -/

theorem run_set_of_refuses {node : Material} {name : String} {literal : Literal}
    {error : MaterialError} (h : node.Refuses name literal error) (loader : Loader)
    (studio : Studio) :
    (set loader name literal node).run studio = ((.error error, node), studio) := by
  simp only [set, accept_of_refuses h]
  rfl

/-- **One uniform of the node takes the value on**, the first of its name. -/
theorem run_set_of_accepts {node : Material} {name : String} {literal : Literal}
    {uniform : MaterialUniform} {value : Value} (h : node.Accepts name literal uniform value)
    (agrees : Each MaterialUniform.Agrees node.uniforms) (loader : Loader) (studio : Studio) :
    ∃ before rest uniform' later, node.uniforms = before ++ uniform :: rest ∧
      uniform.name = name ∧ (∀ other ∈ before, other.name ≠ name) ∧
      TakesOn loader value uniform studio uniform' later ∧
      (set loader name literal node).run studio =
        ((.ok (), { node with uniforms := before ++ uniform' :: rest }), later) := by
  obtain ⟨hname, before, rest, hsplit, hbefore⟩ := List.find?_eq_some_iff_append.mp h.declared
  obtain rfl := of_decide_eq_true hname
  have hfirst : ∀ other ∈ before, other.name ≠ uniform.name := by
    intro other hother
    simpa using hbefore other hother
  have hkind : value.kind = uniform.value.kind := by
    obtain ⟨_, -, hfitting⟩ := h.fitting
    exact hfitting.kind_eq
  have hagrees : uniform.Agrees := agrees uniform (by rw [hsplit]; simp)
  refine ⟨before, rest, _, _, hsplit, rfl, hfirst,
    takesOn_assignUniform loader hkind hagrees studio, ?_⟩
  simp only [set, accept_of_accepts h, hsplit]
  rw [StateT.run_bind, run_assignUniforms_append loader value rest studio hfirst]
  rfl

/-! ## 5. Ways to a node -/

/-- **Two trees are the same but for the node at the end of a way of names.** -/
inductive SameBut (node node' : Material) : List String → Material → Material → Prop
  | here : SameBut node node' [] node node'
  | under {name : String} {way : List String} {m child child' : Material}
      {before after : List (String × Material)}
      (split : m.materials = before ++ (name, child) :: after)
      (first : ∀ other ∈ before, other.1 ≠ name) (h : SameBut node node' way child child') :
    SameBut node node' (name :: way) m
      { m with materials := before ++ (name, child') :: after }

theorem SameBut.eq_of_self {node : Material} {way : List String} {m m' : Material}
    (h : SameBut node node way m m') : m' = m := by
  induction h with
  | here => rfl
  | @under _ _ m _ _ _ _ split _ _ ih =>
    rw [ih, ← split]
    cases m
    rfl

theorem replaceChild_append {name : String} {child other : Material}
    {after : List (String × Material)} : ∀ {before : List (String × Material)},
      (∀ entry ∈ before, entry.1 ≠ name) →
      replaceChild name other (before ++ (name, child) :: after) = before ++ (name, other) :: after
  | [], _ => if_pos rfl
  | (key, m) :: before, hbefore => by
    obtain ⟨hkey, hlater⟩ := List.forall_mem_cons.mp hbefore
    rw [List.cons_append, replaceChild, if_neg hkey, replaceChild_append hlater]
    rfl

theorem mem_nodes_of_node? {node : Material} : ∀ {way : List String} {m : Material},
    m.node? way = some node → node ∈ m.nodes
  | [], m, h => by
    cases h
    exact self_mem_nodes _
  | name :: rest, m, h => by
    obtain ⟨child, hchild, hrest⟩ := Option.bind_eq_some_iff.mp h
    obtain ⟨before, after, hsplit, -⟩ := child?_eq_some hchild
    rw [nodes_of_split hsplit]
    exact List.mem_cons_of_mem _ (List.mem_append_right _
      (List.mem_append_left _ (mem_nodes_of_node? hrest)))

/-- **Above a node that is alive every node is alive**, so a change at the end of the way to it does
to the tree what it does to the node. -/
theorem run_within_of_alive {α : Type} {change : Change α} {node node' : Material}
    {studio later : Studio} {result : Except MaterialError α} (halive : node.destroyed = false)
    (hchange : (change node).run studio = ((result, node'), later)) :
    ∀ {way : List String} {m : Material}, m.Sound → m.node? way = some node →
      ∃ m', (within way change m).run studio = ((result, m'), later) ∧
        SameBut node node' way m m'
  | [], m, _, hnode => by
    cases hnode
    exact ⟨node', hchange, .here⟩
  | name :: rest, m, sound, hnode => by
    have hm : m.destroyed = false := by
      refine eq_false_of_ne_true fun hd => ?_
      have dead := sound m (self_mem_nodes m) hd
      rw [(dead node (mem_nodes_of_node? hnode)).destroyed] at halive
      cases halive
    obtain ⟨child, hchild, hrest⟩ := Option.bind_eq_some_iff.mp hnode
    have hliving : m.livingChild name = .ok child := by
      rw [livingChild, if_neg (by simp [hm]), hchild]
    obtain ⟨⟨key, _⟩, hfind, rfl⟩ := Option.map_eq_some_iff.mp hchild
    obtain ⟨hkey, before, after, hsplit, hbefore⟩ := List.find?_eq_some_iff_append.mp hfind
    obtain rfl : key = name := of_decide_eq_true hkey
    have hfirst : ∀ other ∈ before, other.1 ≠ key := by
      intro other hother
      simpa using hbefore other hother
    obtain ⟨child', hwithin, hsame⟩ := run_within_of_alive halive hchange
      ((sound_of_split hsplit hm).mp sound).2.1 hrest
    refine ⟨_, ?_, .under hsplit hfirst hsame⟩
    rw [run_within_of_ok hliving, hwithin]
    dsimp only
    rw [hsplit, replaceChild_append hfirst]

/-! ## 6. What setting does at the end of every run -/

/-- **Setting a uniform has one of two outcomes.**  Take a node of a material at the end of any run.

* It is set if and only if the node is alive and declares the uniform, the uniform is no channel
  selector, and the literal is a value of its type, or the neutral texture of the other kind.
* Otherwise the error is that of the first of these conditions that fails, and the whole tree and
  the studio stay as they are.
* If it is set, the tree is the same but for this one uniform, which takes on the value; if it has a
  slot, that slot starts again, and is of the kind of the type. -/
theorem set_outcome {library : Library} {loader : Loader} {workers : Nat} {m₀ m : Material}
    {studio₀ studio : Studio} {events : List Event}
    (built : Built library loader workers m₀ studio₀)
    (hrun : run loader events m₀ studio₀ = some (m, studio)) {way : List String} {node : Material}
    (hnode : m.node? way = some node) (name : String) (literal : Literal) :
    ∃ result m' later,
      (within way (set loader name literal) m).run studio = ((result, m'), later) ∧
      (result = .ok () ↔ ∃ uniform value, node.Accepts name literal uniform value) ∧
      (∀ error, result = .error error ↔ node.Refuses name literal error) ∧
      (∀ error, result = .error error → m' = m ∧ later = studio) ∧
      (∀ uniform value, node.Accepts name literal uniform value →
        ∃ before rest uniform', node.uniforms = before ++ uniform :: rest ∧ uniform.name = name ∧
          (∀ other ∈ before, other.name ≠ name) ∧
          TakesOn loader value uniform studio uniform' later ∧
          SameBut node { node with uniforms := before ++ uniform' :: rest } way m m') ∧
      m.Lives studio ∧ m'.Lives later := by
  have lives := lives_run hrun (lives_of_built built)
  have agrees : m.Every MaterialUniform.Agrees :=
    (preserved_agrees loader).run hrun ((preserved_agrees loader).built built)
  have hlater : ∀ {result m' later},
      (within way (set loader name literal) m).run studio = ((result, m'), later) →
        m'.Lives later := by
    intro result m' later heq
    have evolves := evolves_within (evolves_set loader name literal) way m studio
    rw [heq] at evolves
    exact lives.evolves evolves
  obtain ⟨uniform, value, haccepts⟩ | ⟨error, hrefuses⟩ := accepts_or_refuses node name literal
  · obtain ⟨before, rest, uniform', later, hsplit, hname, hfirst, takesOn, hset⟩ :=
      run_set_of_accepts haccepts (agrees node (mem_nodes_of_node? hnode)) loader studio
    obtain ⟨m', hwithin, hsame⟩ := run_within_of_alive haccepts.alive hset lives.sound hnode
    refine ⟨.ok (), m', later, hwithin, iff_of_true rfl ⟨uniform, value, haccepts⟩,
      fun error => iff_of_false (fun h => by cases h) fun hrefuses => ?_,
      fun error h => (by cases h), fun other value' hother => ?_, lives, hlater hwithin⟩
    · cases (accept_of_accepts haccepts).symm.trans (accept_of_refuses hrefuses)
    · obtain rfl := Option.some.inj (haccepts.declared.symm.trans hother.declared)
      obtain rfl := Except.ok.inj
        ((accept_of_accepts haccepts).symm.trans (accept_of_accepts hother))
      exact ⟨before, rest, uniform', hsplit, hname, hfirst, takesOn, hsame⟩
  · have hset := run_set_of_refuses hrefuses loader studio
    have hsame : (within way (set loader name literal) m).run studio =
        ((.error error, m), studio) := by
      cases hd : node.destroyed with
      | true =>
        have hdestroyed : node.Refuses name literal .alreadyDestroyed := .destroyed hd
        obtain rfl : error = .alreadyDestroyed := Except.error.inj
          ((accept_of_refuses hrefuses).symm.trans (accept_of_refuses hdestroyed))
        exact within_of_refused hset hnode
      | false =>
        obtain ⟨m', hwithin, hm'⟩ := run_within_of_alive hd hset lives.sound hnode
        rwa [hm'.eq_of_self] at hwithin
    refine ⟨.error error, m, studio, hsame, iff_of_false (fun h => by cases h) ?_,
      fun other => ⟨fun h => ?_, fun h => ?_⟩, fun _ _ => ⟨rfl, rfl⟩, ?_, lives, lives⟩
    · rintro ⟨uniform, value, haccepts⟩
      cases (accept_of_accepts haccepts).symm.trans (accept_of_refuses hrefuses)
    · cases h
      exact hrefuses
    · exact congrArg Except.error (Except.error.inj
        ((accept_of_refuses hrefuses).symm.trans (accept_of_refuses h)))
    · intro uniform value haccepts
      cases (accept_of_accepts haccepts).symm.trans (accept_of_refuses hrefuses)

namespace Example

/-- The neutral cube map for the flat texture of the sub-material: whether it is taken, and then the
slots of the tree and whether the uniforms of its nodes show the neutral flat texture. -/
def neutralized : Option (Option Unit × List (String × Nat) × List (List Bool)) :=
  match (ofFabric ⟨[]⟩ ⟨true, none⟩ ⟨true, [], []⟩ textured).run ⟨.start 1, .empty⟩ with
  | (.ok m, studio) =>
    (m.node? ["part"]).map fun _ =>
      let changed := (within ["part"] (set ⟨true, [], []⟩ "map" (.text neutralCube)) m).run studio
      (changed.1.1.toOption,
        changed.1.2.slots.map fun slot => (slot.state.name, slot.generation),
        changed.1.2.parts.map fun node => node.uniforms.map fun uniform =>
          uniform.value = .texture .neutral)
  | (.error _, _) => none

/-- **The slot of one uniform starts again**, with nothing to load, and the load of the root's slot
goes on. -/
theorem part_neutralized :
    ∃ m studio node m' later, Built ⟨[]⟩ ⟨true, [], []⟩ 1 m studio ∧
      run ⟨true, [], []⟩ [] m studio = some (m, studio) ∧ m.node? ["part"] = some node ∧
      (within ["part"] (set ⟨true, [], []⟩ "map" (.text neutralCube)) m).run studio =
        ((.ok (), m'), later) ∧
      (∃ uniform value, node.Accepts "map" (.text neutralCube) uniform value) ∧
      (m'.slots.map fun slot => (slot.state.name, slot.generation)) =
        [("unset", 2), ("loading", 1)] ∧
      (m'.parts.map fun node => node.uniforms.map fun uniform =>
        decide (uniform.value = .texture .neutral)) = [[true], [false]] ∧
      m'.Lives later := by
  have hneutral : neutralized =
      some (some (), [("unset", 2), ("loading", 1)], [[true], [false]]) := by
    decide +kernel
  unfold neutralized at hneutral
  cases hbuild : (ofFabric ⟨[]⟩ ⟨true, none⟩ ⟨true, [], []⟩ textured).run ⟨.start 1, .empty⟩ with
  | mk result studio =>
    rw [hbuild] at hneutral
    cases result with
    | error error => cases hneutral
    | ok m =>
      obtain ⟨node, hnode, heq⟩ := Option.map_eq_some_iff.mp hneutral
      have built : Built ⟨[]⟩ ⟨true, [], []⟩ 1 m studio := .ofFabric hbuild
      have hrun : run ⟨true, [], []⟩ [] m studio = some (m, studio) := rfl
      obtain ⟨result, m', later, hset, haccepts, -, -, -, -, lives⟩ :=
        set_outcome built hrun hnode "map" (.text neutralCube)
      simp only [hset, Prod.mk.injEq] at heq
      obtain ⟨hresult, hslots, hvalues⟩ := heq
      cases result with
      | error error => cases hresult
      | ok _ =>
        exact ⟨m, studio, node, m', later, built, hrun, hnode, hset, haccepts.mp rfl, hslots,
          hvalues, lives⟩

end Example

end Material

end ShaderFabric
