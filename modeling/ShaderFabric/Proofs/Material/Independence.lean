/-
# Text does not depend on values

A program is kept by its text, so two fabrics that differ only in the values of uniforms have to
compose to one text.  Values do reach the rules: they are typed, the letters of a channel selector
are written into the text, and a neutral texture takes the kind that hand-written text declares.
`Value.Alike` says that two values agree in just that, and the two runs are then led side by side:

* `Matches` -- two runs that fail alike or end in related results, kept by `Matches.bind`;
* `expand_matches`, `draft_matches`, `outline_matches` -- one node;
* `resolveNode_matches` -- a whole tree, and `sameText_composeNode` -- its program;
* `text_independent_of_values` -- what this comes to for `resolve` and `compose`.
-/
import ShaderFabric.Proofs.Material.Modes
import ShaderFabric.Proofs.Material.Text

namespace ShaderFabric

/-! ## 1. What text can tell of a value -/

namespace Value

/-- Whether the value is a neutral texture. -/
def isNeutral : Value → Bool
  | texture .neutral | cube .neutral => true
  | _ => false

/-- **Two values that text cannot tell apart**: of one type, the same selector if they are
selectors, and both or neither a neutral texture. -/
structure Alike (v w : Value) : Prop where
  kind : v.kind = w.kind
  selector : v.selector? = w.selector?
  neutral : v.isNeutral = w.isNeutral

theorem isSelector_eq (v : Value) : v.isSelector = v.selector?.isSome := by
  cases v <;> rfl

theorem Alike.refl (v : Value) : v.Alike v := ⟨rfl, rfl, rfl⟩

variable {v w : Value}

theorem Alike.isSelector (h : v.Alike w) : v.isSelector = w.isSelector := by
  rw [isSelector_eq, isSelector_eq, h.selector]

/-- There is one neutral texture of each kind. -/
theorem Alike.eq_of_isNeutral (h : v.Alike w) (hv : v.isNeutral = true) : v = w := by
  have hw : w.isNeutral = true := h.neutral ▸ hv
  have hkind := h.kind
  unfold isNeutral at hv hw
  split at hv
  · split at hw
    · rfl
    · cases hkind
    · cases hw
  · split at hw
    · cases hkind
    · rfl
    · cases hw
  · cases hv

/-- Only a neutral texture takes another type. -/
theorem retype?_of_not_isNeutral (h : v.isNeutral = false) (kind : Kind) :
    v.retype? kind = none := by
  unfold retype?
  split
  · cases h
  · cases h
  · rfl

/-- **Values that text cannot tell apart settle alike.** -/
theorem Alike.settle (declared : List Declaration) (name : String) (h : v.Alike w) :
    (settle declared name v).Alike (settle declared name w) := by
  induction declared generalizing v w with
  | nil => exact h
  | cons declaration rest ih =>
    refine ih ?_
    dsimp only
    split
    · cases hv : v.isNeutral with
      | true =>
        rw [h.eq_of_isNeutral hv]
        exact .refl _
      | false =>
        have hnone : ∀ {u : Value}, u.isNeutral = false → ∀ kind : Option Kind,
            (kind.bind u.retype?).getD u = u := by
          intro u hu kind
          cases kind with
          | none => rfl
          | some kind => rw [Option.bind_some, retype?_of_not_isNeutral hu, Option.getD_none]
        rw [hnone hv, hnone (h.neutral ▸ hv)]
        exact h
    · exact h

end Value

/-- **Two literals that text cannot tell apart**: the same, or both of values that it cannot tell
apart. -/
def Literal.Alike (a b : Literal) : Prop :=
  a = b ∨ ∃ v w, a.infer = .ok v ∧ b.infer = .ok w ∧ v.Alike w

/-- What text can tell of the value of a literal, if it has one. -/
def Literal.shown (literal : Literal) : Option (Kind × Option String × Bool) :=
  literal.infer.toOption.map fun v => (v.kind, v.selector?, v.isNeutral)

/-- Literals with a value are alike if text can tell the same of both. -/
theorem Literal.alike_of_shown {a b : Literal} (what : Kind × Option String × Bool)
    (ha : a.shown = some what) (hb : b.shown = some what) : a.Alike b := by
  have hvalue : ∀ {c : Literal}, c.shown = some what →
      ∃ v, c.infer = .ok v ∧ (v.kind, v.selector?, v.isNeutral) = what := by
    intro c hc
    unfold Literal.shown at hc
    cases hv : c.infer with
    | error reason => rw [hv] at hc; cases hc
    | ok v => rw [hv] at hc; exact ⟨v, rfl, Option.some.inj hc⟩
  obtain ⟨v, hv, rfl⟩ := hvalue ha
  obtain ⟨w, hw, heq⟩ := hvalue hb
  simp only [Prod.mk.injEq] at heq
  exact .inr ⟨v, w, hv, hw, ⟨heq.1.symm, heq.2.1.symm, heq.2.2.symm⟩⟩

/-- **Two fabrics that are equal but for the values of uniforms**, which text cannot tell apart. -/
inductive Fabric.Alike : Fabric → Fabric → Prop
  | intro {f g : Fabric} (typeName : f.typeName = g.typeName)
    (uniforms : Table.Rel Literal.Alike f.uniforms g.uniforms)
    (materials : Table.Rel Fabric.Alike f.materials g.materials)
    (components : f.components = g.components) (source : f.source = g.source)
    (unknown : f.unknown = g.unknown) : Fabric.Alike f g

/-! ## 2. Fabrics -/

mutual

/-- A fabric is alike itself. -/
theorem Fabric.Alike.refl : ∀ f : Fabric, f.Alike f
  | ⟨_, _, materials, _, _, _⟩ =>
    .intro rfl (.refl fun _ _ => .inl rfl) (Fabric.alike_refl_materials materials) rfl rfl rfl

theorem Fabric.alike_refl_materials : ∀ materials : List (String × Fabric),
    Table.Rel Fabric.Alike materials materials
  | [] => .nil
  | (_, child) :: rest => .cons (Fabric.Alike.refl child) (Fabric.alike_refl_materials rest)

end

mutual

/-- Fabrics that are alike have as many nodes. -/
theorem Fabric.Alike.size_eq : ∀ {f g : Fabric}, f.Alike g → f.size = g.size
  | ⟨_, _, _, _, _, _⟩, ⟨_, _, _, _, _, _⟩, .intro _ _ materials _ _ _ => by
    rw [Fabric.size, Fabric.size, Fabric.sizes_eq materials]

theorem Fabric.sizes_eq : ∀ {s t : List (String × Fabric)}, Table.Rel Fabric.Alike s t →
    Fabric.sizes s = Fabric.sizes t
  | _, _, .nil => rfl
  | _, _, .cons h rest => by
    rw [Fabric.sizes, Fabric.sizes, h.size_eq, Fabric.sizes_eq rest]

end

/-! ## 3. Runs side by side -/

/-- Two runs that end in the same error or in related results. -/
inductive Matches {ε α β : Type} (R : α → β → Prop) : Except ε α → Except ε β → Prop
  | ok {a : α} {b : β} (h : R a b) : Matches R (.ok a) (.ok b)
  | error (e : ε) : Matches R (.error e) (.error e)

namespace Matches

variable {ε α β γ δ : Type} {R : α → β → Prop} {S : γ → δ → Prop}

/-- A run beside itself. -/
theorem refl (x : Except ε α) : Matches Eq x x := by
  cases x with
  | ok a => exact .ok rfl
  | error e => exact .error e

/-- Both runs fail, or both end. -/
theorem elim {x : Except ε α} {y : Except ε β} (h : Matches R x y) :
    (∃ e, x = .error e ∧ y = .error e) ∨ ∃ a b, x = .ok a ∧ y = .ok b ∧ R a b := by
  cases h with
  | ok hab => exact .inr ⟨_, _, rfl, rfl, hab⟩
  | error e => exact .inl ⟨e, rfl, rfl⟩

/-- **Runs in a row**: what comes after related results has to match. -/
theorem bind {x : Except ε α} {y : Except ε β} {f : α → Except ε γ} {g : β → Except ε δ}
    (h : Matches R x y) (hf : ∀ a b, R a b → Matches S (f a) (g b)) :
    Matches S (x >>= f) (y >>= g) := by
  cases h with
  | ok hab => exact hf _ _ hab
  | error e => exact .error e

end Matches

/-! ## 4. One node -/

/-- Expanded fabrics that are alike. -/
structure Expanded.Alike (x y : Expanded) : Prop where
  uniforms : Table.Rel Literal.Alike x.uniforms y.uniforms
  materials : Table.Rel Fabric.Alike x.materials y.materials
  components : x.components = y.components
  source : x.source = y.source

/-- Drafts that are alike. -/
structure Draft.Alike (x y : Draft) : Prop where
  uniforms : Table.Rel Value.Alike x.uniforms y.uniforms
  materials : Table.Rel Fabric.Alike x.materials y.materials
  body : x.body = y.body

/-- Declarations of one name and one mark, of related values. -/
inductive Declared.Rel {α β : Type} (R : α → β → Prop) : Declared α → Declared β → Prop
  | intro {name : String} {a : α} {b : β} {used : Bool} (h : R a b) :
    Declared.Rel R ⟨name, a, used⟩ ⟨name, b, used⟩

/-- Outlines that are alike. -/
structure Outline.Alike (x y : Outline) : Prop where
  uniforms : List.Forall₂ (Declared.Rel Value.Alike) x.uniforms y.uniforms
  materials : List.Forall₂ (Declared.Rel Fabric.Alike) x.materials y.materials
  body : x.body = y.body

/-- **Expansion**: the templates are the same, so only the fabrics on top of them differ. -/
theorem expand_matches (library : Library) {f g : Fabric} (h : f.Alike g) :
    Matches Expanded.Alike (f.expand library) (g.expand library) := by
  obtain ⟨htype, huniforms, hmaterials, hcomponents, hsource, -⟩ := h
  unfold Fabric.expand Fabric.lineage
  rw [htype]
  refine (Matches.refl _).bind fun lineage _ heq => ?_
  subst heq
  cases lineage with
  | nil => exact .ok ⟨huniforms, hmaterials, hcomponents, hsource⟩
  | cons first rest =>
    unfold Fabric.expandOver
    refine (Matches.refl _).bind fun base _ heq => ?_
    subst heq
    unfold Expanded.under
    rw [hcomponents, hsource]
    split
    · exact .error _
    · have hbase : Table.Rel Literal.Alike base.uniforms base.uniforms :=
        .refl fun _ _ => .inl rfl
      have hbelow : Table.Rel Fabric.Alike base.materials base.materials :=
        .refl fun entry _ => .refl entry.2
      exact .ok ⟨hbase.override huniforms, hbelow.override hmaterials, rfl, rfl⟩

theorem typeUniforms_matches {s t : List (String × Literal)} (h : Table.Rel Literal.Alike s t) :
    Matches (Table.Rel Value.Alike) (typeUniforms s) (typeUniforms t) := by
  induction h with
  | nil => exact .ok .nil
  | @cons name a b upper lower hab _ ih =>
    -- a literal without a type is the same in both runs
    have hvalues : (∃ reason, a.infer = .error reason ∧ b.infer = .error reason) ∨
        ∃ v w, a.infer = .ok v ∧ b.infer = .ok w ∧ v.Alike w := by
      rcases hab with rfl | hab
      · cases ha : a.infer with
        | error reason => exact .inl ⟨reason, rfl, rfl⟩
        | ok v => exact .inr ⟨v, v, rfl, rfl, .refl v⟩
      · exact .inr hab
    unfold typeUniforms
    rcases hvalues with ⟨reason, ha, hb⟩ | ⟨v, w, ha, hb, hvw⟩
    · rw [ha, hb]
      exact .error _
    · rw [ha, hb]
      exact ih.bind fun _ _ hrest => .ok (.cons hvw hrest)

theorem checkNames_eq {s t : List (String × Literal)} {m n : List (String × Fabric)}
    (huniforms : Table.Rel Literal.Alike s t) (hmaterials : Table.Rel Fabric.Alike m n) :
    checkNames s m = checkNames t n := by
  have hcontains : Table.contains m = Table.contains n :=
    funext hmaterials.contains_eq
  unfold checkNames
  rw [huniforms.names_eq, hmaterials.names_eq, hcontains]

theorem bodyOf_alike (source : Option String) (components : Option (List (Component × String)))
    {s t : List (String × Value)} (h : Table.Rel Value.Alike s t) :
    (bodyOf source components s).1 = (bodyOf source components t).1 ∧
      Table.Rel Value.Alike (bodyOf source components s).2 (bodyOf source components t).2 := by
  cases source with
  | none => cases components <;> exact ⟨rfl, h⟩
  | some source =>
    refine ⟨?_, ?_⟩
    · show Body.source _ = Body.source _
      rw [h.names_eq]
    · show Table.Rel Value.Alike (s.map _) (t.map _)
      induction h with
      | nil => exact .nil
      | cons hvw _ ih => exact .cons (hvw.settle _ _) ih

theorem draft_matches {x y : Expanded} (h : x.Alike y) :
    Matches Draft.Alike x.draft y.draft := by
  obtain ⟨huniforms, hmaterials, hcomponents, hsource⟩ := h
  unfold Expanded.draft
  rw [hcomponents, hsource, checkNames_eq huniforms hmaterials]
  split
  · exact .error _
  · refine (Matches.refl _).bind fun components _ heq => ?_
    subst heq
    refine (Matches.refl _).bind fun _ _ _ => ?_
    refine (typeUniforms_matches huniforms).bind fun s t hst => ?_
    obtain ⟨hbody, hsettled⟩ := bodyOf_alike y.source components hst
    exact .ok ⟨hsettled, hmaterials, hbody⟩

/-- Marks depend on what text can tell of a value. -/
theorem markUsed_matches {α : Type} {R : α → α → Prop} (strict : Bool) (kind : Declares)
    {refers : String → α → Bool} (hrefers : ∀ name a b, R a b → refers name a = refers name b)
    {s t : List (String × α)} (h : Table.Rel R s t) :
    Matches (List.Forall₂ (Declared.Rel R)) (markUsed strict kind refers s)
      (markUsed strict kind refers t) := by
  induction h with
  | nil => exact .ok .nil
  | @cons name a b _ _ hab _ ih =>
    simp only [markUsed, hrefers name a b hab]
    split
    · exact .error _
    · exact ih.bind fun _ _ hrest => .ok (.cons (.intro hab) hrest)

theorem draft_outline_matches (strict : Bool) {x y : Draft} (h : x.Alike y) :
    Matches Outline.Alike (x.outline strict) (y.outline strict) := by
  obtain ⟨huniforms, hmaterials, hbody⟩ := h
  have hselector : ∀ name (v w : Value), v.Alike w →
      mentions y.body.text name v.isSelector = mentions y.body.text name w.isSelector :=
    fun _ _ _ hvw => by rw [hvw.isSelector]
  unfold Draft.outline
  rw [hbody, hmaterials.names_eq]
  refine (markUsed_matches strict .uniform hselector huniforms).bind fun _ _ hu => ?_
  refine (markUsed_matches strict .material (fun _ _ _ _ => rfl) hmaterials).bind
    fun _ _ hm => ?_
  exact (Matches.refl _).bind fun _ _ _ => .ok ⟨hu, hm, rfl⟩

/-- **One node**: the same broken rule, or outlines that are alike. -/
theorem outline_matches (library : Library) (strict : Bool) {f g : Fabric} (h : f.Alike g) :
    Matches Outline.Alike (outline library strict f) (outline library strict g) := by
  have hexpand := expand_matches library h
  obtain ⟨-, -, -, -, -, hunknown⟩ := h
  unfold outline checkMembers
  rw [hunknown]
  refine (Matches.refl _).bind fun _ _ _ => ?_
  refine hexpand.bind fun x y hxy => ?_
  exact (draft_matches hxy).bind fun _ _ hdraft => draft_outline_matches strict hdraft

/-! ## 5. Trees -/

/-- **Two resolved trees that are equal but for values** that text cannot tell apart. -/
inductive Node.Alike : Node → Node → Prop
  | intro {m n : Node} (path : m.path = n.path) (typeName : m.typeName = n.typeName)
    (uniforms : List.Forall₂ (Declared.Rel Value.Alike) m.uniforms n.uniforms)
    (materials : List.Forall₂ (Declared.Rel Node.Alike) m.materials n.materials)
    (body : m.body = n.body) : Node.Alike m n

theorem resolveChildren_matches {resolveAt : List String → Fabric → Except ResolveError Node}
    (h : ∀ path f g, f.Alike g → Matches Node.Alike (resolveAt path f) (resolveAt path g))
    (path : List String) {s t : List (Declared Fabric)}
    (hst : List.Forall₂ (Declared.Rel Fabric.Alike) s t) :
    Matches (List.Forall₂ (Declared.Rel Node.Alike)) (resolveChildren resolveAt path s)
      (resolveChildren resolveAt path t) := by
  induction hst with
  | nil => exact .ok .nil
  | cons hfirst _ ih =>
    obtain ⟨hfg⟩ := hfirst
    unfold resolveChildren
    refine (h _ _ _ hfg).bind fun _ _ hnode => ?_
    exact ih.bind fun _ _ hrest => .ok (.cons (.intro hnode) hrest)

theorem resolveNode_matches (library : Library) (strict : Bool) : ∀ (fuel : Nat)
    (path : List String) (f g : Fabric), f.Alike g →
      Matches Node.Alike (resolveNode library strict fuel path f)
        (resolveNode library strict fuel path g)
  | 0, _, _, _, _ => .error _
  | fuel + 1, path, f, g, h => by
    obtain ⟨htype, -, -, -, -, -⟩ := id h
    unfold resolveNode
    rcases (outline_matches library strict h).elim with
      ⟨cause, hf, hg⟩ | ⟨first, second, hf, hg, huniforms, hmaterials, hbody⟩
    · rw [hf, hg]
      exact .error _
    · rw [hf, hg]
      refine (resolveChildren_matches (resolveNode_matches library strict fuel) path
        hmaterials).bind fun _ _ hbelow => ?_
      exact .ok (.intro rfl htype huniforms hbelow hbody)

/-! ## 6. Programs -/

/-- What a program says of a uniform: its name, its identifier and its type. -/
def ProgramUniform.face (uniform : ProgramUniform) : String × Option String × Kind :=
  (uniform.name, uniform.mangled, uniform.value.kind)

/-- **Two programs of one text, node by node**: the same functions, the same nodes part of the
program, the same texts and the same uniforms, whatever their values. -/
inductive Program.SameText : Program → Program → Prop
  | intro {p q : Program} (path : p.path = q.path) (typeName : p.typeName = q.typeName)
    (function : p.function = q.function) (emitted : p.emitted = q.emitted)
    (text : p.text = q.text) (source : p.source = q.source)
    (uniforms : p.uniforms.map ProgramUniform.face = q.uniforms.map ProgramUniform.face)
    (materials : Table.Rel Program.SameText p.materials q.materials) : Program.SameText p q

section Uniforms

variable {s t : List (Declared Value)} (h : List.Forall₂ (Declared.Rel Value.Alike) s t)

include h

theorem face_composeUniform (emitted : Bool) (path : List String) :
    (s.map (composeUniform emitted path)).map ProgramUniform.face =
      (t.map (composeUniform emitted path)).map ProgramUniform.face := by
  rw [List.map_map, List.map_map]
  refine map_eq_of_forall₂ ?_ h
  rintro _ _ ⟨hvw⟩
  simp only [Function.comp_apply, composeUniform, ProgramUniform.face, hvw.isSelector, hvw.kind]

/-- Both runs replace references to a uniform by the letters of the same selector, or else by the
same identifier. -/
theorem uniformReplacements_alike (path : List String) :
    uniformReplacements path s = uniformReplacements path t := by
  rw [uniformReplacements_eq, uniformReplacements_eq]
  induction h with
  | nil => rfl
  | @cons a b upper lower hab _ ih =>
    obtain @⟨name, v, w, used, hvw⟩ := hab
    cases used with
    | false => exact ih
    | true =>
      have hfirst : Declared.replacement path ⟨name, v, true⟩ =
          Declared.replacement path ⟨name, w, true⟩ := by
        unfold Declared.replacement
        rw [hvw.selector]
      rw [List.filter_cons_of_pos rfl, List.filter_cons_of_pos rfl, List.map_cons, List.map_cons,
        ih, hfirst]

end Uniforms

/-- What a line declares of a uniform is part of its face. -/
theorem declaredOf_eq_of_face {s t : List ProgramUniform}
    (h : s.map ProgramUniform.face = t.map ProgramUniform.face) : declaredOf s = declaredOf t := by
  have hfaces : ∀ uniforms : List ProgramUniform, declaredOf uniforms =
      (uniforms.map ProgramUniform.face).filterMap fun face =>
        face.2.1.map fun name => (name, face.2.2) := by
    intro uniforms
    rw [List.filterMap_map]
    rfl
  rw [hfaces, hfaces, h]

/-- Calls are made of names and marks alone. -/
theorem materialReplacements_alike {s t : List (Declared Node)}
    (h : List.Forall₂ (Declared.Rel Node.Alike) s t) (path : List String) :
    materialReplacements path s = materialReplacements path t := by
  unfold materialReplacements
  induction h with
  | nil => rfl
  | cons hchild _ ih =>
    obtain ⟨_⟩ := hchild
    rw [List.filterMap_cons, List.filterMap_cons, ih]

theorem replacements_alike {m n : Node} (h : m.Alike n) : replacements m = replacements n := by
  obtain ⟨hpath, -, huniforms, hmaterials, hbody⟩ := h
  unfold replacements
  rw [hpath, hbody, uniformReplacements_alike huniforms, materialReplacements_alike hmaterials]

/-- **The text of a node** is made of what text can tell of its values. -/
theorem nodeText_alike {m n : Node} (h : m.Alike n) (emitted : Bool) :
    nodeText m (m.uniforms.map (composeUniform emitted m.path)) =
      nodeText n (n.uniforms.map (composeUniform emitted n.path)) := by
  have hreplaced := replacements_alike h
  obtain ⟨hpath, -, huniforms, -, hbody⟩ := h
  unfold nodeText
  rw [hreplaced, hpath, hbody, join_declarationLine, join_declarationLine,
    declaredOf_eq_of_face (face_composeUniform huniforms emitted n.path)]

theorem sources_eq_of_sameText {s t : List (String × Program)}
    (h : Table.Rel Program.SameText s t) : Program.sources s = Program.sources t := by
  induction h with
  | nil => rfl
  | cons hfirst _ ih =>
    obtain ⟨-, -, -, -, -, hsource, -, -⟩ := hfirst
    rw [Program.sources, Program.sources, hsource, ih]

theorem composeChildren_sameText (emitted : Bool) {s t : List (Declared Node)}
    (h : List.Forall₂ (Declared.Rel Node.Alike) s t)
    (ih : ∀ child ∈ s, ∀ (n : Node) (emitted : Bool), child.value.Alike n →
      (composeNode emitted child.value).SameText (composeNode emitted n)) :
    Table.Rel Program.SameText (composeChildren emitted s) (composeChildren emitted t) := by
  induction h with
  | nil => exact .nil
  | cons hfirst _ ihrest =>
    obtain ⟨hchild⟩ := hfirst
    exact .cons (ih _ List.mem_cons_self _ _ hchild)
      (ihrest fun child hmem => ih child (List.mem_cons_of_mem _ hmem))

/-- **Trees that are alike compose to programs of one text.** -/
theorem sameText_composeNode (m : Node) : ∀ (n : Node) (emitted : Bool), m.Alike n →
    (composeNode emitted m).SameText (composeNode emitted n) := by
  induction m using Node.induct with
  | step m ih =>
    intro n emitted h
    have hnode := nodeText_alike h emitted
    obtain ⟨hpath, htype, huniforms, hmaterials, hbody⟩ := h
    have hbelow := composeChildren_sameText emitted hmaterials ih
    have hsources := sources_eq_of_sameText hbelow
    have hfaces : (composeNode emitted m).uniforms.map ProgramUniform.face =
        (composeNode emitted n).uniforms.map ProgramUniform.face := by
      rw [uniforms_composeNode, uniforms_composeNode, hpath]
      exact face_composeUniform huniforms emitted n.path
    have htext : (composeNode emitted m).text = (composeNode emitted n).text := by
      cases m
      cases n
      cases emitted with
      | false => rfl
      | true => exact hnode
    have hsource : (composeNode emitted m).source = (composeNode emitted n).source := by
      cases m
      cases n
      exact congrArg₂ (· ++ ·) hsources htext
    refine .intro ?_ ?_ ?_ ?_ htext hsource hfaces ?_
    · rw [path_composeNode, path_composeNode, hpath]
    · cases m
      cases n
      exact htype
    · rw [function_composeNode, function_composeNode, hpath]
    · rw [emitted_composeNode, emitted_composeNode]
    · cases m
      cases n
      exact hbelow

/-! ## 7. Whole fabrics -/

/-- **Text does not depend on values.**  Two fabrics that are equal but for the values of uniforms
which text cannot tell apart fail with one error of the rules, or both resolve, and then compose to
programs of one text. -/
theorem text_independent_of_values {library : Library}
    (hacyclic : ∀ name, ¬ library.Contains name name) (strict : Bool) {f g : Fabric}
    (h : f.Alike g) :
    (∃ error, error.cause ≠ .endless ∧ resolve library strict f = .error error ∧
      resolve library strict g = .error error) ∨
    ∃ first second, resolve library strict f = .ok first ∧
      resolve library strict g = .ok second ∧ (compose first).SameText (compose second) := by
  have hmatches : Matches Node.Alike (resolve library strict f) (resolve library strict g) := by
    unfold resolve
    rw [h.size_eq]
    exact resolveNode_matches library strict _ [] f g h
  rcases hmatches.elim with ⟨error, hf, hg⟩ | ⟨first, second, hf, hg, halike⟩
  · exact .inl ⟨error, resolve_ne_endless hacyclic hf, hf, hg⟩
  · exact .inr ⟨first, second, hf, hg, sameText_composeNode first second true halike⟩

namespace Example

/-- A node with a tint, an image and a selector, above a template and a hand-written sub-material
whose cube map starts out as the neutral texture of the other kind. -/
def tinted (tint : Literal) (image : String) : Fabric :=
  { uniforms := [("image", .text image), ("swizzle", .text "bgr"), ("tint", tint)]
    materials := [("base", Fabric.ofType "Layered"),
      ("sky",
        { uniforms := [("faces", .text neutralImage), ("level", tint)]
          source := some ("uniform samplerCube faces;\nuniform vec3 level;\n"
            ++ "fabric_material fabric_getMaterial(fabric_materialInput m)\n"
            ++ "\x7b return lit(textureCube(faces, m.normalEC).rgb * level); \x7d\n") })]
    components := some [("diffuse", "base.diffuse * tint.swizzle + sky.diffuse"),
      ("emission", "texture2D(image, materialInput.st).swizzle")] }

/-- Three numbers by name and three in a row. -/
def named : Literal := .xyz (Double.ofInt 1) (Double.ofInt 2) (Double.ofInt 3)

def row : Literal := .sequence [Double.ofInt 4, Double.ofInt 5, Double.ofInt 6]

theorem tinted_alike : (tinted named "brick.png").Alike (tinted row "stone.png") := by
  have hvectors : named.Alike row :=
    Literal.alike_of_shown (.vec3, none, false) (by decide) (by decide)
  have himages : (Literal.text "brick.png").Alike (Literal.text "stone.png") :=
    Literal.alike_of_shown (.sampler2D, none, false) (by decide)
      (by decide)
  have hsame : ∀ literal : Literal, literal.Alike literal := fun _ => .inl rfl
  refine .intro rfl (.cons himages (.cons (hsame _) (.cons hvectors .nil))) ?_ rfl rfl rfl
  refine .cons (.refl _) (.cons ?_ .nil)
  exact .intro rfl (.cons (hsame _) (.cons hvectors .nil)) .nil rfl rfl rfl

/-- Two tints and two images, and one text. -/
theorem tinted_text : (∀ name, ¬ layers.Contains name name) ∧
    ∃ first second, resolve layers true (tinted named "brick.png") = .ok first ∧
      resolve layers true (tinted row "stone.png") = .ok second ∧
      (compose first).SameText (compose second) := by
  refine ⟨layers_acyclic, ?_⟩
  have hok : (resolve layers true (tinted named "brick.png")).isOk = true := by decide +kernel
  rcases text_independent_of_values layers_acyclic true tinted_alike with ⟨error, -, hf, -⟩ | h
  · rw [hf] at hok
    cases hok
  · exact h

end Example

end ShaderFabric
