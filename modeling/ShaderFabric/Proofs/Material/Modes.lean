/-
# Strict mode only refuses more

A strict run and a lenient run walk the same tree in the same order; strict mode adds checks between
the others.  `Follows` is the relation between two such runs, and it is kept by every step of
`resolve`:

* `Follows.bind`: runs in a row follow each other step by step;
* `outline_follows`, `resolveNode_follows`: one node, and a whole tree;
* `resolve_modes_agree`: what the two answers say of each other.
-/
import ShaderFabric.Proofs.Material.Depth

namespace ShaderFabric

/-! ## 1. Runs that follow each other -/

/-- The causes that strict mode alone has. -/
def Cause.isStrictOnly : Cause → Bool
  | .unknownField _ | .unused _ _ | .unknownReference _ _ => true
  | _ => false

/-- A strict run beside a lenient one.  If it ends well, so does the lenient one, with the same
result, and that is a good one.  If it fails, then either for a reason that strict mode alone has,
or the lenient run fails with the same error. -/
def Follows {ε α : Type} (tolerated : ε → Prop) (good : α → Prop) (strict lenient : Except ε α) :
    Prop :=
  match strict with
  | .ok a => lenient = .ok a ∧ good a
  | .error e => tolerated e ∨ lenient = .error e

namespace Follows

variable {ε α β : Type} {tolerated : ε → Prop} {good : α → Prop} {better : β → Prop}

/-- A step that does not depend on the mode. -/
theorem refl (x : Except ε α) : Follows tolerated (fun _ => True) x x := by
  cases x with
  | ok a => exact ⟨rfl, trivial⟩
  | error e => exact .inr rfl

theorem pure {a : α} (h : good a) :
    Follows tolerated good (Pure.pure a : Except ε α) (Pure.pure a) := ⟨rfl, h⟩

/-- **Runs in a row**: the lenient run can only have failed where the strict one has. -/
theorem bind {x y : Except ε α} {f g : α → Except ε β} (h : Follows tolerated good x y)
    (hf : ∀ a, good a → Follows tolerated better (f a) (g a)) :
    Follows tolerated better (x >>= f) (y >>= g) := by
  cases x with
  | ok a =>
    obtain ⟨rfl, hgood⟩ := h
    exact hf a hgood
  | error e =>
    rcases h with htolerated | rfl
    · exact .inl htolerated
    · exact .inr rfl

/-- What a lenient failure says of the strict run. -/
theorem strict_of_lenient_error {x y : Except ε α} (h : Follows tolerated good x y) {e : ε}
    (hy : y = .error e) : x = .error e ∨ ∃ e', x = .error e' ∧ tolerated e' := by
  cases x with
  | ok a => exact absurd (h.1.symm.trans hy) (by simp)
  | error e' =>
    rcases h with htolerated | hlenient
    · exact .inr ⟨e', rfl, htolerated⟩
    · exact .inl (hlenient.symm.trans hy)

/-- What a strict failure says of the lenient run. -/
theorem lenient_of_strict_error {x y : Except ε α} (h : Follows tolerated good x y) {e : ε}
    (hx : x = .error e) (he : ¬ tolerated e) : y = .error e := by
  subst hx
  exact h.resolve_left he

end Follows

/-! ## 2. One node -/

/-- A run of checks that strict mode may refuse in its own way. -/
abbrev CauseFollows {α : Type} (good : α → Prop) (strict lenient : Except Cause α) : Prop :=
  Follows (fun cause : Cause => cause.isStrictOnly = true) good strict lenient

theorem checkMembers_follows (fabric : Fabric) :
    CauseFollows (fun _ => True) (checkMembers true fabric) (checkMembers false fabric) := by
  cases hu : fabric.unknown with
  | nil => simp [checkMembers, hu, Follows]
  | cons entry rest => simp [checkMembers, hu, Follows, Cause.isStrictOnly]

theorem checkAccesses_follows (body : Body) (materials : List String) :
    CauseFollows (fun _ => True) (checkAccesses true body materials)
      (checkAccesses false body materials) := by
  cases body with
  | plain => exact .refl _
  | source text => exact .refl _
  | components assignments =>
    simp only [checkAccesses]
    split
    · exact .inl rfl
    · exact .refl _

/-- Strict marks are lenient marks, all of them set. -/
theorem markUsed_follows {α : Type} (kind : Declares) (refers : String → α → Bool) :
    ∀ entries : List (String × α),
      CauseFollows (fun marked : List (Declared α) => ∀ entry ∈ marked, entry.used = true)
        (markUsed true kind refers entries) (markUsed false kind refers entries)
  | [] => .pure (fun _ h => absurd h List.not_mem_nil)
  | (name, value) :: rest => by
    cases hrefers : refers name value with
    | false => simp [markUsed, hrefers, Follows, Cause.isStrictOnly]
    | true =>
      simp only [markUsed, hrefers, Bool.not_true, Bool.false_eq_true, and_false, if_false]
      exact (markUsed_follows kind refers rest).bind fun marked hmarked =>
        .pure (List.forall_mem_cons.mpr ⟨rfl, hmarked⟩)

/-- Every declaration of an outline has its mark set. -/
def Outline.AllUsed (outline : Outline) : Prop :=
  (∀ uniform ∈ outline.uniforms, uniform.used = true) ∧
    ∀ child ∈ outline.materials, child.used = true

theorem draft_outline_follows (draft : Draft) :
    CauseFollows Outline.AllUsed (draft.outline true) (draft.outline false) := by
  unfold Draft.outline
  refine (markUsed_follows _ _ _).bind fun uniforms huniforms => ?_
  refine (markUsed_follows _ _ _).bind fun materials hmaterials => ?_
  exact (checkAccesses_follows _ _).bind fun _ _ => .pure ⟨huniforms, hmaterials⟩

theorem outline_follows (library : Library) (fabric : Fabric) :
    CauseFollows Outline.AllUsed (outline library true fabric) (outline library false fabric) := by
  unfold outline
  refine (checkMembers_follows fabric).bind fun _ _ => ?_
  refine (Follows.refl (fabric.expand library)).bind fun expanded _ => ?_
  exact (Follows.refl expanded.draft).bind fun draft _ => draft_outline_follows draft

/-! ## 3. The whole tree -/

/-- Every declaration of a tree has its mark set. -/
inductive Node.AllUsed : Node → Prop
  | intro {node : Node} (uniforms : ∀ uniform ∈ node.uniforms, uniform.used = true)
      (materials : ∀ child ∈ node.materials, child.used = true)
      (below : ∀ child ∈ node.materials, child.value.AllUsed) : node.AllUsed

/-- The same for errors that name their node. -/
abbrev ErrorFollows {α : Type} (good : α → Prop) (strict lenient : Except ResolveError α) : Prop :=
  Follows (fun error : ResolveError => error.cause.isStrictOnly = true) good strict lenient

theorem resolveChildren_follows
    {strictAt lenientAt : List String → Fabric → Except ResolveError Node}
    (h : ∀ path fabric, ErrorFollows Node.AllUsed (strictAt path fabric) (lenientAt path fabric))
    (path : List String) : ∀ children : List (Declared Fabric),
      (∀ child ∈ children, child.used = true) →
        ErrorFollows (fun materials : List (Declared Node) =>
            ∀ child ∈ materials, child.used = true ∧ child.value.AllUsed)
          (resolveChildren strictAt path children) (resolveChildren lenientAt path children)
  | [], _ => .pure (fun _ h => absurd h List.not_mem_nil)
  | child :: rest, hused => by
    have hused' := List.forall_mem_cons.mp hused
    unfold resolveChildren
    refine (h (path ++ [child.name]) child.value).bind fun node hnode => ?_
    refine (resolveChildren_follows h path rest hused'.2).bind fun others hothers => ?_
    exact .pure (List.forall_mem_cons.mpr ⟨⟨hused'.1, hnode⟩, hothers⟩)

theorem resolveNode_follows (library : Library) : ∀ (fuel : Nat) (path : List String)
    (fabric : Fabric), ErrorFollows Node.AllUsed (resolveNode library true fuel path fabric)
      (resolveNode library false fuel path fabric)
  | 0, _, _ => .inr rfl
  | fuel + 1, path, fabric => by
    have hout := outline_follows library fabric
    unfold resolveNode
    cases hs : outline library true fabric with
    | error cause =>
      rw [hs] at hout
      rcases hout with htolerated | hlenient
      · exact .inl htolerated
      · rw [hlenient]
        exact .inr rfl
    | ok outline =>
      rw [hs] at hout
      obtain ⟨hlenient, huniforms, hmaterials⟩ := hout
      rw [hlenient]
      refine (resolveChildren_follows (resolveNode_follows library fuel) path _ hmaterials).bind
        fun materials hall => ?_
      exact .pure (.intro huniforms (fun child h => (hall child h).1)
        fun child h => (hall child h).2)

/-- Where every mark is set, every node is part of the program. -/
theorem emitted_of_allUsed (node : Node) : node.AllUsed →
    ∀ program ∈ (composeNode true node).nodes, program.emitted = true := by
  induction node using Node.induct with
  | step node ih =>
    rintro ⟨-, hmaterials, hbelow⟩ program hmem
    rw [Program.nodes_eq, materials_composeNode, List.flatMap_map] at hmem
    rcases List.mem_append.mp hmem with hmem | hmem
    · obtain ⟨child, hchild, hmem⟩ := List.mem_flatMap.mp hmem
      rw [hmaterials child hchild, Bool.and_true] at hmem
      exact ih child hchild (hbelow child hchild) program hmem
    · rw [List.mem_singleton.mp hmem, emitted_composeNode]

/-! ## 4. The two answers -/

/-- **Strict mode only refuses more.**  Where no template has itself among its sub-materials, both
modes answer every fabric with a tree or with an error of the rules, and

* a tree of the strict run is also that of the lenient one; all of its declarations are used, and
  all of its nodes are part of the program;
* where the lenient run fails, the strict one fails with the same error or for a cause of its own;
* a strict failure for any other cause is also the lenient one. -/
theorem resolve_modes_agree {library : Library} (hacyclic : ∀ name, ¬ library.Contains name name)
    (fabric : Fabric) :
    (∀ strict error, resolve library strict fabric = .error error → error.cause ≠ .endless) ∧
    (∀ root, resolve library true fabric = .ok root → resolve library false fabric = .ok root ∧
      root.AllUsed ∧ ∀ program ∈ (compose root).nodes, program.emitted = true) ∧
    (∀ error, resolve library false fabric = .error error →
      resolve library true fabric = .error error ∨
        ∃ strictError, resolve library true fabric = .error strictError ∧
          strictError.cause.isStrictOnly = true) ∧
    ∀ error, resolve library true fabric = .error error → error.cause.isStrictOnly = false →
      resolve library false fabric = .error error := by
  have hfollows : ErrorFollows Node.AllUsed (resolve library true fabric)
      (resolve library false fabric) := resolveNode_follows library _ [] fabric
  refine ⟨fun strict error h => resolve_ne_endless hacyclic h, fun root h => ?_,
    fun error h => hfollows.strict_of_lenient_error h,
    fun error h hcause => hfollows.lenient_of_strict_error h (by simp [hcause])⟩
  rw [h] at hfollows
  exact ⟨hfollows.1, hfollows.2, emitted_of_allUsed root hfollows.2⟩

/-! ## 5. A template with a sub-material -/

namespace Example

/-- A template around one of the built-in ones. -/
def layered : Template :=
  { name := "Layered"
    fabric :=
      { materials := [("base", Fabric.ofType "Color")]
        components := some [("diffuse", "base.diffuse")] }
    translucency := .never }

def layers : Library := ⟨[("Layered", layered)]⟩

theorem builtins_bare : ∀ entry ∈ Template.builtins,
    entry.2.fabric.typeName = none ∧ entry.2.fabric.materials.isEmpty = true := by
  decide

theorem layers_uses {name other : String} (h : layers.Uses name other) :
    name = "Layered" ∧ other = "Color" := by
  have hget : ∀ {template : Template}, layers.get? name = some template →
      (name = "Layered" ∧ template = layered) ∨
        (template.fabric.typeName = none ∧ template.fabric.materials = []) := by
    intro template ht
    rw [Library.get?_eq_find?] at ht
    rcases List.mem_append.mp (Table.mem_of_find?_eq_some ht) with hmem | hmem
    · have heq := List.mem_singleton.mp hmem
      rw [Prod.mk.injEq] at heq
      exact .inl heq
    · have hbare := builtins_bare _ hmem
      exact .inr ⟨hbare.1, List.isEmpty_iff.mp hbare.2⟩
  rcases h with ⟨template, ht, htype⟩ | ⟨template, fabric, ht, hbelow, htype⟩
  · rcases hget ht with ⟨-, rfl⟩ | ⟨hnone, -⟩
    · cases htype
    · rw [hnone] at htype
      cases htype
  · rcases hget ht with ⟨hname, rfl⟩ | ⟨-, hempty⟩
    · refine ⟨hname, ?_⟩
      cases hbelow with
      | child hmem =>
        cases List.mem_singleton.mp hmem
        exact (Option.some.inj htype).symm
      | deeper hmem hlower =>
        cases List.mem_singleton.mp hmem
        cases hlower with
        | child hmem => exact absurd hmem List.not_mem_nil
        | deeper hmem _ => exact absurd hmem List.not_mem_nil
    · cases hbelow with
      | child hmem => rw [hempty] at hmem; exact absurd hmem List.not_mem_nil
      | deeper hmem _ => rw [hempty] at hmem; exact absurd hmem List.not_mem_nil

theorem layers_acyclic (name : String) : ¬ layers.Contains name name := by
  rintro ⟨outer, middle, houter, hembeds, hmiddle⟩
  obtain ⟨rfl, rfl⟩ := layers_uses (.inr hembeds)
  have last : ∀ {inner : String}, Relation.ReflTransGen layers.Uses "Color" inner →
      inner = "Color" := by
    intro inner hr
    rcases hr.cases_head with heq | ⟨next, hnext, -⟩
    · exact heq.symm
    · exact absurd (layers_uses hnext).1 (by decide)
  obtain rfl := last hmiddle
  exact absurd (last houter) (by decide)

/-- Both modes make the same tree of the template, and every node of it is part of the program. -/
theorem layers_modes_agree : (∀ name, ¬ layers.Contains name name) ∧
    ∃ root, resolve layers true (Fabric.ofType "Layered") = .ok root ∧
      resolve layers false (Fabric.ofType "Layered") = .ok root ∧
      ∀ program ∈ (compose root).nodes, program.emitted = true := by
  refine ⟨layers_acyclic, ?_⟩
  have hok : (resolve layers true (Fabric.ofType "Layered")).isOk = true := by decide +kernel
  cases hroot : resolve layers true (Fabric.ofType "Layered") with
  | error error =>
    rw [hroot] at hok
    cases hok
  | ok root =>
    have h := (resolve_modes_agree layers_acyclic (Fabric.ofType "Layered")).2.1 root hroot
    exact ⟨root, rfl, h.1, h.2.2⟩

end Example

end ShaderFabric
