/-
# What an outline says about its fabric

One lemma for each step of an outline says when the step succeeds and with what.  Together they are
all that the rest of the theory needs of these steps:

* `checkNames_eq_ok_iff`: which names a node may have;
* `markUsed_eq_ok_iff`: marks are exact, and in strict mode all of them are set;
* `Draft.outline_eq_ok`: an outline declares what its draft does, marked by the body.
-/
import ShaderFabric.Material.Resolve
import ShaderFabric.Proofs.Checks
import ShaderFabric.Proofs.Table

namespace ShaderFabric

/-! ## 1. Rules of names -/

theorem checkNames_eq_ok_iff {uniforms : List (String × Literal)}
    {materials : List (String × Fabric)} :
    checkNames uniforms materials = .ok () ↔
      (∀ name ∈ uniforms.map Prod.fst, Table.contains materials name = false) ∧
      (∀ name ∈ uniforms.map Prod.fst, isReservedUniform name = false) ∧
      (∀ name ∈ materials.map Prod.fst, isReservedMaterial name = false) := by
  unfold checkNames
  split
  · rename_i name hfind
    have hmem := List.mem_of_find?_eq_some hfind
    have hcontains := List.find?_some hfind
    simp only [reduceCtorEq, false_iff]
    intro h
    rw [h.1 name hmem] at hcontains
    exact Bool.false_ne_true hcontains
  · rename_i hdup
    split
    · rename_i name hfind
      have hmem := List.mem_of_find?_eq_some hfind
      have hreserved := List.find?_some hfind
      simp only [reduceCtorEq, false_iff]
      intro h
      rw [h.2.1 name hmem] at hreserved
      exact Bool.false_ne_true hreserved
    · rename_i huniform
      split
      · rename_i name hfind
        have hmem := List.mem_of_find?_eq_some hfind
        have hreserved := List.find?_some hfind
        simp only [reduceCtorEq, false_iff]
        intro h
        rw [h.2.2 name hmem] at hreserved
        exact Bool.false_ne_true hreserved
      · rename_i hmaterial
        simp only [List.find?_eq_none, Bool.not_eq_true] at hdup huniform hmaterial
        exact iff_of_true rfl ⟨hdup, huniform, hmaterial⟩

/-! ## 2. Types and bodies -/

theorem map_fst_typeUniforms : ∀ {uniforms : List (String × Literal)}
    {typed : List (String × Value)}, typeUniforms uniforms = .ok typed →
      typed.map Prod.fst = uniforms.map Prod.fst
  | [], typed, h => by
    simp only [typeUniforms, Except.ok.injEq] at h
    subst h
    rfl
  | (name, literal) :: rest, typed, h => by
    simp only [typeUniforms] at h
    split at h
    · cases h
    · rename_i value _
      obtain ⟨others, hrest, h⟩ := bind_eq_ok.mp h
      rw [pure_eq_ok] at h
      subst h
      simp only [List.map_cons, map_fst_typeUniforms hrest]

/-- A body settles values, never names. -/
theorem map_fst_bodyOf (source : Option String) (components : Option (List (Component × String)))
    (typed : List (String × Value)) :
    (bodyOf source components typed).2.map Prod.fst = typed.map Prod.fst := by
  cases source with
  | some source =>
    simp only [bodyOf, List.map_map]
    rfl
  | none => cases components <;> rfl

/-- **What a draft keeps of its fabric**: the names, which pass the rules, the sub-materials and the
rule for blending. -/
theorem Expanded.draft_eq_ok {expanded : Expanded} {draft : Draft}
    (h : expanded.draft = .ok draft) :
    checkNames expanded.uniforms expanded.materials = .ok () ∧
      draft.uniforms.map Prod.fst = expanded.uniforms.map Prod.fst ∧
      draft.materials = expanded.materials ∧ draft.translucency = expanded.translucency := by
  unfold Expanded.draft at h
  split at h
  · obtain ⟨_, hthrow, _⟩ := bind_eq_ok.mp h
    cases hthrow
  · obtain ⟨components, _, h⟩ := bind_eq_ok.mp h
    obtain ⟨_, hnames, h⟩ := bind_eq_ok.mp h
    obtain ⟨typed, htyped, h⟩ := bind_eq_ok.mp h
    rw [pure_eq_ok] at h
    subst h
    refine ⟨hnames, ?_, rfl, rfl⟩
    simp only [map_fst_bodyOf, map_fst_typeUniforms htyped]

/-! ## 3. References -/

/-- An entry with its mark. -/
def mark {α : Type} (refers : String → α → Bool) (entry : String × α) : Declared α :=
  ⟨entry.1, entry.2, refers entry.1 entry.2⟩

/-- **Marks are exact**, and in strict mode every one of them is set. -/
theorem markUsed_eq_ok_iff {α : Type} {strict : Bool} {kind : Declares}
    {refers : String → α → Bool} : ∀ {entries : List (String × α)} {marked : List (Declared α)},
      markUsed strict kind refers entries = .ok marked ↔
        marked = entries.map (mark refers) ∧
          (strict = true → ∀ entry ∈ entries, refers entry.1 entry.2 = true)
  | [], marked => by
    simp only [markUsed, Except.ok.injEq, List.map_nil, List.not_mem_nil, false_implies,
      implies_true, and_true]
    exact eq_comm
  | (name, value) :: rest, marked => by
    simp only [markUsed, Bool.not_eq_true', List.map_cons, List.forall_mem_cons]
    split
    · rename_i hunused
      simp only [reduceCtorEq, false_iff, not_and]
      intro _ hused
      rw [(hused hunused.1).1] at hunused
      exact Bool.false_ne_true hunused.2.symm
    · rename_i hused
      simp only [bind_eq_ok, pure_eq_ok, markUsed_eq_ok_iff]
      constructor
      · rintro ⟨others, ⟨rfl, hrest⟩, rfl⟩
        refine ⟨rfl, fun hstrict => ⟨?_, hrest hstrict⟩⟩
        exact eq_true_of_ne_false fun hv => hused ⟨hstrict, hv⟩
      · rintro ⟨rfl, hall⟩
        exact ⟨_, ⟨rfl, fun hstrict => (hall hstrict).2⟩, rfl⟩

/-! ## 4. Outlines -/

/-- Whether the text of a body refers to a uniform: channel selectors count after a period too. -/
def Body.refersToUniform (body : Body) (name : String) (value : Value) : Bool :=
  mentions body.text name value.isSelector

/-- Whether the text of a body refers to a sub-material. -/
def Body.refersToMaterial (body : Body) (name : String) : Bool := mentions body.text name false

theorem outline_eq_ok {library : Library} {strict : Bool} {fabric : Fabric} {outline : Outline}
    (h : ShaderFabric.outline library strict fabric = .ok outline) :
    ∃ expanded draft, checkMembers strict fabric = .ok () ∧
      fabric.expand library = .ok expanded ∧ expanded.draft = .ok draft ∧
      draft.outline strict = .ok outline := by
  unfold ShaderFabric.outline at h
  obtain ⟨_, hmembers, h⟩ := bind_eq_ok.mp h
  obtain ⟨expanded, hexpand, h⟩ := bind_eq_ok.mp h
  obtain ⟨draft, hdraft, h⟩ := bind_eq_ok.mp h
  exact ⟨expanded, draft, hmembers, hexpand, hdraft, h⟩

theorem Draft.outline_eq_ok {strict : Bool} {draft : Draft} {outline : Outline}
    (h : draft.outline strict = .ok outline) :
    outline.uniforms = draft.uniforms.map (mark draft.body.refersToUniform) ∧
      outline.materials =
        draft.materials.map (mark fun name _ => draft.body.refersToMaterial name) ∧
      outline.body = draft.body ∧ outline.translucency = draft.translucency := by
  unfold Draft.outline at h
  obtain ⟨uniforms, huniforms, h⟩ := bind_eq_ok.mp h
  obtain ⟨materials, hmaterials, h⟩ := bind_eq_ok.mp h
  obtain ⟨_, _, h⟩ := bind_eq_ok.mp h
  rw [pure_eq_ok] at h
  subst h
  exact ⟨(markUsed_eq_ok_iff.mp huniforms).1, (markUsed_eq_ok_iff.mp hmaterials).1, rfl, rfl⟩

end ShaderFabric
