/-
# No branch outlives its allowance

`resolve` goes down with an allowance, which it computes from the sizes of the fabric and of all
templates.  Where no template has itself among its sub-materials the allowance is never used up, so
that every run ends in a tree or in an error of the rules.

The measure of a fabric is its own size and the sizes of all templates that it needs
(`Library.weight`).  A sub-material of the fabric itself is smaller and needs no more; one that
comes from a template is smaller than that template and does not need it again.

Main statement: `resolve_ne_endless`.
-/
import Mathlib.Algebra.BigOperators.Group.Finset.Basic
import Mathlib.Algebra.Order.BigOperators.Group.Finset
import Mathlib.Logic.Relation
import ShaderFabric.Proofs.Material.Tree

namespace ShaderFabric

open Relation

/-! ## 1. Templates in templates -/

/-- A fabric is a sub-material of another one, or lies below one. -/
inductive Fabric.Below : Fabric → Fabric → Prop
  | child {name : String} {child fabric : Fabric} (h : (name, child) ∈ fabric.materials) :
    Below child fabric
  | deeper {name : String} {lower child fabric : Fabric} (h : (name, child) ∈ fabric.materials)
    (below : Below lower child) : Below lower fabric

namespace Library

variable (library : Library)

/-- A template starts from another one. -/
def Extends (name base : String) : Prop :=
  ∃ template, library.get? name = some template ∧ template.fabric.typeName = some base

/-- A fabric below that of a template starts from another one. -/
def Embeds (name inner : String) : Prop :=
  ∃ template fabric, library.get? name = some template ∧
    Fabric.Below fabric template.fabric ∧ fabric.typeName = some inner

def Uses (name other : String) : Prop := library.Extends name other ∨ library.Embeds name other

/-- A template has another one among its sub-materials, or among those of templates it uses. -/
def Contains (name inner : String) : Prop :=
  ∃ outer middle, ReflTransGen library.Uses name outer ∧ library.Embeds outer middle ∧
    ReflTransGen library.Uses middle inner

/-- The templates that the expansion of a fabric can come upon. -/
def Needs (fabric : Fabric) (name : String) : Prop :=
  ∃ lower first, (lower = fabric ∨ Fabric.Below lower fabric) ∧ lower.typeName = some first ∧
    ReflTransGen library.Uses first name

variable {library}

theorem needs_of_typeName {fabric : Fabric} {first name : String}
    (h : fabric.typeName = some first) (hr : ReflTransGen library.Uses first name) :
    library.Needs fabric name := ⟨fabric, first, .inl rfl, h, hr⟩

theorem needs_of_child {fabric child : Fabric} {key name : String}
    (hc : (key, child) ∈ fabric.materials) (h : library.Needs child name) :
    library.Needs fabric name := by
  obtain ⟨lower, first, hl, htype, hr⟩ := h
  refine ⟨lower, first, .inr ?_, htype, hr⟩
  rcases hl with rfl | hl
  · exact .child hc
  · exact .deeper hc hl

/-- What a sub-material of a template needs, the template contains. -/
theorem contains_of_needs {child : Fabric} {key name inner : String} {template : Template}
    (hget : library.get? name = some template) (hc : (key, child) ∈ template.fabric.materials)
    (h : library.Needs child inner) : library.Contains name inner := by
  obtain ⟨lower, first, hl, htype, hr⟩ := h
  refine ⟨name, first, .refl, ⟨template, lower, hget, ?_, htype⟩, hr⟩
  rcases hl with rfl | hl
  · exact .child hc
  · exact .deeper hc hl

theorem Contains.uses {name inner : String} (h : library.Contains name inner) :
    ReflTransGen library.Uses name inner := by
  obtain ⟨outer, middle, ho, hembeds, hm⟩ := h
  exact ho.trans (.head (.inr hembeds) hm)

end Library

/-! ## 2. Where sub-materials come from -/

theorem mem_lineageFrom {library : Library} {name : String} {template : Template} :
    ∀ {fuel : Nat} {visited : List String} {start : Option String} {lineage : Lineage},
      lineageFrom library fuel visited start = .ok lineage → (name, template) ∈ lineage →
        library.get? name = some template ∧
          ∃ first, start = some first ∧ ReflTransGen library.Uses first name
  | fuel, visited, none, lineage, h, hmem => by
    unfold lineageFrom at h
    cases h
    exact absurd hmem List.not_mem_nil
  | fuel, visited, some first, lineage, h, hmem => by
    unfold lineageFrom at h
    split at h
    · cases h
    · split at h
      · cases h
      · rename_i base hget
        cases fuel with
        | zero => cases h
        | succ fuel =>
          obtain ⟨rest, hrest, h⟩ := bind_eq_ok.mp h
          rw [pure_eq_ok] at h
          subst h
          rcases List.mem_cons.mp hmem with heq | hmem
          · cases heq
            exact ⟨hget, name, rfl, .refl⟩
          · obtain ⟨hname, second, hsecond, hr⟩ := mem_lineageFrom hrest hmem
            exact ⟨hname, first, rfl, .head (.inl ⟨base, hget, hsecond⟩) hr⟩

theorem mem_expandOver {name : String} {child : Fabric} : ∀ {lineage : Lineage} {fabric : Fabric}
    {expanded : Expanded}, fabric.expandOver lineage = .ok expanded →
      (name, child) ∈ expanded.materials → (name, child) ∈ fabric.materials ∨
        ∃ key template, (key, template) ∈ lineage ∧ (name, child) ∈ template.fabric.materials
  | [], fabric, expanded, h, hmem => by
    simp only [Fabric.expandOver, Except.ok.injEq] at h
    subst h
    exact .inl hmem
  | (key, template) :: rest, fabric, expanded, h, hmem => by
    simp only [Fabric.expandOver] at h
    obtain ⟨base, hbase, h⟩ := bind_eq_ok.mp h
    unfold Expanded.under at h
    split at h
    · cases h
    · cases h
      rcases Table.mem_override hmem with hmem | hmem
      · rcases mem_expandOver hbase hmem with hmem | ⟨key', template', hin, hmem⟩
        · exact .inr ⟨key, template, List.mem_cons_self, hmem⟩
        · exact .inr ⟨key', template', List.mem_cons_of_mem _ hin, hmem⟩
      · exact .inl hmem

/-- **A sub-material of a node is one of its fabric's or of a template's that the fabric needs.** -/
theorem mem_expand {library : Library} {fabric child : Fabric} {expanded : Expanded}
    {name : String} (h : fabric.expand library = .ok expanded)
    (hmem : (name, child) ∈ expanded.materials) : (name, child) ∈ fabric.materials ∨
      ∃ key template, library.Needs fabric key ∧ library.get? key = some template ∧
        (name, child) ∈ template.fabric.materials := by
  unfold Fabric.expand at h
  obtain ⟨lineage, hlineage, h⟩ := bind_eq_ok.mp h
  rcases mem_expandOver h hmem with hmem | ⟨key, template, hin, hmem⟩
  · exact .inl hmem
  · obtain ⟨hget, first, htype, hr⟩ := mem_lineageFrom hlineage hin
    exact .inr ⟨key, template, Library.needs_of_typeName htype hr, hget, hmem⟩

/-! ## 3. The measure -/

theorem size_lt_of_mem {name : String} {child : Fabric} : ∀ {materials : List (String × Fabric)},
    (name, child) ∈ materials → child.size < 1 + Fabric.sizes materials
  | [], h => absurd h List.not_mem_nil
  | (key, first) :: rest, h => by
    rw [Fabric.sizes]
    rcases List.mem_cons.mp h with heq | h
    · cases heq
      omega
    · have := size_lt_of_mem h
      omega

/-- A sub-material is smaller than its fabric. -/
theorem Fabric.size_child_lt {fabric child : Fabric} {name : String}
    (h : (name, child) ∈ fabric.materials) : child.size < fabric.size := by
  cases fabric
  rw [Fabric.size]
  exact size_lt_of_mem h

namespace Library

/-- How many nodes the template of a name has in a table. -/
def sizeIn (table : Table Template) (name : String) : Nat :=
  ((table.find? name).map fun template => template.fabric.size).getD 0

/-- How many nodes the template of a name has. -/
def templateSize (library : Library) (name : String) : Nat :=
  sizeIn (library.custom ++ Template.builtins) name

open Classical in
/-- The names of the templates that a fabric needs. -/
noncomputable def needed (library : Library) (fabric : Fabric) : Finset String :=
  library.names.toFinset.filter (library.Needs fabric)

/-- The size of a fabric and of all templates that it needs. -/
noncomputable def weight (library : Library) (fabric : Fabric) : Nat :=
  fabric.size + ∑ name ∈ library.needed fabric, library.templateSize name

variable {library : Library}

theorem mem_needed {fabric : Fabric} {name : String} :
    name ∈ library.needed fabric ↔ name ∈ library.names ∧ library.Needs fabric name := by
  classical
  simp only [needed, Finset.mem_filter, List.mem_toFinset]

theorem get?_eq_find? (library : Library) (name : String) :
    library.get? name = Table.find? (library.custom ++ Template.builtins) name := by
  rw [Table.find?_append]
  rfl

theorem templateSize_eq {name : String} {template : Template}
    (h : library.get? name = some template) :
    library.templateSize name = template.fabric.size := by
  rw [get?_eq_find?] at h
  rw [templateSize, sizeIn, h, Option.map_some, Option.getD_some]

theorem mem_names_of_get? {name : String} {template : Template}
    (h : library.get? name = some template) : name ∈ library.names := by
  rw [get?_eq_find?] at h
  have hmem := Table.mem_of_find?_eq_some h
  simp only [names, Table.names]
  rw [← List.map_append]
  exact List.mem_map.mpr ⟨(name, template), hmem, rfl⟩

/-- A sub-material of the fabric itself weighs less: it is smaller and needs no more. -/
theorem weight_lt_of_own {fabric child : Fabric} {key : String}
    (h : (key, child) ∈ fabric.materials) : library.weight child < library.weight fabric := by
  have hsize := Fabric.size_child_lt h
  have hsub : library.needed child ⊆ library.needed fabric := fun name hname => by
    rw [mem_needed] at hname ⊢
    exact ⟨hname.1, needs_of_child h hname.2⟩
  have hsum := Finset.sum_le_sum_of_subset (f := library.templateSize) hsub
  simp only [weight]
  omega

/-- A sub-material from a template weighs less too: it is smaller than the template, which it does
not need again. -/
theorem weight_lt_of_template {fabric child : Fabric} {key name : String} {template : Template}
    (hacyclic : ¬ library.Contains name name) (hneeds : library.Needs fabric name)
    (hget : library.get? name = some template) (h : (key, child) ∈ template.fabric.materials) :
    library.weight child < library.weight fabric := by
  classical
  have hsize := Fabric.size_child_lt h
  have hmem : name ∈ library.needed fabric := mem_needed.mpr ⟨mem_names_of_get? hget, hneeds⟩
  have hsub : library.needed child ⊆ (library.needed fabric).erase name := fun inner hinner => by
    rw [mem_needed] at hinner
    have hcontains := contains_of_needs hget h hinner.2
    refine Finset.mem_erase.mpr ⟨?_, mem_needed.mpr ⟨hinner.1, ?_⟩⟩
    · rintro rfl
      exact hacyclic hcontains
    · obtain ⟨lower, first, hl, htype, hr⟩ := hneeds
      exact ⟨lower, first, hl, htype, hr.trans hcontains.uses⟩
  have hsum := Finset.sum_le_sum_of_subset (f := library.templateSize) hsub
  have hsplit := Finset.add_sum_erase _ library.templateSize hmem
  rw [templateSize_eq hget] at hsplit
  simp only [weight]
  omega

theorem weight_lt_of_expand (hacyclic : ∀ name, ¬ library.Contains name name)
    {fabric child : Fabric} {expanded : Expanded} {key : String}
    (h : fabric.expand library = .ok expanded) (hmem : (key, child) ∈ expanded.materials) :
    library.weight child < library.weight fabric := by
  rcases mem_expand h hmem with hmem | ⟨name, template, hneeds, hget, hmem⟩
  · exact weight_lt_of_own hmem
  · exact weight_lt_of_template (hacyclic name) hneeds hget hmem

/-- The names of a table, each once, do not have more nodes than the whole table. -/
theorem sum_sizeIn_le : ∀ table : Table Template,
    ∑ name ∈ table.names.toFinset, sizeIn table name ≤
      table.foldr (fun entry count => entry.2.fabric.size + count) 0
  | [] => by simp [Table.names]
  | (key, template) :: rest => by
    have ih := sum_sizeIn_le rest
    have hhead : sizeIn ((key, template) :: rest) key = template.fabric.size := by
      simp [sizeIn, Table.find?]
    have htail : ∀ name ∈ (Table.names rest).toFinset.erase key,
        sizeIn ((key, template) :: rest) name = sizeIn rest name := fun name hname => by
      have hne : key ≠ name := (Finset.ne_of_mem_erase hname).symm
      simp only [sizeIn, Table.find?, if_neg hne]
    have hnames : Table.names ((key, template) :: rest) = key :: Table.names rest := rfl
    rw [hnames, List.toFinset_cons, ← Finset.add_sum_erase _ _ (Finset.mem_insert_self key _),
      Finset.erase_insert_eq_erase, hhead, Finset.sum_congr rfl htail, List.foldr_cons]
    have herase := Finset.sum_le_sum_of_subset (f := sizeIn rest)
      (Finset.erase_subset key (Table.names rest).toFinset)
    exact Nat.add_le_add_left (herase.trans ih) _

theorem weight_le (library : Library) (fabric : Fabric) :
    library.weight fabric ≤ fabric.size + library.nodeCount := by
  classical
  have hsub : library.needed fabric ⊆ library.names.toFinset := Finset.filter_subset _ _
  have hnames : library.names = Table.names (library.custom ++ Template.builtins) :=
    List.map_append.symm
  calc library.weight fabric
      ≤ fabric.size + ∑ name ∈ library.names.toFinset, library.templateSize name :=
        Nat.add_le_add_left (Finset.sum_le_sum_of_subset hsub) _
    _ ≤ fabric.size + library.nodeCount := by
        rw [hnames]
        exact Nat.add_le_add_left (sum_sizeIn_le _) _

end Library

/-! ## 4. Causes of the rules -/

section Fails

variable {ε α β : Type} {p : ε → Prop}

/-- Whatever error a computation ends in has a property. -/
def Fails (p : ε → Prop) (x : Except ε α) : Prop := ∀ e, x = .error e → p e

theorem Fails.ok (a : α) : Fails p (.ok a : Except ε α) := fun _ h => nomatch h

theorem Fails.error {e : ε} (h : p e) : Fails p (.error e : Except ε α) := fun _ he => by
  cases he
  exact h

theorem Fails.bind {x : Except ε α} {f : α → Except ε β} (h : Fails p x)
    (hf : ∀ a, x = .ok a → Fails p (f a)) : Fails p (x >>= f) := by
  cases x with
  | error e => exact .error (h e rfl)
  | ok a => exact hf a rfl

end Fails

/-- The rules never blame the allowance. -/
abbrev Bounded {α : Type} (x : Except Cause α) : Prop := Fails (fun cause => cause ≠ .endless) x

theorem bounded_lineageFrom (library : Library) : ∀ (fuel : Nat) (visited : List String)
    (start : Option String), Bounded (lineageFrom library fuel visited start)
  | fuel, visited, none => by
    unfold lineageFrom
    exact .ok _
  | fuel, visited, some name => by
    unfold lineageFrom
    split
    · exact .error (by simp)
    · split
      · exact .error (by simp)
      · cases fuel with
        | zero => exact .error (by simp)
        | succ fuel => exact (bounded_lineageFrom library fuel _ _).bind fun _ _ => .ok _

theorem bounded_expandOver : ∀ (lineage : Lineage) (fabric : Fabric),
    Bounded (fabric.expandOver lineage)
  | [], _ => .ok _
  | (key, template) :: rest, fabric => by
    unfold Fabric.expandOver
    refine (bounded_expandOver rest template.fabric).bind fun base _ => ?_
    unfold Expanded.under
    split
    · exact .error (by simp)
    · exact .ok _

theorem bounded_expand (library : Library) (fabric : Fabric) : Bounded (fabric.expand library) :=
  (bounded_lineageFrom library _ _ _).bind fun lineage _ => bounded_expandOver lineage fabric

theorem bounded_typeComponents : ∀ entries : List (String × String),
    Bounded (typeComponents entries)
  | [] => .ok _
  | (name, expression) :: rest => by
    unfold typeComponents
    split
    · exact .error (by simp)
    · exact (bounded_typeComponents rest).bind fun _ _ => .ok _

theorem bounded_typeUniforms : ∀ uniforms : List (String × Literal),
    Bounded (typeUniforms uniforms)
  | [] => .ok _
  | (name, literal) :: rest => by
    unfold typeUniforms
    split
    · exact .error (by simp)
    · exact (bounded_typeUniforms rest).bind fun _ _ => .ok _

theorem bounded_checkNames (uniforms : List (String × Literal))
    (materials : List (String × Fabric)) : Bounded (checkNames uniforms materials) := by
  unfold checkNames
  repeat' split
  · exact .error (by simp)
  · exact .error (by simp)
  · exact .error (by simp)
  · exact .ok _

theorem bounded_markUsed {α : Type} (strict : Bool) (kind : Declares)
    (refers : String → α → Bool) : ∀ entries : List (String × α),
      Bounded (markUsed strict kind refers entries)
  | [] => .ok _
  | (name, value) :: rest => by
    simp only [markUsed]
    split
    · exact .error (by simp)
    · exact (bounded_markUsed strict kind refers rest).bind fun _ _ => .ok _

theorem bounded_draft (expanded : Expanded) : Bounded expanded.draft := by
  unfold Expanded.draft
  split
  · exact .error (by simp)
  · refine Fails.bind ?_ fun components _ => ?_
    · cases expanded.components with
      | none => exact .ok _
      | some entries => exact (bounded_typeComponents entries).bind fun _ _ => .ok _
    · refine (bounded_checkNames _ _).bind fun _ _ => ?_
      exact (bounded_typeUniforms _).bind fun _ _ => .ok _

theorem bounded_outline (library : Library) (strict : Bool) (fabric : Fabric) :
    Bounded (outline library strict fabric) := by
  unfold outline
  refine Fails.bind ?_ fun _ _ => ?_
  · unfold checkMembers
    split
    · exact .error (by simp)
    · exact .ok _
  · refine (bounded_expand library fabric).bind fun expanded _ => ?_
    refine (bounded_draft expanded).bind fun draft _ => ?_
    unfold Draft.outline
    refine (bounded_markUsed _ _ _ _).bind fun _ _ => ?_
    refine (bounded_markUsed _ _ _ _).bind fun _ _ => ?_
    refine Fails.bind ?_ fun _ _ => .ok _
    unfold checkAccesses
    split
    · dsimp only
      split
      · exact .error (by simp)
      · exact .ok _
    · exact .ok _

/-! ## 5. Runs end -/

theorem fails_resolveChildren {p : ResolveError → Prop}
    {resolveAt : List String → Fabric → Except ResolveError Node} {path : List String} :
    ∀ children : List (Declared Fabric),
      (∀ child ∈ children, Fails p (resolveAt (path ++ [child.name]) child.value)) →
        Fails p (resolveChildren resolveAt path children)
  | [], _ => .ok _
  | child :: rest, h => by
    have h' := List.forall_mem_cons.mp h
    unfold resolveChildren
    refine h'.1.bind fun node _ => ?_
    exact (fails_resolveChildren rest h'.2).bind fun others _ => .ok _

theorem resolveNode_ne_endless {library : Library} {strict : Bool}
    (hacyclic : ∀ name, ¬ library.Contains name name) : ∀ (fuel : Nat) (path : List String)
      (fabric : Fabric), library.weight fabric < fuel →
        Fails (fun error => error.cause ≠ .endless) (resolveNode library strict fuel path fabric)
  | 0, _, _, h => absurd h (Nat.not_lt_zero _)
  | fuel + 1, path, fabric, h => by
    unfold resolveNode
    cases hout : outline library strict fabric with
    | error cause => exact .error (bounded_outline library strict fabric cause hout)
    | ok outline =>
      refine Fails.bind ?_ fun materials _ => .ok _
      refine fails_resolveChildren _ fun child hchild => ?_
      obtain ⟨expanded, draft, -, hexpand, hdraft, hdone⟩ := outline_eq_ok hout
      have hmem : (child.name, child.value) ∈ expanded.materials := by
        rw [← (Expanded.draft_eq_ok hdraft).2.2.1]
        rw [(Draft.outline_eq_ok hdone).2.1] at hchild
        obtain ⟨entry, hentry, rfl⟩ := List.mem_map.mp hchild
        exact hentry
      have hlt := Library.weight_lt_of_expand hacyclic hexpand hmem
      exact resolveNode_ne_endless hacyclic fuel _ child.value (by omega)

/-- **Every run ends in a tree or in an error of the rules**, if no template has itself among its
sub-materials. -/
theorem resolve_ne_endless {library : Library} (hacyclic : ∀ name, ¬ library.Contains name name)
    {strict : Bool} {fabric : Fabric} {error : ResolveError}
    (h : resolve library strict fabric = .error error) : error.cause ≠ .endless :=
  resolveNode_ne_endless hacyclic _ [] fabric
    (Nat.lt_succ_of_le (Library.weight_le library fabric)) error h

end ShaderFabric
