/-
# Fabrics over the layers of their templates

A fabric names a template, whose fabric may name another one, and so on.  Here the names are
followed without any record of those already met and without an allowance (`Library.Leads`), so that
what `Fabric.expand` makes of a fabric can be told from outside:

* `Library.exists_leads`: in any library, cycles or not, the names come to an end, to a name without
  a template, or back to a name already met, in at most as many steps as there are templates;
* `Library.Leads.nodup`: before the first two of these no name comes back;
* `lineage_of_end`, `lineage_of_unknown`, `lineage_of_repeat`: what the lineage is in each case;
* `expandOver_layers`: layers of fabrics, of which one at most may define components, give what the
  nearest of them has;
* `expand_in_layers`: what this comes to for a fabric.
-/
import ShaderFabric.Proofs.Fabric.Ordered

namespace ShaderFabric

/-! ## 1. Following the names -/

namespace Library

/-- From a name that is asked for, through the templates that are met, to what the last of them asks
for. -/
inductive Leads (library : Library) : Option String → Lineage → Option String → Prop
  | stay (asked : Option String) : Leads library asked [] asked
  | step {name : String} {template : Template} {met : Lineage} {next : Option String}
    (known : library.get? name = some template)
    (rest : Leads library template.fabric.typeName met next) :
    Leads library (some name) ((name, template) :: met) next

/-- Nothing comes after what is asked for: it is no name, or one without a template. -/
def Last (library : Library) (asked : Option String) : Prop :=
  ∀ name, asked = some name → library.get? name = none

variable {library : Library}

theorem last_none : library.Last none := fun _ h => nomatch h

theorem last_some {name : String} (h : library.get? name = none) : library.Last (some name) :=
  fun _ hname => Option.some.inj hname ▸ h

namespace Leads

variable {start next : Option String} {met : Lineage}

theorem get?_eq (h : library.Leads start met next) :
    ∀ entry ∈ met, library.get? entry.1 = some entry.2 := by
  induction h with
  | stay => exact fun _ hmem => absurd hmem List.not_mem_nil
  | step known _ ih => exact List.forall_mem_cons.mpr ⟨known, ih⟩

theorem mem_names (h : library.Leads start met next) {name : String}
    (hname : name ∈ Table.names met) : ∃ template, library.get? name = some template := by
  obtain ⟨entry, hentry, rfl⟩ := List.mem_map.mp hname
  exact ⟨entry.2, h.get?_eq entry hentry⟩

/-- **Names that differ are soon used up.** -/
theorem length_le (h : library.Leads start met next) (hnodup : (Table.names met).Nodup) :
    met.length ≤ library.size := by
  have hsub : Table.names met ⊆ library.names := fun name hname =>
    have ⟨_, hget⟩ := h.mem_names hname
    mem_names_of_get? hget
  have hle := (List.subperm_of_subset hnodup hsub).length_le
  rwa [Table.names, List.length_map] at hle

/-- A name that is met leads on as the start does, in no more steps. -/
theorem of_mem (h : library.Leads start met next) {name : String} (hname : name ∈ Table.names met) :
    ∃ later, library.Leads (some name) later next ∧ later.length ≤ met.length := by
  induction h with
  | stay => exact absurd hname List.not_mem_nil
  | @step first template met next known rest ih =>
    rcases List.mem_cons.mp hname with rfl | hname
    · exact ⟨_, .step known rest, le_rfl⟩
    · obtain ⟨later, hlater, hle⟩ := ih hname
      exact ⟨later, hlater, hle.trans (Nat.le_succ _)⟩

/-- There is one way to the last of the names. -/
theorem unique (h : library.Leads start met next) (hlast : library.Last next) {met' : Lineage}
    {next' : Option String} (h' : library.Leads start met' next') (hlast' : library.Last next') :
    met = met' := by
  induction h generalizing met' with
  | stay asked =>
    cases h' with
    | stay => rfl
    | step known _ =>
      rw [hlast _ rfl] at known
      cases known
  | step known _ ih =>
    cases h' with
    | stay =>
      rw [hlast' _ rfl] at known
      cases known
    | step known' rest' =>
      obtain rfl := Option.some.inj (known.symm.trans known')
      rw [ih hlast rest']

/-- **No name comes back on the way to the last one**: from a name that came back the way would go
on as it did the first time. -/
theorem nodup (h : library.Leads start met next) (hlast : library.Last next) :
    (Table.names met).Nodup := by
  induction h with
  | stay => exact .nil
  | @step name template met next known rest ih =>
    refine List.nodup_cons.mpr ⟨fun hback => ?_, ih hlast⟩
    obtain ⟨later, hlater, hle⟩ := rest.of_mem hback
    have heq := (Leads.step known rest).unique hlast hlater hlast
    have hlength := congrArg List.length heq
    rw [List.length_cons] at hlength
    omega

end Leads

/-- **The names come to an end or come back**, whatever names have been met before: each step meets
one more of the names that the library has. -/
theorem exists_leads_from (library : Library) : ∀ (fuel : Nat) (visited : List String)
    (start : Option String), visited.Nodup → visited ⊆ library.names →
      library.size ≤ fuel + visited.length →
      ∃ met next, library.Leads start met next ∧ (visited ++ Table.names met).Nodup ∧
        (library.Last next ∨ ∃ name, next = some name ∧ name ∈ visited ++ Table.names met)
  | fuel, visited, none, hnodup, _, _ =>
    ⟨[], none, .stay _, by simpa [Table.names] using hnodup, .inl last_none⟩
  | fuel, visited, some name, hnodup, hsub, hfuel => by
    by_cases hmem : name ∈ visited
    · exact ⟨[], _, .stay _, by simpa [Table.names] using hnodup, .inr ⟨name, rfl, by simp [hmem]⟩⟩
    · cases hget : library.get? name with
      | none => exact ⟨[], _, .stay _, by simpa [Table.names] using hnodup, .inl (last_some hget)⟩
      | some template =>
        have hnodup' : (visited ++ [name]).Nodup :=
          List.nodup_append.mpr ⟨hnodup, List.nodup_singleton name, fun other hother _ hname =>
            List.mem_singleton.mp hname ▸ fun heq => hmem (heq ▸ hother)⟩
        have hsub' : visited ++ [name] ⊆ library.names :=
          List.append_subset.mpr ⟨hsub, List.cons_subset.mpr
            ⟨mem_names_of_get? hget, List.nil_subset _⟩⟩
        have hle := (List.subperm_of_subset hnodup' hsub').length_le
        rw [List.length_append, List.length_singleton] at hle
        unfold size at hfuel
        cases fuel with
        | zero => omega
        | succ fuel =>
          obtain ⟨met, next, hleads, hmet, hstop⟩ := exists_leads_from library fuel _
            template.fabric.typeName hnodup' hsub' (by
              rw [List.length_append, List.length_singleton, size]
              omega)
          rw [List.append_assoc] at hmet hstop
          exact ⟨(name, template) :: met, next, .step hget hleads, hmet, hstop⟩

/-- **Every start leads somewhere**: to the end, to a name without a template, or back to a name
already met. -/
theorem exists_leads (library : Library) (start : Option String) :
    ∃ met next, library.Leads start met next ∧ (Table.names met).Nodup ∧
      met.length ≤ library.size ∧
        (library.Last next ∨ ∃ name, next = some name ∧ name ∈ Table.names met) := by
  obtain ⟨met, next, hleads, hnodup, hstop⟩ :=
    exists_leads_from library library.size [] start .nil (List.nil_subset _) (Nat.le_add_right _ _)
  exact ⟨met, next, hleads, hnodup, hleads.length_le hnodup, hstop⟩

end Library

/-! ## 2. Lineages -/

section Lineage

variable {library : Library}

/-- As long as no name comes back, a lineage takes up what is met. -/
theorem lineageFrom_of_leads {start next : Option String} {met : Lineage}
    (h : library.Leads start met next) : ∀ {fuel : Nat} {visited : List String},
      (visited ++ Table.names met).Nodup → met.length ≤ fuel →
        lineageFrom library fuel visited start =
          (met ++ ·) <$>
            lineageFrom library (fuel - met.length) (visited ++ Table.names met) next := by
  induction h with
  | stay asked =>
    intro fuel visited _ _
    simp [Table.names]
  | @step name template met next known rest ih =>
    intro fuel visited hnodup hfuel
    have hfresh : name ∉ visited := fun hmem =>
      (List.nodup_append.mp hnodup).2.2 name hmem name List.mem_cons_self rfl
    have hsplit : visited ++ Table.names ((name, template) :: met) =
        visited ++ [name] ++ Table.names met := by
      rw [List.append_assoc]
      rfl
    rw [hsplit] at hnodup ⊢
    cases fuel with
    | zero => exact absurd hfuel (Nat.not_succ_le_zero _)
    | succ fuel =>
      have hrest := ih hnodup (Nat.le_of_succ_le_succ hfuel)
      rw [lineageFrom, if_neg hfresh, known]
      dsimp only
      rw [hrest, List.length_cons, Nat.add_sub_add_right]
      cases lineageFrom library (fuel - met.length) (visited ++ [name] ++ Table.names met) next with
      | error cause => rfl
      | ok later => rfl

variable {fabric : Fabric} {met : Lineage} {name : String}

theorem lineage_of_leads {next : Option String} (h : library.Leads fabric.typeName met next)
    (hnodup : (Table.names met).Nodup) : fabric.lineage library =
      (met ++ ·) <$> lineageFrom library (library.size - met.length) (Table.names met) next := by
  have hlineage := @lineageFrom_of_leads library _ _ _ h library.size [] hnodup
    (h.length_le hnodup)
  rwa [List.nil_append] at hlineage

theorem lineage_of_end (h : library.Leads fabric.typeName met none) :
    fabric.lineage library = .ok met := by
  rw [lineage_of_leads h (h.nodup Library.last_none)]
  unfold lineageFrom
  exact congrArg Except.ok (List.append_nil met)

theorem lineage_of_unknown (h : library.Leads fabric.typeName met (some name))
    (hunknown : library.get? name = none) :
    fabric.lineage library = .error (.unknownType name) := by
  have hfresh : name ∉ Table.names met := fun hmem => by
    obtain ⟨template, hget⟩ := h.mem_names hmem
    rw [hunknown] at hget
    cases hget
  rw [lineage_of_leads h (h.nodup (Library.last_some hunknown))]
  unfold lineageFrom
  rw [if_neg hfresh, hunknown]
  rfl

theorem lineage_of_repeat (h : library.Leads fabric.typeName met (some name))
    (hnodup : (Table.names met).Nodup) (hback : name ∈ Table.names met) :
    fabric.lineage library = .error (.selfReference name) := by
  rw [lineage_of_leads h hnodup]
  unfold lineageFrom
  rw [if_pos hback]
  rfl

end Lineage

/-! ## 3. Layers -/

/-- A fabric and those of the templates met from it, nearest first. -/
def Fabric.layers (fabric : Fabric) (met : Lineage) : List Fabric :=
  fabric :: met.map fun entry => entry.2.fabric

/-- How many of some fabrics define components. -/
def definers (layers : List Fabric) : Nat := layers.countP fun fabric => fabric.components.isSome

/-- **What a fabric has from its layers**: of a uniform, of a sub-material as a whole, of components
and of a source what the nearest layer has, its own members without a meaning, and the rule for
blending of the nearest template that ever blends. -/
structure Expanded.Layered (fabric : Fabric) (met : Lineage) (merged : Expanded) : Prop where
  uniforms_sorted : Table.Sorted merged.uniforms
  materials_sorted : Table.Sorted merged.materials
  uniform : ∀ name, Table.find? merged.uniforms name =
    (fabric.layers met).findSome? fun layer => Table.find? layer.uniforms name
  material : ∀ name, Table.find? merged.materials name =
    (fabric.layers met).findSome? fun layer => Table.find? layer.materials name
  components : merged.components = (fabric.layers met).findSome? Fabric.components
  source : merged.source = (fabric.layers met).findSome? Fabric.source
  unknown : merged.unknown = fabric.unknown
  translucency : merged.translucency =
    ((met.map fun entry => entry.2.translucency).find? fun rule => rule ≠ .never).getD .never

/-- A fabric of the layers defines components that one layer below it defines already, and starts
from the template of a name. -/
def Fabric.Redefines (fabric : Fabric) (met : Lineage) (name : String) : Prop :=
  ∃ before upper below, fabric.layers met = before ++ upper :: below ∧
    upper.components.isSome = true ∧ upper.typeName = some name ∧ definers below = 1

theorem definers_cons (fabric : Fabric) (layers : List Fabric) :
    definers (fabric :: layers) = definers layers + if fabric.components.isSome then 1 else 0 :=
  List.countP_cons

theorem definers_pos_iff {layers : List Fabric} :
    0 < definers layers ↔ (layers.findSome? Fabric.components).isSome = true := by
  rw [definers, List.countP_pos_iff, List.findSome?_isSome_iff]

theorem layers_cons (fabric : Fabric) (name : String) (template : Template) (met : Lineage) :
    fabric.layers ((name, template) :: met) = fabric :: template.fabric.layers met := rfl

/-- A fabric on its own is its only layer. -/
theorem layered_ofFabric {fabric : Fabric} (h : fabric.Ordered) :
    (Expanded.ofFabric fabric).Layered fabric [] where
  uniforms_sorted := h.uniforms
  materials_sorted := h.materials
  uniform name := by
    show Table.find? fabric.uniforms name = [fabric].findSome? _
    rw [List.findSome?_singleton]
  material name := by
    show Table.find? fabric.materials name = [fabric].findSome? _
    rw [List.findSome?_singleton]
  components := by
    show fabric.components = [fabric].findSome? _
    rw [List.findSome?_singleton]
  source := by
    show fabric.source = [fabric].findSome? _
    rw [List.findSome?_singleton]
  unknown := rfl
  translucency := rfl

theorem findSome?_layers {α : Type} (f : Fabric → Option α) (fabric : Fabric) (name : String)
    (template : Template) (met : Lineage) :
    (fabric.layers ((name, template) :: met)).findSome? f =
      (f fabric).or ((template.fabric.layers met).findSome? f) := by
  rw [layers_cons, List.findSome?_cons]
  cases f fabric <;> rfl

/-- **One more layer on top**: it counts before those below it. -/
theorem layered_under {fabric : Fabric} (hfabric : fabric.Ordered) {name : String}
    {template : Template} {met : Lineage} {base merged : Expanded}
    (hbase : base.Layered template.fabric met)
    (h : base.under fabric name template.translucency = .ok merged) :
    merged.Layered fabric ((name, template) :: met) := by
  unfold Expanded.under at h
  split at h
  · cases h
  · cases h
    constructor
    · exact Table.sorted_override hbase.uniforms_sorted
    · exact Table.sorted_override hbase.materials_sorted
    · intro other
      rw [findSome?_layers, ← hbase.uniform, Table.find?_override_sorted hfabric.uniforms]
    · intro other
      rw [findSome?_layers, ← hbase.material, Table.find?_override_sorted hfabric.materials]
    · rw [findSome?_layers, ← hbase.components]
    · rw [findSome?_layers, ← hbase.source]
    · rfl
    · show template.translucency.orElse base.translucency = _
      rw [List.map_cons, List.find?_cons, hbase.translucency]
      cases template.translucency <;> rfl

/-- **Layers of which one at most defines components are laid over each other**; of more, the second
from below is refused. -/
theorem expandOver_of_end {library : Library} (hlibrary : library.Ordered) : ∀ {met : Lineage}
    {fabric : Fabric}, library.Leads fabric.typeName met none → fabric.Ordered →
      (definers (fabric.layers met) ≤ 1 →
        ∃ merged, fabric.expandOver met = .ok merged ∧ merged.Layered fabric met) ∧
      (1 < definers (fabric.layers met) →
        ∃ name, fabric.Redefines met name ∧
          fabric.expandOver met = .error (.componentsTwice name))
  | [], fabric, _, hfabric => by
    refine ⟨fun _ => ⟨_, rfl, layered_ofFabric hfabric⟩, fun hmore => ?_⟩
    have hone : definers (fabric.layers []) ≤ 1 := List.countP_le_length
    omega
  | (name, template) :: met, fabric, h, hfabric => by
    generalize htype : fabric.typeName = start at h
    cases h with
    | step known rest =>
      obtain ⟨hlaid, hrefused⟩ := expandOver_of_end hlibrary rest (hlibrary name template known)
      rw [layers_cons, definers_cons]
      by_cases hmany : 1 < definers (template.fabric.layers met)
      · -- the layers below are refused already
        obtain ⟨other, ⟨before, upper, below, hsplit, hupper⟩, herror⟩ := hrefused hmany
        refine ⟨fun hfew => by omega, fun _ => ⟨other, ?_, ?_⟩⟩
        · exact ⟨fabric :: before, upper, below, congrArg (fabric :: ·) hsplit, hupper⟩
        · rw [Fabric.expandOver, herror]
          rfl
      · obtain ⟨base, hbase, hlayered⟩ := hlaid (Nat.not_lt.mp hmany)
        have hbelow : 0 < definers (template.fabric.layers met) ↔
            base.components.isSome = true := by
          rw [definers_pos_iff, ← hlayered.components]
        rw [Fabric.expandOver, hbase]
        by_cases hclash : base.components.isSome = true ∧ fabric.components.isSome = true
        · have hone : definers (template.fabric.layers met) = 1 := by
            have := hbelow.mpr hclash.1
            omega
          refine ⟨fun hfew => ?_, fun _ => ⟨name, ?_, if_pos hclash⟩⟩
          · rw [if_pos hclash.2] at hfew
            omega
          · exact ⟨[], fabric, template.fabric.layers met, rfl, hclash.2, htype, hone⟩
        · have hunder : base.under fabric name template.translucency = .ok _ := if_neg hclash
          refine ⟨fun _ => ⟨_, hunder, layered_under hfabric hlayered hunder⟩, fun hmore => ?_⟩
          split at hmore
          · rename_i hown
            exact absurd ⟨hbelow.mp (by omega), hown⟩ hclash
          · omega

/-! ## 4. What a fabric expands to -/

theorem checkMembers_eq_ok {strict : Bool} {fabric : Fabric}
    (h : strict = true → fabric.unknown = []) : checkMembers strict fabric = .ok () := by
  cases strict with
  | false => rfl
  | true =>
    unfold checkMembers
    rw [h rfl]

/-- A source beside components is refused as soon as a fabric has been expanded. -/
theorem outline_of_bothBodies {library : Library} {strict : Bool} {fabric : Fabric}
    {merged : Expanded} (h : fabric.expand library = .ok merged)
    (hsource : merged.source.isSome = true) (hcomponents : merged.components.isSome = true)
    (hmembers : strict = true → fabric.unknown = []) :
    outline library strict fabric = .error .bothBodies := by
  have hdraft : merged.draft = .error .bothBodies := if_pos ⟨hsource, hcomponents⟩
  rw [outline, checkMembers_eq_ok hmembers, h]
  show merged.draft >>= _ = _
  rw [hdraft]
  rfl

/-- **A fabric expands to the layers of its templates.**  From the name that it asks for the names
lead, in at most as many steps as there are templates, to an end, to a name without a template, or
back to a name that was met; and these three are what the answer depends on:

* a name that comes back, or a name without a template, is refused under that name;
* layers of which more than one define components are refused under the name that the second such
  layer from below starts from;
* all other layers are laid over each other.

A fabric that then has both a source and components is refused, by itself and at every place of a
tree; only a member without a meaning is refused before that, in strict mode. -/
theorem expand_in_layers {library : Library} (hlibrary : library.Ordered) {fabric : Fabric}
    (hfabric : fabric.Ordered) :
    (∃ met next, library.Leads fabric.typeName met next ∧ (Table.names met).Nodup ∧
      met.length ≤ library.size ∧
        (library.Last next ∨ ∃ name, next = some name ∧ name ∈ Table.names met)) ∧
    (∀ met name, library.Leads fabric.typeName met (some name) → (Table.names met).Nodup →
      name ∈ Table.names met → fabric.expand library = .error (.selfReference name)) ∧
    (∀ met name, library.Leads fabric.typeName met (some name) → library.get? name = none →
      (Table.names met).Nodup ∧ fabric.expand library = .error (.unknownType name)) ∧
    (∀ met, library.Leads fabric.typeName met none → (Table.names met).Nodup ∧
      (1 < definers (fabric.layers met) → ∃ name, fabric.Redefines met name ∧
        fabric.expand library = .error (.componentsTwice name)) ∧
      (definers (fabric.layers met) ≤ 1 → ∃ merged, fabric.expand library = .ok merged ∧
        merged.Layered fabric met)) ∧
    (∀ merged strict, fabric.expand library = .ok merged → merged.source.isSome = true →
      merged.components.isSome = true → (strict = true → fabric.unknown = []) →
      resolve library strict fabric = .error ⟨[], .bothBodies⟩ ∧
        ∀ fuel path, resolveNode library strict (fuel + 1) path fabric =
          .error ⟨path, .bothBodies⟩) ∧
    (∀ field value rest, fabric.unknown = (field, value) :: rest →
      resolve library true fabric = .error ⟨[], .unknownField field⟩) := by
  refine ⟨library.exists_leads fabric.typeName, fun met name h hnodup hback => ?_,
    fun met name h hunknown => ⟨h.nodup (Library.last_some hunknown), ?_⟩,
    fun met h => ⟨h.nodup Library.last_none, ?_⟩,
    fun merged strict h hsource hcomponents hmembers => ?_, fun field value rest hunknown => ?_⟩
  · rw [Fabric.expand, lineage_of_repeat h hnodup hback]
    rfl
  · rw [Fabric.expand, lineage_of_unknown h hunknown]
    rfl
  · obtain ⟨hlaid, hrefused⟩ := expandOver_of_end hlibrary h hfabric
    rw [Fabric.expand, lineage_of_end h]
    exact ⟨hrefused, hlaid⟩
  · have hout : outline library strict fabric = .error .bothBodies :=
      outline_of_bothBodies h hsource hcomponents hmembers
    have hnode : ∀ fuel path, resolveNode library strict (fuel + 1) path fabric =
        .error ⟨path, .bothBodies⟩ := fun fuel path => by
      rw [resolveNode, hout]
    exact ⟨hnode _ [], hnode⟩
  · have hout : outline library true fabric = .error (.unknownField field) := by
      unfold outline checkMembers
      rw [hunknown]
      rfl
    rw [resolve, resolveNode, hout]

/-! ## 5. Two layers and a cycle -/

namespace Example

/-- A grey surface of the template for colours. -/
def rock : Template where
  name := "Rock"
  fabric := ((Fabric.ofType "Color").withUniform "color" (Template.shade 500 500 500 1000))
    |>.withUniform "grain" (Template.decimal 2 1)
  translucency := .always

/-- Two templates that start from each other, and one that starts from a built-in one. -/
def strata : Library where
  custom := [("Ebb", ⟨"Ebb", Fabric.ofType "Flow", .never⟩),
    ("Flow", ⟨"Flow", Fabric.ofType "Ebb", .never⟩), ("Rock", rock)]

/-- A fabric with a colour of its own. -/
def slate : Fabric :=
  (Fabric.ofType "Rock").withUniform "color" (Template.shade 200 200 300 1000)

theorem strata_ordered : strata.Ordered := by
  refine Library.ordered_of_custom fun entry hmem => ?_
  have hmem : entry ∈ [_, _, _] := hmem
  simp only [List.mem_cons, List.not_mem_nil, or_false] at hmem
  rcases hmem with rfl | rfl | rfl
  · exact .ofType _
  · exact .ofType _
  · exact ((Fabric.Ordered.ofType _).withUniform _ _).withUniform _ _

theorem slate_ordered : slate.Ordered := (Fabric.Ordered.ofType _).withUniform _ _

theorem slate_leads :
    strata.Leads slate.typeName [("Rock", rock), ("Color", Template.color)] none :=
  .step rfl (.step rfl (.stay _))

/-- The fabric is laid over two templates, and a cycle is found where it closes. -/
theorem slate_in_layers : strata.Ordered ∧ slate.Ordered ∧ (Fabric.ofType "Ebb").Ordered ∧
    (∃ merged, slate.expand strata = .ok merged ∧
      merged.Layered slate [("Rock", rock), ("Color", Template.color)]) ∧
    (Fabric.ofType "Ebb").expand strata = .error (.selfReference "Ebb") := by
  refine ⟨strata_ordered, slate_ordered, .ofType _, ?_, ?_⟩
  · exact ((expand_in_layers strata_ordered slate_ordered).2.2.2.1 _ slate_leads).2.2
      (by decide +kernel)
  · exact (expand_in_layers strata_ordered (Fabric.Ordered.ofType "Ebb")).2.1
      [("Ebb", ⟨"Ebb", Fabric.ofType "Flow", .never⟩),
        ("Flow", ⟨"Flow", Fabric.ofType "Ebb", .never⟩)]
      "Ebb" (.step rfl (.step rfl (.stay _))) (by decide) (by decide)

/-- A source, components, and a member without a meaning. -/
def noted : Fabric :=
  { components := some [("diffuse", "vec3(1.0)")], source := some "x", unknown := [("note", .null)] }

/-- Strict mode looks for members without a meaning first: with one of them, both bodies are not
what the fabric is refused for. -/
theorem noted_refused_first : noted.Ordered ∧
    (∃ merged, noted.expand Library.empty = .ok merged ∧ merged.source.isSome = true ∧
      merged.components.isSome = true) ∧
    resolve Library.empty true noted = .error ⟨[], .unknownField "note"⟩ ∧
    resolve Library.empty true noted ≠ .error ⟨[], .bothBodies⟩ := by
  have hresolve : resolve Library.empty true noted = .error ⟨[], .unknownField "note"⟩ := rfl
  refine ⟨.intro .nil .nil fun _ _ h => absurd h List.not_mem_nil, ⟨_, rfl, rfl, rfl⟩, hresolve,
    fun h => ?_⟩
  rw [hresolve] at h
  cases h

end Example

end ShaderFabric
