/-
# A library only grows

Templates are offered to a library one after the other; some are registered, some refused.  Whatever
has been offered, the library lists each of its names once (`Library.Regular`, `names_nodup`), and a
fabric that resolved, or failed for any other reason than a name without a template, is answered in
the same way after one more template has been registered:

* `Library.regular_offeredAll`: what holds of the templates after any row of offers;
* `Library.Within`: every name of one library has the same template in another one;
* `expand_within`, `outline_within`, `resolveNode_within`: a larger library follows a smaller one,
  step by step;
* `registration_keeps_answers`: what this comes to for `resolve`, whose allowance grows with the
  library.
-/
import ShaderFabric.Proofs.Config.Registration
import ShaderFabric.Proofs.Material.Allowance
import ShaderFabric.Proofs.Material.Layers

namespace ShaderFabric

/-! ## 1. Offers -/

namespace Library

/-- The library after a row of templates has been offered to it. -/
def offeredAll (library : Library) (templates : List Template) : Library :=
  templates.foldl (fun library template => (library.register template).2) library

/-- **A library as registrations make it**: its own templates are under their own names, which have
no blanks at their ends, are not empty and none of a built-in template. -/
structure Regular (library : Library) : Prop where
  sorted : library.custom.Sorted
  trimmed : ∀ entry ∈ library.custom, trimBlanks entry.1 = entry.1
  named : ∀ entry ∈ library.custom, entry.1 ≠ ""
  own_name : ∀ entry ∈ library.custom, entry.2.name = entry.1
  not_builtin : ∀ entry ∈ library.custom, Template.builtins.find? entry.1 = none

variable {library next : Library} {template : Template}

/-- **What a registration does**: the name without the blanks at its ends is new, and the template
is put under it. -/
theorem register_eq_ok_iff : library.register template = (.ok (), next) ↔
    trimBlanks template.name ≠ "" ∧ library.contains (trimBlanks template.name) = false ∧
      next = ⟨library.custom.insert (trimBlanks template.name)
        { template with name := trimBlanks template.name }⟩ := by
  unfold register
  dsimp only
  split
  · rename_i hempty
    simp [hempty]
  · rename_i hname
    split
    · rename_i htaken
      simp [htaken]
    · rename_i hfree
      simp only [Prod.mk.injEq, ne_eq, hname, not_false_eq_true, true_and, hfree]
      exact eq_comm

/-- An offer is refused when its name is empty or taken. -/
theorem refused_iff : (∃ error, (library.register template).1 = .error error) ↔
    trimBlanks template.name = "" ∨ library.contains (trimBlanks template.name) = true := by
  unfold register
  dsimp only
  split
  · rename_i hempty
    exact iff_of_true ⟨_, rfl⟩ (.inl hempty)
  · rename_i hname
    split
    · rename_i htaken
      exact iff_of_true ⟨_, rfl⟩ (.inr htaken)
    · rename_i hfree
      exact iff_of_false (fun ⟨_, h⟩ => by cases h) fun h => h.elim hname hfree

theorem regular_empty : empty.Regular where
  sorted := .nil
  trimmed _ h := absurd h List.not_mem_nil
  named _ h := absurd h List.not_mem_nil
  own_name _ h := absurd h List.not_mem_nil
  not_builtin _ h := absurd h List.not_mem_nil

theorem Regular.register (hregular : library.Regular) (h : library.register template = (.ok (), next)) :
    next.Regular := by
  obtain ⟨hname, hfree, rfl⟩ := register_eq_ok_iff.mp h
  have hbuiltin := (contains_eq_false.mp hfree).2
  constructor
  · exact Table.sorted_insert hregular.sorted _ _
  all_goals
    intro entry hmem
    rcases Table.mem_insert hmem with rfl | hmem
  · exact trimBlanks_trimBlanks template.name
  · exact hregular.trimmed entry hmem
  · exact hname
  · exact hregular.named entry hmem
  · rfl
  · exact hregular.own_name entry hmem
  · exact hbuiltin
  · exact hregular.not_builtin entry hmem

/-- **A template that is refused leaves the library as it is.** -/
theorem register_of_refused {error : RegisterError}
    (h : (library.register template).1 = .error error) :
    (library.register template).2 = library := by
  unfold register at h ⊢
  dsimp only at h ⊢
  split at h
  · rename_i hempty
    rw [if_pos hempty]
  · rename_i hname
    rw [if_neg hname]
    split at h
    · rename_i htaken
      rw [if_pos htaken]
    · cases h

/-- **What one offer keeps.** -/
theorem Regular.offered (hregular : library.Regular) (template : Template) :
    (library.register template).2.Regular := by
  cases h : (library.register template).1 with
  | ok _ => exact hregular.register (Prod.ext h rfl)
  | error error => exact (register_of_refused h).symm ▸ hregular

/-- **Any row of offers leaves a regular library.** -/
theorem regular_offeredAll : ∀ (templates : List Template) {library : Library}, library.Regular →
    (library.offeredAll templates).Regular
  | [], _, h => h
  | template :: rest, _, h => regular_offeredAll rest (h.offered template)

/-! ## 2. Names -/

theorem names_builtins_nodup : Template.builtins.names.Nodup := by decide

theorem mem_names_iff (library : Library) (name : String) :
    name ∈ library.names ↔ (library.get? name).isSome = true := by
  constructor
  · intro h
    rw [get?_eq_find?]
    refine Table.contains_of_mem ?_
    rwa [Table.names, List.map_append]
  · intro h
    obtain ⟨template, hget⟩ := Option.isSome_iff_exists.mp h
    exact mem_names_of_get? hget

/-- **Each name is listed once.** -/
theorem Regular.names_nodup (hregular : library.Regular) : library.names.Nodup := by
  refine List.nodup_append.mpr ⟨hregular.sorted.nodup, names_builtins_nodup, ?_⟩
  rintro name hown _ hbuiltin rfl
  obtain ⟨entry, hentry, rfl⟩ := List.mem_map.mp hown
  have hfound := Table.contains_of_mem hbuiltin
  rw [Table.contains, hregular.not_builtin entry hentry] at hfound
  cases hfound

/-! ## 3. Larger libraries -/

/-- Every name that a library knows has the same template in another one. -/
def Within (library larger : Library) : Prop :=
  ∀ name template, library.get? name = some template → larger.get? name = some template

theorem within_register (h : library.register template = (.ok (), next)) : library.Within next := by
  obtain ⟨-, hfree, rfl⟩ := register_eq_ok_iff.mp h
  intro name found hget
  have hne : trimBlanks template.name ≠ name := by
    rintro rfl
    rw [contains, hget] at hfree
    cases hfree
  unfold get? at hget ⊢
  rwa [Table.find?_insert, if_neg hne]

theorem nodeCount_register (h : library.register template = (.ok (), next)) :
    next.nodeCount = template.fabric.size + library.nodeCount := by
  obtain ⟨-, hfree, rfl⟩ := register_eq_ok_iff.mp h
  have hinsert := Table.perm_insert { template with name := trimBlanks template.name }
    (contains_eq_false.mp hfree).1
  have : LeftCommutative fun (entry : String × Template) count => entry.2.fabric.size + count :=
    ⟨fun _ _ _ => Nat.add_left_comm _ _ _⟩
  exact (hinsert.append_right Template.builtins).foldr_eq 0

/-- Names lead on alike. -/
theorem Leads.mono {larger : Library} (h : library.Within larger) {start asked : Option String}
    {met : Lineage} (hleads : library.Leads start met asked) : larger.Leads start met asked := by
  induction hleads with
  | stay asked => exact .stay asked
  | step known _ ih => exact .step (h _ _ known) ih

end Library

/-! ## 4. Answers under a larger library -/

/-- A name without a template. -/
def Cause.IsUnknownType (cause : Cause) : Prop := ∃ name, cause = .unknownType name

section Within

variable {library larger : Library} (h : library.Within larger)

include h

/-- The names of templates lead to the same end, or come back at the same place. -/
theorem lineage_within (fabric : Fabric) : Follows Cause.IsUnknownType (fun _ => True)
    (fabric.lineage library) (fabric.lineage larger) := by
  obtain ⟨met, asked, hleads, hnodup, -, hlast | ⟨name, rfl, hback⟩⟩ :=
    library.exists_leads fabric.typeName
  · cases asked with
    | none =>
      rw [lineage_of_end hleads, lineage_of_end (hleads.mono h)]
      exact .refl _
    | some name =>
      rw [lineage_of_unknown hleads (hlast name rfl)]
      exact .inl ⟨name, rfl⟩
  · rw [lineage_of_repeat hleads hnodup hback, lineage_of_repeat (hleads.mono h) hnodup hback]
    exact .refl _

/-- **Expansion** lays the same templates over each other. -/
theorem expand_within (fabric : Fabric) : Follows Cause.IsUnknownType (fun _ => True)
    (fabric.expand library) (fabric.expand larger) :=
  (lineage_within h fabric).bind fun _ _ => .refl _

theorem outline_within (strict : Bool) (fabric : Fabric) : Follows Cause.IsUnknownType
    (fun _ => True) (outline library strict fabric) (outline larger strict fabric) := by
  unfold outline
  refine (Follows.refl _).bind fun _ _ => ?_
  refine (expand_within h fabric).bind fun expanded _ => ?_
  exact .refl _

theorem resolveNode_within (strict : Bool) : ∀ (fuel : Nat) (path : List String) (fabric : Fabric),
    Follows (fun error => error.cause.IsUnknownType) (fun _ => True)
      (resolveNode library strict fuel path fabric) (resolveNode larger strict fuel path fabric)
  | 0, _, _ => .inr rfl
  | fuel + 1, path, fabric => by
    have hout := outline_within h strict fabric
    unfold resolveNode
    cases hsmall : outline library strict fabric with
    | error cause =>
      rw [hsmall] at hout
      rcases hout with hunknown | hlarge
      · exact .inl hunknown
      · rw [hlarge]
        exact .inr rfl
    | ok outline =>
      rw [hsmall] at hout
      rw [hout.1]
      exact (resolveChildren_follows_of (resolveNode_within strict fuel) path
        outline.materials).bind fun materials _ => .pure trivial

end Within

/-- **Registering a template changes no answer** but that a name has no template. -/
theorem resolve_register {library next : Library} {template : Template}
    (h : library.register template = (.ok (), next)) {strict : Bool} {fabric : Fabric}
    (hknown : ∀ path name, resolve library strict fabric ≠ .error ⟨path, .unknownType name⟩) :
    resolve next strict fabric = resolve library strict fabric := by
  have hallowance : fabric.size + library.nodeCount + 1 ≤ fabric.size + next.nodeCount + 1 := by
    rw [Library.nodeCount_register h]
    omega
  have hfollows := resolveNode_within (Library.within_register h) strict
    (fabric.size + next.nodeCount + 1) [] fabric
  rw [resolve_eq_of_le fabric hallowance] at hfollows
  cases hsmall : resolve library strict fabric with
  | ok node =>
    rw [hsmall] at hfollows
    exact hfollows.1
  | error error =>
    rw [hsmall] at hfollows
    refine hfollows.resolve_left fun hunknown => ?_
    obtain ⟨name, hcause⟩ := hunknown
    exact hknown error.path name (hsmall.trans (congrArg Except.error (by rw [← hcause])))

/-! ## 5. All libraries -/

/-- **Registrations keep what has been answered.**  After any row of offers to the library without
templates of its own, the library is regular, lists exactly the names that it knows, each once, and
an offer that is refused, which is one whose name is empty or taken, leaves it as it is.
Registering one more template leaves the answer to every fabric as it was, in both modes, unless
that was that a name has no template. -/
theorem registration_keeps_answers (templates : List Template) :
    (Library.empty.offeredAll templates).Regular ∧
    (Library.empty.offeredAll templates).names.Nodup ∧
    (∀ name, name ∈ (Library.empty.offeredAll templates).names ↔
      ((Library.empty.offeredAll templates).get? name).isSome = true) ∧
    (∀ template,
      (∃ error, ((Library.empty.offeredAll templates).register template).1 = .error error) ↔
      trimBlanks template.name = "" ∨
        (Library.empty.offeredAll templates).contains (trimBlanks template.name) = true) ∧
    (∀ template error,
      ((Library.empty.offeredAll templates).register template).1 = .error error →
      ((Library.empty.offeredAll templates).register template).2 =
        Library.empty.offeredAll templates) ∧
    ∀ template next, (Library.empty.offeredAll templates).register template = (.ok (), next) →
      ∀ strict fabric,
        (∀ path name, resolve (Library.empty.offeredAll templates) strict fabric ≠
          .error ⟨path, .unknownType name⟩) →
        resolve next strict fabric =
          resolve (Library.empty.offeredAll templates) strict fabric := by
  have hregular := Library.regular_offeredAll templates Library.regular_empty
  exact ⟨hregular, hregular.names_nodup, Library.mem_names_iff _, fun _ => Library.refused_iff,
    fun _ _ hrefused => Library.register_of_refused hrefused,
    fun _ _ hregistered _ _ hknown => resolve_register hregistered hknown⟩

namespace Example

/-- Two templates that are registered, the first without its blanks, and two whose names are taken
by then. -/
def offers : List Template :=
  [⟨" Moss ", Fabric.ofType "Color", .never⟩, ⟨"Moss", Fabric.empty, .always⟩,
    ⟨"Color", Fabric.empty, .never⟩, ⟨"Fern", Fabric.ofType "Moss", .never⟩]

/-- A template that starts from one of them. -/
def ivy : Template := ⟨"Ivy", Fabric.ofType "Fern", .never⟩

/-- A fabric of two templates that have been registered is answered as before when one more is. -/
theorem fern_stays : (Library.empty.offeredAll offers).custom.names = ["Fern", "Moss"] ∧
    ∃ next, (Library.empty.offeredAll offers).register ivy = (.ok (), next) ∧
      (∀ path name, resolve (Library.empty.offeredAll offers) true (Fabric.ofType "Fern") ≠
        .error ⟨path, .unknownType name⟩) ∧
      resolve next true (Fabric.ofType "Fern") =
        resolve (Library.empty.offeredAll offers) true (Fabric.ofType "Fern") := by
  have hknown : ∀ path name, resolve (Library.empty.offeredAll offers) true (Fabric.ofType "Fern") ≠
      .error ⟨path, .unknownType name⟩ := by
    intro path name herror
    have hok :
        (resolve (Library.empty.offeredAll offers) true (Fabric.ofType "Fern")).isOk = true := by
      decide +kernel
    rw [herror] at hok
    cases hok
  refine ⟨by decide +kernel, _, rfl, hknown, ?_⟩
  exact (registration_keeps_answers offers).2.2.2.2.2 ivy _ rfl true _ hknown

end Example

end ShaderFabric
