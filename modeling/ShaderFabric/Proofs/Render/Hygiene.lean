/-
# Names that are made from names

The declarations of a layout make further names of a bound one: a member with `_` before it, or
variables with `_texture` and `_sampler` behind it.  The bound name itself is a macro, and what it
stands for is expanded again.  The rules of names know of none of this, so a made name can be a
bound one, and then the macro of the one is expanded inside the macro of the other.

* `Binding.Entry.Ruled.member_doubles_iff`, `Binding.Entry.Ruled.variable_doubles_iff` -- underscores
  that meet;
* `Binding.Entry.MemberIsBound`, `Binding.Entry.VariableIsBound`, `Binding.Entry.MemberIsVariable` --
  how a made name can be another one, said of declared names and paths;
* `distinct_names_iff`, `expand_names_iff`, `single_names_iff` -- when the names of bindings stay
  apart;
* `Material.hygienic_iff`, `Material.hygienic_of_unbroken` -- what this comes to for a material.
-/
import ShaderFabric.Proofs.Material.Legality
import ShaderFabric.Proofs.Render.Expansion

namespace ShaderFabric

/-! ## 1. Declared names and paths -/

namespace Binding.Entry

/-- A declared name at a path is the identifier of an entry with a suffix: one of the declared names
runs into the path of the other. -/
def RunsOn (name : String) (path : List String) (entry : Binding.Entry) (suffix : String) : Prop :=
  (∃ head, entry.declared = name ++ "_r" ++ head ∧
    BreaksAt path head (encodePath entry.path ++ suffix)) ∨
  ∃ head tail, name = entry.declared ++ "_r" ++ head ∧ BreaksAt entry.path head tail ∧
    encodePath path = tail ++ suffix

/-- **The member of a plain binding is a bound name**: that of a binding on the same path that is
declared with `_` before it, or the declared names run into one another. -/
def MemberIsBound (entry other : Binding.Entry) : Prop :=
  entry.kind.isPlain = true ∧
    (("_" ++ entry.declared = other.declared ∧ entry.path = other.path) ∨
      RunsInto ("_" ++ entry.declared) entry.path other.declared other.path ∨
      RunsInto other.declared other.path ("_" ++ entry.declared) entry.path)

/-- **A variable of a texture is a bound name.** -/
def VariableIsBound (entry other : Binding.Entry) : Prop :=
  entry.kind.isTexture = true ∧ (RunsOn other.declared other.path entry "_texture" ∨
    RunsOn other.declared other.path entry "_sampler")

/-- **The member of a plain binding is a variable of a texture.** -/
def MemberIsVariable (entry other : Binding.Entry) : Prop :=
  entry.kind.isPlain = true ∧ other.kind.isTexture = true ∧
    (RunsOn ("_" ++ entry.declared) entry.path other "_texture" ∨
      RunsOn ("_" ++ entry.declared) entry.path other "_sampler")

/-- **A made name has two underscores in a row**: the declared name of a plain binding starts with
one, or the path of a texture ends in one. -/
def Doubles (entry : Binding.Entry) : Prop :=
  (entry.kind.isPlain = true ∧ entry.declared.toList.head? = some '_') ∨
    (entry.kind.isTexture = true ∧
      ∃ segment, entry.path.getLast? = some segment ∧ segment.toList.getLast? = some '_')

namespace Ruled

variable {entry other : Binding.Entry} (h : entry.Ruled) (hother : other.Ruled)

include h

theorem underscored_eq : "_" ++ entry.name = mangle ("_" ++ entry.declared) entry.path := by
  rw [h.name_eq]
  simp only [mangle, String.append_assoc]

include hother

theorem memberIsBound_iff (hplain : entry.kind.isPlain = true) :
    "_" ++ entry.name = other.name ↔ entry.MemberIsBound other := by
  have hpaths : encodePath entry.path = encodePath other.path ↔ entry.path = other.path :=
    ⟨encodePath_injective h.path hother.path, fun heq => by rw [heq]⟩
  rw [h.underscored_eq, hother.name_eq, mangle_eq_iff, hpaths, MemberIsBound, and_iff_right hplain]

theorem eq_append_iff {suffix : String} (hsuffix : suffix.toList.head? = some '_')
    (hbreak : ¬ HasBreak suffix) :
    entry.name = other.name ++ suffix ↔ RunsOn entry.declared entry.path other suffix := by
  rw [h.name_eq, hother.name_eq]
  exact mangle_eq_append_iff h.path hother.path hsuffix hbreak

theorem underscored_eq_append_iff {suffix : String} (hsuffix : suffix.toList.head? = some '_')
    (hbreak : ¬ HasBreak suffix) : "_" ++ entry.name = other.name ++ suffix ↔
      RunsOn ("_" ++ entry.declared) entry.path other suffix := by
  rw [h.underscored_eq, hother.name_eq]
  exact mangle_eq_append_iff h.path hother.path hsuffix hbreak

omit hother

/-- A bound name has no two underscores in a row, as the rules of names have it. -/
theorem not_hasDoubleUnderscore : ¬ hasDoubleUnderscore entry.name.toList = true := by
  rw [h.name_eq]
  exact not_hasDoubleUnderscore_mangle h.path_unreserved h.unreserved

theorem member_doubles_iff : hasDoubleUnderscore ("_" ++ entry.name).toList = true ↔
    entry.declared.toList.head? = some '_' := by
  obtain ⟨c, rest, hdeclared, -, -⟩ := h.declared
  have hhead : entry.name.toList.head? = entry.declared.toList.head? := by
    rw [h.name_eq, mangle, String.toList_append, String.toList_append, hdeclared]
    rfl
  rw [String.toList_append, ← hhead]
  show hasDoubleUnderscore ('_' :: entry.name.toList) = true ↔ _
  rw [hasDoubleUnderscore_cons, or_iff_left h.not_hasDoubleUnderscore]
  exact and_iff_right rfl

theorem variable_doubles_iff {suffix : String} (hsuffix : suffix.toList.head? = some '_')
    (hsingle : hasDoubleUnderscore suffix.toList = false) :
    hasDoubleUnderscore (entry.name ++ suffix).toList = true ↔
      ∃ segment, entry.path.getLast? = some segment ∧ segment.toList.getLast? = some '_' := by
  have hlast : entry.name.toList.getLast? = some '_' ↔
      ∃ segment, entry.path.getLast? = some segment ∧ segment.toList.getLast? = some '_' := by
    rw [← Option.bind_eq_some_iff, ← getLast?_encodePath h.path, h.name_eq, mangle,
      String.toList_append, String.toList_append, List.getLast?_append, List.getLast?_append]
    cases (encodePath entry.path).toList.getLast? with
    | none => simp
    | some c => rfl
  rw [String.toList_append, hasDoubleUnderscore_append, hsingle, ← hlast]
  simp only [h.not_hasDoubleUnderscore, hsuffix, Bool.false_eq_true, false_or, and_true]

end Ruled

end Binding.Entry

/-! ## 2. The names of bindings -/

theorem Kind.isTexture_iff {kind : Kind} :
    kind.isTexture = true ↔ ∃ textureKind, kind.textureKind? = some textureKind := by
  cases kind <;> simp [Kind.isTexture, Kind.textureKind?]

section Bindings

variable {bindings : List Binding}

theorem binding_of_field {field : BlockField}
    (h : field ∈ (Layout.ofBindings bindings).fields) :
    ∃ binding ∈ bindings, binding.kind.isPlain = true ∧ binding.name = field.name ∧
      binding.kind = field.kind := by
  obtain ⟨hmem, hplain⟩ := Layout.entry_of_mem_fields h
  obtain ⟨binding, hbinding, heq⟩ := List.mem_map.mp hmem
  obtain ⟨hname, hkind⟩ := Prod.mk.inj heq
  exact ⟨binding, hbinding, hkind ▸ hplain, hname, hkind⟩

theorem field_of_binding {binding : Binding} (h : binding ∈ bindings)
    (hplain : binding.kind.isPlain = true) :
    ∃ field ∈ (Layout.ofBindings bindings).fields,
      field.name = binding.name ∧ field.kind = binding.kind :=
  Layout.exists_field (List.mem_map_of_mem h) hplain

theorem binding_of_texture {field : TextureField}
    (h : field ∈ (Layout.ofBindings bindings).textures) :
    ∃ binding ∈ bindings, binding.kind.textureKind? = some field.kind ∧
      binding.name = field.name := by
  obtain ⟨kind, hmem, htexture⟩ := Layout.entry_of_mem_textures h
  obtain ⟨binding, hbinding, heq⟩ := List.mem_map.mp hmem
  obtain ⟨hname, hkind⟩ := Prod.mk.inj heq
  exact ⟨binding, hbinding, hkind ▸ htexture, hname⟩

theorem texture_of_binding {binding : Binding} (h : binding ∈ bindings)
    {textureKind : TextureKind} (hkind : binding.kind.textureKind? = some textureKind) :
    ⟨binding.name, textureKind⟩ ∈ (Layout.ofBindings bindings).textures :=
  Layout.mem_textures (List.mem_map_of_mem h) hkind

variable (ruled : ∀ binding ∈ bindings, binding.entry.Ruled)

include ruled

theorem mem_names_iff_binding {name : String} :
    name ∈ (Layout.ofBindings bindings).names ↔ ∃ binding ∈ bindings, binding.name = name := by
  constructor
  · exact Layout.mem_names_ofBindings
  · rintro ⟨binding, hbinding, rfl⟩
    exact Layout.mem_names_ofEntries (List.mem_map_of_mem hbinding) (ruled binding hbinding).kind_ne

/-- No member is a bound name. -/
theorem members_free_iff :
    (∀ field ∈ (Layout.ofBindings bindings).fields,
      "_" ++ field.name ∉ (Layout.ofBindings bindings).names) ↔
    ∀ one ∈ bindings, ∀ other ∈ bindings, ¬ one.entry.MemberIsBound other.entry := by
  constructor
  · intro h one hone other hother hbound
    obtain ⟨field, hfield, hname, -⟩ := field_of_binding hone hbound.1
    refine h field hfield ((mem_names_iff_binding ruled).mpr ⟨other, hother, ?_⟩)
    rw [hname]
    exact (((ruled one hone).memberIsBound_iff (ruled other hother) hbound.1).mpr hbound).symm
  · intro h field hfield hmem
    obtain ⟨one, hone, hplain, hname, -⟩ := binding_of_field hfield
    obtain ⟨other, hother, heq⟩ := (mem_names_iff_binding ruled).mp hmem
    rw [← hname] at heq
    exact h one hone other hother
      (((ruled one hone).memberIsBound_iff (ruled other hother) hplain).mp heq.symm)

/-- No variable is a bound name. -/
theorem variables_free_iff :
    (∀ field ∈ (Layout.ofBindings bindings).textures,
      field.name ++ "_texture" ∉ (Layout.ofBindings bindings).names ∧
        field.name ++ "_sampler" ∉ (Layout.ofBindings bindings).names) ↔
    ∀ one ∈ bindings, ∀ other ∈ bindings, ¬ one.entry.VariableIsBound other.entry := by
  have hruns : ∀ one ∈ bindings, ∀ other ∈ bindings, ∀ suffix : String,
      suffix.toList.head? = some '_' → ¬ HasBreak suffix → (other.name = one.name ++ suffix ↔
        Binding.Entry.RunsOn other.declared other.path one.entry suffix) :=
    fun one hone other hother suffix =>
      (ruled other hother).eq_append_iff (ruled one hone)
  constructor
  · rintro h one hone other hother ⟨htexture, hbound⟩
    obtain ⟨textureKind, hkind⟩ := Kind.isTexture_iff.mp htexture
    obtain ⟨hfirst, hsecond⟩ := h _ (texture_of_binding hone hkind)
    rw [mem_names_iff_binding ruled] at hfirst hsecond
    rcases hbound with hbound | hbound
    · exact hfirst ⟨other, hother,
        (hruns one hone other hother "_texture" (by decide) (by decide)).mpr hbound⟩
    · exact hsecond ⟨other, hother,
        (hruns one hone other hother "_sampler" (by decide) (by decide)).mpr hbound⟩
  · intro h field hfield
    obtain ⟨one, hone, hkind, hname⟩ := binding_of_texture hfield
    have htexture := Kind.isTexture_iff.mpr ⟨_, hkind⟩
    rw [mem_names_iff_binding ruled, mem_names_iff_binding ruled, ← hname]
    constructor
    · rintro ⟨other, hother, heq⟩
      exact h one hone other hother ⟨htexture,
        .inl ((hruns one hone other hother "_texture" (by decide) (by decide)).mp heq)⟩
    · rintro ⟨other, hother, heq⟩
      exact h one hone other hother ⟨htexture,
        .inr ((hruns one hone other hother "_sampler" (by decide) (by decide)).mp heq)⟩

/-- No member is a variable. -/
theorem members_apart_iff :
    (∀ field ∈ (Layout.ofBindings bindings).fields,
      ∀ other ∈ (Layout.ofBindings bindings).textures,
        "_" ++ field.name ≠ other.name ++ "_texture" ∧
          "_" ++ field.name ≠ other.name ++ "_sampler") ↔
    ∀ one ∈ bindings, ∀ other ∈ bindings, ¬ one.entry.MemberIsVariable other.entry := by
  have hruns : ∀ one ∈ bindings, ∀ other ∈ bindings, ∀ suffix : String,
      suffix.toList.head? = some '_' → ¬ HasBreak suffix → ("_" ++ one.name = other.name ++ suffix ↔
        Binding.Entry.RunsOn ("_" ++ one.declared) one.path other.entry suffix) :=
    fun one hone other hother suffix =>
      (ruled one hone).underscored_eq_append_iff (ruled other hother)
  constructor
  · rintro h one hone other hother ⟨hplain, htexture, hmeet⟩
    obtain ⟨field, hfield, hname, -⟩ := field_of_binding hone hplain
    obtain ⟨textureKind, hkind⟩ := Kind.isTexture_iff.mp htexture
    obtain ⟨hfirst, hsecond⟩ := h field hfield _ (texture_of_binding hother hkind)
    rw [hname] at hfirst hsecond
    rcases hmeet with hmeet | hmeet
    · exact hfirst ((hruns one hone other hother "_texture" (by decide) (by decide)).mpr hmeet)
    · exact hsecond ((hruns one hone other hother "_sampler" (by decide) (by decide)).mpr hmeet)
  · intro h field hfield texture htexture
    obtain ⟨one, hone, hplain, hname, -⟩ := binding_of_field hfield
    obtain ⟨other, hother, hkind, hname'⟩ := binding_of_texture htexture
    have hkind := Kind.isTexture_iff.mpr ⟨_, hkind⟩
    rw [← hname, ← hname']
    constructor
    · intro heq
      exact h one hone other hother ⟨hplain, hkind,
        .inl ((hruns one hone other hother "_texture" (by decide) (by decide)).mp heq)⟩
    · intro heq
      exact h one hone other hother ⟨hplain, hkind,
        .inr ((hruns one hone other hother "_sampler" (by decide) (by decide)).mp heq)⟩

theorem isIdentifier_of_mem_names :
    ∀ name ∈ (Layout.ofBindings bindings).names, IsIdentifier name :=
  Layout.forall_names_ofBindings fun binding hbinding => (ruled binding hbinding).isIdentifier

theorem hasBreak_of_mem_names :
    ∀ name ∈ (Layout.ofBindings bindings).names, HasBreak name := by
  refine Layout.forall_names_ofBindings fun binding hbinding => ?_
  have heq : binding.name = mangle binding.declared binding.path := (ruled binding hbinding).name_eq
  rw [heq]
  exact hasBreak_mangle _ _

/-- **Every bound name is expanded to what gives it back** exactly if no made name is a bound
one. -/
theorem expand_names_iff (hnodup : (bindings.map Binding.name).Nodup) :
    (∀ binding ∈ bindings,
      expand (macrosIn (Layout.ofBindings bindings).declarations) [wordOf binding.name] =
        Layout.givenBack binding.name binding.kind) ↔
    ∀ one ∈ bindings, ∀ other ∈ bindings,
      ¬ one.entry.MemberIsBound other.entry ∧ ¬ one.entry.VariableIsBound other.entry := by
  have hbreaks := hasBreak_of_mem_names ruled
  have hnames := Layout.nodup_names_ofBindings hnodup
  rw [Layout.macrosIn_declarations (isIdentifier_of_mem_names ruled)]
  have hboth : (∀ one ∈ bindings, ∀ other ∈ bindings,
      ¬ one.entry.MemberIsBound other.entry ∧ ¬ one.entry.VariableIsBound other.entry) ↔
      (∀ one ∈ bindings, ∀ other ∈ bindings, ¬ one.entry.MemberIsBound other.entry) ∧
        ∀ one ∈ bindings, ∀ other ∈ bindings, ¬ one.entry.VariableIsBound other.entry := by
    simp only [forall_and]
  rw [hboth, ← members_free_iff ruled, ← variables_free_iff ruled]
  constructor
  · intro h
    refine ⟨fun field hfield => ?_, fun field hfield => ?_⟩
    · obtain ⟨binding, hbinding, hplain, hname, hkind⟩ := binding_of_field hfield
      have hback := h binding hbinding
      rw [hname, hkind, Layout.givenBack_of_field (hkind ▸ hplain)] at hback
      exact (Layout.expand_field_iff hbreaks hnames hfield).mp hback
    · obtain ⟨binding, hbinding, hkind, hname⟩ := binding_of_texture hfield
      have hback := h binding hbinding
      rw [Layout.givenBack_of_texture hkind, hname] at hback
      exact (Layout.expand_texture_iff hbreaks hnames hfield).mp hback
  · rintro ⟨hmembers, hvariables⟩ binding hbinding
    cases htexture : binding.kind.textureKind? with
    | some textureKind =>
      have hfield := texture_of_binding hbinding htexture
      rw [Layout.givenBack_of_texture htexture]
      exact (Layout.expand_texture_iff hbreaks hnames hfield).mpr (hvariables _ hfield)
    | none =>
      have hplain := Layout.isPlain_of_not_texture htexture (ruled binding hbinding).kind_ne
      obtain ⟨field, hfield, hname, hkind⟩ := field_of_binding hbinding hplain
      rw [← hname, ← hkind, Layout.givenBack_of_field (hkind ▸ hplain)]
      exact (Layout.expand_field_iff hbreaks hnames hfield).mpr (hmembers field hfield)

/-- **No name of the declarations has two underscores in a row** exactly if no binding doubles
them. -/
theorem single_names_iff :
    (∀ name ∈ namesIn (Layout.ofBindings bindings).declarations,
      hasDoubleUnderscore name.toList = false) ↔
    ∀ one ∈ bindings, ¬ one.entry.Doubles := by
  have hidentifiers := isIdentifier_of_mem_names ruled
  have hmember : ∀ one ∈ bindings, hasDoubleUnderscore ("_" ++ one.name).toList = true ↔
      one.declared.toList.head? = some '_' :=
    fun one hone => (ruled one hone).member_doubles_iff
  have hvariable : ∀ one ∈ bindings, ∀ suffix : String, suffix.toList.head? = some '_' →
      hasDoubleUnderscore suffix.toList = false →
      (hasDoubleUnderscore (one.name ++ suffix).toList = true ↔
        ∃ segment, one.path.getLast? = some segment ∧ segment.toList.getLast? = some '_') :=
    fun one hone suffix => (ruled one hone).variable_doubles_iff
  unfold namesIn
  rw [Layout.declaredIn_declarations hidentifiers, Layout.macrosIn_declarations hidentifiers,
    Layout.map_fst_macroEntries, List.map_append]
  simp only [List.forall_mem_append]
  constructor
  · rintro ⟨⟨hmembers, hvariables⟩, -⟩ one hone (⟨hplain, hhead⟩ | ⟨htexture, hlast⟩)
    · obtain ⟨field, hfield, hname, -⟩ := field_of_binding hone hplain
      have hsingle := hmembers _ (Layout.mem_memberNames.mpr (.inr ⟨field, hfield, rfl⟩))
      rw [hname, (hmember one hone).mpr hhead] at hsingle
      cases hsingle
    · obtain ⟨textureKind, hkind⟩ := Kind.isTexture_iff.mp htexture
      have hfield := texture_of_binding hone hkind
      have hsingle := hvariables _ (Layout.mem_variableNames.mpr (.inr ⟨_, hfield, .inl rfl⟩))
      rw [(hvariable one hone "_texture" (by decide) (by decide)).mpr hlast] at hsingle
      cases hsingle
  · intro h
    refine ⟨⟨fun name hname => ?_, fun name hname => ?_⟩, fun name hname => ?_⟩
    · rcases Layout.mem_memberNames.mp hname with ⟨-, rfl⟩ | ⟨field, hfield, rfl⟩
      · decide
      · obtain ⟨one, hone, hplain, heq, -⟩ := binding_of_field hfield
        rw [← heq]
        refine eq_false_of_ne_true fun hdouble => ?_
        exact h one hone (.inl ⟨hplain, (hmember one hone).mp hdouble⟩)
    · rcases Layout.mem_variableNames.mp hname with rfl | ⟨field, hfield, heq⟩
      · decide
      · obtain ⟨one, hone, hkind, hone'⟩ := binding_of_texture hfield
        have htexture := Kind.isTexture_iff.mpr ⟨_, hkind⟩
        rw [← hone'] at heq
        refine eq_false_of_ne_true fun hdouble => ?_
        rcases heq with rfl | rfl
        · exact h one hone (.inr ⟨htexture,
            (hvariable one hone "_texture" (by decide) (by decide)).mp hdouble⟩)
        · exact h one hone (.inr ⟨htexture,
            (hvariable one hone "_sampler" (by decide) (by decide)).mp hdouble⟩)
    · obtain ⟨one, hone, rfl⟩ := Layout.mem_names_ofBindings hname
      exact eq_false_of_ne_true (ruled one hone).not_hasDoubleUnderscore

/-- **The names of the declarations are distinct** exactly if no made name is a bound one, and no
member is a variable. -/
theorem distinct_names_iff (hnodup : (bindings.map Binding.name).Nodup) :
    (namesIn (Layout.ofBindings bindings).declarations).Nodup ↔
    ∀ one ∈ bindings, ∀ other ∈ bindings, ¬ one.entry.MemberIsBound other.entry ∧
      ¬ one.entry.VariableIsBound other.entry ∧ ¬ one.entry.MemberIsVariable other.entry := by
  have hnames := Layout.nodup_names_ofBindings hnodup
  rw [Layout.nodup_namesIn_iff (hasBreak_of_mem_names ruled) (isIdentifier_of_mem_names ruled)
    hnames, members_free_iff ruled, variables_free_iff ruled, members_apart_iff ruled]
  simp only [forall_and]

end Bindings

/-! ## 3. Names that stay apart -/

namespace Binding.Entry

/-- A declared name that starts with no underscore and has no `_r` in it. -/
def Unbroken (entry : Binding.Entry) : Prop :=
  entry.declared.toList.head? ≠ some '_' ∧ ¬ HasBreak entry.declared

instance (entry : Binding.Entry) : Decidable entry.Unbroken :=
  inferInstanceAs (Decidable (_ ∧ _))

/-- A name with an `_r` behind it, and what comes then. -/
theorem hasBreak_of_eq {name front behind : String} (h : name = front ++ "_r" ++ behind) :
    HasBreak name := by
  rw [h]
  exact (by decide : HasBreak "_r").around front behind

/-- An `_r` that comes after a name is not made by the `_` that is put before another. -/
theorem hasBreak_of_underscored_eq {name front behind : String} (hfront : front ≠ "")
    (h : "_" ++ name = front ++ "_r" ++ behind) : HasBreak name := by
  have hlists : '_' :: name.toList = front.toList ++ '_' :: 'r' :: behind.toList := by
    simpa using congrArg String.toList h
  cases hcs : front.toList with
  | nil => exact absurd (String.toList_eq_nil_iff.mp hcs) hfront
  | cons c cs =>
    rw [hcs, List.cons_append] at hlists
    exact ⟨cs, behind.toList, by rw [(List.cons.inj hlists).2]; simp⟩

variable {entry other : Binding.Entry}

/-- **Bindings of such names stay apart**, whatever their paths are. -/
theorem Unbroken.apart (h : entry.Unbroken) (hother : other.Unbroken) (hruled : other.Ruled) :
    ¬ entry.MemberIsBound other ∧ ¬ entry.VariableIsBound other ∧
      ¬ entry.MemberIsVariable other := by
  have hne : ∀ {entry : Binding.Entry}, entry.Ruled → entry.declared ≠ "" := by
    intro entry ruled heq
    obtain ⟨c, rest, hdeclared, -, -⟩ := ruled.declared
    rw [heq] at hdeclared
    cases hdeclared
  have hruns : ∀ {suffix : String}, ¬ RunsOn other.declared other.path entry suffix := by
    rintro suffix (⟨head, heq, -⟩ | ⟨head, tail, heq, -, -⟩)
    · exact h.2 (hasBreak_of_eq heq)
    · exact hother.2 (hasBreak_of_eq heq)
  have hmeets : ∀ {suffix : String}, ¬ RunsOn ("_" ++ entry.declared) entry.path other suffix := by
    rintro suffix (⟨head, heq, -⟩ | ⟨head, tail, heq, -, -⟩)
    · exact hother.2 (hasBreak_of_eq heq)
    · exact h.2 (hasBreak_of_underscored_eq (hne hruled) heq)
  refine ⟨?_, ?_, ?_⟩
  · rintro ⟨-, ⟨heq, -⟩ | ⟨head, heq, -⟩ | ⟨head, heq, -⟩⟩
    · exact hother.1 (by rw [← heq, String.toList_append]; rfl)
    · exact hother.2 (hasBreak_of_eq heq)
    · exact h.2 (hasBreak_of_underscored_eq (hne hruled) heq)
  · rintro ⟨-, hruns' | hruns'⟩
    · exact hruns hruns'
    · exact hruns hruns'
  · rintro ⟨-, -, hmeets' | hmeets'⟩
    · exact hmeets hmeets'
    · exact hmeets hmeets'

end Binding.Entry

namespace Material

/-! ## 4. Materials -/

variable {library : Library} {loader : Loader} {workers : Nat} {m last : Material}
  {studio final : Studio} {events : List Event}

/-- **When the names of a shader stay apart.**  Take a material at the end of a run, with bindings
of different names.  In the declarations of its layout

* all names are distinct exactly if the member of no plain binding and the variable of no texture is
  a bound name, and no member is a variable, which is said of declared names and paths;
* every bound name is expanded to its own member, or to its own variables, exactly if no made name
  is a bound one;
* no name has two underscores in a row exactly if no plain binding is declared with `_` at its
  start, and no path of a texture ends in `_`. -/
theorem hygienic_iff (built : Built library loader workers m studio)
    (h : run loader events m studio = some (last, final))
    (hnames : (last.bindings.map Binding.name).Nodup) :
    ((namesIn (Layout.ofBindings last.bindings).declarations).Nodup ↔
      ∀ one ∈ last.bindings, ∀ other ∈ last.bindings, ¬ one.entry.MemberIsBound other.entry ∧
        ¬ one.entry.VariableIsBound other.entry ∧ ¬ one.entry.MemberIsVariable other.entry) ∧
    ((∀ binding ∈ last.bindings,
      expand (macrosIn (Layout.ofBindings last.bindings).declarations) [wordOf binding.name] =
        Layout.givenBack binding.name binding.kind) ↔
      ∀ one ∈ last.bindings, ∀ other ∈ last.bindings,
        ¬ one.entry.MemberIsBound other.entry ∧ ¬ one.entry.VariableIsBound other.entry) ∧
    ((∀ name ∈ namesIn (Layout.ofBindings last.bindings).declarations,
      hasDoubleUnderscore name.toList = false) ↔
      ∀ one ∈ last.bindings, ¬ one.entry.Doubles) := by
  have ruled := ruled_of_run built h
  exact ⟨distinct_names_iff ruled hnames, expand_names_iff ruled hnames, single_names_iff ruled⟩

/-- **Declared names without an underscore at their start and without an `_r` in them** are enough
for all names to be distinct, and for every bound name to be expanded to its own. -/
theorem hygienic_of_unbroken (built : Built library loader workers m studio)
    (h : run loader events m studio = some (last, final))
    (hnames : (last.bindings.map Binding.name).Nodup)
    (hunbroken : ∀ binding ∈ last.bindings, binding.entry.Unbroken) :
    (namesIn (Layout.ofBindings last.bindings).declarations).Nodup ∧
      ∀ binding ∈ last.bindings,
        expand (macrosIn (Layout.ofBindings last.bindings).declarations) [wordOf binding.name] =
          Layout.givenBack binding.name binding.kind := by
  have ruled := ruled_of_run built h
  have hapart := fun one hone other hother =>
    (hunbroken one hone).apart (hunbroken other hother) (ruled other hother)
  refine ⟨(distinct_names_iff ruled hnames).mpr hapart, (expand_names_iff ruled hnames).mpr ?_⟩
  intro one hone other hother
  obtain ⟨hmember, hvariable, -⟩ := hapart one hone other hother
  exact ⟨hmember, hvariable⟩

namespace Example

/-- Two uniforms, of which one is named like the other with `_` before it. -/
def underscored : Fabric :=
  { uniforms := [("_x", .bool true), ("x", .bool true)]
    components := some [("alpha", "float(x && _x)")] }

/-- What a material of a fabric binds. -/
def entriesOfFabric (fabric : Fabric) : Option (List Binding.Entry) :=
  match (ofFabric ⟨[]⟩ ⟨true, none⟩ ⟨true, [], []⟩ fabric).run ⟨.start 1, .empty⟩ with
  | (.ok m, _) => some (m.bindings.map Binding.entry)
  | (.error _, _) => none

theorem run_of_entriesOfFabric {fabric : Fabric} {entries : List Binding.Entry}
    (h : entriesOfFabric fabric = some entries) : ∃ m studio,
      (ofFabric ⟨[]⟩ ⟨true, none⟩ ⟨true, [], []⟩ fabric).run ⟨.start 1, .empty⟩ = (.ok m, studio) ∧
        m.bindings.map Binding.entry = entries := by
  unfold entriesOfFabric at h
  cases hbuild : (ofFabric ⟨[]⟩ ⟨true, none⟩ ⟨true, [], []⟩ fabric).run ⟨.start 1, .empty⟩ with
  | mk result studio =>
    rw [hbuild] at h
    cases result with
    | error error => cases h
    | ok m => exact ⟨m, studio, rfl, Option.some.inj h⟩

theorem entries_underscored : entriesOfFabric underscored =
    some [⟨"_x_r", "_x", [], .bool⟩, ⟨"x_r", "x", [], .bool⟩] := by
  decide +kernel

/-- **A made name can be a bound one**, of a fabric that resolves: `_x_r` is the member of `x` and
the name of `_x`, so `x` is expanded to something else than its own, and the member of `_x` has two
underscores in a row. -/
theorem member_is_bound : ∃ m studio,
    (ofFabric ⟨[]⟩ ⟨true, none⟩ ⟨true, [], []⟩ underscored).run ⟨.start 1, .empty⟩ =
      (.ok m, studio) ∧
    m.bindings.map Binding.name = ["_x_r", "x_r"] ∧ (m.bindings.map Binding.name).Nodup ∧
    ¬ (namesIn (Layout.ofBindings m.bindings).declarations).Nodup ∧
    (¬ ∀ binding ∈ m.bindings,
      expand (macrosIn (Layout.ofBindings m.bindings).declarations) [wordOf binding.name] =
        Layout.givenBack binding.name binding.kind) ∧
    ¬ ∀ name ∈ namesIn (Layout.ofBindings m.bindings).declarations,
      hasDoubleUnderscore name.toList = false := by
  obtain ⟨m, studio, hbuild, hentries⟩ := run_of_entriesOfFabric entries_underscored
  have built : Built ⟨[]⟩ ⟨true, [], []⟩ 1 m studio := .ofFabric hbuild
  have ruled := ruled_of_run built (rfl : run ⟨true, [], []⟩ [] m studio = some (m, studio))
  have hnames : m.bindings.map Binding.name = ["_x_r", "x_r"] := by
    have hmapped := congrArg (List.map Binding.Entry.name) hentries
    rwa [List.map_map] at hmapped
  have hnodup : (m.bindings.map Binding.name).Nodup := by
    rw [hnames]
    decide
  have hmem : ∀ entry ∈ [(⟨"_x_r", "_x", [], .bool⟩ : Binding.Entry), ⟨"x_r", "x", [], .bool⟩],
      ∃ binding ∈ m.bindings, binding.entry = entry := by
    intro entry hentry
    rw [← hentries] at hentry
    exact List.mem_map.mp hentry
  obtain ⟨long, hlong, hlongEntry⟩ := hmem _ List.mem_cons_self
  obtain ⟨short, hshort, hshortEntry⟩ := hmem _ (List.mem_cons_of_mem _ List.mem_cons_self)
  have hbound : short.entry.MemberIsBound long.entry := by
    rw [hshortEntry, hlongEntry]
    exact ⟨rfl, .inl ⟨by decide, rfl⟩⟩
  refine ⟨m, studio, hbuild, hnames, hnodup, fun hdistinct => ?_, fun hexpanded => ?_,
    fun hsingle => ?_⟩
  · exact ((distinct_names_iff ruled hnodup).mp hdistinct short hshort long hlong).1 hbound
  · exact ((expand_names_iff ruled hnodup).mp hexpanded short hshort long hlong).1 hbound
  · have hdoubles : long.entry.Doubles := by
      rw [hlongEntry]
      exact .inl ⟨rfl, by decide⟩
    exact (single_names_iff ruled).mp hsingle long hlong hdoubles

theorem entries_textured : entriesOfFabric textured =
    some [⟨"map_r4part", "map", ["part"], .sampler2D⟩, ⟨"map_r", "map", [], .sampler2D⟩] := by
  decide +kernel

/-- **Names that stay apart**: those of two textures. -/
theorem textured_apart : ∃ m studio, Built ⟨[]⟩ ⟨true, [], []⟩ 1 m studio ∧
    run ⟨true, [], []⟩ [] m studio = some (m, studio) ∧
    m.bindings.map Binding.name = ["map_r4part", "map_r"] ∧ (m.bindings.map Binding.name).Nodup ∧
    (namesIn (Layout.ofBindings m.bindings).declarations).Nodup ∧
    (∀ binding ∈ m.bindings,
      expand (macrosIn (Layout.ofBindings m.bindings).declarations) [wordOf binding.name] =
        Layout.givenBack binding.name binding.kind) ∧
    ∀ name ∈ namesIn (Layout.ofBindings m.bindings).declarations,
      hasDoubleUnderscore name.toList = false := by
  obtain ⟨m, studio, hbuild, hentries⟩ := run_of_entriesOfFabric entries_textured
  have built : Built ⟨[]⟩ ⟨true, [], []⟩ 1 m studio := .ofFabric hbuild
  have hrun : run ⟨true, [], []⟩ [] m studio = some (m, studio) := rfl
  have ruled := ruled_of_run built hrun
  have hnames : m.bindings.map Binding.name = ["map_r4part", "map_r"] := by
    have hmapped := congrArg (List.map Binding.Entry.name) hentries
    rwa [List.map_map] at hmapped
  have hnodup : (m.bindings.map Binding.name).Nodup := by
    rw [hnames]
    decide
  have hall : ∀ entry ∈ m.bindings.map Binding.entry, entry.Unbroken ∧ ¬ entry.Doubles := by
    rw [hentries, List.forall_mem_cons, List.forall_mem_cons]
    refine ⟨⟨by decide, ?_⟩, ⟨by decide, ?_⟩, fun entry hentry => absurd hentry List.not_mem_nil⟩
    · rintro (⟨hplain, -⟩ | ⟨-, _, ⟨⟩, hlast⟩)
      · cases hplain
      · exact absurd hlast (by decide)
    · rintro (⟨hplain, -⟩ | ⟨-, _, ⟨⟩, -⟩)
      cases hplain
  obtain ⟨hdistinct, hexpanded, hsingle⟩ := hygienic_iff built hrun hnodup
  have hapart : ∀ one ∈ m.bindings, ∀ other ∈ m.bindings, ¬ one.entry.MemberIsBound other.entry ∧
      ¬ one.entry.VariableIsBound other.entry ∧ ¬ one.entry.MemberIsVariable other.entry :=
    fun one hone other hother => (hall _ (List.mem_map_of_mem hone)).1.apart
      (hall _ (List.mem_map_of_mem hother)).1 (ruled other hother)
  refine ⟨m, studio, built, hrun, hnames, hnodup, hdistinct.mpr hapart, hexpanded.mpr ?_,
    hsingle.mpr fun one hone => (hall _ (List.mem_map_of_mem hone)).2⟩
  intro one hone other hother
  obtain ⟨hmember, hvariable, -⟩ := hapart one hone other hother
  exact ⟨hmember, hvariable⟩

end Example

end Material

end ShaderFabric
