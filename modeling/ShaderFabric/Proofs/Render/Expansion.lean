/-
# Macros that are expanded

The declarations of a layout give every bound name a macro, and what a macro stands for is expanded
again.  Whatever a macro stands for has at least two lexemes, so an expansion that replaces
something makes its text longer: it changes nothing exactly where no name has a macro.

* `expand`, `expand_eq_self_iff` -- expansion, and when it changes nothing;
* `Layout.expand_field_iff`, `Layout.expand_texture_iff` -- when a bound name is expanded to its own;
* `Layout.nodup_namesIn_iff` -- when the names of a layout stay apart.
-/
import Mathlib.Data.List.Infix
import ShaderFabric.Proofs.Material.Naming
import ShaderFabric.Proofs.Render.Reading

namespace ShaderFabric

/-! ## 1. Expansion -/

/-- The macro of a name. -/
def definition? (macros : List (String × List Lexeme)) (lexeme : Lexeme) :
    Option (String × List Lexeme) :=
  macros.find? fun defined => wordOf defined.1 = lexeme

/-- Macros without those of a name. -/
def without (macros : List (String × List Lexeme)) (name : String) :
    List (String × List Lexeme) :=
  macros.filter fun defined => defined.1 ≠ name

theorem length_without_lt {macros : List (String × List Lexeme)} {lexeme : Lexeme}
    {defined : String × List Lexeme} (h : definition? macros lexeme = some defined) :
    (without macros defined.1).length < macros.length :=
  List.length_filter_lt_length_iff_exists.mpr ⟨defined, List.mem_of_find?_eq_some h, by simp⟩

/-- **Expansion.**  A name that has a macro is replaced by what the macro stands for, and this is
expanded again, in which the name itself is left alone. -/
def expand : List (String × List Lexeme) → List Lexeme → List Lexeme
  | _, [] => []
  | macros, lexeme :: rest =>
    match _h : definition? macros lexeme with
    | some defined => expand (without macros defined.1) defined.2 ++ expand macros rest
    | none => lexeme :: expand macros rest
termination_by macros ls => (macros.length, ls.length)
decreasing_by
  · exact Prod.Lex.left _ _ (length_without_lt _h)
  · exact Prod.Lex.right _ (Nat.lt_succ_self _)
  · exact Prod.Lex.right _ (Nat.lt_succ_self _)

section Expansion

variable {macros : List (String × List Lexeme)} {lexeme : Lexeme} {rest : List Lexeme}

theorem expand_cons_of_some {defined : String × List Lexeme}
    (h : definition? macros lexeme = some defined) : expand macros (lexeme :: rest) =
      expand (without macros defined.1) defined.2 ++ expand macros rest := by
  rw [expand]
  split
  · rename_i other hother
    rw [h] at hother
    cases hother
    rfl
  · rename_i hnone
    rw [h] at hnone
    cases hnone

theorem expand_cons_of_none (h : definition? macros lexeme = none) :
    expand macros (lexeme :: rest) = lexeme :: expand macros rest := by
  rw [expand]
  split
  · rename_i other hother
    rw [h] at hother
    cases hother
  · rfl

/-- A name alone. -/
theorem expand_singleton {defined : String × List Lexeme}
    (h : definition? macros lexeme = some defined) :
    expand macros [lexeme] = expand (without macros defined.1) defined.2 := by
  rw [expand_cons_of_some h, expand, List.append_nil]

/-- Where every macro stands for two lexemes at least, expansion shortens nothing, and it lengthens
whatever has a macro in it. -/
theorem length_le_expand (macros : List (String × List Lexeme)) (ls : List Lexeme)
    (hbodies : ∀ defined ∈ macros, 2 ≤ defined.2.length) :
    ls.length ≤ (expand macros ls).length ∧
      ((∃ lexeme ∈ ls, definition? macros lexeme ≠ none) →
        ls.length < (expand macros ls).length) := by
  induction macros, ls using expand.induct with
  | case1 macros =>
    rw [expand]
    exact ⟨Nat.le_refl _, fun ⟨_, h, _⟩ => absurd h List.not_mem_nil⟩
  | case2 macros lexeme rest defined h ihbody ihrest =>
    -- one lexeme is replaced by two at least, and expansion inside these shortens nothing
    have hbody := ihbody fun other hother => hbodies other (List.mem_filter.mp hother).1
    have hlong := hbodies defined (List.mem_of_find?_eq_some h)
    have hrest := (ihrest hbodies).1
    rw [expand_cons_of_some h, List.length_append, List.length_cons]
    omega
  | case3 macros lexeme rest h ih =>
    obtain ⟨hle, hlt⟩ := ih hbodies
    rw [expand_cons_of_none h, List.length_cons, List.length_cons]
    refine ⟨by omega, ?_⟩
    rintro ⟨other, hother, hdefined⟩
    rcases List.mem_cons.mp hother with rfl | hother
    · exact absurd h hdefined
    · have := hlt ⟨other, hother, hdefined⟩
      omega

/-- **Expansion changes nothing** exactly where no name has a macro. -/
theorem expand_eq_self_iff {ls : List Lexeme}
    (hbodies : ∀ defined ∈ macros, 2 ≤ defined.2.length) :
    expand macros ls = ls ↔ ∀ lexeme ∈ ls, definition? macros lexeme = none := by
  constructor
  · intro h lexeme hlexeme
    by_contra hdefined
    have hlt := (length_le_expand macros ls hbodies).2 ⟨lexeme, hlexeme, hdefined⟩
    rw [h] at hlt
    exact absurd hlt (Nat.lt_irrefl _)
  · intro h
    induction ls with
    | nil => rw [expand]
    | cons lexeme rest ih =>
      obtain ⟨hlexeme, hrest⟩ := List.forall_mem_cons.mp h
      rw [expand_cons_of_none hlexeme, ih hrest]

/-- What a macro stands for has no macro in it, when its own name is left alone. -/
theorem definition?_without_eq_none_iff {name : String} :
    definition? (without macros name) lexeme = none ↔
      ∀ defined ∈ macros, defined.1 ≠ name → wordOf defined.1 ≠ lexeme := by
  unfold definition? without
  rw [List.find?_eq_none]
  constructor
  · intro h defined hdefined hname heq
    exact h defined (List.mem_filter.mpr ⟨hdefined, decide_eq_true hname⟩) (decide_eq_true heq)
  · intro h defined hdefined heq
    obtain ⟨hmem, hname⟩ := List.mem_filter.mp hdefined
    exact h defined hmem (of_decide_eq_true hname) (of_decide_eq_true heq)

end Expansion

/-! ## 2. The names of a layout -/

theorem underscored_ne (name : String) : "_" ++ name ≠ name := by
  intro heq
  have hlength := congrArg (fun text => text.toList.length) heq
  simp at hlength

namespace Layout

section Names

variable {layout : Layout} (hbreaks : ∀ name ∈ layout.names, HasBreak name)

theorem two_le_of_mem_macroEntries :
    ∀ defined ∈ layout.macroEntries, 2 ≤ defined.2.length := by
  refine List.forall_mem_append.mpr ⟨List.forall_mem_map.mpr fun field _ => ?_,
    List.forall_mem_map.mpr fun field _ => ?_⟩
  · unfold accessTokens
    split <;> simp
  · exact (by decide : 2 ≤ 6)

theorem definition?_of_mem {name : String} {body : List Lexeme} (hnodup : layout.names.Nodup)
    (h : (name, body) ∈ layout.macroEntries) :
    definition? layout.macroEntries (wordOf name) = some (name, body) := by
  rw [← map_fst_macroEntries] at hnodup
  have hone := filter_eq_singleton hnodup h
  have hsame : (layout.macroEntries.filter fun defined => wordOf defined.1 = wordOf name) =
      [(name, body)] := by
    rw [← hone]
    refine List.filter_congr fun defined _ => ?_
    exact decide_eq_decide.mpr ⟨wordOf_inj, fun heq => by rw [heq]⟩
  unfold definition?
  rw [← List.head?_filter, hsame]
  rfl

theorem mem_names_iff {name : String} :
    name ∈ layout.names ↔ ∃ body, (name, body) ∈ layout.macroEntries := by
  rw [← map_fst_macroEntries, List.mem_map]
  constructor
  · rintro ⟨⟨_, body⟩, hmem, rfl⟩
    exact ⟨body, hmem⟩
  · rintro ⟨body, hmem⟩
    exact ⟨_, hmem, rfl⟩

/-- A word in what a macro of another name stands for has a macro exactly if it is a bound name. -/
theorem definition?_word_eq_none_iff {name word : String} (hne : word ≠ name) :
    definition? (without layout.macroEntries name) (wordOf word) = none ↔ word ∉ layout.names := by
  rw [definition?_without_eq_none_iff, mem_names_iff]
  constructor
  · rintro h ⟨body, hbody⟩
    exact h _ hbody hne rfl
  · rintro h ⟨other, body⟩ hbody - heq
    obtain rfl := wordOf_inj heq
    exact h ⟨body, hbody⟩

theorem definition?_mark_eq_none (macros : List (String × List Lexeme)) (c : Char) :
    definition? macros (.mark c) = none :=
  List.find?_eq_none.mpr fun defined _ heq => by
    have hword := of_decide_eq_true heq
    cases hword

include hbreaks

/-- A word without an `_r` has no macro. -/
theorem definition?_fixed_eq_none (name : String) {word : String} (hword : ¬ HasBreak word) :
    definition? (without layout.macroEntries name) (wordOf word) = none := by
  refine definition?_without_eq_none_iff.mpr fun defined hdefined _ heq => ?_
  have hname : defined.1 ∈ layout.names := mem_names_iff.mpr ⟨defined.2, hdefined⟩
  exact ne_of_hasBreak (hbreaks _ hname) hword (wordOf_inj heq)

/-- **The name of a field is expanded to its member** exactly if no bound name is that of the
member. -/
theorem expand_field_iff (hnodup : layout.names.Nodup) {field : BlockField}
    (h : field ∈ layout.fields) :
    expand layout.macroEntries [wordOf field.name] = accessTokens field ↔
      "_" ++ field.name ∉ layout.names := by
  have hmem : (field.name, accessTokens field) ∈ layout.macroEntries :=
    List.mem_append_left _ (List.mem_map.mpr ⟨field, h, rfl⟩)
  have hbodies : ∀ defined ∈ without layout.macroEntries field.name, 2 ≤ defined.2.length :=
    fun defined hdefined => two_le_of_mem_macroEntries defined (List.mem_filter.mp hdefined).1
  have hblock : ¬ HasBreak "material_params" := by decide
  have hbool : ¬ HasBreak "bool" := by decide
  rw [expand_singleton (definition?_of_mem hnodup hmem), expand_eq_self_iff hbodies,
    ← definition?_word_eq_none_iff (underscored_ne field.name)]
  have hmember : (∀ lexeme ∈ [wordOf "material_params", .mark '.', wordOf ("_" ++ field.name)],
      definition? (without layout.macroEntries field.name) lexeme = none) ↔
        definition? (without layout.macroEntries field.name) (wordOf ("_" ++ field.name)) =
          none := by
    simp only [List.forall_mem_cons, definition?_fixed_eq_none hbreaks _ hblock,
      definition?_mark_eq_none, List.not_mem_nil, false_imp_iff, implies_true, and_true, true_and]
  unfold accessTokens
  split
  · rw [List.cons_append, List.cons_append, List.forall_mem_cons, List.forall_mem_cons,
      List.forall_mem_append, hmember]
    simp only [definition?_fixed_eq_none hbreaks _ hbool, definition?_mark_eq_none, true_and,
      List.forall_mem_cons, List.not_mem_nil, false_imp_iff, implies_true, and_true]
  · exact hmember

/-- **The name of a texture is expanded to its variables** exactly if no bound name is that of one
of these. -/
theorem expand_texture_iff (hnodup : layout.names.Nodup) {field : TextureField}
    (h : field ∈ layout.textures) :
    expand layout.macroEntries [wordOf field.name] = callTokens field ↔
      field.name ++ "_texture" ∉ layout.names ∧ field.name ++ "_sampler" ∉ layout.names := by
  have hmem : (field.name, callTokens field) ∈ layout.macroEntries :=
    List.mem_append_right _ (List.mem_map.mpr ⟨field, h, rfl⟩)
  have hbodies : ∀ defined ∈ without layout.macroEntries field.name, 2 ≤ defined.2.length :=
    fun defined hdefined => two_le_of_mem_macroEntries defined (List.mem_filter.mp hdefined).1
  have htype : ¬ HasBreak (textureTypes field.kind).2 := by
    cases field.kind <;> decide
  have hlonger : ∀ ending : String, ending ≠ "" → field.name ++ ending ≠ field.name := by
    intro ending hending heq
    exact hending (String.append_eq_left_iff.mp heq)
  rw [expand_singleton (definition?_of_mem hnodup hmem), expand_eq_self_iff hbodies,
    ← definition?_word_eq_none_iff (hlonger "_texture" (by decide)),
    ← definition?_word_eq_none_iff (hlonger "_sampler" (by decide)), callTokens]
  simp only [List.forall_mem_cons, definition?_fixed_eq_none hbreaks _ htype,
    definition?_mark_eq_none, List.not_mem_nil, false_imp_iff, implies_true, and_true, true_and]

omit hbreaks in
theorem mem_memberNames {name : String} : name ∈ layout.memberEntries.map Prod.snd ↔
    (layout.fields = [] ∧ name = "_unused") ∨
      ∃ field ∈ layout.fields, name = "_" ++ field.name := by
  unfold memberEntries
  rw [List.map_append, List.mem_append, List.map_map]
  refine or_congr ?_ ?_
  · cases layout.fields <;> simp
  · rw [List.mem_map]
    exact exists_congr fun field => and_congr_right fun _ => eq_comm

omit hbreaks in
theorem mem_variableNames {name : String} :
    name ∈ (blockEntry :: layout.textures.flatMap variablesOf).map Prod.snd ↔
      name = "material_params" ∨ ∃ field ∈ layout.textures,
        name = field.name ++ "_texture" ∨ name = field.name ++ "_sampler" := by
  rw [List.map_cons, List.mem_cons, List.map_flatMap, List.mem_flatMap]
  refine or_congr Iff.rfl (exists_congr fun field => and_congr_right fun _ => ?_)
  simp [variablesOf]

/-- **The names of the declarations are distinct** exactly if no made name is a bound one, and no
member is named like a variable. -/
theorem nodup_namesIn_iff (hidentifiers : ∀ name ∈ layout.names, IsIdentifier name)
    (hnodup : layout.names.Nodup) : (namesIn layout.declarations).Nodup ↔
      (∀ field ∈ layout.fields, "_" ++ field.name ∉ layout.names) ∧
      (∀ field ∈ layout.textures, field.name ++ "_texture" ∉ layout.names ∧
        field.name ++ "_sampler" ∉ layout.names) ∧
      ∀ field ∈ layout.fields, ∀ other ∈ layout.textures,
        "_" ++ field.name ≠ other.name ++ "_texture" ∧
          "_" ++ field.name ≠ other.name ++ "_sampler" := by
  unfold namesIn
  rw [declaredIn_declarations hidentifiers, macrosIn_declarations hidentifiers,
    map_fst_macroEntries, List.map_append, List.nodup_append, List.nodup_append]
  -- the two fixed names have no `_r` in them, so no bound name and no made one meets them
  have hunused : ¬ HasBreak "_unused" := by decide
  have hblock : ¬ HasBreak "material_params" := by decide
  have hfields : ∀ field ∈ layout.fields, HasBreak ("_" ++ field.name) := by
    intro field hfield
    have hname := hbreaks field.name (List.mem_append_left _ (List.mem_map_of_mem hfield))
    simpa using hname.around "_" ""
  have htextures : ∀ field ∈ layout.textures, ∀ ending, HasBreak (field.name ++ ending) := by
    intro field hfield ending
    have hname := hbreaks field.name (List.mem_append_right _ (List.mem_map_of_mem hfield))
    simpa using hname.around "" ending
  constructor
  · rintro ⟨⟨-, -, hmeet⟩, -, hbound⟩
    refine ⟨fun field hfield h => ?_, fun field hfield => ⟨fun h => ?_, fun h => ?_⟩,
      fun field hfield other hother => ⟨?_, ?_⟩⟩
    · exact hbound _ (List.mem_append_left _
        (mem_memberNames.mpr (.inr ⟨field, hfield, rfl⟩))) _ h rfl
    · exact hbound _ (List.mem_append_right _
        (mem_variableNames.mpr (.inr ⟨field, hfield, .inl rfl⟩))) _ h rfl
    · exact hbound _ (List.mem_append_right _
        (mem_variableNames.mpr (.inr ⟨field, hfield, .inr rfl⟩))) _ h rfl
    · exact hmeet _ (mem_memberNames.mpr (.inr ⟨field, hfield, rfl⟩)) _
        (mem_variableNames.mpr (.inr ⟨other, hother, .inl rfl⟩))
    · exact hmeet _ (mem_memberNames.mpr (.inr ⟨field, hfield, rfl⟩)) _
        (mem_variableNames.mpr (.inr ⟨other, hother, .inr rfl⟩))
  · rintro ⟨hmembers, hvariables, hapart⟩
    refine ⟨⟨nodup_memberEntries hnodup, nodup_variables hnodup, ?_⟩, hnodup, ?_⟩
    · rintro _ hmember _ hvariable rfl
      rcases mem_memberNames.mp hmember with ⟨-, hname⟩ | ⟨field, hfield, hname⟩
      · rcases mem_variableNames.mp hvariable with heq | ⟨other, hother, heq | heq⟩
        · exact absurd (hname.symm.trans heq) (by decide)
        · exact ne_of_hasBreak (htextures other hother _) hunused (heq.symm.trans hname)
        · exact ne_of_hasBreak (htextures other hother _) hunused (heq.symm.trans hname)
      · rcases mem_variableNames.mp hvariable with heq | ⟨other, hother, heq | heq⟩
        · exact ne_of_hasBreak (hfields field hfield) hblock (hname.symm.trans heq)
        · exact (hapart field hfield other hother).1 (hname.symm.trans heq)
        · exact (hapart field hfield other hother).2 (hname.symm.trans heq)
    · rintro _ hmade _ hbound rfl
      rcases List.mem_append.mp hmade with hmember | hvariable
      · rcases mem_memberNames.mp hmember with ⟨-, hname⟩ | ⟨field, hfield, hname⟩
        · exact ne_of_hasBreak (hbreaks _ hbound) hunused hname
        · exact hmembers field hfield (hname ▸ hbound)
      · rcases mem_variableNames.mp hvariable with hname | ⟨other, hother, hname | hname⟩
        · exact ne_of_hasBreak (hbreaks _ hbound) hblock hname
        · exact (hvariables other hother).1 (hname ▸ hbound)
        · exact (hvariables other hother).2 (hname ▸ hbound)

end Names

end Layout

end ShaderFabric
