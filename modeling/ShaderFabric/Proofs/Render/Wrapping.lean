/-
# Loose declarations are replaced

The shader of a material takes the declarations of bound names out of the composed program and
declares these names again.  The declarations are found by a scan of the whole program, in which
hand-written text may stand before and after each of them.  As every text of a node ends in a line
end, none of its lexemes goes on into the next line unless it is a comment that is not closed.

* `settled_text`, `settled_canonicalLine` -- texts of a program that end with their lexemes;
* `exists_source_eq`, `settled_textBefore` -- where the line of a bound uniform stands, and that what
  stands before it ends with its lexemes;
* `DeclaredOnce` -- a name that a text declares once, with its type;
* `Material.loose_replaced` -- what this comes to for every material without destroyed nodes.
-/
import ShaderFabric.Proofs.Material.Origin
import ShaderFabric.Proofs.Render.Reading
import ShaderFabric.Proofs.Text.Removal

namespace ShaderFabric

/-! ## 1. Texts of a program -/

/-- A text that goes on ends as what it goes on with. -/
theorem getLast?_toList_append {text : String} {c : Char} (h : text.toList.getLast? = some c)
    (front : String) : (front ++ text).toList.getLast? = some c := by
  rw [String.toList_append, List.getLast?_append, h]
  rfl

theorem getLast?_endLine (text : String) : (endLine text).toList.getLast? = some '\n' := by
  unfold endLine
  split
  · assumption
  · exact getLast?_toList_append rfl text

/-- **The text of a node ends in a line end.** -/
theorem getLast?_text (node : Node) :
    (composeNode true node).text.toList.getLast? = some '\n' := by
  have htext : (composeNode true node).text =
      nodeText node (node.uniforms.map (composeUniform true node.path)) := by
    cases node
    rfl
  rw [htext]
  unfold nodeText
  cases node.body with
  | source text => exact getLast?_endLine _
  | components assignments => exact getLast?_toList_append (by decide) _
  | plain => exact getLast?_toList_append (by decide) _

theorem settled_text {node : Node} (closed : ClosesComments (composeNode true node).text.toList) :
    Settled (composeNode true node).text.toList :=
  .ofLine closed (getLast?_text node)

theorem ClosesComments.of_not_mem {cs : List Char} (hslash : '/' ∉ cs) : ClosesComments cs := by
  intro lexeme hlexeme
  have hnot := isTrailing_of_not_mem hslash hlexeme
  cases lexeme with
  | openComment text => cases hnot
  | _ => rfl

theorem Kind.isIdentifier_glslName (kind : Kind) : IsIdentifier kind.glslName := by
  cases kind <;> decide

theorem Kind.glslName_not_mem_precisions (kind : Kind) : kind.glslName ∉ precisions := by
  cases kind <;> decide

theorem IsIdentifier.slash_not_mem {name : String} (h : IsIdentifier name) : '/' ∉ name.toList :=
  fun hmem => absurd (h.isWordChar '/' hmem) (by decide)

/-- **The line of a uniform** ends with its lexemes. -/
theorem settled_canonicalLine {entry : String × Kind} (h : IsIdentifier entry.1) :
    Settled (canonicalLine entry).toList := by
  refine .ofLine (.of_not_mem ?_) (getLast?_toList_append rfl _)
  have hname := h.slash_not_mem
  have htype := entry.2.isIdentifier_glslName.slash_not_mem
  unfold canonicalLine
  simp only [String.toList_append, List.mem_append, not_or]
  exact ⟨⟨⟨⟨by decide, htype⟩, by decide⟩, hname⟩, by decide⟩

/-! ## 2. The lines of a program are found -/

/-- The declaration of an identifier of a type, without the end of its line. -/
def declarationText (entry : String × Kind) : String :=
  "uniform " ++ entry.2.glslName ++ " " ++ entry.1 ++ ";"

theorem canonicalLine_eq (entry : String × Kind) :
    canonicalLine entry = declarationText entry ++ "\n" := by
  have hend : (";\n" : String) = ";" ++ "\n" := rfl
  unfold canonicalLine declarationText
  rw [hend, ← String.append_assoc]

/-- The declaration of an identifier behind a text. -/
def declarationBehind (front : String) (entry : String × Kind) : Declaration where
  typeName := entry.2.glslName
  name := entry.1
  start := front.utf8ByteSize
  stop := front.utf8ByteSize + (declarationText entry).utf8ByteSize

/-- What a program has in front of a line of a node: the texts of the nodes before, and the lines
before. -/
def textBefore (before : List Node) (first : List (String × Kind)) : String :=
  String.join (before.map fun node => (composeNode true node).text) ++
    String.join (first.map canonicalLine)

/-- Where a line of a node stands in the program. -/
theorem exists_source_eq {node : Node} {first rest : List (String × Kind)} {entry : String × Kind}
    (hdeclared : (composeNode true node).declared = first ++ entry :: rest)
    (before after : List Node) : ∃ behind,
      String.join ((before ++ node :: after).map fun node => (composeNode true node).text) =
        textBefore before first ++ declarationText entry ++ ("\n" ++ behind) := by
  obtain ⟨ending, -, htext⟩ := text_composeNode node
  refine ⟨String.join (rest.map canonicalLine) ++ (node.bodyText ++ (ending ++
    String.join (after.map fun node => (composeNode true node).text))), ?_⟩
  rw [List.map_append, List.map_cons, String.join_append, String.join_cons, htext, hdeclared,
    List.map_append, List.map_cons, String.join_append, String.join_cons, canonicalLine_eq]
  simp only [textBefore, String.append_assoc]

/-- What stands before a line ends with its lexemes, if the texts of the nodes before it close the
comments they open. -/
theorem settled_textBefore {before : List Node} {first : List (String × Kind)}
    (closed : ∀ earlier ∈ before, ClosesComments (composeNode true earlier).text.toList)
    (hnames : ∀ entry ∈ first, IsIdentifier entry.1) :
    Settled (textBefore before first).toList := by
  rw [textBefore, String.toList_append]
  refine .append (.join (List.forall_mem_map.mpr fun earlier hearlier => ?_))
    (.join (List.forall_mem_map.mpr fun other hother => ?_))
  · exact settled_text (closed earlier hearlier)
  · exact settled_canonicalLine (hnames other hother)

/-! ## 3. Names that are declared again -/

/-- **A name that is declared once**, with its type.  A boolean is a number in the block, and its
macro makes a boolean of it; a texture and a sampler are variables, and the macro joins them. -/
structure DeclaredOnce (text : String) (name : String) (kind : Kind) : Prop where
  given : (macrosIn text).filter (fun defined => defined.1 = name) =
    [(name, Layout.givenBack name kind)]
  typed : typeIn text (Layout.givenBack name kind) = some (wordOf kind.glslName)
  member : kind.isPlain = true →
    (membersIn text).filter (fun declared => declared.2 = "_" ++ name) =
      [(wordOf (Layout.fieldType kind), "_" ++ name)]
  texture : ∀ textureKind, kind.textureKind? = some textureKind →
    (variablesIn text).filter (fun declared => declared.2 = name ++ "_texture") =
        [(wordOf (Layout.textureTypes textureKind).1, name ++ "_texture")] ∧
      (variablesIn text).filter (fun declared => declared.2 = name ++ "_sampler") =
        [(wordOf "sampler", name ++ "_sampler")]

namespace Layout

section Entries

variable {entries : List (String × Kind)} {name : String} {kind : Kind}
variable (hidentifiers : ∀ name ∈ (ofEntries entries).names, IsIdentifier name)
variable (hnodup : (entries.map Prod.fst).Nodup)

include hidentifiers hnodup

theorem member_once (h : (name, kind) ∈ entries) (hplain : kind.isPlain = true) :
    (membersIn (ofEntries entries).declarations).filter (fun declared => declared.2 = "_" ++ name) =
      [(wordOf (fieldType kind), "_" ++ name)] := by
  obtain ⟨field, hfield, rfl, rfl⟩ := exists_field h hplain
  rw [membersIn_declarations hidentifiers]
  have hmem : (wordOf (fieldType field.kind), "_" ++ field.name) ∈
      (ofEntries entries).memberEntries :=
    List.mem_append_right _ (List.mem_map.mpr ⟨field, hfield, rfl⟩)
  exact filter_eq_singleton (nodup_memberEntries (nodup_names_ofEntries hnodup)) hmem

theorem texture_once {textureKind : TextureKind} (h : (name, kind) ∈ entries)
    (hkind : kind.textureKind? = some textureKind) :
    (variablesIn (ofEntries entries).declarations).filter
          (fun declared => declared.2 = name ++ "_texture") =
        [(wordOf (textureTypes textureKind).1, name ++ "_texture")] ∧
      (variablesIn (ofEntries entries).declarations).filter
          (fun declared => declared.2 = name ++ "_sampler") =
        [(wordOf "sampler", name ++ "_sampler")] := by
  have hfield := mem_textures h hkind
  have hvariables := nodup_variables (nodup_names_ofEntries hnodup)
  have hmem : ∀ declared ∈ variablesOf ⟨name, textureKind⟩,
      declared ∈ blockEntry :: (ofEntries entries).textures.flatMap variablesOf :=
    fun declared h => List.mem_cons_of_mem _ (List.mem_flatMap.mpr ⟨_, hfield, h⟩)
  rw [variablesIn_declarations hidentifiers]
  constructor
  · exact filter_eq_singleton hvariables (hmem _ List.mem_cons_self)
  · exact filter_eq_singleton hvariables (hmem _ (List.mem_cons_of_mem _ List.mem_cons_self))

theorem given_once (h : (name, kind) ∈ entries) (hkind : kind ≠ .channels) :
    (macrosIn (ofEntries entries).declarations).filter (fun defined => defined.1 = name) =
      [(name, givenBack name kind)] := by
  have hnames := nodup_names_ofEntries hnodup
  rw [← map_fst_macroEntries] at hnames
  have hmem := mem_macroEntries h hkind
  rw [macrosIn_declarations hidentifiers]
  exact filter_eq_singleton hnames hmem

/-- What a name is given back as has its type. -/
theorem typeIn_givenBack (h : (name, kind) ∈ entries) (hkind : kind ≠ .channels) :
    typeIn (ofEntries entries).declarations (givenBack name kind) =
      some (wordOf kind.glslName) := by
  have hmember : kind.isPlain = true → kind ≠ .bool → kind.textureKind? = none →
      fieldType kind = kind.glslName →
      typeIn (ofEntries entries).declarations (givenBack name kind) =
        some (wordOf kind.glslName) := by
    intro hplain hbool htexture htype
    have honce := member_once hidentifiers hnodup h hplain
    rw [givenBack, htexture]
    simp only [accessTokens, hbool, if_false, wordOf, typeIn, String.ofList_toList]
    rw [← List.head?_filter, honce, htype]
    rfl
  cases kind with
  | channels => exact absurd rfl hkind
  | bool | sampler2D | samplerCube => rfl
  | _ => exact hmember rfl (by decide) rfl rfl

/-- **Every entry but a selector is declared once.** -/
theorem declaredOnce (h : (name, kind) ∈ entries) (hkind : kind ≠ .channels) :
    DeclaredOnce (ofEntries entries).declarations name kind where
  given := given_once hidentifiers hnodup h hkind
  typed := typeIn_givenBack hidentifiers hnodup h hkind
  member hplain := member_once hidentifiers hnodup h hplain
  texture _ htexture := texture_once hidentifiers hnodup h htexture

end Entries

end Layout

namespace Material

/-! ## 4. Materials without destroyed nodes -/

/-- **Loose declarations are replaced.**  Take a material at the end of a run in which no node is
destroyed, with bindings of different names.  Its text is that of a resolved fabric, node by node.
The shader that draws it has the declarations of its layout, and behind the prelude this text
without some declarations.  In it

* the line of each uniform that a node declares is among the declarations that are taken out, if the
  texts of the nodes before it close the comments they open, whatever else stands in them;
* each declaration that is taken out is one of a bound name;
* the rest of the text is kept as it is;
* each bound name is declared again, once, with its type. -/
theorem loose_replaced {library : Library} {loader : Loader} {workers : Nat} {m last : Material}
    {studio final : Studio} {events : List Event} (built : Built library loader workers m studio)
    (h : run loader events m studio = some (last, final)) (hintact : last.isIntact = true)
    (hnames : (last.bindings.map Binding.name).Nodup) :
    ∃ strict fabric root, resolve library strict fabric = .ok root ∧
      last.source = String.join (root.emitted.map fun node => (composeNode true node).text) ∧
      wrapFragment last.source (Layout.ofBindings last.bindings) =
        shaderHead ++ "\n" ++ (Layout.ofBindings last.bindings).declarations ++ "\n"
          ++ surfacePrelude ++ "\n" ++ shaderBody last.source (Layout.ofBindings last.bindings)
          ++ "\n" ++ shaderMain ∧
      (∀ before node after first entry rest, root.emitted = before ++ node :: after →
        (composeNode true node).declared = first ++ entry :: rest →
        (∃ behind, last.source =
          textBefore before first ++ declarationText entry ++ ("\n" ++ behind)) ∧
        ((∀ earlier ∈ before, ClosesComments (composeNode true earlier).text.toList) →
          declarationBehind (textBefore before first) entry ∈
            replacedDeclarations last.source (Layout.ofBindings last.bindings))) ∧
      (∀ declaration ∈ replacedDeclarations last.source (Layout.ofBindings last.bindings),
        declaration.name ∈ last.bindings.map Binding.name) ∧
      Cut 0 (replacedDeclarations last.source (Layout.ofBindings last.bindings))
        last.source.toList (shaderBody last.source (Layout.ofBindings last.bindings)).toList ∧
      ∀ binding ∈ last.bindings,
        DeclaredOnce (Layout.ofBindings last.bindings).declarations binding.name binding.kind := by
  obtain ⟨strict, fabric, root, hroot, hsource, hentries⟩ := program_of_intact built h hintact
  have ruled := ruled_of_run built h
  have hidentifiers : ∀ name ∈ (Layout.ofBindings last.bindings).names, IsIdentifier name :=
    Layout.forall_names_ofBindings fun binding hbinding => (ruled binding hbinding).isIdentifier
  refine ⟨strict, fabric, root, hroot, hsource, rfl, ?_, ?_, cut_removeSpans _ _, ?_⟩
  · intro before node after first entry rest hsplit hdeclared
    obtain ⟨behind, hbehind⟩ := exists_source_eq hdeclared before after
    rw [← hsplit, ← hsource] at hbehind
    refine ⟨⟨behind, hbehind⟩, fun closed => ?_⟩
    have hbound : ∀ entry ∈ (composeNode true node).declared, ∃ binding ∈ last.bindings,
        (binding.name, binding.kind) = entry := by
      intro entry hentry
      rw [← map_entriesOfNode] at hentry
      obtain ⟨bound, hmem, rfl⟩ := List.mem_map.mp hentry
      have hall : bound ∈ last.bindings.map Binding.entry := by
        rw [hentries, hsplit]
        exact List.mem_flatMap.mpr ⟨node, List.mem_append_right _ List.mem_cons_self, hmem⟩
      obtain ⟨binding, hbinding, rfl⟩ := List.mem_map.mp hall
      exact ⟨binding, hbinding, rfl⟩
    have hidentifier : ∀ entry ∈ (composeNode true node).declared, IsIdentifier entry.1 := by
      intro entry hentry
      obtain ⟨binding, hbinding, rfl⟩ := hbound entry hentry
      exact (ruled binding hbinding).isIdentifier
    rw [hdeclared, List.forall_mem_append, List.forall_mem_cons] at hbound hidentifier
    obtain ⟨binding, hbinding, rfl⟩ := hbound.2.1
    refine List.mem_filter.mpr ⟨?_, decide_eq_true ?_⟩
    · rw [hbehind]
      exact mem_declarations_of_settled (settled_textBefore closed hidentifier.1)
        binding.kind.isIdentifier_glslName hidentifier.2.1
        binding.kind.glslName_not_mem_precisions
    · exact Layout.mem_names_ofEntries (List.mem_map_of_mem hbinding)
        (ruled binding hbinding).kind_ne
  · intro declaration hdeclaration
    have hname := of_decide_eq_true (List.mem_filter.mp hdeclaration).2
    obtain ⟨binding, hbinding, heq⟩ := Layout.mem_names_ofBindings hname
    exact List.mem_map.mpr ⟨binding, hbinding, heq⟩
  · intro binding hbinding
    refine Layout.declaredOnce hidentifiers ?_ (List.mem_map_of_mem hbinding)
      (ruled binding hbinding).kind_ne
    rw [List.map_map]
    exact hnames

namespace Example

/-- A sub-material whose hand-written text ends in a declaration that has just begun, with a comment
that looks like one before it. -/
def dangling : Fabric :=
  { uniforms := [("lit", .bool true)]
    materials := [("part",
      { uniforms := [("map", .text "part.png")]
        source := some "vec4 shown = texture(map, vec2(0.5)); // uniform lit_r;\nuniform highp" })]
    components := some [("diffuse", "part.diffuse * float(lit)")] }

/-- Whether the material has all its nodes, and what it binds. -/
def danglingNames : Option (Bool × List String) :=
  match (ofFabric ⟨[]⟩ ⟨true, none⟩ ⟨true, [], []⟩ dangling).run ⟨.start 1, .empty⟩ with
  | (.ok m, _) => some (m.isIntact, m.bindings.map Binding.name)
  | (.error _, _) => none

/-- **Text that has just begun a declaration** does not stand in the way: only declarations of the
two bound names are taken out, and both names are declared again. -/
theorem dangling_replaced : ∃ m studio, Built ⟨[]⟩ ⟨true, [], []⟩ 1 m studio ∧
    run ⟨true, [], []⟩ [] m studio = some (m, studio) ∧ m.isIntact = true ∧
    m.bindings.map Binding.name = ["map_r4part", "lit_r"] ∧
    wrapFragment m.source (Layout.ofBindings m.bindings) =
      shaderHead ++ "\n" ++ (Layout.ofBindings m.bindings).declarations ++ "\n" ++ surfacePrelude
        ++ "\n" ++ shaderBody m.source (Layout.ofBindings m.bindings) ++ "\n" ++ shaderMain ∧
    (∀ declaration ∈ replacedDeclarations m.source (Layout.ofBindings m.bindings),
      declaration.name ∈ ["map_r4part", "lit_r"]) ∧
    Cut 0 (replacedDeclarations m.source (Layout.ofBindings m.bindings)) m.source.toList
      (shaderBody m.source (Layout.ofBindings m.bindings)).toList ∧
    ∀ binding ∈ m.bindings,
      DeclaredOnce (Layout.ofBindings m.bindings).declarations binding.name binding.kind := by
  have hmade : danglingNames = some (true, ["map_r4part", "lit_r"]) := by
    decide +kernel
  unfold danglingNames at hmade
  cases hbuild : (ofFabric ⟨[]⟩ ⟨true, none⟩ ⟨true, [], []⟩ dangling).run ⟨.start 1, .empty⟩ with
  | mk result studio =>
    rw [hbuild] at hmade
    cases result with
    | error error => cases hmade
    | ok m =>
      obtain ⟨hintact, hbound⟩ := Prod.mk.inj (Option.some.inj hmade)
      have built : Built ⟨[]⟩ ⟨true, [], []⟩ 1 m studio := .ofFabric hbuild
      have hrun : run ⟨true, [], []⟩ [] m studio = some (m, studio) := rfl
      have hnames : (m.bindings.map Binding.name).Nodup := by
        rw [hbound]
        decide
      obtain ⟨-, -, -, -, -, hshader, -, hreplaced, hcut, honce⟩ :=
        loose_replaced built hrun hintact hnames
      rw [hbound] at hreplaced
      exact ⟨m, studio, built, hrun, hintact, hbound, hshader, hreplaced, hcut, honce⟩

end Example

end Material

end ShaderFabric
