/-
# The lines of the declarations

The declarations of a layout are a text of lines: the block with a line for each field, a macro for
each field, and three lines for each texture.  No name that is an identifier has a line end in it,
so the lines can be read off every text that starts with the declarations.

* `linesOf_endLines` -- lines that are ended one by one are read back;
* `declarations_eq` -- the declarations are the lines of the layout, each of them ended;
* `linesOf_declarations` -- what the lines of a text are that starts with declarations.
-/
import ShaderFabric.Proofs.Render.Placement
import ShaderFabric.Proofs.Text.Identifier
import ShaderFabric.Render.Shader

namespace ShaderFabric

/-! ## 1. Lines of a text -/

/-- The lines of a text. -/
def linesOf (text : String) : List String := (text.toList.splitOn '\n').map String.ofList

/-- Lines, each of them ended. -/
def endLines (lines : List String) : String := String.join (lines.map (· ++ "\n"))

/-- A text without a line end. -/
def OneLine (text : String) : Prop := '\n' ∉ text.toList

instance (text : String) : Decidable (OneLine text) :=
  inferInstanceAs (Decidable (¬ '\n' ∈ text.toList))

theorem OneLine.append {text rest : String} (h : OneLine text) (hrest : OneLine rest) :
    OneLine (text ++ rest) := by
  simp only [OneLine, String.toList_append, List.mem_append, not_or]
  exact ⟨h, hrest⟩

theorem IsIdentifier.oneLine {name : String} (h : IsIdentifier name) : OneLine name := by
  obtain ⟨c, rest, hname, hc, hrest⟩ := h
  intro hmem
  rw [hname] at hmem
  rcases List.mem_cons.mp hmem with rfl | hmem
  · exact absurd hc (by decide)
  · exact absurd (hrest '\n' hmem) (by decide)

theorem oneLine_toString (n : Nat) : OneLine (toString n) := by
  intro hmem
  have hdigit : ('\n').isDigit = true :=
    Nat.isDigit_of_mem_toDigits (by decide) (by decide) (Nat.toList_repr ▸ hmem)
  exact absurd hdigit (by decide)

theorem endLines_append (lines rest : List String) :
    endLines (lines ++ rest) = endLines lines ++ endLines rest := by
  simp [endLines, String.join_append]

theorem linesOf_line {line : String} (h : OneLine line) (rest : String) :
    linesOf (line ++ "\n" ++ rest) = line :: linesOf rest := by
  unfold linesOf
  have hnone : ∀ c ∈ line.toList, (c == '\n') = false := by
    intro c hc
    rw [beq_eq_false_iff_ne]
    rintro rfl
    exact h hc
  have hsplit := List.splitOnP_append_cons_of_forall_mem hnone '\n' (beq_self_eq_true _) rest.toList
  have htext : (line ++ "\n" ++ rest).toList = line.toList ++ '\n' :: rest.toList := by simp
  rw [htext, List.splitOn_eq_splitOnP, hsplit, List.map_cons, String.ofList_toList]
  rfl

/-- **Lines that are ended one by one** are read back. -/
theorem linesOf_endLines : ∀ {lines : List String}, (∀ line ∈ lines, OneLine line) →
    ∀ rest, linesOf (endLines lines ++ rest) = lines ++ linesOf rest
  | [], _, rest => by simp [endLines]
  | line :: lines, h, rest => by
    obtain ⟨hline, hlines⟩ := List.forall_mem_cons.mp h
    have hcons : endLines (line :: lines) ++ rest = line ++ "\n" ++ (endLines lines ++ rest) := by
      simp [endLines, String.append_assoc]
    rw [hcons, linesOf_line hline, linesOf_endLines hlines, List.cons_append]

namespace Layout

/-! ## 2. Lines of a layout -/

/-- The line that the block starts with. -/
def headLine : String := "layout(std140, set = 1, binding = 0) uniform MaterialParams \x7b"

/-- The line that the block ends with. -/
def closeLine : String := "\x7d material_params;"

/-- The line of a field in the block. -/
def memberLine (field : BlockField) : String :=
  "    " ++ fieldType field.kind ++ " _" ++ field.name ++ ";"

/-- What the macro of a field stands for. -/
def memberAccess (field : BlockField) : String :=
  match field.kind with
  | .bool => "bool(material_params._" ++ field.name ++ ")"
  | _ => "material_params._" ++ field.name

/-- The line of a macro. -/
def macroLine (name body : String) : String := "#define " ++ name ++ " " ++ body

/-- The line of something at a place of its own. -/
def placeLine (place : Nat) (type name : String) : String :=
  "layout(set = 1, binding = " ++ toString place ++ ") uniform " ++ type ++ " " ++ name ++ ";"

/-- What the macro of a texture stands for. -/
def textureCall (field : TextureField) : String :=
  (textureTypes field.kind).2 ++ "(" ++ field.name ++ "_texture, " ++ field.name ++ "_sampler)"

/-- The lines of the texture at an index. -/
def textureLines (index : Nat) (field : TextureField) : List String :=
  [placeLine (texturePlace index) (textureTypes field.kind).1 (field.name ++ "_texture"),
    placeLine (texturePlace index + 1) "sampler" (field.name ++ "_sampler"),
    macroLine field.name (textureCall field)]

/-- The lines of the textures from an index on. -/
def allTextureLines (index : Nat) : List TextureField → List String
  | [] => []
  | field :: rest => textureLines index field ++ allTextureLines (index + 1) rest

/-- The lines of the fields of a block; one without fields has a member that nothing uses. -/
def memberLines (layout : Layout) : List String :=
  (if layout.fields.isEmpty then ["    float _unused;"] else []) ++ layout.fields.map memberLine

/-- The lines of the macros of the fields. -/
def macroLines (layout : Layout) : List String :=
  layout.fields.map fun field => macroLine field.name (memberAccess field)

/-- **The lines of the declarations.** -/
def lines (layout : Layout) : List String :=
  headLine :: layout.memberLines ++ closeLine :: "" :: layout.macroLines
    ++ allTextureLines 0 layout.textures

theorem endLines_textureLines (index : Nat) (field : TextureField) :
    endLines (textureLines index field) = textureText index field := by
  obtain ⟨name, kind⟩ := field
  unfold textureText textureLines textureCall endLines placeLine macroLine
  dsimp only
  -- the numbers are not to be written out
  generalize toString (texturePlace index) = first
  generalize toString (texturePlace index + 1) = second
  rw [← String.toList_inj]
  cases kind <;> simp [textureTypes]

theorem endLines_allTextureLines : ∀ (textures : List TextureField) (index : Nat),
    endLines (allTextureLines index textures) = textureTexts index textures
  | [], _ => rfl
  | field :: rest, index => by
    rw [allTextureLines, endLines_append, endLines_textureLines, endLines_allTextureLines rest,
      textureTexts]

theorem endLines_macroLines (layout : Layout) :
    endLines layout.macroLines = String.join (layout.fields.map fieldMacro) := by
  unfold endLines macroLines
  rw [List.map_map]
  congr 1
  refine List.map_congr_left fun field _ => ?_
  obtain ⟨name, kind, offset⟩ := field
  rw [← String.toList_inj]
  cases kind <;> simp [macroLine, memberAccess, fieldMacro]

theorem endLines_memberLines (layout : Layout) : endLines layout.memberLines =
    (if layout.fields.isEmpty then "    float _unused;\n" else "")
      ++ String.join (layout.fields.map fieldLine) := by
  have hfields : endLines (layout.fields.map memberLine) =
      String.join (layout.fields.map fieldLine) := by
    unfold endLines
    rw [List.map_map]
    congr 1
    refine List.map_congr_left fun field _ => ?_
    rw [← String.toList_inj]
    simp [memberLine, fieldLine]
  rw [memberLines, endLines_append, hfields]
  cases layout.fields.isEmpty <;> rfl

/-- **The declarations are the lines of the layout**, each of them ended. -/
theorem declarations_eq (layout : Layout) : layout.declarations = endLines layout.lines := by
  have hcons : ∀ (line : String) (rest : List String),
      endLines (line :: rest) = line ++ "\n" ++ endLines rest := by
    simp [endLines]
  unfold declarations lines blockText
  rw [endLines_append, List.cons_append, hcons, endLines_append, hcons, hcons,
    endLines_memberLines, endLines_macroLines, endLines_allTextureLines]
  rw [← String.toList_inj]
  simp [headLine, closeLine]

/-! ## 3. No line has a line end in it -/

theorem oneLine_memberLine {field : BlockField} (h : OneLine field.name) :
    OneLine (memberLine field) := by
  have htype : OneLine (fieldType field.kind) := by
    cases field.kind <;> decide
  have hblanks : OneLine "    " := by decide
  have hscore : OneLine " _" := by decide
  have hend : OneLine ";" := by decide
  exact (((hblanks.append htype).append hscore).append h).append hend

theorem oneLine_macroLine {name body : String} (h : OneLine name) (hbody : OneLine body) :
    OneLine (macroLine name body) := by
  have hdefine : OneLine "#define " := by decide
  have hblank : OneLine " " := by decide
  exact ((hdefine.append h).append hblank).append hbody

theorem oneLine_memberAccess {field : BlockField} (h : OneLine field.name) :
    OneLine (memberAccess field) := by
  have hbool : OneLine "bool(material_params._" := by decide
  have hplain : OneLine "material_params._" := by decide
  have hend : OneLine ")" := by decide
  unfold memberAccess
  split
  · exact (hbool.append h).append hend
  · exact hplain.append h

theorem oneLine_placeLine {place : Nat} {type name : String} (htype : OneLine type)
    (h : OneLine name) : OneLine (placeLine place type name) := by
  have hplace : OneLine "layout(set = 1, binding = " := by decide
  have huniform : OneLine ") uniform " := by decide
  have hblank : OneLine " " := by decide
  have hend : OneLine ";" := by decide
  exact (((((hplace.append (oneLine_toString place)).append huniform).append htype).append
    hblank).append h).append hend

theorem oneLine_textureLines {field : TextureField} (h : OneLine field.name) (index : Nat) :
    ∀ line ∈ textureLines index field, OneLine line := by
  have htypes : OneLine (textureTypes field.kind).1 ∧ OneLine (textureTypes field.kind).2 := by
    cases field.kind <;> decide
  have htexture : OneLine "_texture" := by decide
  have hsampler : OneLine "_sampler" := by decide
  have hsamplerType : OneLine "sampler" := by decide
  have hopen : OneLine "(" := by decide
  have hcomma : OneLine "_texture, " := by decide
  have hclose : OneLine "_sampler)" := by decide
  have hcall : OneLine (textureCall field) :=
    ((((htypes.2.append hopen).append h).append hcomma).append h).append hclose
  simp only [textureLines, List.forall_mem_cons]
  refine ⟨oneLine_placeLine htypes.1 (h.append htexture),
    oneLine_placeLine hsamplerType (h.append hsampler), oneLine_macroLine h hcall, ?_⟩
  exact fun line hline => absurd hline List.not_mem_nil

theorem oneLine_allTextureLines : ∀ {textures : List TextureField} (index : Nat),
    (∀ field ∈ textures, OneLine field.name) →
    ∀ line ∈ allTextureLines index textures, OneLine line
  | [], _, _ => fun line hline => absurd hline List.not_mem_nil
  | field :: rest, index, h => by
    obtain ⟨hfield, hrest⟩ := List.forall_mem_cons.mp h
    exact List.forall_mem_append.mpr
      ⟨oneLine_textureLines hfield index, oneLine_allTextureLines (index + 1) hrest⟩

section Names

variable {layout : Layout} (h : ∀ name ∈ layout.names, IsIdentifier name)

include h

theorem oneLine_lines : ∀ line ∈ layout.lines, OneLine line := by
  have hfields : ∀ field ∈ layout.fields, OneLine field.name := by
    intro field hfield
    exact (h field.name (List.mem_append_left _ (List.mem_map_of_mem hfield))).oneLine
  have htextures : ∀ field ∈ layout.textures, OneLine field.name := by
    intro field hfield
    exact (h field.name (List.mem_append_right _ (List.mem_map_of_mem hfield))).oneLine
  have hmembers : ∀ line ∈ layout.memberLines, OneLine line := by
    refine List.forall_mem_append.mpr ⟨?_, ?_⟩
    · cases layout.fields.isEmpty <;> decide
    · exact List.forall_mem_map.mpr fun field hfield => oneLine_memberLine (hfields field hfield)
  have hmacros : ∀ line ∈ layout.macroLines, OneLine line :=
    List.forall_mem_map.mpr fun field hfield =>
      oneLine_macroLine (hfields field hfield) (oneLine_memberAccess (hfields field hfield))
  have hhead : OneLine headLine := by decide
  have hclose : OneLine closeLine := by decide
  have hempty : OneLine "" := by decide
  simp only [lines, List.forall_mem_append, List.forall_mem_cons]
  exact ⟨⟨⟨hhead, hmembers⟩, hclose, hempty, hmacros⟩, oneLine_allTextureLines 0 htextures⟩

/-- **The lines of a text that starts with declarations** are first those of the layout. -/
theorem linesOf_declarations (rest : String) :
    linesOf (layout.declarations ++ rest) = layout.lines ++ linesOf rest := by
  rw [declarations_eq, linesOf_endLines (oneLine_lines h)]

end Names

/-! ## 4. The names of a layout -/

theorem map_name_placeFields (entries : List (String × Kind)) (start : Nat) :
    (placeFields start entries).map BlockField.name =
      (entries.filter fun entry => entry.2.isPlain).map Prod.fst := by
  rw [← map_typed_placeFields entries start, List.map_map]
  rfl

theorem map_name_placeTextures : ∀ entries : List (String × Kind),
    (placeTextures entries).map TextureField.name =
      (entries.filter fun entry => entry.2.isTexture).map Prod.fst
  | [] => rfl
  | (name, kind) :: rest => by
    have hrest := map_name_placeTextures rest
    unfold placeTextures at hrest ⊢
    cases kind with
    | sampler2D | samplerCube => exact congrArg (name :: ·) hrest
    | _ => exact hrest

/-- **The names of a layout** are those of the bindings, the plain ones first; a selector has
none. -/
theorem names_ofEntries (entries : List (String × Kind)) : (ofEntries entries).names =
    (entries.filter fun entry => entry.2.isPlain).map Prod.fst ++
      (entries.filter fun entry => entry.2.isTexture).map Prod.fst := by
  rw [← map_name_placeFields entries 0, ← map_name_placeTextures]
  rfl

theorem mem_names_ofBindings {bindings : List Binding} {name : String}
    (h : name ∈ (ofBindings bindings).names) : ∃ binding ∈ bindings, binding.name = name := by
  unfold ofBindings at h
  rw [names_ofEntries, ← List.map_append, List.mem_map] at h
  obtain ⟨entry, hentry, rfl⟩ := h
  have hmem : entry ∈ bindings.map fun binding => (binding.name, binding.kind) := by
    rcases List.mem_append.mp hentry with hentry | hentry
    · exact (List.mem_filter.mp hentry).1
    · exact (List.mem_filter.mp hentry).1
  obtain ⟨binding, hbinding, rfl⟩ := List.mem_map.mp hmem
  exact ⟨binding, hbinding, rfl⟩

theorem forall_names_ofBindings {bindings : List Binding} {p : String → Prop}
    (h : ∀ binding ∈ bindings, p binding.name) : ∀ name ∈ (ofBindings bindings).names, p name := by
  intro name hname
  obtain ⟨binding, hbinding, rfl⟩ := mem_names_ofBindings hname
  exact h binding hbinding

end Layout

end ShaderFabric
