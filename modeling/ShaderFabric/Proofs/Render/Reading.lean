/-
# What the declarations declare

The declarations of a layout are shader text, and here they are read as such, with nothing known of
how they were made.  A line that ends in a type, a name and a semicolon declares the name: what
stands before the end of the block is a member of it, and the rest are variables.  A line `#define`
gives a name a row of lexemes to stand for.

* `declaredIn`, `membersIn`, `variablesIn`, `macrosIn` -- what a text declares and defines;
* `declaredIn_declarations`, `macrosIn_declarations` -- what the declarations of a layout do;
* `typeIn` -- the type of what a macro stands for.
-/
import Mathlib.Data.List.Nodup
import ShaderFabric.Proofs.Render.Lines
import ShaderFabric.Proofs.Text.Substitution

namespace ShaderFabric

/-! ## 1. Reading a text -/

/-- A blank. -/
def Lexeme.isBlankMark : Lexeme → Bool
  | mark c => isBlank c
  | _ => false

/-- The lexemes of a text without the blanks between them. -/
def tokensOf (text : String) : List Lexeme :=
  (lexemes text.toList).filter fun lexeme => !lexeme.isBlankMark

/-- The name that a line declares, which is its last word in front of a semicolon, with the lexeme
before it. -/
def declaredOn (line : String) : Option (Lexeme × String) :=
  match (tokensOf line).reverse with
  | .mark ';' :: .word name :: type :: _ => some (type, String.ofList name)
  | _ => none

/-- The name that a line defines as a macro, with what it stands for. -/
def definedOn (line : String) : Option (String × List Lexeme) :=
  match tokensOf line with
  | .mark '#' :: .word keyword :: .word name :: body =>
    if keyword = "define".toList then some (String.ofList name, body) else none
  | _ => none

/-- **What a text declares**: types and names, in order.  The name of a block has the end of the
block in place of a type. -/
def declaredIn (text : String) : List (Lexeme × String) := (linesOf text).filterMap declaredOn

/-- **The macros of a text**, in order. -/
def macrosIn (text : String) : List (String × List Lexeme) := (linesOf text).filterMap definedOn

/-- What is declared before the end of the first block. -/
def membersIn (text : String) : List (Lexeme × String) :=
  (declaredIn text).takeWhile fun declared => declared.1 ≠ .mark '\x7d'

/-- What is declared from the end of the first block on. -/
def variablesIn (text : String) : List (Lexeme × String) :=
  (declaredIn text).dropWhile fun declared => declared.1 ≠ .mark '\x7d'

/-- **All names that a text declares or defines.** -/
def namesIn (text : String) : List String :=
  (declaredIn text).map Prod.snd ++ (macrosIn text).map Prod.fst

/-- The type of what a macro stands for: of a call, the type it makes; of a member of the block, the
type it is declared with. -/
def typeIn (text : String) : List Lexeme → Option Lexeme
  | .word type :: .mark '(' :: _ => some (.word type)
  | [.word _, .mark '.', .word member] =>
    ((membersIn text).find? fun declared => declared.2 = String.ofList member).map Prod.fst
  | _ => none

/-! ## 2. Rows of lexemes -/

/-- A word of an identifier. -/
def wordOf (name : String) : Lexeme := .word name.toList

theorem wordOf_inj {name other : String} (h : wordOf name = wordOf other) : name = other :=
  String.toList_inj.mp (Lexeme.word.inj h)

theorem lexemes_nil : lexemes [] = [] := by
  rw [lexemes]

theorem IsIdentifier.underscored {name : String} (h : IsIdentifier name) :
    IsIdentifier ("_" ++ name) := by
  have hscore : IsIdentifier "_" := by decide
  exact hscore.append h.isWordChar

theorem IsIdentifier.texture {name : String} (h : IsIdentifier name) :
    IsIdentifier (name ++ "_texture") :=
  h.append (List.all_eq_true.mp (by decide))

theorem IsIdentifier.sampler {name : String} (h : IsIdentifier name) :
    IsIdentifier (name ++ "_sampler") :=
  h.append (List.all_eq_true.mp (by decide))

namespace Layout

/-! ## 3. Reading a line -/

/-- What the macro of a field stands for, as lexemes. -/
def accessTokens (field : BlockField) : List Lexeme :=
  let member := [wordOf "material_params", .mark '.', wordOf ("_" ++ field.name)]
  if field.kind = .bool then wordOf "bool" :: .mark '(' :: member ++ [.mark ')'] else member

/-- What the macro of a texture stands for, as lexemes. -/
def callTokens (field : TextureField) : List Lexeme :=
  [wordOf (textureTypes field.kind).2, .mark '(', wordOf (field.name ++ "_texture"), .mark ',',
    wordOf (field.name ++ "_sampler"), .mark ')']

theorem tokensOf_memberLine {field : BlockField} (h : IsIdentifier field.name) :
    tokensOf (memberLine field) =
      [wordOf (fieldType field.kind), wordOf ("_" ++ field.name), .mark ';'] := by
  have htype : IsIdentifier (fieldType field.kind) := by
    cases field.kind <;> decide
  have htext : (memberLine field).toList = ' ' :: ' ' :: ' ' :: ' ' ::
      ((fieldType field.kind).toList ++ ' ' :: (("_" ++ field.name).toList ++ [';'])) := by
    simp [memberLine]
  rw [tokensOf, htext]
  simp (disch := decide) only [lexemes_mark, lexemes_identifier htype,
    lexemes_identifier h.underscored, lexemes_nil]
  rfl

theorem tokensOf_memberAccess {field : BlockField} (h : IsIdentifier field.name) :
    tokensOf (memberAccess field) = accessTokens field := by
  have hblock : IsIdentifier "material_params" := by decide
  have hbool : IsIdentifier "bool" := by decide
  have hcast : ("bool(material_params._" ++ field.name ++ ")").toList = "bool".toList ++ '(' ::
      ("material_params".toList ++ '.' :: (("_" ++ field.name).toList ++ [')'])) := by
    simp
  have hplain : ("material_params._" ++ field.name).toList =
      "material_params".toList ++ '.' :: ("_" ++ field.name).toList := by
    simp
  have haccess : memberAccess field = if field.kind = .bool then
      "bool(material_params._" ++ field.name ++ ")" else "material_params._" ++ field.name := by
    unfold memberAccess
    cases field.kind <;> rfl
  rw [haccess, accessTokens]
  by_cases hkind : field.kind = .bool
  · rw [if_pos hkind, if_pos hkind, tokensOf, hcast]
    simp (disch := decide) only [lexemes_mark, lexemes_identifier hbool, lexemes_identifier hblock,
      lexemes_identifier h.underscored, lexemes_nil]
    rfl
  · rw [if_neg hkind, if_neg hkind, tokensOf, hplain]
    simp (disch := decide) only [lexemes_mark, lexemes_identifier hblock,
      lexemes_of_isIdentifier h.underscored]
    rfl

theorem tokensOf_textureCall {field : TextureField} (h : IsIdentifier field.name) :
    tokensOf (textureCall field) = callTokens field := by
  have htype : IsIdentifier (textureTypes field.kind).2 := by
    cases field.kind <;> decide
  have htext : (textureCall field).toList = (textureTypes field.kind).2.toList ++ '(' ::
      ((field.name ++ "_texture").toList ++ ',' :: ' ' :: ((field.name ++ "_sampler").toList
        ++ [')'])) := by
    simp [textureCall]
  rw [tokensOf, htext]
  simp (disch := decide) only [lexemes_mark, lexemes_identifier htype, lexemes_identifier h.texture,
    lexemes_identifier h.sampler, lexemes_nil]
  rfl

theorem tokensOf_macroLine {name : String} (h : IsIdentifier name) (body : String) :
    tokensOf (macroLine name body) =
      .mark '#' :: wordOf "define" :: wordOf name :: tokensOf body := by
  have hdefine : IsIdentifier "define" := by decide
  have htext : (macroLine name body).toList =
      '#' :: ("define".toList ++ ' ' :: (name.toList ++ ' ' :: body.toList)) := by
    simp [macroLine]
  unfold tokensOf
  rw [htext]
  simp (disch := decide) only [lexemes_mark, lexemes_identifier hdefine, lexemes_identifier h]
  rfl

/-- Whatever the place, the line ends with the type and the name, and defines nothing. -/
theorem tokensOf_placeLine {type name : String} (htype : IsIdentifier type)
    (h : IsIdentifier name) (place : Nat) : ∃ inside,
      tokensOf (placeLine place type name) =
        wordOf "layout" :: (inside ++ [wordOf type, wordOf name, .mark ';']) := by
  have hlayout : IsIdentifier "layout" := by decide
  have hslash : '/' ∉ ("set = 1, binding = " ++ toString place ++ ") uniform").toList := by
    have hplace : '/' ∉ (toString place).toList := by
      intro hmem
      have hdigit := Nat.isDigit_of_mem_toDigits (by decide) (by decide) (Nat.toList_repr ▸ hmem)
      exact absurd hdigit (by decide)
    rw [String.toList_append, String.toList_append, List.mem_append, List.mem_append]
    exact not_or.mpr ⟨not_or.mpr ⟨by decide, hplace⟩, by decide⟩
  have htext : (placeLine place type name).toList = "layout".toList ++ '(' ::
      (("set = 1, binding = " ++ toString place ++ ") uniform").toList ++
        ' ' :: (type.toList ++ ' ' :: (name.toList ++ [';']))) := by
    unfold placeLine
    generalize toString place = number
    simp
  have hend : lexemes (type.toList ++ ' ' :: (name.toList ++ [';'])) =
      [wordOf type, .mark ' ', wordOf name, .mark ';'] := by
    simp (disch := decide) only [lexemes_mark, lexemes_identifier htype, lexemes_identifier h,
      lexemes_nil]
    rfl
  unfold tokensOf
  rw [htext, lexemes_identifier hlayout (by decide),
    lexemes_mark (by decide) (by decide) (by decide), lexemes_after hslash .blank, hend]
  simp only [List.filter_cons, List.filter_append]
  exact ⟨.mark '(' :: _, rfl⟩

/-! ## 4. What a line declares and defines -/

section Lines

variable {name : String} (h : IsIdentifier name)

include h

theorem declaredOn_macroLine {body : String} {last : Lexeme}
    (hbody : (tokensOf body).getLast? = some last) (hlast : last ≠ .mark ';') :
    declaredOn (macroLine name body) = none := by
  unfold declaredOn
  rw [tokensOf_macroLine h]
  obtain ⟨front, hfront⟩ := List.getLast?_eq_some_iff.mp hbody
  rw [hfront, ← List.cons_append, ← List.cons_append, ← List.cons_append, List.reverse_append]
  split
  · rename_i heq
    exact absurd (List.cons.inj heq).1 hlast
  · rfl

theorem definedOn_macroLine (body : String) :
    definedOn (macroLine name body) = some (name, tokensOf body) := by
  unfold definedOn
  rw [tokensOf_macroLine h]
  simp [wordOf]

theorem declaredOn_placeLine {type : String} (htype : IsIdentifier type) (place : Nat) :
    declaredOn (placeLine place type name) = some (wordOf type, name) := by
  obtain ⟨inside, hline⟩ := tokensOf_placeLine htype h place
  unfold declaredOn
  rw [hline]
  simp [wordOf]

theorem definedOn_placeLine {type : String} (htype : IsIdentifier type) (place : Nat) :
    definedOn (placeLine place type name) = none := by
  obtain ⟨inside, hline⟩ := tokensOf_placeLine htype h place
  unfold definedOn
  rw [hline]
  rfl

end Lines

theorem declaredOn_memberLine {field : BlockField} (h : IsIdentifier field.name) :
    declaredOn (memberLine field) = some (wordOf (fieldType field.kind), "_" ++ field.name) := by
  unfold declaredOn
  rw [tokensOf_memberLine h]
  simp [wordOf]

theorem definedOn_memberLine {field : BlockField} (h : IsIdentifier field.name) :
    definedOn (memberLine field) = none := by
  unfold definedOn
  rw [tokensOf_memberLine h]
  rfl

/-- A macro declares nothing, as no macro stands for something with a semicolon at its end. -/
theorem declaredOn_accessLine {field : BlockField} (h : IsIdentifier field.name) :
    declaredOn (macroLine field.name (memberAccess field)) = none := by
  have hclose : Lexeme.mark ')' ≠ .mark ';' := by decide
  have hmember : wordOf ("_" ++ field.name) ≠ .mark ';' := fun heq => by cases heq
  by_cases hkind : field.kind = .bool
  · refine declaredOn_macroLine h ?_ hclose
    rw [tokensOf_memberAccess h, accessTokens, if_pos hkind]
    rfl
  · refine declaredOn_macroLine h ?_ hmember
    rw [tokensOf_memberAccess h, accessTokens, if_neg hkind]
    rfl

theorem declaredOn_callLine {field : TextureField} (h : IsIdentifier field.name) :
    declaredOn (macroLine field.name (textureCall field)) = none := by
  have hclose : Lexeme.mark ')' ≠ .mark ';' := by decide
  refine declaredOn_macroLine h ?_ hclose
  rw [tokensOf_textureCall h]
  rfl

/-! ## 5. What a layout declares and defines -/

/-- The members of the block. -/
def memberEntries (layout : Layout) : List (Lexeme × String) :=
  (if layout.fields.isEmpty then [(wordOf "float", "_unused")] else []) ++
    layout.fields.map fun field => (wordOf (fieldType field.kind), "_" ++ field.name)

/-- The name of the block. -/
def blockEntry : Lexeme × String := (.mark '\x7d', "material_params")

/-- The variables of a texture. -/
def variablesOf (field : TextureField) : List (Lexeme × String) :=
  [(wordOf (textureTypes field.kind).1, field.name ++ "_texture"),
    (wordOf "sampler", field.name ++ "_sampler")]

/-- The macros, with what they stand for. -/
def macroEntries (layout : Layout) : List (String × List Lexeme) :=
  layout.fields.map (fun field => (field.name, accessTokens field)) ++
    layout.textures.map fun field => (field.name, callTokens field)

/-- Lines that are all read as something. -/
theorem filterMap_map_of_reads {α β γ : Type} {f : α → β} {read : β → Option γ} {g : α → γ}
    {s : List α} (h : ∀ a ∈ s, read (f a) = some (g a)) : (s.map f).filterMap read = s.map g := by
  rw [List.filterMap_map, ← List.filterMap_eq_map']
  exact List.filterMap_congr h

section Names

variable {layout : Layout} (h : ∀ name ∈ layout.names, IsIdentifier name)

include h

theorem isIdentifier_of_mem_fields : ∀ field ∈ layout.fields, IsIdentifier field.name :=
  fun field hfield => h field.name (List.mem_append_left _ (List.mem_map_of_mem hfield))

theorem isIdentifier_of_mem_textures : ∀ field ∈ layout.textures, IsIdentifier field.name :=
  fun field hfield => h field.name (List.mem_append_right _ (List.mem_map_of_mem hfield))

theorem filterMap_declaredOn_memberLines :
    layout.memberLines.filterMap declaredOn = layout.memberEntries := by
  have hunused : declaredOn "    float _unused;" = some (wordOf "float", "_unused") := by
    decide +kernel
  have hfields := isIdentifier_of_mem_fields h
  unfold memberLines memberEntries
  rw [List.filterMap_append, filterMap_map_of_reads fun field hfield =>
    declaredOn_memberLine (hfields field hfield)]
  congr 1
  cases layout.fields.isEmpty
  · rfl
  · simp only [if_true, List.filterMap_cons, hunused, List.filterMap_nil]

theorem filterMap_definedOn_memberLines : layout.memberLines.filterMap definedOn = [] := by
  have hunused : definedOn "    float _unused;" = none := by
    decide +kernel
  have hfields := isIdentifier_of_mem_fields h
  refine List.filterMap_eq_nil_iff.mpr (List.forall_mem_append.mpr ⟨?_, ?_⟩)
  · cases layout.fields.isEmpty
    · exact fun line hline => absurd hline List.not_mem_nil
    · exact List.forall_mem_cons.mpr ⟨hunused, fun line hline => absurd hline List.not_mem_nil⟩
  · exact List.forall_mem_map.mpr fun field hfield => definedOn_memberLine (hfields field hfield)

end Names

/-- The lines of the textures declare their variables. -/
theorem filterMap_declaredOn_textures : ∀ {textures : List TextureField} (index : Nat),
    (∀ field ∈ textures, IsIdentifier field.name) →
    (allTextureLines index textures).filterMap declaredOn = textures.flatMap variablesOf
  | [], _, _ => rfl
  | field :: rest, index, h => by
    obtain ⟨hfield, hrest⟩ := List.forall_mem_cons.mp h
    have htype : IsIdentifier (textureTypes field.kind).1 := by
      cases field.kind <;> decide
    have hsampler : IsIdentifier "sampler" := by decide
    rw [allTextureLines, List.filterMap_append, filterMap_declaredOn_textures (index + 1) hrest,
      List.flatMap_cons, textureLines]
    simp only [List.filterMap_cons, List.filterMap_nil, declaredOn_placeLine hfield.texture htype,
      declaredOn_placeLine hfield.sampler hsampler, declaredOn_callLine hfield]
    rfl

theorem filterMap_definedOn_textures : ∀ {textures : List TextureField} (index : Nat),
    (∀ field ∈ textures, IsIdentifier field.name) →
    (allTextureLines index textures).filterMap definedOn =
      textures.map fun field => (field.name, callTokens field)
  | [], _, _ => rfl
  | field :: rest, index, h => by
    obtain ⟨hfield, hrest⟩ := List.forall_mem_cons.mp h
    have htype : IsIdentifier (textureTypes field.kind).1 := by
      cases field.kind <;> decide
    have hsampler : IsIdentifier "sampler" := by decide
    rw [allTextureLines, List.filterMap_append, filterMap_definedOn_textures (index + 1) hrest,
      List.map_cons, textureLines]
    simp only [List.filterMap_cons, List.filterMap_nil, definedOn_placeLine hfield.texture htype,
      definedOn_placeLine hfield.sampler hsampler, definedOn_macroLine hfield,
      tokensOf_textureCall hfield]
    rfl

section Names

variable {layout : Layout} (h : ∀ name ∈ layout.names, IsIdentifier name)

include h

theorem linesOf_layout : linesOf layout.declarations = layout.lines ++ [""] := by
  have hlines := linesOf_declarations h ""
  rw [String.append_empty] at hlines
  exact hlines

/-- **What the declarations of a layout declare**: the members of the block, the block, and the
variables of the textures. -/
theorem declaredIn_declarations : declaredIn layout.declarations =
    layout.memberEntries ++ blockEntry :: layout.textures.flatMap variablesOf := by
  have hhead : declaredOn headLine = none := by decide +kernel
  have hclose : declaredOn closeLine = some blockEntry := by decide +kernel
  have hempty : declaredOn "" = none := by decide +kernel
  have hfields := isIdentifier_of_mem_fields h
  have hmacros : layout.macroLines.filterMap declaredOn = [] :=
    List.filterMap_eq_nil_iff.mpr (List.forall_mem_map.mpr fun field hfield =>
      declaredOn_accessLine (hfields field hfield))
  unfold declaredIn
  rw [linesOf_layout h, lines]
  simp only [List.filterMap_append, List.filterMap_cons, List.filterMap_nil, hhead, hclose, hempty,
    hmacros, filterMap_declaredOn_memberLines h, List.cons_append,
    filterMap_declaredOn_textures 0 (isIdentifier_of_mem_textures h)]
  simp

/-- **What they define**: a macro for each field and for each texture. -/
theorem macrosIn_declarations : macrosIn layout.declarations = layout.macroEntries := by
  have hhead : definedOn headLine = none := by decide +kernel
  have hclose : definedOn closeLine = none := by decide +kernel
  have hempty : definedOn "" = none := by decide +kernel
  have hfields := isIdentifier_of_mem_fields h
  have hmacros : layout.macroLines.filterMap definedOn =
      layout.fields.map fun field => (field.name, accessTokens field) := by
    refine filterMap_map_of_reads fun field hfield => ?_
    rw [definedOn_macroLine (hfields field hfield), tokensOf_memberAccess (hfields field hfield)]
  unfold macrosIn
  rw [linesOf_layout h, lines]
  simp only [List.filterMap_append, List.filterMap_cons, List.filterMap_nil, hhead, hclose, hempty,
    hmacros, filterMap_definedOn_memberLines h, List.cons_append,
    filterMap_definedOn_textures 0 (isIdentifier_of_mem_textures h)]
  simp [macroEntries]

omit h in
theorem ne_of_mem_memberEntries : ∀ declared ∈ layout.memberEntries,
    decide (declared.1 ≠ .mark '\x7d') = true := by
  refine List.forall_mem_append.mpr ⟨?_, List.forall_mem_map.mpr fun field _ => rfl⟩
  cases layout.fields.isEmpty <;> decide

omit h in
theorem head?_variables : ∀ declared,
    (blockEntry :: layout.textures.flatMap variablesOf).head? = some declared →
      decide (declared.1 ≠ .mark '\x7d') = false := by
  rintro declared ⟨⟩
  rfl

theorem membersIn_declarations : membersIn layout.declarations = layout.memberEntries := by
  unfold membersIn
  rw [declaredIn_declarations h, takeWhile_run ne_of_mem_memberEntries head?_variables]

theorem variablesIn_declarations : variablesIn layout.declarations =
    blockEntry :: layout.textures.flatMap variablesOf := by
  unfold variablesIn
  rw [declaredIn_declarations h, dropWhile_run ne_of_mem_memberEntries head?_variables]

end Names

/-! ## 6. Names that are declared once -/

/-- What a macro stands for that gives back a name of a type. -/
def givenBack (name : String) (kind : Kind) : List Lexeme :=
  match kind.textureKind? with
  | some textureKind => callTokens ⟨name, textureKind⟩
  | none => accessTokens ⟨name, kind, 0⟩

/-- What has a key that nothing else has. -/
theorem filter_eq_singleton {α β : Type} [DecidableEq β] {f : α → β} {a : α} : ∀ {s : List α},
    (s.map f).Nodup → a ∈ s → s.filter (fun b => f b = f a) = [a]
  | [], _, h => absurd h List.not_mem_nil
  | b :: rest, hnodup, h => by
    obtain ⟨hfirst, hrest⟩ := List.nodup_cons.mp hnodup
    by_cases hkey : f b = f a
    · have hnone : ∀ c ∈ rest, ¬ decide (f c = f a) = true := by
        intro c hc heq
        rw [hkey, ← of_decide_eq_true heq] at hfirst
        exact hfirst (List.mem_map_of_mem hc)
      have hsame : a = b := by
        rcases List.mem_cons.mp h with rfl | h
        · rfl
        · exact absurd (decide_eq_true rfl) (hnone a h)
      rw [List.filter_cons, if_pos (decide_eq_true hkey), List.filter_eq_nil_iff.mpr hnone, hsame]
    · have hmem : a ∈ rest := by
        rcases List.mem_cons.mp h with rfl | h
        · exact absurd rfl hkey
        · exact h
      rw [List.filter_cons, if_neg (by simpa using hkey), filter_eq_singleton hrest hmem]

theorem isPlain_eq_false {kind : Kind} (h : kind.isTexture = true) : kind.isPlain = false := by
  unfold Kind.isPlain
  rw [h]
  rfl

theorem isPlain_of_not_texture {kind : Kind} (h : kind.textureKind? = none)
    (hkind : kind ≠ .channels) : kind.isPlain = true := by
  cases kind with
  | channels => exact absurd rfl hkind
  | sampler2D | samplerCube => cases h
  | _ => rfl

theorem givenBack_of_field {field : BlockField} (h : field.kind.isPlain = true) :
    givenBack field.name field.kind = accessTokens field := by
  obtain ⟨name, kind, offset⟩ := field
  have hnone : kind.textureKind? = none := by
    cases kind with
    | sampler2D | samplerCube => cases h
    | _ => rfl
  unfold givenBack
  rw [hnone]
  rfl

theorem givenBack_of_texture {name : String} {kind : Kind} {textureKind : TextureKind}
    (h : kind.textureKind? = some textureKind) :
    givenBack name kind = callTokens ⟨name, textureKind⟩ := by
  unfold givenBack
  rw [h]

section Entries

variable {entries : List (String × Kind)} {name : String} {kind : Kind}

/-- A plain entry has a field. -/
theorem exists_field (h : (name, kind) ∈ entries) (hplain : kind.isPlain = true) :
    ∃ field ∈ (ofEntries entries).fields, field.name = name ∧ field.kind = kind := by
  have hmem : (name, kind) ∈ (placeFields 0 entries).map BlockField.typed := by
    rw [map_typed_placeFields]
    exact List.mem_filter.mpr ⟨h, hplain⟩
  obtain ⟨field, hfield, heq⟩ := List.mem_map.mp hmem
  exact ⟨field, hfield, (Prod.mk.inj heq).1, (Prod.mk.inj heq).2⟩

/-- A field is one of a plain entry. -/
theorem entry_of_mem_fields {field : BlockField} (h : field ∈ (ofEntries entries).fields) :
    (field.name, field.kind) ∈ entries ∧ field.kind.isPlain = true := by
  have hmem : field.typed ∈ (placeFields 0 entries).map BlockField.typed := List.mem_map_of_mem h
  rw [map_typed_placeFields] at hmem
  exact List.mem_filter.mp hmem

/-- An entry for a texture has one. -/
theorem mem_textures {textureKind : TextureKind} (h : (name, kind) ∈ entries)
    (hkind : kind.textureKind? = some textureKind) :
    ⟨name, textureKind⟩ ∈ (ofEntries entries).textures :=
  List.mem_filterMap.mpr ⟨(name, kind), h, by simp only [hkind, Option.map_some]⟩

/-- A texture is one of an entry. -/
theorem entry_of_mem_textures {field : TextureField} (h : field ∈ (ofEntries entries).textures) :
    ∃ kind, (field.name, kind) ∈ entries ∧ kind.textureKind? = some field.kind := by
  obtain ⟨⟨name, kind⟩, hmem, hfield⟩ := List.mem_filterMap.mp h
  obtain ⟨textureKind, hkind, rfl⟩ := Option.map_eq_some_iff.mp hfield
  exact ⟨kind, hmem, hkind⟩

/-- Every entry but a selector has a name. -/
theorem mem_names_ofEntries (h : (name, kind) ∈ entries) (hkind : kind ≠ .channels) :
    name ∈ (ofEntries entries).names := by
  rw [names_ofEntries, List.mem_append]
  by_cases htexture : kind.isTexture = true
  · exact .inr (List.mem_map.mpr ⟨_, List.mem_filter.mpr ⟨h, htexture⟩, rfl⟩)
  · have hnone : kind.textureKind? = none := by
      cases kind with
      | sampler2D | samplerCube => exact absurd rfl htexture
      | _ => rfl
    have hplain := isPlain_of_not_texture hnone hkind
    exact .inl (List.mem_map.mpr ⟨_, List.mem_filter.mpr ⟨h, hplain⟩, rfl⟩)

/-- Every entry but a selector has a macro, which gives its name back. -/
theorem mem_macroEntries (h : (name, kind) ∈ entries) (hkind : kind ≠ .channels) :
    (name, givenBack name kind) ∈ (ofEntries entries).macroEntries := by
  unfold givenBack
  cases htexture : kind.textureKind? with
  | some textureKind =>
    exact List.mem_append_right _ (List.mem_map.mpr ⟨_, mem_textures h htexture, rfl⟩)
  | none =>
    obtain ⟨field, hfield, rfl, rfl⟩ := exists_field h (isPlain_of_not_texture htexture hkind)
    exact List.mem_append_left _ (List.mem_map.mpr ⟨field, hfield, rfl⟩)

/-- **Entries of different names** have them in the layout. -/
theorem nodup_names_ofEntries (h : (entries.map Prod.fst).Nodup) :
    (ofEntries entries).names.Nodup := by
  rw [names_ofEntries, List.nodup_append]
  refine ⟨h.sublist (List.filter_sublist.map Prod.fst),
    h.sublist (List.filter_sublist.map Prod.fst), ?_⟩
  rintro _ hplain _ htexture rfl
  obtain ⟨entry, hentry, rfl⟩ := List.mem_map.mp hplain
  obtain ⟨other, hother, hname⟩ := List.mem_map.mp htexture
  obtain ⟨hmem, hkind⟩ := List.mem_filter.mp hentry
  obtain ⟨hmem', hkind'⟩ := List.mem_filter.mp hother
  obtain rfl := List.inj_on_of_nodup_map h hmem' hmem hname
  rw [isPlain_eq_false hkind'] at hkind
  exact Bool.false_ne_true hkind

theorem nodup_names_ofBindings {bindings : List Binding}
    (h : (bindings.map Binding.name).Nodup) : (ofBindings bindings).names.Nodup := by
  refine nodup_names_ofEntries ?_
  rw [List.map_map]
  exact h

end Entries

section Distinct

variable {layout : Layout} (h : layout.names.Nodup)

theorem map_fst_macroEntries (layout : Layout) :
    layout.macroEntries.map Prod.fst = layout.names := by
  unfold macroEntries names
  rw [List.map_append, List.map_map, List.map_map]
  rfl

include h

/-- Members have different names. -/
theorem nodup_memberEntries : (layout.memberEntries.map Prod.snd).Nodup := by
  have hfields : (layout.fields.map fun field => "_" ++ field.name).Nodup := by
    have hinj : Function.Injective fun name : String => "_" ++ name :=
      fun a b heq => (String.append_right_inj _).mp heq
    have hnames := (List.nodup_append.mp h).1
    rw [← List.nodup_map_iff hinj, List.map_map] at hnames
    exact hnames
  unfold memberEntries
  rw [List.map_append, List.map_map]
  cases hempty : layout.fields.isEmpty with
  | true =>
    rw [List.isEmpty_iff.mp hempty]
    exact List.nodup_singleton _
  | false => exact hfields

/-- Variables have different names, and none is that of the block. -/
theorem nodup_variables :
    ((blockEntry :: layout.textures.flatMap variablesOf).map Prod.snd).Nodup := by
  have htexture : ∀ name : String, (name ++ "_texture").toList.getLast? = some 'e' := by simp
  have hsampler : ∀ name : String, (name ++ "_sampler").toList.getLast? = some 'r' := by simp
  have hne : ∀ name other : String, name ++ "_texture" ≠ other ++ "_sampler" := by
    intro name other heq
    have hlast := htexture name
    rw [heq, hsampler] at hlast
    cases hlast
  rw [List.map_cons, List.map_flatMap, List.nodup_cons, List.nodup_flatMap]
  refine ⟨?_, fun field _ => ?_, ?_⟩
  · intro hmem
    obtain ⟨field, -, hname⟩ := List.mem_flatMap.mp hmem
    have hblock : blockEntry.2.toList.getLast? = some 's' := by decide
    simp only [variablesOf, List.map_cons, List.map_nil, List.mem_cons, List.not_mem_nil,
      or_false] at hname
    rcases hname with heq | heq
    · rw [heq, htexture] at hblock
      cases hblock
    · rw [heq, hsampler] at hblock
      cases hblock
  · simp only [variablesOf, List.map_cons, List.map_nil]
    exact List.nodup_cons.mpr ⟨by simp, List.nodup_singleton _⟩
  · have hnames : layout.textures.Pairwise fun field other => field.name ≠ other.name :=
      List.pairwise_map.mp (List.nodup_append.mp h).2.1
    refine hnames.imp fun {field other} hname => ?_
    intro declared hfield hother
    simp only [variablesOf, List.map_cons, List.map_nil, List.mem_cons, List.not_mem_nil,
      or_false] at hfield hother
    rcases hfield with rfl | rfl
    · rcases hother with heq | heq
      · exact hname ((String.append_left_inj _).mp heq)
      · exact hne _ _ heq
    · rcases hother with heq | heq
      · exact hne _ _ heq.symm
      · exact hname ((String.append_left_inj _).mp heq)

end Distinct

end Layout

end ShaderFabric
