/-
# Programs are kept by their shaders

A renderer knows a program by its shader alone, and takes a program that it has for one that fits
the layout of the material it draws.  That is right because the shader shows the layout: its
declarations can be read back, whatever text comes after them.

* `eq_of_wrapFragment_eq` -- layouts whose shaders are one text are the same;
* `Renderer.Holds.render`, `Renderer.holds_renderAll` -- which programs a renderer has;
* `Renderer.served_render`, `Renderer.served_renderAll` -- what it draws with them;
* `Renderer.programs_fit` -- what this comes to for every row of calls.
-/
import ShaderFabric.Proofs.Material.Origin
import ShaderFabric.Proofs.Render.Lines

namespace ShaderFabric

/-! ## 1. Lines that tell their fields -/

/-- Lists whose images agree have in common what the images tell of their members. -/
theorem map_eq_map_of_tells {α β γ : Type} {f : α → β} {g : α → γ} : ∀ {s t : List α},
    (∀ a b, f a = f b → g a = g b) → s.map f = t.map f → s.map g = t.map g
  | [], [], _, _ => rfl
  | [], _ :: _, _, h => by cases h
  | _ :: _, [], _, h => by cases h
  | a :: s, b :: t, tells, h => by
    obtain ⟨hfirst, hrest⟩ := List.cons.inj h
    rw [List.map_cons, List.map_cons, tells a b hfirst, map_eq_map_of_tells tells hrest]

/-- What stands before the first place of something, and what comes after it. -/
theorem eq_of_append_cons_eq {α : Type} {a : α} {x y : List α} : ∀ {s t : List α}, a ∉ s → a ∉ t →
    s ++ a :: x = t ++ a :: y → s = t ∧ x = y
  | [], [], _, _, h => ⟨rfl, (List.cons.inj h).2⟩
  | [], b :: t, _, ht, h => absurd (List.cons.inj h).1 (List.ne_of_not_mem_cons ht)
  | b :: s, [], hs, _, h => absurd (List.cons.inj h).1.symm (List.ne_of_not_mem_cons hs)
  | b :: s, c :: t, hs, ht, h => by
    obtain ⟨hfirst, hrest⟩ := List.cons.inj h
    obtain ⟨hst, hxy⟩ := eq_of_append_cons_eq (List.not_mem_of_not_mem_cons hs)
      (List.not_mem_of_not_mem_cons ht) hrest
    exact ⟨by rw [hfirst, hst], hxy⟩

/-- A word before a blank tells both the word and the rest. -/
theorem eq_of_blank_eq {word other rest more : String} (hword : ' ' ∉ word.toList)
    (hother : ' ' ∉ other.toList) (h : word ++ " " ++ rest = other ++ " " ++ more) :
    word = other ∧ rest = more := by
  have hlist : word.toList ++ ' ' :: rest.toList = other.toList ++ ' ' :: more.toList := by
    simpa using congrArg String.toList h
  obtain ⟨hw, hr⟩ := eq_of_append_cons_eq hword hother hlist
  exact ⟨String.toList_inj.mp hw, String.toList_inj.mp hr⟩

namespace Layout

theorem eq_of_fieldType_eq {kind other : Kind} (h : fieldType kind = fieldType other) :
    kind = other := by
  cases kind <;> cases other <;> first | rfl | exact absurd h (by decide)

/-- **The line of a field** tells its name and its type. -/
theorem typed_eq_of_memberLine_eq (field other : BlockField)
    (h : memberLine field = memberLine other) : field.typed = other.typed := by
  have hblank : ∀ kind, ' ' ∉ (fieldType kind).toList := by
    intro kind
    cases kind <;> decide
  have hline : ∀ field : BlockField, memberLine field =
      "    " ++ (fieldType field.kind ++ " " ++ ("_" ++ field.name ++ ";")) := by
    intro field
    rw [← String.toList_inj]
    simp [memberLine]
  rw [hline, hline, String.append_right_inj] at h
  obtain ⟨htype, hname⟩ := eq_of_blank_eq (hblank _) (hblank _) h
  rw [String.append_left_inj, String.append_right_inj] at hname
  exact Prod.ext hname (eq_of_fieldType_eq htype)

theorem placeLine_eq (place : Nat) (type name : String) : placeLine place type name =
    "layout(set = 1, binding = " ++ (toString place ++ ") uniform ")
      ++ (type ++ " " ++ (name ++ ";")) := by
  unfold placeLine
  generalize toString place = number
  simp only [String.append_assoc]

theorem head?_placeLine (place : Nat) (type name : String) :
    (placeLine place type name).toList.head? = some 'l' := by
  unfold placeLine
  generalize toString place = number
  simp

/-- The line of something at a place tells its type and its name, if the place is known. -/
theorem eq_of_placeLine_eq {place : Nat} {type other name name' : String}
    (htype : ' ' ∉ type.toList) (hother : ' ' ∉ other.toList)
    (h : placeLine place type name = placeLine place other name') :
    type = other ∧ name = name' := by
  rw [placeLine_eq, placeLine_eq, String.append_right_inj] at h
  obtain ⟨hsame, hname⟩ := eq_of_blank_eq htype hother h
  exact ⟨hsame, (String.append_left_inj _).mp hname⟩

/-- **The lines of a texture** tell its name and its type. -/
theorem eq_of_textureLines_eq {index : Nat} {field other : TextureField}
    (h : textureLines index field = textureLines index other) : field = other := by
  have hblank : ∀ kind, ' ' ∉ (textureTypes kind).1.toList := by
    intro kind
    cases kind <;> decide
  have hkind : ∀ {kind kind'}, (textureTypes kind).1 = (textureTypes kind').1 → kind = kind' := by
    intro kind kind' heq
    cases kind <;> cases kind' <;> first | rfl | exact absurd heq (by decide)
  obtain ⟨htype, hname⟩ := eq_of_placeLine_eq (hblank _) (hblank _) (List.cons.inj h).1
  rw [String.append_left_inj] at hname
  have hsame := hkind htype
  cases field
  cases other
  cases hname
  cases hsame
  rfl

/-- **The lines of all textures** tell each of them. -/
theorem eq_of_allTextureLines_eq : ∀ {textures others : List TextureField} {index : Nat},
    allTextureLines index textures = allTextureLines index others → textures = others
  | [], [], _, _ => rfl
  | [], other :: others, _, h => by cases h
  | field :: rest, [], _, h => by cases h
  | field :: rest, other :: others, index, h => by
    obtain ⟨hfield, hrest⟩ := List.append_inj h rfl
    rw [eq_of_textureLines_eq hfield, eq_of_allTextureLines_eq hrest]

/-! ## 2. Declarations that tell their layout -/

theorem closeLine_not_mem (layout : Layout) : closeLine ∉ layout.memberLines := by
  have hhead : ∀ line ∈ layout.memberLines, line.toList.head? = some ' ' := by
    refine List.forall_mem_append.mpr ⟨?_, List.forall_mem_map.mpr fun field _ => ?_⟩
    · cases layout.fields.isEmpty <;> decide
    · simp [memberLine]
  intro hmem
  exact absurd (hhead closeLine hmem) (by decide)

theorem head?_macroLines (layout : Layout) :
    ∀ line ∈ layout.macroLines, line.toList.head? = some '#' :=
  List.forall_mem_map.mpr fun field _ => by simp [macroLine]

theorem empty_not_mem_allTextureLines : ∀ (textures : List TextureField) (index : Nat),
    "" ∉ allTextureLines index textures
  | [], _ => List.not_mem_nil
  | field :: rest, index => by
    intro hmem
    rcases List.mem_append.mp hmem with hmem | hmem
    · have hhead : ∀ line ∈ textureLines index field, line.toList.head?.isSome = true := by
        simp only [textureLines, List.forall_mem_cons, head?_placeLine]
        simp [macroLine]
      exact absurd (hhead "" hmem) (by decide)
    · exact empty_not_mem_allTextureLines rest (index + 1) hmem

/-- The macros of the fields end where a texture begins, or where no line of the layout is left. -/
theorem takeWhile_macroLines (layout : Layout) (index : Nat) :
    (layout.macroLines ++ allTextureLines index layout.textures).takeWhile
      (fun line => line.toList.head? = some '#') = layout.macroLines := by
  have hnone : (allTextureLines index layout.textures).takeWhile
      (fun line => line.toList.head? = some '#') = [] := by
    cases layout.textures with
    | nil => rfl
    | cons field rest => simp [allTextureLines, textureLines, head?_placeLine]
  rw [List.takeWhile_append_of_pos, hnone, List.append_nil]
  intro line hline
  simpa using head?_macroLines layout line hline

/-- **Declarations tell the fields and the textures**, whatever lines follow the empty one behind
them. -/
theorem fields_eq_of_lines_eq {layout other : Layout} {rest more : List String}
    (h : layout.lines ++ "" :: rest = other.lines ++ "" :: more) :
    layout.fields.map BlockField.typed = other.fields.map BlockField.typed ∧
      layout.textures = other.textures := by
  have hempty : ∀ layout : Layout,
      "" ∉ layout.macroLines ++ allTextureLines 0 layout.textures := by
    intro layout hmem
    rcases List.mem_append.mp hmem with hmem | hmem
    · exact absurd (head?_macroLines layout "" hmem) (by decide)
    · exact empty_not_mem_allTextureLines _ _ hmem
  simp only [lines, List.cons_append, List.append_assoc] at h
  obtain ⟨hmembers, hbehind⟩ := eq_of_append_cons_eq (closeLine_not_mem layout)
    (closeLine_not_mem other) (List.cons.inj h).2
  have hbehind := (List.cons.inj hbehind).2
  rw [← List.append_assoc, ← List.append_assoc] at hbehind
  obtain ⟨hmacros, -⟩ := eq_of_append_cons_eq (hempty layout) (hempty other) hbehind
  have hsame : layout.macroLines = other.macroLines := by
    rw [← takeWhile_macroLines layout 0, hmacros, takeWhile_macroLines]
  -- a block without fields is known by its macros, of which there are none
  have hlength : layout.fields.length = other.fields.length := by
    simpa [macroLines] using congrArg List.length hsame
  have hfields : layout.fields.isEmpty = other.fields.isEmpty := by
    rw [Bool.eq_iff_iff, List.isEmpty_iff_length_eq_zero, List.isEmpty_iff_length_eq_zero, hlength]
  rw [memberLines, memberLines, hfields, List.append_cancel_left_eq] at hmembers
  rw [hsame, List.append_cancel_left_eq] at hmacros
  exact ⟨map_eq_map_of_tells typed_eq_of_memberLine_eq hmembers, eq_of_allTextureLines_eq hmacros⟩

/-- Entries that are not plain take no place in the block. -/
theorem placeFields_filter : ∀ (entries : List (String × Kind)) (start : Nat),
    placeFields start (entries.filter fun entry => entry.2.isPlain) = placeFields start entries
  | [], _ => rfl
  | (name, kind) :: rest, start => by
    have hplain := kind.isSome_shape?
    cases h : kind.shape? with
    | none =>
      rw [h] at hplain
      rw [placeFields_of_not_plain h, List.filter_cons_of_neg (by simp [← hplain]),
        placeFields_filter rest]
    | some shape =>
      rw [h] at hplain
      rw [List.filter_cons_of_pos (by simp [← hplain]), placeFields_of_plain h,
        placeFields_of_plain h]
      exact congrArg (_ :: ·) (placeFields_filter rest _)

/-- **A layout is known by its fields and its textures**, without the offsets. -/
theorem eq_of_typed_eq {entries others : List (String × Kind)}
    (hfields : (ofEntries entries).fields.map BlockField.typed =
      (ofEntries others).fields.map BlockField.typed)
    (htextures : (ofEntries entries).textures = (ofEntries others).textures) :
    ofEntries entries = ofEntries others := by
  have hplain : (entries.filter fun entry => entry.2.isPlain) =
      others.filter fun entry => entry.2.isPlain := by
    rw [← map_typed_placeFields entries 0, ← map_typed_placeFields others 0]
    exact hfields
  have hplaced : placeFields 0 entries = placeFields 0 others := by
    rw [← placeFields_filter entries, hplain, placeFields_filter]
  have hend : endOfFields 0 entries = endOfFields 0 others := by
    rw [endOfFields_eq, endOfFields_eq, hplaced]
  have htextures : placeTextures entries = placeTextures others := htextures
  unfold ofEntries
  rw [hplaced, htextures, hend]

/-- **The shader shows the layout**, whatever program it draws. -/
theorem eq_of_wrapFragment_eq {source other : String} {bindings others : List Binding}
    (hbindings : ∀ binding ∈ bindings, IsIdentifier binding.name)
    (hothers : ∀ binding ∈ others, IsIdentifier binding.name)
    (h : wrapFragment source (ofBindings bindings) = wrapFragment other (ofBindings others)) :
    ofBindings bindings = ofBindings others := by
  unfold wrapFragment at h
  simp only [String.append_assoc, String.append_right_inj] at h
  have hlines := congrArg linesOf h
  rw [linesOf_declarations (forall_names_ofBindings hbindings),
    linesOf_declarations (forall_names_ofBindings hothers)] at hlines
  have hempty : ∀ rest : String, linesOf ("\n" ++ rest) = "" :: linesOf rest := by
    intro rest
    exact linesOf_line (by decide : OneLine "") rest
  rw [hempty, hempty] at hlines
  obtain ⟨hfields, htextures⟩ := fields_eq_of_lines_eq hlines
  exact eq_of_typed_eq hfields htextures

/-! ## 3. Places that are filled -/

/-- What is put at a place, whatever it shows. -/
def Bound.kind : Bound → EntryKind
  | .block _ => .block
  | .texture shown => .texture shown.kind
  | .placeholder shown => .texture shown
  | .sampler => .sampler

/-- What is put at the places of a drawing fits them: at each place, and at no other, there is
something of the kind that the program finds there. -/
def Fills (bound : List (Nat × Bound)) (places : List (Nat × EntryKind)) : Prop :=
  bound.map (fun entry => (entry.1, entry.2.kind)) = places

theorem kind_shownTexture (bindings : List Binding) (field : TextureField) :
    (shownTexture bindings field).kind = .texture field.kind := by
  unfold shownTexture
  split
  · split
    · rename_i hkind
      exact congrArg EntryKind.texture hkind
    · rfl
  · rfl

theorem fills_boundTextures (bindings : List Binding) : ∀ (textures : List TextureField)
    (index : Nat), Fills (boundTextures bindings index textures) (textureEntries index textures)
  | [], _ => rfl
  | field :: rest, index => by
    have hrest := fills_boundTextures bindings rest (index + 1)
    unfold Fills at hrest ⊢
    rw [boundTextures, textureEntries, List.map_cons, List.map_cons, hrest, kind_shownTexture]
    rfl

/-- **What a layout puts at its places fits them**, whatever the bindings show. -/
theorem fills_bound (layout : Layout) (bindings : List Binding) :
    Fills (layout.bound bindings) layout.entries := by
  have htextures := fills_boundTextures bindings layout.textures 0
  unfold Fills at htextures ⊢
  rw [bound, entries, List.map_cons, htextures]
  rfl

end Layout

/-! ## 4. Calls -/

/-- A material and the picture of it that is asked for. -/
structure DrawCall where
  material : Material
  options : DrawOptions

namespace DrawCall

/-- What the program of a call is known by. -/
def key (call : DrawCall) : ProgramKey := call.material.programKey

/-- Where the bindings of a call live. -/
def layout (call : DrawCall) : Layout := Layout.ofBindings call.material.bindings

/-- A call that keeps the rules on a device. -/
def accepted (device : Device) (call : DrawCall) : Bool :=
  (Renderer.check device call.material call.options).isOk

/-- A call that breaks a rule: the material or a part of it is destroyed, or the picture is empty or
larger than the device can make it. -/
def Refused (device : Device) (call : DrawCall) : Prop :=
  call.material.destroyed = true ∨ call.material.isIntact = false ∨
    call.options.width = 0 ∨ call.options.height = 0 ∨
    device.edgeLimit < call.options.width ∨ device.edgeLimit < call.options.height

end DrawCall

namespace Renderer

variable {device : Device} {renderer : Renderer} {call : DrawCall}

/-- **A call is accepted if it is not refused.** -/
theorem check_eq_ok_iff :
    check device call.material call.options = .ok () ↔ ¬ call.Refused device := by
  unfold check DrawCall.Refused
  simp only [refuse_eq_ok, not_or]
  constructor
  · rintro ⟨halive, hintact, ⟨hwidth, hheight⟩, h⟩
    split at h
    · cases h
    · rename_i hsize
      exact ⟨by simpa using halive, by simpa using hintact, hwidth, hheight, not_or.mp hsize⟩
  · rintro ⟨halive, hintact, hwidth, hheight, hsize⟩
    refine ⟨by simpa using halive, by simpa using hintact, ⟨hwidth, hheight⟩, ?_⟩
    rw [if_neg (not_or.mpr hsize)]
    rfl

theorem accepted_iff : call.accepted device = true ↔ ¬ call.Refused device := by
  rw [← check_eq_ok_iff, DrawCall.accepted]
  cases check device call.material call.options with
  | error fault => simp [Except.isOk, Except.toBool]
  | ok _ => simp [Except.isOk, Except.toBool]

/-- **A refused call changes nothing.** -/
theorem render_of_refused (h : call.Refused renderer.device) :
    ∃ fault, renderer.render call.material call.options = (.error fault, renderer) := by
  have hcheck := mt check_eq_ok_iff.mp (not_not.mpr h)
  unfold render
  cases hresult : check renderer.device call.material call.options with
  | error fault => exact ⟨fault, rfl⟩
  | ok _ => exact absurd hresult hcheck

/-- **An accepted call** leaves the renderer with the program of its key, and what it draws it draws
with that program. -/
theorem render_of_accepted (h : ¬ call.Refused renderer.device) :
    (renderer.render call.material call.options).2 = (renderer.program call.key call.layout).2 ∧
    ∀ drawing, (renderer.render call.material call.options).1 = .ok drawing →
      drawing.program = (renderer.program call.key call.layout).1 ∧
        drawing.bound = call.layout.bound call.material.bindings := by
  unfold render
  rw [check_eq_ok_iff.mpr h]
  dsimp only
  split
  · exact ⟨rfl, fun drawing hdrawing => by cases hdrawing⟩
  · refine ⟨rfl, fun drawing hdrawing => ?_⟩
    cases hdrawing
    exact ⟨rfl, rfl⟩

/-- The keys of the programs, in the order in which they were made. -/
def keys (renderer : Renderer) : List ProgramKey := renderer.programs.map Pipeline.key

/-- **What holds of the programs** after calls with some keys: there is one program for each key. -/
structure Holds (renderer : Renderer) (asked : List ProgramKey) : Prop where
  nodup : renderer.keys.Nodup
  mem_iff : ∀ key, key ∈ renderer.keys ↔ key ∈ asked

/-- A program was made for a layout that its shader shows. -/
def Shows (program : Pipeline) : Prop :=
  ∃ source bindings, (∀ binding ∈ bindings, IsIdentifier binding.name) ∧
    program.key.shader = wrapFragment source (Layout.ofBindings bindings) ∧
      program.places = (Layout.ofBindings bindings).entries

/-- A key has one program: that which is there, or a new one. -/
theorem program_cases (renderer : Renderer) (key : ProgramKey) (layout : Layout) :
    (key ∈ renderer.keys ∧ ∃ program ∈ renderer.programs, program.key = key ∧
      renderer.program key layout = (program, renderer)) ∨
    (key ∉ renderer.keys ∧ renderer.program key layout =
      (⟨key, layout.entries⟩, { renderer with programs :=
        renderer.programs ++ [⟨key, layout.entries⟩] })) := by
  unfold program
  cases hfind : renderer.programs.find? fun program => program.key = key with
  | some found =>
    have hmem := List.mem_of_find?_eq_some hfind
    have hkey : found.key = key := by simpa using List.find?_some hfind
    exact .inl ⟨List.mem_map.mpr ⟨found, hmem, hkey⟩, found, hmem, hkey, rfl⟩
  | none =>
    refine .inr ⟨fun hmem => ?_, rfl⟩
    obtain ⟨found, hfound, hkey⟩ := List.mem_map.mp hmem
    exact absurd hkey (by simpa using List.find?_eq_none.mp hfind found hfound)

theorem Holds.program {asked : List ProgramKey} (holds : renderer.Holds asked) (key : ProgramKey)
    (layout : Layout) : (renderer.program key layout).2.Holds (asked ++ [key]) := by
  rcases program_cases renderer key layout with ⟨hmem, _, -, -, heq⟩ | ⟨hnot, heq⟩
  · rw [heq]
    refine ⟨holds.nodup, fun other => ?_⟩
    rw [holds.mem_iff, List.mem_append, List.mem_singleton]
    refine ⟨.inl, fun hother => hother.elim id ?_⟩
    rintro rfl
    exact (holds.mem_iff other).mp hmem
  · have hkeys : (renderer.program key layout).2.keys = renderer.keys ++ [key] := by
      simp [heq, keys]
    constructor
    · rw [hkeys]
      exact List.Nodup.append holds.nodup (List.nodup_singleton key)
        (List.disjoint_singleton.mpr hnot)
    · intro other
      rw [hkeys, List.mem_append, List.mem_append, holds.mem_iff]

/-- **The program of a call** fits the layout of its material. -/
theorem shows_program (hprograms : ∀ program ∈ renderer.programs, Shows program)
    (hnames : ∀ binding ∈ call.material.bindings, IsIdentifier binding.name) :
    (renderer.program call.key call.layout).1 = ⟨call.key, call.layout.entries⟩ ∧
      ∀ program ∈ (renderer.program call.key call.layout).2.programs, Shows program := by
  rcases program_cases renderer call.key call.layout with ⟨-, found, hfound, hkey, heq⟩ | ⟨-, heq⟩
  · rw [heq]
    refine ⟨?_, hprograms⟩
    obtain ⟨source, bindings, hbindings, hshader, hplaces⟩ := hprograms found hfound
    have hshared : wrapFragment source (Layout.ofBindings bindings) =
        wrapFragment call.material.source (Layout.ofBindings call.material.bindings) := by
      rw [← hshader, hkey]
      rfl
    have hsame : Layout.ofBindings bindings = call.layout :=
      Layout.eq_of_wrapFragment_eq hbindings hnames hshared
    rw [hsame] at hplaces
    cases found
    cases hkey
    cases hplaces
    rfl
  · rw [heq]
    refine ⟨rfl, fun program hprogram => ?_⟩
    rcases List.mem_append.mp hprogram with hprogram | hprogram
    · exact hprograms program hprogram
    · rw [List.mem_singleton.mp hprogram]
      exact ⟨call.material.source, call.material.bindings, hnames, rfl, rfl⟩

/-! ## 6. Calls one after the other -/

/-- Draws one after the other: the answers, and the renderer after them. -/
def renderAll (renderer : Renderer) : List DrawCall → List (Except DrawFault Drawing) × Renderer
  | [] => ([], renderer)
  | call :: rest =>
    let answered := renderer.render call.material call.options
    let later := answered.2.renderAll rest
    (answered.1 :: later.1, later.2)

/-- The keys of the calls that are accepted. -/
def acceptedKeys (device : Device) (calls : List DrawCall) : List ProgramKey :=
  (calls.filter (DrawCall.accepted device)).map DrawCall.key

theorem device_render (renderer : Renderer) (call : DrawCall) :
    (renderer.render call.material call.options).2.device = renderer.device := by
  by_cases h : call.Refused renderer.device
  · obtain ⟨fault, heq⟩ := render_of_refused h
    rw [heq]
  · rw [(render_of_accepted h).1]
    rcases program_cases renderer call.key call.layout with ⟨-, _, -, -, heq⟩ | ⟨-, heq⟩ <;>
      rw [heq]

/-- **What one call keeps.** -/
theorem Holds.render {asked : List ProgramKey} (holds : renderer.Holds asked) (call : DrawCall) :
    (renderer.render call.material call.options).2.Holds
      (asked ++ acceptedKeys renderer.device [call]) := by
  by_cases h : call.Refused renderer.device
  · obtain ⟨fault, heq⟩ := render_of_refused h
    have hnone : acceptedKeys renderer.device [call] = [] := by
      have hnot : ¬ call.accepted renderer.device = true := fun hc => accepted_iff.mp hc h
      simp [acceptedKeys, hnot]
    rw [heq, hnone, List.append_nil]
    exact holds
  · have hone : acceptedKeys renderer.device [call] = [call.key] := by
      simp [acceptedKeys, accepted_iff.mpr h]
    rw [(render_of_accepted h).1, hone]
    exact holds.program call.key call.layout

/-- **What all calls keep.** -/
theorem holds_renderAll : ∀ (calls : List DrawCall) {renderer : Renderer}
    {asked : List ProgramKey}, renderer.Holds asked →
    (renderer.renderAll calls).2.Holds (asked ++ acceptedKeys renderer.device calls)
  | [], _, asked, holds => by
    rw [acceptedKeys, List.filter_nil, List.map_nil, List.append_nil]
    exact holds
  | call :: rest, renderer, asked, holds => by
    have hlater := holds_renderAll rest (holds.render call)
    rw [device_render, List.append_assoc] at hlater
    have hkeys : acceptedKeys renderer.device (call :: rest) =
        acceptedKeys renderer.device [call] ++ acceptedKeys renderer.device rest := by
      rw [acceptedKeys, List.filter_cons]
      split <;> simp [acceptedKeys, *]
    rw [hkeys]
    exact hlater

theorem renderAll_append (before after : List DrawCall) : ∀ renderer : Renderer,
    (renderer.renderAll (before ++ after)).2 =
      ((renderer.renderAll before).2.renderAll after).2 := by
  induction before with
  | nil => exact fun renderer => rfl
  | cons call rest ih =>
    intro renderer
    exact ih (renderer.render call.material call.options).2

theorem device_renderAll : ∀ (calls : List DrawCall) (renderer : Renderer),
    (renderer.renderAll calls).2.device = renderer.device
  | [], _ => rfl
  | call :: rest, renderer => by
    have hlater := device_renderAll rest (renderer.render call.material call.options).2
    rw [device_render] at hlater
    exact hlater

/-- A drawing is made with the program of its material, which was made for the places of the
material's own layout, and it fills these places. -/
structure Served (call : DrawCall) (drawing : Drawing) : Prop where
  key : drawing.program.key = call.key
  places : drawing.program.places = call.layout.entries
  fills : Layout.Fills drawing.bound drawing.program.places

/-- **What one call draws** fits, and so do the programs that are left. -/
theorem served_render (hprograms : ∀ program ∈ renderer.programs, Shows program)
    (hnames : ∀ binding ∈ call.material.bindings, IsIdentifier binding.name) :
    (∀ program ∈ (renderer.render call.material call.options).2.programs, Shows program) ∧
      ∀ drawing, (renderer.render call.material call.options).1 = .ok drawing →
        Served call drawing := by
  by_cases h : call.Refused renderer.device
  · obtain ⟨fault, heq⟩ := render_of_refused h
    rw [heq]
    refine ⟨hprograms, fun drawing hdrawing => ?_⟩
    cases hdrawing
  · obtain ⟨hkept, hdrawn⟩ := render_of_accepted h
    obtain ⟨hprogram, hshows⟩ := shows_program hprograms hnames
    rw [hkept]
    refine ⟨hshows, fun drawing hdrawing => ?_⟩
    obtain ⟨hmade, hbound⟩ := hdrawn drawing hdrawing
    rw [hprogram] at hmade
    refine ⟨by rw [hmade], by rw [hmade], ?_⟩
    rw [hmade, hbound]
    exact Layout.fills_bound _ _

/-- **What all calls draw fits.** -/
theorem served_renderAll : ∀ {calls : List DrawCall} {renderer : Renderer},
    (∀ program ∈ renderer.programs, Shows program) →
    (∀ call ∈ calls, ∀ binding ∈ call.material.bindings, IsIdentifier binding.name) →
    ∀ call answer, (call, answer) ∈ calls.zip (renderer.renderAll calls).1 →
      ∀ drawing, answer = .ok drawing → Served call drawing
  | [], _, _, _ => fun call answer hmem => absurd hmem List.not_mem_nil
  | first :: rest, renderer, hprograms, hnames => by
    obtain ⟨hfirst, hrest⟩ := List.forall_mem_cons.mp hnames
    obtain ⟨hshows, hserved⟩ := served_render hprograms hfirst
    intro call answer hmem
    rcases List.mem_cons.mp hmem with heq | hmem
    · cases heq
      exact hserved
    · exact served_renderAll hshows hrest call answer hmem

/-- **Programs are kept by their shaders.**  Layouts whose shaders are one text are the same,
whatever programs they are put around.  So at the end of every row of calls

* a renderer has as many programs as there are different keys among the calls that were accepted,
  one for each of these keys, and a call that was refused has changed nothing;
* whatever has been drawn has been drawn with the program of its own key, made for the places of its
  own layout, and with something of the right kind at each of these places. -/
theorem programs_fit (device : Device) (calls : List DrawCall) :
    (∀ source other bindings others,
      (∀ binding ∈ bindings, IsIdentifier binding.name) →
      (∀ binding ∈ others, IsIdentifier binding.name) →
      wrapFragment source (Layout.ofBindings bindings) =
        wrapFragment other (Layout.ofBindings others) →
      Layout.ofBindings bindings = Layout.ofBindings others) ∧
    (((new device).renderAll calls).2.programs.length = (acceptedKeys device calls).dedup.length ∧
      ((new device).renderAll calls).2.keys.Nodup ∧
      ∀ key, key ∈ ((new device).renderAll calls).2.keys ↔ key ∈ acceptedKeys device calls) ∧
    (∀ before call after, calls = before ++ call :: after → call.Refused device →
      ((new device).renderAll (before ++ [call])).2 = ((new device).renderAll before).2) ∧
    ((∀ call ∈ calls, ∀ binding ∈ call.material.bindings, IsIdentifier binding.name) →
      ∀ call answer, (call, answer) ∈ calls.zip ((new device).renderAll calls).1 →
        ∀ drawing, answer = .ok drawing → Served call drawing) := by
  have hstart : (new device).Holds [] := ⟨List.nodup_nil, fun key => Iff.rfl⟩
  have holds := holds_renderAll calls hstart
  rw [List.nil_append] at holds
  refine ⟨fun source other bindings others => Layout.eq_of_wrapFragment_eq, ⟨?_, holds.nodup,
    holds.mem_iff⟩, ?_, ?_⟩
  · have hperm : ((new device).renderAll calls).2.keys.Perm (acceptedKeys device calls).dedup := by
      refine (List.perm_ext_iff_of_nodup holds.nodup (List.nodup_dedup _)).mpr fun key => ?_
      rw [holds.mem_iff, List.mem_dedup]
      rfl
    have hlength := hperm.length_eq
    rwa [keys, List.length_map] at hlength
  · intro before call after _ hrefused
    have hdevice : call.Refused ((new device).renderAll before).2.device := by
      rw [device_renderAll]
      exact hrefused
    obtain ⟨fault, heq⟩ := render_of_refused hdevice
    rw [renderAll_append]
    simp only [renderAll, heq]
  · intro hnames
    exact served_renderAll (fun program hprogram => absurd hprogram List.not_mem_nil) hnames

namespace Example

/-- A material of one number. -/
def plain (value : Single) (translucent : Bool) : Material where
  path := []
  typeName := none
  function := entryPoint
  source := "uniform float x_r;\n"
  emitted := true
  uniforms := [⟨"x", some "x_r", .float value, none⟩]
  materials := []
  translucent := translucent
  destroyed := false

/-- Two pictures of materials that share a program, one that needs another program, and an empty
one. -/
def calls : List DrawCall :=
  [⟨plain Single.zero false, {}⟩, ⟨plain (Single.ofDecimal false 1 0) false, {}⟩,
    ⟨plain Single.zero true, {}⟩, ⟨plain Single.zero false, { width := 0 }⟩]

/-- A device without features. -/
def screen : Device := ⟨[], 8192⟩

/-- **Two programs are enough** for the three pictures, and each picture is made with its own. -/
theorem shared_program :
    ((new screen).renderAll calls).2.programs.length = 2 ∧
      (((new screen).renderAll calls).1.map Except.isOk = [true, true, true, false]) ∧
      ∀ call answer, (call, answer) ∈ calls.zip ((new screen).renderAll calls).1 →
        ∀ drawing, answer = .ok drawing → Served call drawing := by
  obtain ⟨-, ⟨hcount, -, -⟩, -, hserved⟩ := programs_fit screen calls
  have hname : IsIdentifier "x_r" := by decide
  refine ⟨?_, by decide +kernel, hserved ?_⟩
  · rw [hcount]
    decide +kernel
  · have hplain : ∀ value translucent, ∀ binding ∈ (plain value translucent).bindings,
        IsIdentifier binding.name := by
      intro value translucent binding hbinding
      rw [List.mem_singleton.mp hbinding]
      exact hname
    intro call hcall
    simp only [calls, List.mem_cons, List.not_mem_nil, or_false] at hcall
    rcases hcall with rfl | rfl | rfl | rfl <;> exact hplain _ _

end Example

end Renderer

end ShaderFabric
