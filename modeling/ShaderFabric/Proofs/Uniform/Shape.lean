/-
# Inference is a table of shapes

A literal has a type by its shape alone, and the shapes are few.  `Literal.Denotes` is the table of
them: one row for a shape, with the value that literals of this shape denote.  No two rows are about
one literal, so it does not matter in which order an object is tried: the keys of a cube map, of a
compressed set and of a vector have nothing in common.

* `Literal.Shaped`, `Literal.Denotes` -- the shapes, and the table;
* `infer_eq_ok_iff` -- inference and the table agree;
* `exists_denotes_iff` -- a literal has a row if and only if it has one of the shapes;
* `infer_by_shape` -- what this comes to for each kind of literal.
-/
import ShaderFabric.Proofs.Uniform.Object

namespace ShaderFabric

/-! ## 1. The table -/

/-- The types of sequences, by how many numbers they have. -/
def sequenceKinds : List (Nat × Kind) := [(2, .vec2), (3, .vec3), (4, .vec4), (9, .mat3), (16, .mat4)]

/-- **A text that selects channels**: one to four characters, each of them one of `rgba`. -/
def Selects (text : String) : Prop :=
  1 ≤ text.length ∧ text.length ≤ 4 ∧ ∀ c ∈ text.toList, c ∈ ['r', 'g', 'b', 'a']

namespace Literal

/-- An object has its fields in the order of their keys. -/
def Ordered : Literal → Prop
  | .object fields => fields.Sorted
  | _ => True

/-- **The shapes that have a type.** -/
inductive Shaped : Literal → Prop
  | bool (value : Bool) : Shaped (.bool value)
  | number (value : Double) : Shaped (.number value)
  | text (written : String) : Shaped (.text written)
  | location (place : Location) : Shaped (.location place)
  | image (pixels : Image) : Shaped (.image pixels)
  | sequence {values : List Double} (length : values.length ∈ [2, 3, 4, 9, 16]) :
    Shaped (.sequence values)
  | cube {fields : Table Field} (keys : fields.HasKeys faceKeys) (texts : AllTexts fields) :
    Shaped (.object fields)
  | compressed {fields : Table Field} (some : fields ≠ [])
    (keys : ∀ name ∈ fields.names, name ∈ codecKeys) (texts : AllTexts fields) :
    Shaped (.object fields)
  | vector {fields : Table Field} {components : List String} (row : components ∈ componentKeys)
    (keys : fields.HasKeys components) (numbers : AllNumbers fields) : Shaped (.object fields)

/-- **The table of shapes**: which value a literal denotes. -/
inductive Denotes : Literal → Value → Prop
  | bool (value : Bool) : Denotes (.bool value) (.bool value)
  | number (value : Double) : Denotes (.number value) (.float (Single.ofDouble value))
  /-- The type is settled by the length; matrices are given by columns. -/
  | sequence {values : List Double} {value : Value}
    (row : (values.length, value.kind) ∈ sequenceKinds)
    (numbers : value.floats? = some (values.map Single.ofDouble)) :
    Denotes (.sequence values) value
  | selector {written : String} (selects : Selects written) :
    Denotes (.text written) (.channels written)
  | neutralCube : Denotes (.text neutralCube) (.cube .neutral)
  | neutralImage : Denotes (.text neutralImage) (.texture .neutral)
  | place {written : String} (selector : ¬ Selects written)
    (cube : written ≠ ShaderFabric.neutralCube) (image : written ≠ ShaderFabric.neutralImage) :
    Denotes (.text written) (.texture (.location (.plain written)))
  | location (place : Location) : Denotes (.location place) (.texture (.location place))
  | image (pixels : Image) : Denotes (.image pixels) (.texture (.decoded pixels))
  /-- The faces in the order of the layers. -/
  | cube {fields : Table Field} {faces : Faces Location} (keys : fields.HasKeys faceKeys)
    (locations : LocationsOf fields faceKeys faces.toList) :
    Denotes (.object fields) (.cube (.faces faces))
  /-- Each family has the place under its key. -/
  | compressed {fields : Table Field} {set : CompressedSet} (some : fields ≠ [])
    (keys : ∀ name ∈ fields.names, name ∈ codecKeys) (texts : AllTexts fields)
    (offers : ∀ codec, set.get? codec = locationUnder fields codec.key) :
    Denotes (.object fields) (.texture (.compressed set))
  /-- A vector or a colour is what the sequence of its components is. -/
  | vector {fields : Table Field} {components : List String} {values : List Double} {value : Value}
    (row : components ∈ componentKeys) (keys : fields.HasKeys components)
    (numbers : NumbersOf fields components values) (sequence : Denotes (.sequence values) value) :
    Denotes (.object fields) value

/-! ## 2. Sequences and texts -/

/-- **A sequence has the type of its length**, and keeps its numbers. -/
theorem inferSequence_eq_ok_iff {values : List Double} {value : Value} :
    inferSequence values = .ok value ↔ Denotes (.sequence values) value := by
  constructor
  · intro h
    have hlength : (values.map Single.ofDouble).length = values.length := List.length_map ..
    unfold inferSequence at h
    split at h
    case h_6 => cases h
    all_goals
      rename_i hvalues
      cases h
      rw [hvalues] at hlength
      exact .sequence (hlength ▸ List.mem_of_elem_eq_true rfl) (congrArg some hvalues.symm)
  · intro h
    cases h with
    | sequence row numbers =>
      cases value with
      | vec2 => rw [inferSequence, ← Option.some.inj numbers]
      | vec3 | vec4 | mat3 | mat4 =>
        rw [inferSequence, ← Option.some.inj numbers]
        rfl
      | _ => simp [sequenceKinds, Value.kind] at row

/-- A sequence of one of the lengths has a type. -/
theorem exists_inferSequence {values : List Double} (h : values.length ∈ [2, 3, 4, 9, 16]) :
    ∃ value, inferSequence values = .ok value := by
  obtain ⟨count, entries, rfl⟩ : ∃ (count : Nat) (entries : Fin count → Double),
      values = List.ofFn entries := ⟨_, values.get, (List.ofFn_get values).symm⟩
  rw [List.length_ofFn] at h
  simp only [List.mem_cons, List.not_mem_nil, or_false] at h
  rcases h with rfl | rfl | rfl | rfl | rfl <;> exact ⟨_, rfl⟩

theorem isSelectorText_iff {text : String} : isSelectorText text = true ↔ Selects text := by
  simp [isSelectorText, Selects, ← String.length_toList, and_assoc, or_assoc]

instance (text : String) : Decidable (Selects text) := decidable_of_iff _ isSelectorText_iff

/-- **A text selects channels before it is anything else.** -/
theorem inferText_eq_iff {written : String} {value : Value} :
    inferText written = value ↔ Denotes (.text written) value := by
  have hcube : ¬ Selects neutralCube := by decide
  have himage : ¬ Selects neutralImage := by decide
  unfold inferText
  constructor
  · rintro rfl
    split
    · rename_i hselects
      exact .selector (isSelectorText_iff.mp hselects)
    · rename_i hselects
      split
      · rename_i h
        subst h
        exact .neutralCube
      · rename_i hcube
        split
        · rename_i h
          subst h
          exact .neutralImage
        · rename_i himage
          exact .place (mt isSelectorText_iff.mpr hselects) hcube himage
  · intro h
    cases h with
    | selector selects => rw [if_pos (isSelectorText_iff.mpr selects)]
    | neutralCube => rw [if_neg (mt isSelectorText_iff.mp hcube), if_pos rfl]
    | neutralImage =>
      rw [if_neg (mt isSelectorText_iff.mp himage), if_neg (by decide), if_pos rfl]
    | place selector cube image =>
      rw [if_neg (mt isSelectorText_iff.mp selector), if_neg cube, if_neg image]

/-! ## 3. The table is exact -/

section Objects

variable {fields : Table Field}

/-- A face is no family. -/
theorem not_codecs_of_faces (keys : fields.HasKeys faceKeys) :
    ¬ ∀ name ∈ fields.names, name ∈ codecKeys := fun h =>
  absurd (h "positiveX" ((keys _).mpr (by decide))) (by decide)

/-- No component is a family. -/
theorem not_codecs_of_components {components : List String} (row : components ∈ componentKeys)
    (keys : fields.HasKeys components) : ¬ ∀ name ∈ fields.names, name ∈ codecKeys := by
  have hall : ∀ components ∈ componentKeys, ∃ key ∈ components, key ∉ codecKeys := by decide
  obtain ⟨key, hkey, hnot⟩ := hall components row
  exact fun h => hnot (h key ((keys key).mpr hkey))

/-- No component is a face. -/
theorem not_faces_of_components {components : List String} (row : components ∈ componentKeys)
    (keys : fields.HasKeys components) : ¬ fields.HasKeys faceKeys := by
  have hall : ∀ components ∈ componentKeys, "positiveX" ∉ components := by decide
  exact fun h => hall components row ((keys _).mp ((h _).mpr (by decide)))

theorem inferObject_eq_ok_iff (sorted : fields.Sorted) {value : Value} :
    inferObject fields = .ok value ↔ Denotes (.object fields) value := by
  by_cases hcube : isCube fields = true
  · have hkeys := (isCube_iff sorted).mp hcube
    rw [inferObject_of_cube hcube]
    constructor
    · rintro ⟨faces, locations, rfl⟩
      exact .cube hkeys locations
    · intro h
      cases h with
      | cube _ locations => exact ⟨_, locations, rfl⟩
      | compressed _ keys => exact absurd keys (not_codecs_of_faces hkeys)
      | vector row keys => exact absurd hkeys (not_faces_of_components row keys)
  · have hkeys := mt (isCube_iff sorted).mpr hcube
    by_cases hcompressed : isCompressed fields = true
    · obtain ⟨hsome, hcodecs⟩ := isCompressed_iff.mp hcompressed
      rw [inferObject_of_compressed sorted hcube hcompressed]
      constructor
      · rintro ⟨texts, set, offers, rfl⟩
        exact .compressed hsome hcodecs texts offers
      · intro h
        cases h with
        | cube keys => exact absurd keys hkeys
        | compressed _ _ texts offers => exact ⟨texts, _, offers, rfl⟩
        | vector row keys => exact absurd hcodecs (not_codecs_of_components row keys)
    · have hvector : inferObject fields = .ok value ↔ inferVector fields = some value := by
        rw [inferObject, if_neg hcube, if_neg hcompressed]
        cases inferVector fields <;> simp
      rw [hvector, inferVector_eq_some_iff sorted]
      constructor
      · rintro ⟨components, row, values, keys, numbers, h⟩
        exact .vector row keys numbers (inferSequence_eq_ok_iff.mp h)
      · intro h
        cases h with
        | cube keys => exact absurd keys hkeys
        | compressed hsome keys => exact absurd (isCompressed_iff.mpr ⟨hsome, keys⟩) hcompressed
        | vector row keys numbers sequence =>
          exact ⟨_, row, _, keys, numbers, inferSequence_eq_ok_iff.mpr sequence⟩

end Objects

/-- **Inference and the table agree.** -/
theorem infer_eq_ok_iff {literal : Literal} (ordered : literal.Ordered) {value : Value} :
    literal.infer = .ok value ↔ Denotes literal value := by
  cases literal with
  | sequence values => exact inferSequence_eq_ok_iff
  | text written =>
    rw [infer, Except.ok.injEq]
    exact inferText_eq_iff
  | object fields => exact inferObject_eq_ok_iff ordered
  | _ =>
    constructor
    · intro h
      cases h
      constructor
    · intro h
      cases h
      rfl

/-! ## 4. The shapes that have a type -/

/-- **A literal has a row of the table if and only if it has one of the shapes.** -/
theorem exists_denotes_iff {literal : Literal} (ordered : literal.Ordered) :
    (∃ value, Denotes literal value) ↔ literal.Shaped := by
  constructor
  · rintro ⟨value, h⟩
    cases h with
    | bool value => exact .bool value
    | number value => exact .number value
    | sequence row => exact .sequence (List.mem_map_of_mem (f := Prod.fst) row)
    | selector | neutralCube | neutralImage | place => exact .text _
    | location place => exact .location place
    | image pixels => exact .image pixels
    | cube keys locations =>
      exact .cube keys ((exists_locationsOf_iff ordered keys).mp ⟨_, locations⟩)
    | compressed hsome keys texts => exact .compressed hsome keys texts
    | vector row keys numbers =>
      exact .vector row keys ((exists_numbersOf_iff ordered keys).mp ⟨_, numbers⟩)
  · intro h
    cases h with
    | bool value => exact ⟨_, .bool value⟩
    | number value => exact ⟨_, .number value⟩
    | text written => exact ⟨_, inferText_eq_iff.mp rfl⟩
    | location place => exact ⟨_, .location place⟩
    | image pixels => exact ⟨_, .image pixels⟩
    | sequence length =>
      obtain ⟨value, h⟩ := exists_inferSequence length
      exact ⟨value, inferSequence_eq_ok_iff.mp h⟩
    | cube keys texts =>
      obtain ⟨locations, hlocations⟩ := (exists_locationsOf_iff ordered keys).mpr texts
      obtain ⟨faces, rfl⟩ := LocationsOf.exists_faces hlocations
      exact ⟨_, .cube keys hlocations⟩
    | @compressed fields hsome keys texts =>
      obtain ⟨set, offers⟩ := exists_offering fields
      exact ⟨_, .compressed hsome keys texts offers⟩
    | vector row keys numbers =>
      obtain ⟨values, hvalues⟩ := (exists_numbersOf_iff ordered keys).mpr numbers
      obtain ⟨value, -, h⟩ := inferVector_of_components ordered row keys hvalues
      exact ⟨value, .vector row keys hvalues (inferSequence_eq_ok_iff.mp h)⟩

/-! ## 5. What each literal denotes -/

section Objects

variable {fields : Table Field} (sorted : fields.Sorted)

include sorted

theorem infer_vector {components : List String} (row : components ∈ componentKeys)
    (keys : fields.HasKeys components) {values : List Double}
    (numbers : NumbersOf fields components values) :
    infer (.object fields) = infer (.sequence values) := by
  obtain ⟨value, -, hsequence⟩ := inferVector_of_components sorted row keys numbers
  have hobject : infer (.object fields) = .ok value := (inferObject_eq_ok_iff sorted).mpr
    (.vector row keys numbers (inferSequence_eq_ok_iff.mp hsequence))
  exact hobject.trans hsequence.symm

theorem infer_cube (keys : fields.HasKeys faceKeys) {locations : List Location}
    (h : LocationsOf fields faceKeys locations) :
    ∃ faces : Faces Location, faces.toList = locations ∧
      infer (.object fields) = .ok (.cube (.faces faces)) := by
  obtain ⟨faces, rfl⟩ := LocationsOf.exists_faces h
  exact ⟨faces, rfl, (inferObject_eq_ok_iff sorted).mpr (.cube keys h)⟩

theorem infer_compressed (hsome : fields ≠ []) (keys : ∀ name ∈ fields.names, name ∈ codecKeys)
    (texts : AllTexts fields) :
    ∃ set : CompressedSet, infer (.object fields) = .ok (.texture (.compressed set)) ∧
      ∀ codec, set.get? codec = locationUnder fields codec.key := by
  obtain ⟨set, offers⟩ := exists_offering fields
  exact ⟨set, (inferObject_eq_ok_iff sorted).mpr (.compressed hsome keys texts offers), offers⟩

end Objects

theorem infer_selector_iff {written : String} :
    infer (.text written) = .ok (.channels written) ↔ Selects written := by
  rw [infer, Except.ok.injEq, inferText_eq_iff]
  constructor
  · intro h
    cases h with
    | selector selects => exact selects
  · exact .selector

theorem infer_texture {written : String} (h : ¬ Selects written) :
    ∃ value, infer (.text written) = .ok value ∧ value.kind.isTexture = true := by
  obtain ⟨value, hvalue⟩ : ∃ value, inferText written = value := ⟨_, rfl⟩
  have hrow := inferText_eq_iff.mp hvalue
  refine ⟨value, congrArg _ hvalue, ?_⟩
  cases hrow with
  | selector selects => exact absurd selects h
  | _ => rfl

/-- **Inference is exactly the table of shapes.**  It succeeds if and only if the literal has one of
the shapes, and then with the value that the table gives.  A vector or a colour is what the sequence
of its components is, the faces of a cube map come out in the order of the layers, and each family
of a compressed set has the place under its key, whatever the order of the fields; a text selects
channels exactly if it is one to four of the letters `rgba`, and is a texture otherwise. -/
theorem infer_by_shape :
    (∀ literal : Literal, literal.Ordered →
      ((∃ value, literal.infer = .ok value) ↔ literal.Shaped) ∧
        ∀ value, literal.infer = .ok value ↔ Denotes literal value) ∧
    (∀ fields : Table Field, fields.Sorted →
      (∀ components ∈ componentKeys, fields.HasKeys components →
        ∀ values, NumbersOf fields components values →
          infer (.object fields) = infer (.sequence values)) ∧
      (fields.HasKeys faceKeys → ∀ locations, LocationsOf fields faceKeys locations →
        ∃ faces : Faces Location, faces.toList = locations ∧
          infer (.object fields) = .ok (.cube (.faces faces))) ∧
      (fields ≠ [] → (∀ name ∈ fields.names, name ∈ codecKeys) → AllTexts fields →
        ∃ set : CompressedSet, infer (.object fields) = .ok (.texture (.compressed set)) ∧
          ∀ codec, set.get? codec = locationUnder fields codec.key)) ∧
    ∀ written : String,
      (infer (.text written) = .ok (.channels written) ↔ Selects written) ∧
        (¬ Selects written →
          ∃ value, infer (.text written) = .ok value ∧ value.kind.isTexture = true) := by
  refine ⟨fun literal ordered => ⟨?_, fun value => infer_eq_ok_iff ordered⟩,
    fun fields sorted => ⟨?_, ?_, infer_compressed sorted⟩,
    fun written => ⟨infer_selector_iff, infer_texture⟩⟩
  · simp only [infer_eq_ok_iff ordered, exists_denotes_iff ordered]
  · exact fun components row keys values numbers => infer_vector sorted row keys numbers
  · exact fun keys locations h => infer_cube sorted keys h

namespace Example

/-- A colour, with its fields in the order of their names. -/
def violet : Table Field :=
  [("alpha", .number ⟨0x3ff0000000000000⟩), ("blue", .number ⟨0x3fe0000000000000⟩),
    ("green", .number .zero), ("red", .number ⟨0x3fd0000000000000⟩)]

/-- A cube map, with its fields in the order of their names. -/
def sides : Table Field :=
  [("negativeX", .text "left"), ("negativeY", .text "below"), ("negativeZ", .text "behind"),
    ("positiveX", .text "right"), ("positiveY", .text "above"), ("positiveZ", .text "ahead")]

/-- Two families. -/
def offered : Table Field := [("etc1", .text "a.ktx"), ("s3tc", .text "b.ktx")]

/-- Red comes before alpha, the right side before the left one, and each family has its own place;
a name of letters `rgba` is no image. -/
theorem violet_by_shape :
    violet.Sorted ∧ sides.Sorted ∧ offered.Sorted ∧
      infer (.object violet) = infer (.sequence [⟨0x3fd0000000000000⟩, .zero,
        ⟨0x3fe0000000000000⟩, ⟨0x3ff0000000000000⟩]) ∧
      (∃ faces : Faces Location, infer (.object sides) = .ok (.cube (.faces faces)) ∧
        faces.toList.map Location.url = ["right", "left", "above", "below", "ahead", "behind"]) ∧
      (∃ set : CompressedSet, infer (.object offered) = .ok (.texture (.compressed set)) ∧
        set = ⟨some (.plain "b.ktx"), some (.plain "a.ktx"), none⟩) ∧
      infer (.text "bar") = .ok (.channels "bar") := by
  have hviolet : violet.Sorted := by unfold Table.Sorted; decide
  have hsides : sides.Sorted := by unfold Table.Sorted; decide
  have hoffered : offered.Sorted := by unfold Table.Sorted; decide
  obtain ⟨-, hobjects, htexts⟩ := infer_by_shape
  refine ⟨hviolet, hsides, hoffered, ?_, ?_, ?_, (htexts "bar").1.mpr (by decide)⟩
  · have hkeys : violet.names.Perm ["red", "green", "blue", "alpha"] := by decide
    exact (hobjects violet hviolet).1 _ (by decide) (fun _ => hkeys.mem_iff) _
      (.cons rfl (.cons rfl (.cons rfl (.cons rfl .nil))))
  · have hkeys : sides.names.Perm faceKeys := by decide
    obtain ⟨faces, hfaces, hinfer⟩ := (hobjects sides hsides).2.1 (fun _ => hkeys.mem_iff)
      [.plain "right", .plain "left", .plain "above", .plain "below", .plain "ahead",
        .plain "behind"]
      (.cons ⟨_, rfl, rfl⟩ (.cons ⟨_, rfl, rfl⟩ (.cons ⟨_, rfl, rfl⟩ (.cons ⟨_, rfl, rfl⟩
        (.cons ⟨_, rfl, rfl⟩ (.cons ⟨_, rfl, rfl⟩ .nil))))))
    exact ⟨faces, hinfer, hfaces ▸ rfl⟩
  · have texts : AllTexts offered :=
      List.forall_mem_cons.mpr ⟨⟨_, rfl⟩, List.forall_mem_singleton.mpr ⟨_, rfl⟩⟩
    obtain ⟨set, hinfer, offers⟩ :=
      (hobjects offered hoffered).2.2 (List.cons_ne_nil _ _) (by decide) texts
    exact ⟨set, hinfer, compressedSet_ext fun codec => (offers codec).trans (by
      cases codec <;> rfl)⟩

end Example

end Literal

end ShaderFabric
